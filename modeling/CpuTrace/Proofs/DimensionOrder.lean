import CpuTrace.Proofs.ArrayStatements
import CpuTrace.Proofs.UnitSeparation
import Mathlib

/-!
# The order of dimensions

A member whose type is an array of more than one dimension is flattened in row-major order, but not
over the counts as the dump lists them: it is the **reverse** of that list, since each bound wraps what
the bounds before it have made. The main statement is `ArrayUnit.memberSlots_rowMajor`, for any dump, any
array in one of its units, and any member that refers to it. For one dimension, and for counts that
read the same both ways, the reverse makes no difference. For two and three it does
(`slotsOf_matrix`).

What a unit has published stays in the table as long as no later unit declares the structure again
(`HoldsMember.readsUnits`). Only enumerations may be written into it (`WithEnum`).
-/

namespace CpuTrace.Dump

/-! ## References to an array -/

/-- A type refers to an id, directly or through other ids. -/
inductive RefersTo (ids : IdTable) (id : String) : TypeExpr → Prop
  /-- it is a reference to that id -/
  | direct {s : String} {cs : List Char} (reference : s.toList = '<' :: cs)
    (target : referredId cs = id) : RefersTo ids id (.text s)
  /-- it is a reference to something that refers to it -/
  | through {s : String} {cs : List Char} {t : TypeExpr} (reference : s.toList = '<' :: cs)
    (target : ids.find? (referredId cs) = some t) (further : RefersTo ids id t) :
    RefersTo ids id (.text s)

/-- What refers to an id unfolds as the id does. -/
theorem RefersTo.unfolds {ids : IdTable} {id : String} {t u v : TypeExpr} (h : RefersTo ids id t)
    (hid : ids.find? id = some u) (hv : ids.Unfolds t v) : ids.Unfolds u v := by
  induction h with
  | direct reference target =>
    obtain ⟨w, hw, hv⟩ := hv.of_reference reference
    rw [target, hid] at hw
    cases hw
    exact hv
  | through reference target _ ih =>
    obtain ⟨w, hw, hv⟩ := hv.of_reference reference
    rw [target] at hw
    cases hw
    exact ih hv

/-- A nest unfolds to a nest. -/
theorem unfolds_nest {ids : IdTable} {counts : List Int} {t u : TypeExpr}
    (h : ids.Unfolds (.nest counts t) u) : ∃ e, u = .nest counts e ∧ ids.Unfolds t e := by
  induction counts generalizing u with
  | nil => exact ⟨u, rfl, h⟩
  | cons count counts ih =>
    obtain ⟨v, rfl, hv⟩ := IdTable.Unfolds.of_array h
    obtain ⟨e, rfl, he⟩ := ih hv
    exact ⟨e, rfl, he⟩

/-! ## Enumerations -/

/-- A type with an enumeration in the place of the name at its end, or without. -/
inductive WithEnum : TypeExpr → TypeExpr → Prop
  /-- the type as it is -/
  | same (t : TypeExpr) : WithEnum t t
  /-- an enumeration at the end of its spine -/
  | enumeration (s : Spine) (name : String) (fields : List (Atom × TypeExpr)) :
    WithEnum (s.plug (.named name)) (s.plug (.list [.text "Enumeration", .record fields]))

theorem WithEnum.mergeMember {t : TypeExpr} {m : Member} (h : WithEnum t m.type)
    (hplain : IsPlain m.type) (enums : Table String Enumeration) :
    WithEnum t (mergeMember enums m).1.type := by
  rcases @mergeMember_cases enums m hplain with ⟨heq, -⟩ | ⟨s, name, e, htype, hname, hfind, hmerge⟩
  · rwa [heq]
  · rcases hexpr : e.expr with f | u
    · rw [Dump.mergeMember, hname]
      simp only [hfind, hexpr]
      exact h
    · obtain ⟨fields, rfl⟩ := Enumeration.exists_fields hexpr
      rw [hmerge _ hexpr]
      rw [htype] at h
      generalize hv : s.plug (.named name) = v at h
      cases h with
      | same =>
        rw [← hv]
        exact .enumeration s name fields
      | enumeration s' name' fields' =>
        -- an enumeration is no name
        have hname' := hname
        obtain ⟨offset, type⟩ := m
        dsimp only at htype
        rw [htype, hv, Spine.memberName_plug] at hname'
        cases hname'

/-- In a nest, the enumeration stands in the element. -/
theorem WithEnum.of_nest {counts : List Int} {t u : TypeExpr} (h : WithEnum (.nest counts t) u) :
    ∃ e, u = .nest counts e ∧ WithEnum t e := by
  induction counts generalizing u with
  | nil => exact ⟨u, rfl, h⟩
  | cons count counts ih =>
    generalize hv : TypeExpr.nest (count :: counts) t = v at h
    cases h with
    | same => exact ⟨t, hv.symm, .same t⟩
    | enumeration s name fields =>
      cases s with
      | tip => simp [TypeExpr.nest, Spine.plug] at hv
      | pointer s => simp [TypeExpr.nest, Spine.plug] at hv
      | array n s =>
        obtain ⟨rfl, htail⟩ : count = n ∧ TypeExpr.nest counts t = s.plug (.named name) := by
          simpa [TypeExpr.nest, Spine.plug] using hv
        have hs : WithEnum (.nest counts t) (s.plug (.list [.text "Enumeration", .record fields])) := by
          rw [htail]
          exact .enumeration s name fields
        obtain ⟨e, he, hwith⟩ := ih hs
        exact ⟨e, by rw [Spine.plug, he, TypeExpr.nest], hwith⟩

/-! ## Members in the table -/

/-- The table has a member of a structure, if it has the structure. -/
def HoldsMember (types : TypeTable) (root name : String) (offset : Int) (t : TypeExpr) : Prop :=
  ∀ l, types.find? root = some l → ∃ u, l.members.find? name = some ⟨offset, u⟩ ∧ WithEnum t u

section Holding

variable {r r' : Reader} {root name : String} {offset : Int} {t : TypeExpr}

/-- A member of the unit is joined with its references followed. -/
theorem holdsMember_joinedTypes (hown : r.IsOwn) {l : Layout} {m : Member}
    (hstruct : r.unit.find? root = some (.own l)) (hmember : l.members.find? name = some m)
    (ht : r.ids.resolve m.type = .ok t) : HoldsMember r.joinedTypes root name m.offset t := by
  intro l' hl'
  have hmem := Table.find?_eq_some_iff.mp hstruct
  rcases (find?_joinedTypes hown).mp hl' with hresolved | ⟨hnot, -⟩
  · obtain ⟨⟨root', l₀⟩, hl₀, heq⟩ := List.mem_map.mp hresolved
    obtain ⟨rfl, rfl⟩ := Prod.mk.inj heq
    have hfind := Table.find?_eq_some_iff.mpr (Reader.mem_ownLayouts.mp hl₀)
    obtain rfl : l = l₀ := UnitEntry.own.inj (Option.some.inj (hstruct.symm.trans hfind))
    refine ⟨t, ?_, .same t⟩
    rw [resolvedLayout, find?_mapMembers, hmember, Option.map_some, resolveMember, ht]
  · exact (hnot (Table.mem_keys_of_mem hmem)).elim

/-- A unit that does not declare the structure leaves it as it joins the table. -/
theorem HoldsMember.joinedTypes (h : HoldsMember r.types root name offset t) (hown : r.IsOwn)
    (hnot : root ∉ r.unit.keys) : HoldsMember r.joinedTypes root name offset t := by
  intro l hl
  rcases (find?_joinedTypes hown).mp hl with hresolved | ⟨-, hl⟩
  · have hkey : root ∈ r.resolvedLayouts.map Prod.fst := List.mem_map_of_mem hresolved
    rw [map_fst_resolvedLayouts hown] at hkey
    exact (hnot hkey).elim
  · exact h l hl

/-- Publishing writes enumerations, and nothing else. -/
theorem HoldsMember.publishedTypes (h : HoldsMember r.joinedTypes root name offset t)
    (hplain : IsPlainTable r.joinedTypes) : HoldsMember r.publishedTypes root name offset t := by
  intro l hl
  obtain ⟨-, l', hl', rfl⟩ := find?_publishedTypes.mp hl
  obtain ⟨u, hu, hwith⟩ := h l' hl'
  have hmem := Table.find?_eq_some_iff.mp hu
  have hplain' := hplain _ (Table.find?_eq_some_iff.mp hl') _ (List.mem_map_of_mem hmem)
  have hoffset := offset_mergeMember r.enums ⟨offset, u⟩
  refine ⟨(mergeMember r.enums ⟨offset, u⟩).1.type, ?_, hwith.mergeMember hplain' r.enums⟩
  rw [mergedLayout, find?_mapMembers, hu, Option.map_some]
  exact congrArg (fun offset => some (Member.mk offset _)) hoffset

/-! ## Later units -/

/-- **A run over units**, with the readers at the end of each. -/
inductive ReadsUnits : Reader → List Reader → Reader → Prop
  /-- no units -/
  | nil (r : Reader) : ReadsUnits r [] r
  /-- one unit, and the others -/
  | cons {r s r' : Reader} {lines : List String} {later : List Reader} (isUnit : IsUnit lines)
    (reads : (readLines lines).run r = .ok () s) (rest : ReadsUnits s later r') :
    ReadsUnits r (s :: later) r'

/-- **A unit publishes the one before it**, and leaves the table alone from then on. -/
theorem of_run_readLines_unit {lines : List String} (hlines : IsUnit lines) (hr : r.IsSteady)
    (h : (readLines lines).run r = .ok () r') : Publishable r ∧ r'.types = r.publishedTypes := by
  cases lines with
  | nil => exact hlines.elim
  | cons line lines =>
    obtain ⟨⟨l, hparse, hkind, hlevel⟩, hrest⟩ := hlines
    obtain ⟨_, r₁, hstart, hread⟩ := run_bind_eq_ok_iff.mp h
    have hsteady := hr.readLine hstart
    obtain ⟨hpublishable, locals, rfl⟩ :=
      of_run_readLine_start hparse hkind hlevel hr.isPlaced hr.isRawUnit.isOwn hstart
    refine ⟨hpublishable, ?_⟩
    have hreading := hsteady.place.resolve_left fun hfresh => lt_irrefl (0 : Int) hfresh.level
    exact (lifts_readLines hrest).types_eq hreading hread

/-- **Units that do not declare a structure** leave its members alone, but for enumerations. -/
theorem HoldsMember.readsUnits {later : List Reader} (hlater : ReadsUnits r later r')
    (hr : r.IsSteady) (h : HoldsMember r.joinedTypes root name offset t)
    (hnot : ∀ s ∈ later, root ∉ s.unit.keys) :
    r'.IsSteady ∧ HoldsMember r'.joinedTypes root name offset t := by
  induction hlater with
  | nil r => exact ⟨hr, h⟩
  | @cons r s r' lines later isUnit reads _ ih =>
    obtain ⟨hhead, htail⟩ := List.forall_mem_cons.mp hnot
    obtain ⟨hpublishable, htypes⟩ := of_run_readLines_unit isUnit hr reads
    have hs := hr.readLines reads
    have hplain := isPlainTable_joinedTypes hr.isRawUnit hr.types hpublishable
    have hholds : HoldsMember s.types root name offset t := htypes ▸ h.publishedTypes hplain
    exact ih hs (hholds.joinedTypes hs.isRawUnit.isOwn hhead) htail

/-- A reader of a dump that is published at its end could have been published by itself. -/
theorem ReadsUnits.publishable {r'' : Reader} {later : List Reader} (h : ReadsUnits r later r')
    (hr : r.IsSteady) (hpublish : publish.run r' = .ok () r'') : Publishable r := by
  cases h with
  | nil => exact (of_run_publish hr.isRawUnit.isOwn hpublish).1
  | cons isUnit reads _ => exact (of_run_readLines_unit isUnit hr reads).1

/-- **A member that refers to a nest** is a nest in the published table. -/
theorem exists_member_nest {r'' : Reader} {later : List Reader} {id : String} {counts : List Int}
    {element : TypeExpr} {l : Layout} {m : Member} (hr : r.IsSteady)
    (hid : r.ids.find? id = some (.nest counts element)) (hlater : ReadsUnits r later r')
    (hpublish : publish.run r' = .ok () r'') (hstruct : r.unit.find? root = some (.own l))
    (hmember : l.members.find? name = some m) (hrefers : RefersTo r.ids id m.type)
    (hlast : ∀ s ∈ later, root ∉ s.unit.keys) (hkept : root ∈ r''.types.keys) :
    ∃ e₀ e l', r.ids.Unfolds element e₀ ∧ WithEnum e₀ e ∧ r''.types.find? root = some l' ∧
      l'.members.find? name = some ⟨m.offset, .nest counts e⟩ := by
  have hlayout : (root, l) ∈ r.ownLayouts :=
    Reader.mem_ownLayouts.mpr (Table.find?_eq_some_iff.mp hstruct)
  obtain ⟨t, ht⟩ := (hlater.publishable hr hpublish).layouts _ hlayout m
    (List.mem_map_of_mem (Table.find?_eq_some_iff.mp hmember))
  obtain ⟨e₀, rfl, he₀⟩ := unfolds_nest (hrefers.unfolds hid (IdTable.resolve_eq_ok_iff.mp ht))
  -- the member joins the table as a nest, and only an enumeration can change in it
  have hjoined := holdsMember_joinedTypes hr.isRawUnit.isOwn hstruct hmember ht
  obtain ⟨hr', hholds⟩ := hjoined.readsUnits hlater hr hlast
  obtain ⟨hpublishable, hpublishes⟩ := of_run_publish hr'.isRawUnit.isOwn hpublish
  have hplain := isPlainTable_joinedTypes hr'.isRawUnit hr'.types hpublishable
  obtain ⟨l', hentry⟩ := Table.exists_of_mem_keys hkept
  have hl' := Table.find?_eq_some_iff.mpr hentry
  rw [hpublishes.types] at hl' ⊢
  obtain ⟨u, hu, hwith⟩ := hholds.publishedTypes hplain l' hl'
  obtain ⟨e, rfl, he⟩ := hwith.of_nest
  exact ⟨e₀, e, l', he₀, he, hl', hu⟩

end Holding

/-! ## Written lines -/

section Written

variable {level id : Nat} {kind : String} {as : List Attribute}

/-- The attributes of a written line. -/
def writtenValues (as : List Attribute) : Attributes :=
  (Table.ofList (as.map Attribute.entry)).mapValues fun _ v => .text v

theorem statement?_writtenLine (has : ∀ a ∈ as, a.IsWritten)
    (hkind : isRunOf isWordChar kind.toList = true) (hlocal : isLocalKind kind = false) :
    statement? (writtenLine level id kind as) =
      some (shownStatement kind level id (writtenValues as)) := by
  have hshows : Shows level id kind (· = writtenValues as) (writtenLine level id kind as) :=
    shows_writtenLine has rfl
  obtain ⟨l, hparse, hvalues, hheader⟩ := hshows.exists_parse? hkind
  rw [statement?, hparse]
  simp only [hheader, hlocal, Line.statement, hvalues]
  rfl

theorem spares_writtenLine {other : String} (has : ∀ a ∈ as, a.IsWritten)
    (hkind : isRunOf isWordChar kind.toList = true) (hlocal : isLocalKind kind = false)
    (hid : idText id ≠ other) (htag : Tag.ofKind kind ≠ .compileUnit) :
    Spares other (writtenLine level id kind as) := by
  intro s hs
  rw [statement?_writtenLine has hkind hlocal] at hs
  cases hs
  exact ⟨hid, htag⟩

theorem statement?_boundLine {bound : String} (h : (attr "DW_AT_upper_bound" bound).IsWritten) :
    statement? (boundLine id bound) = some (shownStatement "DW_TAG_subrange_type" 2 id
      (writtenValues [attr "DW_AT_upper_bound" bound])) :=
  statement?_writtenLine (by simpa using h) (by decide) (by decide)

theorem shows_unitLine : Shows 0 0xb "DW_TAG_compile_unit" (fun _ => True) unitLine :=
  shows_writtenLine (by decide) trivial

end Written

/-! ## A matrix -/

/-- A unit with a structure that holds a number and a matrix, with bounds for two and three. -/
def matrixUnit : ArrayUnit where
  start := unitLine
  before := [intLine]
  line := arrayLine 0x30 "<0x60"
  bounds := [boundLine 0x34 "1", boundLine 0x38 "2"]
  after := [structLine 0x40 [attr "DW_AT_name" "S", attr "DW_AT_byte_size" "0x1c"],
    fieldLine 0x44 "n" "<0x60" "0", fieldLine 0x48 "a" "<0x30" "4"]
  array := shownStatement "DW_TAG_array_type" 1 0x30 (writtenValues [typeAttr "<0x60"])
  level := 1
  element := .text "<0x60"
  isStart := by
    obtain ⟨l, hparse, -, hheader⟩ := shows_unitLine.exists_parse? (by decide)
    refine ⟨l, hparse, ?_, ?_⟩ <;> rw [hheader]
    · rfl
    · exact read_toDigits 0
  isArray := ⟨statement?_writtenLine (by decide) (by decide) (by decide), rfl⟩
  depth := read_toDigits 1
  type := rfl
  isBound := by
    simp only [List.forall_mem_cons]
    refine ⟨?_, ?_, by simp⟩ <;>
    exact ⟨_, statement?_boundLine (by decide), rfl, read_toDigits 2⟩
  nests := by
    have hint := @statement?_writtenLine 1 0x60 "DW_TAG_base_type" [attr "DW_AT_name" "int"]
      (by decide) (by decide) (by decide)
    have harray := @statement?_writtenLine 1 0x30 "DW_TAG_array_type" [typeAttr "<0x60"]
      (by decide) (by decide) (by decide)
    simp only [Nests, intLine, arrayLine, List.cons_append, List.nil_append, hint, harray]
    exact ⟨1, read_toDigits 1, by decide, 1, read_toDigits 1, by decide, trivial⟩
  closes := by
    simp only [ClosesTo, structLine]
    rw [statement?_writtenLine (by decide) (by decide) (by decide)]
    exact ⟨1, read_toDigits 1, by decide⟩
  spares := by
    simp only [List.cons_append, List.nil_append, List.forall_mem_cons]
    refine ⟨?_, ?_, ?_, ?_, by simp⟩ <;>
    exact spares_writtenLine (by decide) (by decide) (by decide) (by decide) (by decide)

theorem counts_matrixUnit : matrixUnit.counts = [2, 3] := by
  simp only [ArrayUnit.counts, matrixUnit, List.map_cons, List.map_nil, boundOf]
  rw [statement?_boundLine (by decide), statement?_boundLine (by decide)]
  cbv

/-- The members of the structure. -/
def matrixFields : List Field :=
  [⟨0x44, some "n", 0, ⟨0x60, 0⟩⟩, ⟨0x48, some "a", 4, ⟨0x30, 0⟩⟩]

/-- A reader that has read the array. -/
def arrayReader (locals : List Local) : Reader :=
  (Reader.declare { locals } (idText 0x60) (.named "int")).declare (idText 0x30)
    (.array 3 (.array 2 (.text "<0x60")))

/-- A reader that has read the unit. -/
def matrixReader (locals : List Local) : Reader :=
  ((arrayReader locals).declare (idText 0x40) (.named "S")).withLayout "S"
    (rawLayout .struct 28 matrixFields)

theorem run_readLines_arrayReader : ∃ locals level stack,
    (readLines [unitLine, intLine, arrayLine 0x30 "<0x60", boundLine 0x34 "1",
        boundLine 0x38 "2"]).run {} = .ok () ((arrayReader locals).placed level stack) ∧
      InUnit level stack := by
  obtain ⟨locals, hunit⟩ := run_readLine_unit shows_unitLine
  have hplace : InUnit 0 [⟨"DW_TAG_compile_unit", idText 0xb⟩] := ⟨rfl, Int.le_refl 0⟩
  have hint : Shows 1 0x60 "DW_TAG_base_type" (GivesName (some "int")) intLine :=
    shows_writtenLine (by decide) ⟨_, rfl, 0, rfl⟩
  obtain ⟨level₁, stack₁, hrun₁, hplace₁⟩ := run_readLines_single (r := { locals }) hint
    (by decide) (by decide) hplace fun a ha => run_declare_base ha rfl (by decide)
  have harray : Shows 1 0x30 "DW_TAG_array_type" (GivesType (some ⟨0x60, 0⟩))
      (arrayLine 0x30 "<0x60") := shows_writtenLine (by decide) rfl
  have hbounds : List.Forall₂ (fun bound line => ∃ id, Shows 2 id "DW_TAG_subrange_type"
      (·.find? "DW_AT_upper_bound" = some (.text (toString bound))) line) [1, 2]
      [boundLine 0x34 "1", boundLine 0x38 "2"] :=
    .cons ⟨_, shows_writtenLine (by decide) rfl⟩ (.cons ⟨_, shows_writtenLine (by decide) rfl⟩ .nil)
  obtain ⟨level₂, stack₂, hrun₂, hplace₂⟩ := run_readLines_array
    (r := Reader.declare { locals } (idText 0x60) (.named "int")) harray hbounds hplace₁
  exact ⟨locals, level₂, stack₂,
    (run_readLines_cons hunit).trans ((run_readLines_append hrun₁).trans hrun₂), hplace₂⟩

theorem run_readLines_matrixReader : ∃ locals level stack, (readLines matrixUnit.lines).run {} =
    .ok () ((matrixReader locals).placed level stack) := by
  obtain ⟨locals, level₁, stack₁, hrun₁, hplace₁⟩ := run_readLines_arrayReader
  have hstruct : Shows 1 0x40 LayoutKind.struct.kind (fun a => GivesName (some "S") a ∧
      a.find? "DW_AT_declaration" = none ∧ GivesSize 28 a)
      (structLine 0x40 [attr "DW_AT_name" "S", attr "DW_AT_byte_size" "0x1c"]) :=
    shows_writtenLine (by decide)
      ⟨⟨_, rfl, 0, rfl⟩, rfl, _, rfl, ['0', 'x'], 0, Or.inr rfl, by decide⟩
  have hfields : List.Forall₂ (fun f => Shows 2 f.id "DW_TAG_member" (GivesField .struct f))
      matrixFields [fieldLine 0x44 "n" "<0x60" "0", fieldLine 0x48 "a" "<0x30" "4"] := by
    refine .cons ?_ (.cons ?_ .nil) <;>
    exact shows_writtenLine (by decide) ⟨⟨_, rfl, 0, rfl⟩, rfl, ⟨_, rfl, Or.inl (by decide)⟩, rfl⟩
  obtain ⟨_, ⟨hname, hopen, hsize⟩, hrun₂⟩ :=
    run_readLine_top (r := arrayReader locals) hstruct (by decide) (by decide) hplace₁
  rw [run_declare_layout .struct hname (by simp) hopen hsize] at hrun₂
  obtain ⟨level₃, stack₃, hrun₃, -⟩ :=
    run_readLines_fields hfields (by simp [matrixFields]) [] (Inside.of_top (hplace₁.top _))
  exact ⟨locals, level₃, stack₃,
    (run_readLines_append hrun₁).trans ((run_readLines_cons hrun₂).trans hrun₃)⟩

/-- The structure, after publishing. -/
def matrixLayout : Layout :=
  ⟨28, .ofList [("n", ⟨0, .named "int"⟩), ("a", ⟨4, .array 3 (.array 2 (.named "int"))⟩)]⟩

/-- The types of the dump. -/
def matrixTypes : TypeTable := .ofList [("S", matrixLayout)]

theorem run_publish_matrixReader (locals : List Local) (level : Int) (stack : List Frame) :
    ∃ r', publish.run ((matrixReader locals).placed level stack) = .ok () r' ∧
      r'.types = matrixTypes :=
  ⟨_, by cbv, by cbv⟩

/-! ## Row-major over the reverse -/

/-- **The order of dimensions.** Let a dump be read and published without a fault, with an array in one
of its units, and a structure of that unit with a member that refers to the array; no later unit
declares the structure again. Then the member is a nest over the counts of the array in reverse. If
its elements are scalars of some size, it has the slots of the grid of these counts, whether it is
flattened alone or in the structure, and no others. -/
theorem ArrayUnit.memberSlots_rowMajor (u : ArrayUnit) {before : List String} {later : List Reader}
    {r r' r'' : Reader} (hread : (readLines (before ++ u.lines)).run {} = .ok () r)
    (hlater : ReadsUnits r later r') (hpublish : publish.run r' = .ok () r'')
    {root name : String} {l : Layout} {m : Member} (hstruct : r.unit.find? root = some (.own l))
    (hmember : l.members.find? name = some m) (hrefers : RefersTo r.ids u.array.id m.type)
    (hlast : ∀ s ∈ later, root ∉ s.unit.keys) (hkept : root ∈ r''.types.keys) :
    ∃ e₀ e l', r.ids.Unfolds u.element e₀ ∧ WithEnum e₀ e ∧ r''.types.find? root = some l' ∧
      l'.members.find? name = some ⟨m.offset, .nest u.counts.reverse e⟩ ∧
      ∀ size, IsScalar r''.types e → r''.types.sizeOf e = .ok size →
        (1 < u.counts.length → r''.types.find? "array" = none) →
        r''.types.slots (.nest u.counts.reverse e) m.offset [.member root, .member name] =
            ⟨(gridSlots root name m.offset size u.counts.reverse).toArray, none⟩ ∧
          ((r''.types.slotsOf root).fault = none → r''.types.memberSlots root name =
            gridSlots root name m.offset size u.counts.reverse) := by
  rw [readLines_append] at hread
  obtain ⟨_, r₀, hbefore, hunit⟩ := run_bind_eq_ok_iff.mp hread
  have hsteady₀ := isSteady_default.readLines hbefore
  have hid := u.find?_ids hsteady₀ hunit
  obtain ⟨e₀, e, l', he₀, he, hl', hm'⟩ := exists_member_nest (hsteady₀.readLines hunit) hid hlater
    hpublish hstruct hmember hrefers hlast hkept
  refine ⟨e₀, e, l', he₀, he, hl', hm', fun size hscalar hsize harray => ?_⟩
  rw [← u.counts.length_reverse] at harray
  exact memberSlots_nest hl' hm' hscalar hsize harray

/-- The bounds are for two and three, and the slots are those of three rows and two columns. -/
theorem memberSlots_matrix : ∃ r r' : Reader,
    (readLines ([] ++ matrixUnit.lines)).run {} = .ok () r ∧ ReadsUnits r [] r ∧
    publish.run r = .ok () r' ∧ RefersTo r.ids matrixUnit.array.id (.text "<0x30") ∧
    matrixUnit.counts = [2, 3] ∧ r'.types = matrixTypes ∧
    r'.types.memberSlots "S" "a" = gridSlots "S" "a" 4 4 [3, 2] := by
  obtain ⟨locals, level, stack, hread⟩ := run_readLines_matrixReader
  rw [← List.nil_append matrixUnit.lines] at hread
  obtain ⟨r', hpublish, htypes⟩ := run_publish_matrixReader locals level stack
  have hrefers : RefersTo ((matrixReader locals).placed level stack).ids matrixUnit.array.id
      (.text "<0x30") := .direct rfl (by cbv)
  have hstruct : ((matrixReader locals).placed level stack).unit.find? "S" =
      some (.own (rawLayout .struct 28 matrixFields)) := by cbv
  have hmember : (rawLayout .struct 28 matrixFields).members.find? "a" =
      some ⟨4, .text "<0x30"⟩ := by cbv
  have hkept : "S" ∈ r'.types.keys := by
    rw [htypes]
    decide
  refine ⟨_, r', hread, .nil _, hpublish, hrefers, counts_matrixUnit, htypes, ?_⟩
  obtain ⟨-, e, l, -, -, hl, hm, hslots⟩ := matrixUnit.memberSlots_rowMajor hread (.nil _) hpublish
    hstruct hmember hrefers (by simp) hkept
  rw [counts_matrixUnit] at hm hslots
  rw [htypes] at hl hslots ⊢
  -- the element is the one of the published table
  have hlayout : matrixTypes.find? "S" = some matrixLayout := by cbv
  have htype : matrixLayout.members.find? "a" =
      some ⟨4, .array 3 (.array 2 (.named "int"))⟩ := by cbv
  obtain rfl := Option.some.inj (hl.symm.trans hlayout)
  have hnest := congrArg Member.type (Option.some.inj (hm.symm.trans htype))
  obtain rfl : e = .named "int" := by simpa [TypeExpr.nest] using hnest
  have hscalar : IsScalar matrixTypes (.named "int") :=
    ⟨.text "int", .list _ [], by decide, by decide⟩
  exact (hslots 4 hscalar (by decide) (by decide)).2 (by cbv)

/-- **The dump does not list dimensions from the outermost on**, as far as the slots go: these are not
the ones of two rows and three columns. -/
theorem slotsOf_matrix : ∃ r r' : Reader, (readLines matrixUnit.lines).run {} = .ok () r ∧
    publish.run r = .ok () r' ∧ matrixUnit.counts = [2, 3] ∧
    r'.types.slotsOf "S" = ⟨#[⟨"S.n", 0⟩, ⟨"S.a[0][0]", 4⟩, ⟨"S.a[0][1]", 8⟩, ⟨"S.a[1][0]", 12⟩,
      ⟨"S.a[1][1]", 16⟩, ⟨"S.a[2][0]", 20⟩, ⟨"S.a[2][1]", 24⟩], none⟩ ∧
    r'.types.memberSlots "S" "a" ≠ gridSlots "S" "a" 4 4 matrixUnit.counts := by
  obtain ⟨locals, level, stack, hread⟩ := run_readLines_matrixReader
  obtain ⟨r', hpublish, htypes⟩ := run_publish_matrixReader locals level stack
  refine ⟨_, r', hread, hpublish, counts_matrixUnit, ?_⟩
  rw [htypes, counts_matrixUnit]
  refine ⟨by cbv, ?_⟩
  have hslots : matrixTypes.memberSlots "S" "a" = [⟨"S.a[0][0]", 4⟩, ⟨"S.a[0][1]", 8⟩,
      ⟨"S.a[1][0]", 12⟩, ⟨"S.a[1][1]", 16⟩, ⟨"S.a[2][0]", 20⟩, ⟨"S.a[2][1]", 24⟩] := by cbv
  have hgrid : gridSlots "S" "a" 4 4 [2, 3] = [⟨"S.a[0][0]", 4⟩, ⟨"S.a[0][1]", 8⟩,
      ⟨"S.a[0][2]", 12⟩, ⟨"S.a[1][0]", 16⟩, ⟨"S.a[1][1]", 20⟩, ⟨"S.a[1][2]", 24⟩] := by cbv
  rw [hslots, hgrid]
  decide

end CpuTrace.Dump
