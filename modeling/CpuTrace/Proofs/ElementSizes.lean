import CpuTrace.Proofs.ByValue
import CpuTrace.Proofs.Containment
import CpuTrace.Proofs.PlainTables
import CpuTrace.Proofs.UnitSeparation
import Mathlib

/-!
# Elements without a size

The tables that dumps publish can be flattened, with two exceptions. An array is unfolded only if its
element has a size, and three kinds of elements have none (`Unsized`): base types that are not among
the scalars of known size, such as `long long` and `double`, enumerations, and bit-fields. The table
of sizes is asked for the head of a type, and their heads are not in it. The other exception is a
structure that is named like an array, which is taken for one.

The main statement is `fault_slotsOf_eq_none_iff`: in the table of any dump, a structure that contains
nothing but base types, enumerations, bit-fields, pointers and structures of the table, and not itself,
is flattened without a fault exactly if it contains neither exception.
-/

namespace CpuTrace

/-- A type is another one, or an array of what ends in it. -/
inductive TypeExpr.EndsIn : TypeExpr → TypeExpr → Prop
  /-- the type itself -/
  | refl (t : TypeExpr) : EndsIn t t
  /-- the end of the element -/
  | array (count : Int) {t b : TypeExpr} (element : EndsIn t b) : EndsIn (.array count t) b

namespace Dump

/-! ## Base types -/

/-- The names of base types that are not among the scalars of known size. -/
def unsizedNames : List String :=
  ["float", "double", "long long", "unsigned long long", "int128_t", "uint128_t"]

/-- Six names of base types have no size of their own. -/
theorem lookup_scalarSizes_eq_none_iff {s : String} (h : s ∈ baseNames) :
    scalarSizes.lookup s = none ↔ s ∈ unsizedNames := by
  have hall : ∀ s ∈ baseNames, scalarSizes.lookup s = none ↔ s ∈ unsizedNames := by decide
  exact hall s h

/-! ## Sizes of plain types -/

/-- **Types without a size**, as far as they can be elements in the table of a dump. A structure of
the same name lends its size. -/
inductive Unsized (types : TypeTable) : TypeExpr → Prop
  /-- a base type -/
  | base {s : String} (name : s ∈ unsizedNames) (unknown : types.find? s = none) :
    Unsized types (.named s)
  /-- a bit-field or an enumeration -/
  | record {kind : String} (fields : List (Atom × TypeExpr)) (isRecord : kind ∈ recordKinds)
    (unknown : types.find? kind = none) : Unsized types (.list [.text kind, .record fields])
  /-- an array of something without a size -/
  | array (count : Int) {t : TypeExpr} (element : Unsized types t)
    (unknown : types.find? "array" = none) : Unsized types (.array count t)

/-- What a type may end in: a base type, an enumeration, a bit-field, a pointer, or a structure of the
table. Only names and bare texts are restricted, since the types of a dump end in nothing else. -/
structure IsValueEnd (types : TypeTable) (b : TypeExpr) : Prop where
  /-- a name is that of a base type or of a structure -/
  named : ∀ s, b = .named s → IsBaseName s ∨ s ∈ types.keys
  /-- there is no bare text -/
  text : ∀ s, b ≠ .text s

section Sizes

variable {types : TypeTable} {t u : TypeExpr}

/-- A type that is no array has a size if its head has a layout or is a scalar of known size. -/
theorem exists_size_iff_of_head {a : String} (head : t.HasHead (.text a)) (notArray : a ≠ "array") :
    (∃ n, types.sizeOf t = .ok n) ↔ ¬ (types.find? a = none ∧ scalarSizes.lookup a = none) := by
  have hne : Atom.text a ≠ .text "array" := fun h => notArray (Atom.text.inj h)
  rcases hlayout : types.find? a with _ | l
  · rw [sizeOf_of_scalar head hne hlayout, scalarSize]
    rcases scalarSizes.lookup a with _ | n <;> simp
  · rw [sizeOf_of_layout head hlayout]
    simp

/-- An array has a size if its element has one, or if a structure lends it. -/
theorem exists_size_array_iff {count : Int} :
    (∃ n, types.sizeOf (.array count t) = .ok n) ↔
      ((∃ l, types.find? "array" = some l) ∨ ∃ n, types.sizeOf t = .ok n) := by
  rcases hlayout : types.find? "array" with _ | l
  · rw [types.sizeOf_array count t hlayout]
    rcases types.sizeOf t with e | n <;> simp [Except.map]
  · rw [sizeOf_of_layout (a := .text "array") (.list _ _) hlayout]
    simp

theorem unsized_named_iff {s : String} :
    Unsized types (.named s) ↔ s ∈ unsizedNames ∧ types.find? s = none := by
  refine ⟨fun h => ?_, fun h => .base h.1 h.2⟩
  cases h with
  | base name unknown => exact ⟨name, unknown⟩

theorem unsized_record_iff {kind : String} {fields : List (Atom × TypeExpr)} :
    Unsized types (.list [.text kind, .record fields]) ↔
      kind ∈ recordKinds ∧ types.find? kind = none := by
  refine ⟨fun h => ?_, fun h => .record fields h.1 h.2⟩
  cases h with
  | record _ isRecord unknown => exact ⟨isRecord, unknown⟩

/-- An array has a size if its element does, or if a structure is named like an array. -/
theorem unsized_array_iff {count : Int} :
    Unsized types (.array count t) ↔ Unsized types t ∧ types.find? "array" = none := by
  refine ⟨fun h => ?_, fun h => .array count h.1 h.2⟩
  cases h with
  | array _ element unknown => exact ⟨element, unknown⟩

theorem not_unsized_pointer : ¬ Unsized types (.pointer t) := by
  intro h
  generalize hu : TypeExpr.pointer t = u at h
  cases h with
  | record _ isRecord =>
    obtain ⟨rfl, -⟩ : "pointer" = _ ∧ _ := by simpa using hu
    exact absurd isRecord (by decide)
  | base => simp at hu
  | array => simp at hu

/-- A name that may stand at the end of a type has a size unless it is one of those without. -/
theorem exists_size_named_iff {s : String} (h : IsBaseName s ∨ s ∈ types.keys) :
    (∃ n, types.sizeOf (.named s) = .ok n) ↔ ¬ Unsized types (.named s) := by
  rw [unsized_named_iff]
  rcases h with hbase | hkey
  · have hne : s ≠ "array" := by
      rintro rfl
      exact absurd hbase.mem (by decide)
    rw [exists_size_iff_of_head (.list _ _) hne, lookup_scalarSizes_eq_none_iff hbase.mem]
    exact not_congr and_comm
  · obtain ⟨l, hl⟩ := Table.exists_of_mem_keys hkey
    have hl := Table.find?_eq_some_iff.mpr hl
    rw [sizeOf_of_layout (a := .text s) (.list _ _) hl, hl]
    simp

/-- A record is measured by its word, which only a structure of that name gives a size. -/
theorem exists_size_record_iff {kind : String} (h : kind ∈ recordKinds)
    {fields : List (Atom × TypeExpr)} :
    (∃ n, types.sizeOf (.list [.text kind, .record fields]) = .ok n) ↔
      ¬ Unsized types (.list [.text kind, .record fields]) := by
  have hkinds : ∀ kind ∈ recordKinds, kind ≠ "array" ∧ scalarSizes.lookup kind = none := by decide
  obtain ⟨hne, hlookup⟩ := hkinds kind h
  rw [exists_size_iff_of_head (.list _ _) hne, unsized_record_iff]
  simp [h, hlookup]

/-- **A plain type has a size unless it is one of those without.** -/
theorem exists_size_iff (hplain : IsPlain t) (hends : ∀ b, t.EndsIn b → IsValueEnd types b) :
    (∃ n, types.sizeOf t = .ok n) ↔ ¬ Unsized types t := by
  obtain ⟨s, b, hb, rfl⟩ := hplain
  induction s with
  | tip =>
    have hend : IsValueEnd types b := hends b (.refl b)
    rw [Spine.plug]
    cases hb with
    | text s => exact (hend.text s rfl).elim
    | @named s _ => exact exists_size_named_iff (hend.named s rfl)
    | record hkind fields => exact exists_size_record_iff hkind
  | pointer s =>
    have hsized : ∃ n, types.sizeOf (.pointer (s.plug b)) = .ok n :=
      (exists_size_iff_of_head (.list _ _) (by decide)).mpr fun h => absurd h.2 (by decide)
    exact iff_of_true hsized not_unsized_pointer
  | array count s ih =>
    have ih := ih fun b' hb' => hends b' (.array count hb')
    rw [Spine.plug, exists_size_array_iff, unsized_array_iff, ih]
    rcases types.find? "array" with _ | l <;> simp

/-! ## Where flattening goes on -/

/-- What has a head other than that of an array is a scalar or a structure. -/
theorem opens_of_head {a : Atom} (head : t.HasHead a) (notArray : a ≠ .text "array") :
    types.Opens t := by
  rcases hlayout : types.layout? a with _ | l
  · exact .scalar ⟨a, head, notArray, hlayout⟩
  · exact .struct head notArray hlayout

theorem ne_array_of_head {a : Atom} (head : t.HasHead a) (notArray : a ≠ .text "array") :
    t ≠ .named "array" ∧ ∀ count element, t ≠ .array count element := by
  constructor
  · rintro rfl
    exact notArray (head.unique (.list _ _))
  · rintro count element rfl
    exact notArray (head.unique (.list _ _))

/-- **A plain type opens** unless it is the bare word for an array, or an array of elements without a
size. -/
theorem opens_iff_of_isPlain (hplain : IsPlain t) (htext : ∀ s, t ≠ .text s) :
    types.Opens t ↔ t ≠ .named "array" ∧
      ∀ count element, t = .array count element → 0 < count → ∃ n, types.sizeOf element = .ok n := by
  constructor
  · intro h
    cases h with
    | scalar h =>
      obtain ⟨a, head, notArray, -⟩ := h
      obtain ⟨hname, harray⟩ := ne_array_of_head head notArray
      exact ⟨hname, fun count element heq => (harray count element heq).elim⟩
    | struct head notArray layout =>
      obtain ⟨hname, harray⟩ := ne_array_of_head head notArray
      exact ⟨hname, fun count element heq => (harray count element heq).elim⟩
    | @array count element args sized =>
      refine ⟨by simp, fun count' element' heq hpos => ?_⟩
      obtain ⟨rfl, rfl, -⟩ : count = count' ∧ element = element' ∧ args = [] := by simpa using heq
      exact sized hpos
    | bare empty => exact ⟨by simp, by simp⟩
  · rintro ⟨hname, hsized⟩
    obtain ⟨s, b, hb, rfl⟩ := hplain
    cases s with
    | tip =>
      cases hb with
      | text s => exact (htext s rfl).elim
      | named _ =>
        refine opens_of_head (.list _ _) fun h => hname ?_
        cases h
        rfl
      | record hkind fields =>
        refine opens_of_head (.list _ _) fun h => ?_
        cases h
        exact absurd hkind (by decide)
    | pointer s => exact opens_of_head (.list _ _) (by decide)
    | array count s => exact .array (hsized count _ rfl)

/-- What a plain type contains in a plain table is plain. -/
theorem isPlain_of_contains (htypes : IsPlainTable types) (ht : IsPlain t)
    (h : types.Contains t u) : IsPlain u := by
  induction h with
  | refl => exact ht
  | tail _ hpart ih =>
    obtain ⟨s, down⟩ := hpart
    cases down with
    | @member _ a l m head notArray layout mem =>
      cases a with
      | text name =>
        exact htypes _ (Table.find?_eq_some_iff.mp layout) m.2 (List.mem_map_of_mem mem)
      | none => cases layout
      | int n => cases layout
    | index below =>
      obtain ⟨-, -, -, hplain⟩ := ih.of_array
      exact hplain

end Sizes

/-- **Which structures of a dump can be flattened.** Let a dump be read and published without a
fault, and let a structure contain by value, through members and arrays, nothing but base types,
enumerations, bit-fields, pointers and structures of the table, and not itself. It is flattened without
a fault exactly if it contains no structure that is named like an array, and no array with elements
that have no size. -/
theorem fault_slotsOf_eq_none_iff {text : String} {r r' : Reader}
    (hread : Reader.ofText text = .ok r) (hpublish : publish.run r = .ok () r') (root : String)
    (hvalues : ∀ t b, r'.types.Contains (.named root) t → t.EndsIn b → IsValueEnd r'.types b)
    (hacyclic : r'.types.IsAcyclic (.named root)) :
    (r'.types.slotsOf root).fault = none ↔
      ¬ r'.types.Contains (.named root) (.named "array") ∧
        ∀ count element, r'.types.Contains (.named root) (.array count element) → 0 < count →
          ¬ Unsized r'.types element := by
  have htypes := isPlainTable_of_ofText hread hpublish
  have hplain : ∀ {t}, r'.types.Contains (.named root) t → IsPlain t :=
    isPlain_of_contains htypes (.tip (.named trivial))
  have hopens : ∀ t, r'.types.Contains (.named root) t → (r'.types.Opens t ↔
      t ≠ .named "array" ∧ ∀ count element, t = .array count element → 0 < count →
        ¬ Unsized r'.types element) := by
    intro t ht
    rw [opens_iff_of_isPlain (hplain ht) fun s => (hvalues t t ht (.refl t)).text s]
    refine and_congr_right fun _ => ?_
    refine forall_congr' fun count => forall_congr' fun element => ?_
    refine forall_congr' fun heq => forall_congr' fun hpos => ?_
    subst heq
    have helement : r'.types.Contains (.named root) element := .tail ht (TypeTable.part_element hpos)
    exact exists_size_iff (hplain helement) fun b hb => hvalues element b helement hb
  rw [TypeTable.slotsOf, TypeTable.slots, Emission.fault_map,
    TypeTable.fault_leaves_eq_none_iff hacyclic]
  constructor
  · intro h
    refine ⟨fun harray => ((hopens _ harray).mp (h _ harray)).1 rfl, fun count element ht hpos => ?_⟩
    exact ((hopens _ ht).mp (h _ ht)).2 count element rfl hpos
  · rintro ⟨hname, hsized⟩ t ht
    refine (hopens t ht).mpr ⟨fun heq => hname (heq ▸ ht), fun count element heq hpos => ?_⟩
    exact hsized count element (heq ▸ ht) hpos

/-! ## A row of cells, and a wide integer -/

/-- A unit with a structure that holds an array of structures, and one that holds an array of wide
integers. -/
def rowGraph : TypeGraph where
  nodes := [
    ⟨0x10, .base "int"⟩,
    ⟨0x18, .base "long long int"⟩,
    ⟨0x20, .layout .struct (some "cell") 16 [
      ⟨0x24, some "tag", 0, ⟨0x10, 0⟩⟩, ⟨0x28, some "value", 8, ⟨0x18, 0⟩⟩]⟩,
    ⟨0x30, .array ⟨0x20, 0⟩ 2⟩,
    ⟨0x38, .pointer (some ⟨0x40, 0⟩)⟩,
    ⟨0x40, .layout .struct (some "row") 56 [
      ⟨0x44, some "cells", 0, ⟨0x30, 0⟩⟩, ⟨0x48, some "next", 48, ⟨0x38, 0⟩⟩]⟩,
    ⟨0x50, .array ⟨0x18, 0⟩ 1⟩,
    ⟨0x58, .layout .struct (some "wide") 16 [⟨0x5c, some "a", 0, ⟨0x50, 0⟩⟩]⟩]
  distinct := by decide
  nonzero := by decide
  closed := by decide
  ranked := ⟨fun id => if id = 0x30 ∨ id = 0x38 ∨ id = 0x50 then 1 else 0, by decide⟩
  wellFormed := by decide
  tags := by decide
  kinds := by decide

/-- The line of a structure with a name. -/
def namedLine (id : Nat) (name size : String) : String :=
  structLine id [attr "DW_AT_name" name, attr "DW_AT_byte_size" size]

/-- Its lines. -/
def rowLines : List (List String) :=
  [[writtenLine 1 0x10 "DW_TAG_base_type" [attr "DW_AT_name" "int"]],
    [writtenLine 1 0x18 "DW_TAG_base_type" [attr "DW_AT_name" "long long int"]],
    [namedLine 0x20 "cell" "0x10", fieldLine 0x24 "tag" "<0x10" "0",
      fieldLine 0x28 "value" "<0x18" "8"],
    [arrayLine 0x30 "<0x20", boundLine 0x34 "2"],
    [writtenLine 1 0x38 "DW_TAG_pointer_type" [typeAttr "<0x40"]],
    [namedLine 0x40 "row" "0x38", fieldLine 0x44 "cells" "<0x30" "0",
      fieldLine 0x48 "next" "<0x38" "48"],
    [arrayLine 0x50 "<0x18", boundLine 0x54 "1"],
    [namedLine 0x58 "wide" "0x10", fieldLine 0x5c "a" "<0x50" "0"]]

/-- Its dump. -/
def rowDump : String := Text.unlines (unitLine :: rowLines.flatten)

theorem isDump_rowDump : rowGraph.IsDump (unitLine :: rowLines.flatten) := by
  refine ⟨0xb, _, rowLines, shows_writtenLine (by decide) trivial, ?_, rfl⟩
  refine .cons ?int (.cons ?long (.cons ?cell (.cons ?cells (.cons ?next (.cons ?row
    (.cons ?wides (.cons ?wide .nil)))))))
  case int => exact .base (shows_writtenLine (by decide) ⟨_, rfl, 0, rfl⟩)
  case long => exact .base (shows_writtenLine (by decide) ⟨_, rfl, 0, rfl⟩)
  case cells => exact .array (shows_writtenLine (by decide) rfl) (shows_writtenLine (by decide) rfl)
  case next => exact .pointer (shows_writtenLine (by decide) rfl)
  case wides => exact .array (shows_writtenLine (by decide) rfl) (shows_writtenLine (by decide) rfl)
  case cell | row =>
    refine .layout (shows_writtenLine (by decide)
      ⟨⟨_, rfl, 0, rfl⟩, rfl, _, rfl, ['0', 'x'], 0, Or.inr rfl, by decide⟩)
      (.cons ?_ (.cons ?_ .nil)) <;>
    exact shows_writtenLine (by decide) ⟨⟨_, rfl, 0, rfl⟩, rfl, ⟨_, rfl, Or.inl (by decide)⟩, rfl⟩
  case wide =>
    refine .layout (shows_writtenLine (by decide)
      ⟨⟨_, rfl, 0, rfl⟩, rfl, _, rfl, ['0', 'x'], 0, Or.inr rfl, by decide⟩) (.cons ?_ .nil)
    exact shows_writtenLine (by decide) ⟨⟨_, rfl, 0, rfl⟩, rfl, ⟨_, rfl, Or.inl (by decide)⟩, rfl⟩

/-- Its types. -/
def rowTypes : TypeTable := .ofList
  [("cell", ⟨16, .ofList [("tag", ⟨0, .named "int"⟩), ("value", ⟨8, .named "long long"⟩)]⟩),
    ("row", ⟨56, .ofList [("cells", ⟨0, .array 3 (.named "cell")⟩),
      ("next", ⟨48, .pointer (.named "row")⟩)]⟩),
    ("wide", ⟨16, .ofList [("a", ⟨0, .array 2 (.named "long long")⟩)]⟩)]

/-- The dump is read and published, and gives these types. -/
theorem exists_rowTypes : ∃ r r' : Reader, Reader.ofText rowDump = .ok r ∧
    publish.run r = .ok () r' ∧ r'.types = rowTypes := by
  obtain ⟨u, hlines, hu⟩ := isDump_rowDump.exists_unit
  have hunbroken : (unitLine :: rowLines.flatten).all (·.toList.all (!Text.isLineBreak ·)) = true := by
    simp only [unitLine, rowLines, arrayLine, boundLine, namedLine, structLine, fieldLine, writtenLine,
      List.flatten_cons, List.flatten_nil, List.cons_append, List.nil_append, List.all_cons,
      List.all_nil, String.toList_ofList]
    decide +kernel
  have hread : Reader.ofText rowDump = .ok u.reader := by
    rw [Reader.ofText, rowDump, lines_unlines hunbroken, ← hlines, u.reads]
  have hgraph : rowGraph.types = rowTypes := by cbv
  refine ⟨u.reader, u.alone, hread, u.publishes, ?_⟩
  rw [hu.types_alone rfl (by decide), hgraph]

/-- What the structures of the dump contain, each type before its parts. -/
def rowContents : List TypeExpr :=
  [.named "row", .named "wide", .array 3 (.named "cell"), .named "cell", .array 2 (.named "long long"),
    .pointer (.named "row"), .named "int", .named "long long"]

theorem parts_rowContents : ∀ t ∈ rowContents, ∀ u ∈ rowTypes.parts t,
    u ∈ rowContents ∧ rowContents.idxOf t < rowContents.idxOf u := by
  decide

theorem mem_rowContents_of_endsIn {t b : TypeExpr} (h : t.EndsIn b) (ht : t ∈ rowContents) :
    b ∈ rowContents := by
  induction h with
  | refl => exact ht
  | array count _ ih =>
    apply ih
    simp only [rowContents, List.mem_cons] at ht ⊢
    simp at ht
    rcases ht with ⟨-, rfl⟩ | ⟨-, rfl⟩ <;> simp

theorem isValueEnd_rowContents {b : TypeExpr} (hb : b ∈ rowContents) : IsValueEnd rowTypes b := by
  have hint : IsBaseName "int" := ⟨.decimal, .ofList [("DW_AT_name", .text "int")], by cbv⟩
  have hlong : IsBaseName "long long" :=
    ⟨.decimal, .ofList [("DW_AT_name", .text "long long int")], by cbv⟩
  simp only [rowContents, List.mem_cons, List.not_mem_nil, or_false] at hb
  refine ⟨fun s hs => ?_, fun s hs => ?_⟩
  · subst hs
    simp at hb
    rcases hb with rfl | rfl | rfl | rfl | rfl
    · exact .inr (by decide)
    · exact .inr (by decide)
    · exact .inr (by decide)
    · exact .inl hint
    · exact .inl hlong
  · subst hs
    simp at hb

theorem isValueEnd_row (root : String) (hroot : .named root ∈ rowContents) (t b : TypeExpr)
    (ht : rowTypes.Contains (.named root) t) (hb : t.EndsIn b) : IsValueEnd rowTypes b := by
  have hmem : t ∈ rowContents :=
    TypeTable.Contains.mem (fun t ht u hu => (parts_rowContents t ht u hu).1) hroot ht
  exact isValueEnd_rowContents (mem_rowContents_of_endsIn hb hmem)

/-- The row is flattened: its array is one of structures, which have a size, whatever is in them. -/
theorem fault_slotsOf_row : ∃ r r' : Reader, Reader.ofText rowDump = .ok r ∧
    publish.run r = .ok () r' ∧ r'.types = rowTypes ∧
    (∀ t b, r'.types.Contains (.named "row") t → t.EndsIn b → IsValueEnd r'.types b) ∧
    r'.types.IsAcyclic (.named "row") ∧ (r'.types.slotsOf "row").fault = none := by
  obtain ⟨r, r', hread, hpublish, htypes⟩ := exists_rowTypes
  have hvalues := isValueEnd_row "row" (by decide)
  have hacyclic := TypeTable.isAcyclic_of_before parts_rowContents (t := .named "row") (by decide)
  rw [← htypes] at hvalues hacyclic
  refine ⟨r, r', hread, hpublish, htypes, hvalues, hacyclic, ?_⟩
  have hcontains : ∀ {t}, rowTypes.Contains (.named "row") t →
      t ∈ [TypeExpr.named "row", .array 3 (.named "cell"), .named "cell", .pointer (.named "row"),
        .named "int", .named "long long"] := TypeTable.Contains.mem (by decide) (by decide)
  apply (fault_slotsOf_eq_none_iff hread hpublish "row" hvalues hacyclic).mpr
  rw [htypes]
  refine ⟨fun h => absurd (hcontains h) (by decide), fun count element h _ => ?_⟩
  obtain ⟨-, rfl⟩ : count = 3 ∧ element = .named "cell" := by simpa using hcontains h
  rw [unsized_named_iff]
  decide

/-- The array of wide integers is not: the table of sizes does not know them. -/
theorem slotsOf_wide : ∃ r r' : Reader, Reader.ofText rowDump = .ok r ∧
    publish.run r = .ok () r' ∧ "wide" ∈ r'.types.keys ∧
    (∀ t b, r'.types.Contains (.named "wide") t → t.EndsIn b → IsValueEnd r'.types b) ∧
    r'.types.IsAcyclic (.named "wide") ∧
    r'.types.slotsOf "wide" = ⟨#[], some (.missingName "long long")⟩ := by
  obtain ⟨r, r', hread, hpublish, htypes⟩ := exists_rowTypes
  refine ⟨r, r', hread, hpublish, ?_⟩
  rw [htypes]
  refine ⟨by decide, isValueEnd_row "wide" (by decide), ?_, by cbv⟩
  exact TypeTable.isAcyclic_of_before parts_rowContents (by decide)

end Dump

end CpuTrace
