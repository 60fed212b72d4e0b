import CpuTrace.Proofs.OpenStatements
import CpuTrace.Proofs.RowMajor
import Mathlib

/-!
# Statements of arrays

An array is declared by a statement that names its element, and by the statements of its bounds inside
it. Each bound makes the array one of as many of what it was before, so the **last** bound is the
outermost. After all of them, the id of the array stands for a nest with the counts in reverse
(`ArrayUnit.find?_ids`).

The other statements of the unit leave that alone: a statement changes what its own id stands for, or
that of the array that encloses it, and none of them has the id of the array, or stands in it.
-/

namespace CpuTrace.Dump

/-- None of some open statements is the array of an id. -/
def IsFreeOf (id : String) (stack : List Frame) : Prop :=
  ∀ f ∈ stack, Tag.ofKind f.kind = .array → f.name ≠ id

/-- A line neither declares what an id stands for nor starts a unit. -/
def Spares (id line : String) : Prop :=
  ∀ s, statement? line = some s → s.id ≠ id ∧ Tag.ofKind s.kind ≠ .compileUnit

/-- The first statement of some lines, if there is one, is not deeper than a level. -/
def ClosesTo (level : Int) : List String → Prop
  | [] => True
  | line :: lines =>
    match statement? line with
    | none => ClosesTo level lines
    | some s => ∃ n : Nat, s.depth = .ok n ∧ n ≤ level

/-- The count that a line gives as that of a bound. -/
def boundOf (line : String) : Int := ((statement? line).map fun s => boundCount s.attributes).getD 0

section Steps

variable {s : Statement} {id : String} {r r' : Reader} {line : String} {lines : List String}

theorem IsFreeOf.open {stack outer : List Frame} (h : IsFreeOf id stack) (houter : outer <+: stack)
    {f : Frame} (hf : f.name ≠ id) : IsFreeOf id (outer ++ [f]) := by
  intro g hg hkind
  rcases List.mem_append.mp hg with hg | hg
  · exact h g (houter.subset hg) hkind
  · rw [List.mem_singleton.mp hg]
    exact hf

/-- What an open statement declares leaves an id alone that is neither its own nor that of an array
around it. -/
theorem Effect.spares (h : Effect s r.parent? r r') (hid : s.id ≠ id) (hfree : IsFreeOf id r.stack) :
    IsFreeOf id r'.stack ∧ r'.ids.find? id = r.ids.find? id := by
  constructor
  · rcases h.stack with heq | ⟨hkind, name, heq⟩
    · rwa [heq]
    · intro f hf hf'
      rw [heq] at hf
      rcases List.mem_append.mp hf with hf | hf
      · exact hfree f (List.mem_of_mem_dropLast hf) hf'
      · rw [List.mem_singleton.mp hf] at hf'
        exact (hkind hf').elim
  · have hids := h.ids
    generalize r'.ids = ids at hids
    cases hids with
    | nothing => rfl
    | type t => rw [Table.find?_insert, if_neg (Ne.symm hid)]
    | bound count t enclosed isArray =>
      have hp := hfree _ (Reader.mem_of_parent? enclosed) isArray
      rw [Table.find?_insert, if_neg (Ne.symm hp)]

/-- **A statement with another id**, outside the array, leaves what the array's id stands for. -/
theorem IsFreeOf.readLine (hspares : Spares id line) (hfree : IsFreeOf id r.stack)
    (h : (readLine line).run r = .ok () r') :
    IsFreeOf id r'.stack ∧ r'.ids.find? id = r.ids.find? id := by
  rcases run_readLine_cases h with ⟨-, hsame⟩ | ⟨s, radix, hs, hrun⟩
  · obtain ⟨-, hstack, hids⟩ := Reader.place_eq_iff.mp hsame
    rw [hstack, hids]
    exact ⟨hfree, rfl⟩
  · obtain ⟨hid, hkind⟩ := hspares s hs
    obtain ⟨level, r₁, -, hopen, hdeclare⟩ := of_run_readStatement hrun
    obtain ⟨outer, houter, rfl⟩ := of_run_openFrame hopen
    exact (effect_of_run_declare hkind hdeclare).spares hid (hfree.open houter hid)

theorem IsFreeOf.readLines (hspares : ∀ line ∈ lines, Spares id line) (hfree : IsFreeOf id r.stack)
    (h : (readLines lines).run r = .ok () r') :
    IsFreeOf id r'.stack ∧ r'.ids.find? id = r.ids.find? id := by
  induction lines generalizing r with
  | nil =>
    cases h
    exact ⟨hfree, rfl⟩
  | cons line lines ih =>
    obtain ⟨_, r₁, hline, hlines⟩ := run_bind_eq_ok_iff.mp h
    obtain ⟨hhead, htail⟩ := List.forall_mem_cons.mp hspares
    obtain ⟨hfree₁, hids₁⟩ := hfree.readLine hhead hline
    obtain ⟨hfree', hids'⟩ := ih htail hfree₁ hlines
    exact ⟨hfree', hids'.trans hids₁⟩

/-! ## Nested places -/

/-- **A statement that nests** closes all statements that are not outside it, and takes its place. -/
theorem exists_opened (hs : statement? line = some s) {n : Nat} (hdepth : s.depth = .ok n)
    (hle : (n : Int) ≤ r.level + 1) (hr : r.IsNested) (h : (readLine line).run r = .ok () r') :
    ∃ r₁ : Reader, r₁.level = n ∧ r₁.stack = r.stack.take n ++ [⟨s.kind, s.id⟩] ∧ r₁.ids = r.ids ∧
      (declare s r₁.parent?).run r₁ = .ok () r' := by
  rcases run_readLine_cases h with ⟨hnone, -⟩ | ⟨s', radix, hs', hrun⟩
  · cases hnone.symm.trans hs
  obtain rfl : s' = s := Option.some.inj (hs'.symm.trans hs)
  obtain ⟨level, r₁, hlevel, hopen, hdeclare⟩ := of_run_readStatement hrun
  obtain rfl : (n : Int) = level := Except.ok.inj (hdepth.symm.trans hlevel)
  have hplaced : Reader.IsNested { r with radix } := hr
  rw [run_openFrame hplaced hle] at hopen
  cases hopen
  refine ⟨_, ?_, ?_, ?_, hdeclare⟩ <;> rfl

/-- The place after a statement that nests is nested again. -/
theorem Effect.isNested (h : Effect s r.parent? r r') (hr : r.IsNested) (hne : r.stack ≠ []) :
    r'.IsNested := by
  have hlength : r'.stack.length = r.stack.length := by
    rcases h.stack with heq | ⟨-, name, heq⟩
    · rw [heq]
    · have hpos := List.length_pos_iff.mpr hne
      rw [heq, List.length_append, List.length_dropLast, List.length_singleton]
      omega
  rw [Reader.IsNested, hlength, h.level]
  exact hr

/-- **Lines that nest** lead from a nested place to a nested place. -/
theorem nests_readLine (hnests : Nests r.level (line :: lines)) (hspares : Spares id line)
    (hr : r.IsNested) (h : (readLine line).run r = .ok () r') :
    r'.IsNested ∧ Nests r'.level lines := by
  rcases hs : statement? line with _ | s
  · simp only [Nests, hs] at hnests
    rcases run_readLine_cases h with ⟨-, hsame⟩ | ⟨s, radix, hs', -⟩
    · obtain ⟨hlevel, hstack, -⟩ := Reader.place_eq_iff.mp hsame
      rw [Reader.IsNested, hstack, hlevel]
      exact ⟨hr, hnests⟩
    · cases hs.symm.trans hs'
  · simp only [Nests, hs] at hnests
    obtain ⟨n, hn, hle, hrest⟩ := hnests
    obtain ⟨r₁, hlevel, hstack, -, hdeclare⟩ := exists_opened hs hn hle hr h
    have heffect := effect_of_run_declare (hspares s hs).2 hdeclare
    have hnested : r₁.IsNested := by
      rw [Reader.IsNested] at hr ⊢
      rw [hlevel, hstack, List.length_append, List.length_take, List.length_singleton]
      omega
    rw [heffect.level, hlevel]
    exact ⟨heffect.isNested hnested (by simp [hstack]), hrest⟩

theorem nests_readLines (hspares : ∀ line ∈ lines, Spares id line) {rest : List String}
    (hnests : Nests r.level (lines ++ rest)) (hr : r.IsNested)
    (h : (readLines lines).run r = .ok () r') : r'.IsNested ∧ Nests r'.level rest := by
  induction lines generalizing r with
  | nil =>
    cases h
    exact ⟨hr, hnests⟩
  | cons line lines ih =>
    obtain ⟨_, r₁, hline, hlines⟩ := run_bind_eq_ok_iff.mp h
    obtain ⟨hhead, htail⟩ := List.forall_mem_cons.mp hspares
    obtain ⟨hr₁, hnests₁⟩ := nests_readLine hnests hhead hr hline
    exact ih htail hnests₁ hr₁ hlines

/-! ## Inside the array -/

/-- A reader inside an array, or at one of its bounds. -/
structure Reader.IsInArray (r : Reader) (outer : List Frame) (f : Frame) (t : TypeExpr) : Prop where
  /-- the array is open, and at most one statement in it -/
  place : ∃ inner : List Frame, inner.length ≤ 1 ∧ r.stack = outer ++ f :: inner ∧
    r.level = outer.length + inner.length
  /-- its id stands for a type -/
  type : r.ids.find? f.name = some t

section InArray

variable {outer : List Frame} {f : Frame} {t : TypeExpr}

theorem Reader.IsInArray.isNested (h : r.IsInArray outer f t) : r.IsNested := by
  obtain ⟨inner, -, hstack, hlevel⟩ := h.place
  rw [Reader.IsNested, hstack, hlevel, List.length_append, List.length_cons]
  omega

/-- **The statement of an array** gives its id the type of the element. -/
theorem isInArray_readLine (hs : statement? line = some s) (hkind : Tag.ofKind s.kind = .array)
    (htype : s.attributes.find? "DW_AT_type" = some t) {n : Nat} (hdepth : s.depth = .ok n)
    (hle : (n : Int) ≤ r.level + 1) (hr : r.IsNested) (h : (readLine line).run r = .ok () r') :
    r'.IsInArray (r.stack.take n) ⟨s.kind, s.id⟩ t := by
  obtain ⟨r₁, hlevel, hstack, -, hdeclare⟩ := exists_opened hs hdepth hle hr h
  rw [declare.eq_def, hkind] at hdeclare
  obtain ⟨u, r₂, hexpr, hmodify⟩ := run_bind_eq_ok_iff.mp hdeclare
  obtain ⟨hu, rfl⟩ := run_ofExcept_eq_ok_iff.mp hexpr
  rw [Attributes.expr_of_find? htype] at hu
  cases hu
  cases hmodify
  rw [Reader.IsNested] at hr
  refine ⟨⟨[], by simp, hstack, hlevel.trans ?_⟩, Table.find?_insert_self ..⟩
  rw [List.length_take, List.length_nil]
  omega

/-- **A bound** makes the array one of as many of what it was. -/
theorem Reader.IsInArray.bound (hr : r.IsInArray outer f t) (hf : Tag.ofKind f.kind = .array)
    (hs : statement? line = some s) (hkind : Tag.ofKind s.kind = .bound)
    (hdepth : s.depth = .ok ((outer.length + 1 : Nat) : Int))
    (h : (readLine line).run r = .ok () r') :
    r'.IsInArray outer f (.array (boundOf line) t) := by
  obtain ⟨inner, hinner, hstack, hlevel⟩ := hr.place
  obtain ⟨r₁, hlevel₁, hstack₁, hids₁, hdeclare⟩ :=
    exists_opened hs hdepth (by rw [hlevel]; omega) hr.isNested h
  have houter : r₁.stack = outer ++ f :: [⟨s.kind, s.id⟩] := by
    rw [hstack₁, hstack, List.take_append]
    simp
  have hparent : r₁.parent? = some f := by simp [Reader.parent?, houter]
  rw [hparent, Dump.declare.eq_def, hkind] at hdeclare
  simp only [hf, if_true] at hdeclare
  obtain ⟨u, hu, rfl⟩ := eq_of_run_declareBound hdeclare
  obtain rfl : u = t := Option.some.inj (hu.symm.trans (hids₁ ▸ hr.type))
  refine ⟨⟨[⟨s.kind, s.id⟩], by simp, houter, hlevel₁.trans (by simp)⟩, ?_⟩
  rw [boundOf, hs]
  exact Table.find?_insert_self ..

/-- **All bounds**, the last of them outermost. -/
theorem Reader.IsInArray.bounds {counts : List Int} (hr : r.IsInArray outer f (.nest counts t))
    (hf : Tag.ofKind f.kind = .array)
    (hlines : ∀ line ∈ lines, ∃ s, statement? line = some s ∧ Tag.ofKind s.kind = .bound ∧
      s.depth = .ok ((outer.length + 1 : Nat) : Int))
    (h : (readLines lines).run r = .ok () r') :
    r'.IsInArray outer f (.nest ((lines.map boundOf).reverse ++ counts) t) := by
  induction lines generalizing r counts with
  | nil =>
    cases h
    exact hr
  | cons line lines ih =>
    obtain ⟨_, r₁, hline, hrest⟩ := run_bind_eq_ok_iff.mp h
    obtain ⟨⟨s, hs, hkind, hdepth⟩, htail⟩ := List.forall_mem_cons.mp hlines
    have hr₁ : r₁.IsInArray outer f (.nest (boundOf line :: counts) t) :=
      hr.bound hf hs hkind hdepth hline
    rw [List.map_cons, List.reverse_cons, List.append_assoc]
    exact ih hr₁ htail hrest

/-- **The end of the array**: its id keeps its type, and no bound can change it any more. -/
theorem Reader.IsInArray.close (hr : r.IsInArray outer f t) (hfree : IsFreeOf f.name outer)
    (hcloses : ClosesTo outer.length lines) (hspares : ∀ line ∈ lines, Spares f.name line)
    (h : (readLines lines).run r = .ok () r') : r'.ids.find? f.name = some t := by
  induction lines generalizing r with
  | nil =>
    cases h
    exact hr.type
  | cons line lines ih =>
    obtain ⟨_, r₁, hline, hrest⟩ := run_bind_eq_ok_iff.mp h
    obtain ⟨hhead, htail⟩ := List.forall_mem_cons.mp hspares
    rcases hs : statement? line with _ | s
    · simp only [ClosesTo, hs] at hcloses
      rcases run_readLine_cases hline with ⟨-, hsame⟩ | ⟨s, radix, hs', -⟩
      · obtain ⟨hlevel, hstack, hids⟩ := Reader.place_eq_iff.mp hsame
        refine ih ⟨?_, ?_⟩ hcloses htail hrest
        · rw [hstack, hlevel]
          exact hr.place
        · rw [hids]
          exact hr.type
      · cases hs.symm.trans hs'
    · simp only [ClosesTo, hs] at hcloses
      obtain ⟨n, hn, hle⟩ := hcloses
      obtain ⟨hid, hkind⟩ := hhead s hs
      obtain ⟨inner, hinner, hstack, hlevel⟩ := hr.place
      obtain ⟨r₂, -, hstack₂, hids₂, hdeclare⟩ :=
        exists_opened hs hn (by rw [hlevel]; omega) hr.isNested hline
      have hfree₂ : IsFreeOf f.name r₂.stack := by
        rw [hstack₂, hstack, List.take_append_of_le_length (by omega)]
        exact hfree.open (List.take_prefix _ _) hid
      obtain ⟨hfree₁, hfind₁⟩ := (effect_of_run_declare hkind hdeclare).spares hid hfree₂
      rw [(hfree₁.readLines htail hrest).2, hfind₁, hids₂, hr.type]

end InArray

end Steps

/-! ## Units with an array -/

/-- **The lines of a unit with an array.** The array's statement is followed by those of its bounds, one
level deeper, and then by a statement that is not inside it, if any. No other statement has its id. -/
structure ArrayUnit where
  /-- the line that starts the unit -/
  start : String
  /-- the lines before the array -/
  before : List String
  /-- the line of the array -/
  line : String
  /-- the lines of its bounds -/
  bounds : List String
  /-- the lines after it -/
  after : List String
  /-- the array -/
  array : Statement
  /-- its level -/
  level : Nat
  /-- its element -/
  element : TypeExpr
  /-- the unit starts at the outermost level -/
  isStart : ∃ l, Line.parse? start = some l ∧ Tag.ofKind l.header.kind = .compileUnit ∧
    Numeral.read .decimal l.header.level = .ok 0
  /-- the line of the array shows it -/
  isArray : statement? line = some array ∧ Tag.ofKind array.kind = .array
  /-- at its level -/
  depth : array.depth = .ok level
  /-- and says what its element is -/
  type : array.attributes.find? "DW_AT_type" = some element
  /-- its bounds are inside it -/
  isBound : ∀ line ∈ bounds, ∃ s, statement? line = some s ∧ Tag.ofKind s.kind = .bound ∧
    s.depth = .ok ((level + 1 : Nat) : Int)
  /-- up to the array, no statement is more than one level deeper than the one before it -/
  nests : Nests 0 (before ++ [line])
  /-- what comes after the bounds is not inside the array -/
  closes : ClosesTo level after
  /-- other statements have other ids, and belong to the same unit -/
  spares : ∀ line ∈ before ++ after, Spares array.id line

namespace ArrayUnit

variable (u : ArrayUnit)

/-- All lines of the unit. -/
def lines : List String := u.start :: (u.before ++ u.line :: (u.bounds ++ u.after))

/-- The counts of the array, in the order of its bounds. -/
def counts : List Int := u.bounds.map boundOf

/-- **The array is a nest, the last bound outermost.** -/
theorem find?_ids {r r' : Reader} (hr : r.IsSteady) (h : (readLines u.lines).run r = .ok () r') :
    r'.ids.find? u.array.id = some (.nest u.counts.reverse u.element) := by
  obtain ⟨l, hparse, hkind, hlevel⟩ := u.isStart
  obtain ⟨_, r₁, hstart, hrest⟩ := run_bind_eq_ok_iff.mp h
  obtain ⟨-, locals, rfl⟩ :=
    of_run_readLine_start hparse hkind hlevel hr.isPlaced hr.isRawUnit.isOwn hstart
  obtain ⟨hbefore, hafter⟩ := List.forall_mem_append.mp u.spares
  -- before the array
  change (readLines (u.before ++ u.line :: (u.bounds ++ u.after))).run _ = _ at hrest
  rw [readLines_append] at hrest
  obtain ⟨_, r₂, hread₂, hrest⟩ := run_bind_eq_ok_iff.mp hrest
  have hfree₁ : IsFreeOf u.array.id (r.published.atStart l.header r.radix locals).stack := by
    intro f hf hf'
    rw [List.mem_singleton.mp hf, hkind] at hf'
    cases hf'
  have hnested₁ : (r.published.atStart l.header r.radix locals).IsNested := rfl
  obtain ⟨hnested₂, hnests₂⟩ := nests_readLines hbefore u.nests hnested₁ hread₂
  have hfree₂ := (hfree₁.readLines hbefore hread₂).1
  simp only [Nests, u.isArray.1] at hnests₂
  obtain ⟨n, hn, hle, -⟩ := hnests₂
  obtain rfl : n = u.level := Int.ofNat.inj (Except.ok.inj (hn.symm.trans u.depth))
  -- the array and its bounds
  obtain ⟨_, r₃, hread₃, hrest⟩ := run_bind_eq_ok_iff.mp hrest
  obtain ⟨outer, hlength, hfree, hin₃⟩ : ∃ outer : List Frame, outer.length = u.level ∧
      IsFreeOf u.array.id outer ∧
      r₃.IsInArray outer ⟨u.array.kind, u.array.id⟩ (.nest [] u.element) := by
    refine ⟨r₂.stack.take u.level, ?_, fun f hf => hfree₂ f (List.mem_of_mem_take hf),
      isInArray_readLine u.isArray.1 u.isArray.2 u.type hn hle hnested₂ hread₃⟩
    rw [Reader.IsNested] at hnested₂
    rw [List.length_take]
    omega
  have hbounds := u.isBound
  have hcloses := u.closes
  rw [← hlength] at hbounds hcloses
  change (readLines (u.bounds ++ u.after)).run _ = _ at hrest
  rw [readLines_append] at hrest
  obtain ⟨_, r₄, hread₄, hread'⟩ := run_bind_eq_ok_iff.mp hrest
  have hin₄ := hin₃.bounds u.isArray.2 hbounds hread₄
  rw [List.append_nil] at hin₄
  -- after it
  exact hin₄.close hfree hcloses hafter hread'

end ArrayUnit

/-! ## Reading an array -/

section Reading

variable {r : Reader} {level : Int} {stack : List Frame} {bounds : List Nat} {lines : List String}

/-- Bounds inside an array are read. -/
theorem run_readLines_bounds {name : String} {t : TypeExpr}
    (h : List.Forall₂ (fun bound line => ∃ id, Shows 2 id "DW_TAG_subrange_type"
      (·.find? "DW_AT_upper_bound" = some (.text (toString bound))) line) bounds lines)
    (hplace : Inside ⟨"DW_TAG_array_type", name⟩ level stack) : ∃ level' stack',
      (readLines lines).run ((r.declare name t).placed level stack) =
        .ok () ((r.declare name (.nest (bounds.map fun n : Nat => (n : Int) + 1).reverse t)).placed
          level' stack') ∧
      InUnit level' stack' := by
  induction h generalizing t level stack with
  | nil => exact ⟨level, stack, rfl, hplace.inUnit⟩
  | @cons bound line bounds lines hline _ ih =>
    obtain ⟨id, hline⟩ := hline
    obtain ⟨_, stack₁, ha, hplace₁, hrun⟩ :=
      run_readLine_inside (r := r.declare name t) hline (by decide) (by decide) hplace
    obtain ⟨level', stack', hrest, hunit⟩ := ih (t := .array (bound + 1) t) hplace₁
    refine ⟨level', stack', ?_, hunit⟩
    rw [List.map_cons, List.reverse_cons, TypeExpr.nest_append,
      run_readLines_cons (hrun.trans (run_declare_bound ha))]
    exact hrest

/-- **An array is read**, whatever its bounds. -/
theorem run_readLines_array {id : Nat} {element : Ref} {line : String}
    (hline : Shows 1 id "DW_TAG_array_type" (GivesType (some element)) line)
    (hlines : List.Forall₂ (fun bound line => ∃ id, Shows 2 id "DW_TAG_subrange_type"
      (·.find? "DW_AT_upper_bound" = some (.text (toString bound))) line) bounds lines)
    (hplace : InUnit level stack) : ∃ level' stack',
      (readLines (line :: lines)).run (r.placed level stack) =
        .ok () ((r.declare (idText id) (.nest (bounds.map fun n : Nat => (n : Int) + 1).reverse
          (.text element.text))).placed level' stack') ∧
      InUnit level' stack' := by
  obtain ⟨_, ha, hrun⟩ := run_readLine_top (r := r) hline (by decide) (by decide) hplace
  rw [run_declare_array ha] at hrun
  obtain ⟨level', stack', hrest, hunit⟩ := run_readLines_bounds (r := r) hlines
    (Inside.of_top (hplace.top ⟨"DW_TAG_array_type", idText id⟩))
  exact ⟨level', stack', (run_readLines_cons hrun).trans hrest, hunit⟩

end Reading

end CpuTrace.Dump
