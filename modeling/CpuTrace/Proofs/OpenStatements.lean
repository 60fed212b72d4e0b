import CpuTrace.Proofs.PlainTables
import Mathlib

/-!
# Open statements and ids

What a statement does to the place in a dump and to the types that ids stand for. It opens
(`of_run_openFrame`): some of the open statements are closed, from the innermost on, and it takes its
place after the others. Then it declares something (`effect_of_run_declare`), and only three things
can happen to the ids (`Declares`): nothing, its own id is given a type, or the id of the array that
encloses it is. A part of a step that **fixes** a view of the reader (`Fixes`) leaves what the view
shows; most parts fix the place and the ids (`Reader.place`).

In a dump that **nests** (`Nests`), where no statement is more than one level deeper than the one
before it, there is one open statement for each level (`Reader.IsNested`).
-/

namespace CpuTrace.Dump

/-! ## Steps that leave a part of a reader -/

/-- A step that leaves what a view shows of a reader, unless it gives a fault. -/
def Fixes {α β : Type} (view : Reader → β) (x : ReadM α) : Prop :=
  ∀ r v r', x.run r = .ok v r' → view r' = view r

section Fixes

variable {α β γ : Type} {view : Reader → γ}

theorem Fixes.pure (v : α) : Fixes view (pure v) := by
  intro r v' r' h
  cases h
  rfl

/-- Steps that leave what a view shows can be put one after the other. -/
theorem Fixes.bind {x : ReadM α} {f : α → ReadM β} (hx : Fixes view x) (hf : ∀ v, Fixes view (f v)) :
    Fixes view (x >>= f) := by
  intro r v r'' h
  obtain ⟨u, r', hfirst, hrest⟩ := run_bind_eq_ok_iff.mp h
  exact (hf u r' v r'' hrest).trans (hx r u r' hfirst)

/-- Looking up a value changes nothing. -/
theorem Fixes.ofExcept (e : Except Fault α) : Fixes view (ofExcept e) := by
  intro r v r' h
  obtain ⟨-, rfl⟩ := run_ofExcept_eq_ok_iff.mp h
  rfl

/-- An update has to leave what the view shows. -/
theorem Fixes.modify {f : Reader → Reader} (hf : ∀ r, view (f r) = view r) :
    Fixes view (modify f : ReadM Unit) := by
  intro r v r' h
  cases h
  exact hf r

/-- What is done with the state as it is has to leave it as it was. -/
theorem Fixes.get_bind {f : Reader → ReadM α}
    (hf : ∀ r v r', (f r).run r = .ok v r' → view r' = view r) : Fixes view (get >>= f) :=
  fun r v r' h => hf r v r' h

theorem Fixes.get : Fixes view (get : ReadM Reader) := by
  intro r v r' h
  cases h
  rfl

/-- A loop leaves what each of its rounds does. -/
theorem Fixes.forM {f : α → ReadM Unit} (hf : ∀ a, Fixes view (f a)) (l : List α) :
    Fixes view (l.forM f) := by
  induction l with
  | nil => exact Fixes.pure _
  | cons a l ih => exact Fixes.bind (hf a) fun _ => ih

end Fixes

/-- What a view shows of a reader after a step, if the step gives no fault. -/
def viewAfter? {β : Type} (view : Reader → β) (x : ReadM Unit) (r : Reader) : Option β :=
  match x.run r with
  | .ok _ r' => some (view r')
  | .error _ _ => none

/-- So a run of which something is to be known is evaluated down to a view of it. -/
theorem exists_of_viewAfter? {β : Type} {view : Reader → β} {x : ReadM Unit} {r : Reader} {b : β}
    (h : viewAfter? view x r = some b) : ∃ r', x.run r = .ok () r' ∧ view r' = b := by
  rw [viewAfter?] at h
  split at h
  · next r' hrun => exact ⟨r', hrun, Option.some.inj h⟩
  · cases h

section Members

variable {γ : Type} {view : Reader → γ} {s : Statement}

/-- A member changes a layout of the unit, and nothing else. -/
theorem fixes_addMember (hview : ∀ r name l, view (Reader.setUnitLayout r name l) = view r)
    (parent name : String) (m : Member) : Fixes view (addMember parent name m) := by
  refine Fixes.get_bind fun r v r' h => ?_
  split at h
  · cases h
    exact hview ..
  · cases h

/-- A member of a structure is looked up, and then added to its layout. -/
theorem fixes_declareStructMember (hview : ∀ r name l, view (Reader.setUnitLayout r name l) = view r)
    (p : String) : Fixes view (declareStructMember p s) := by
  refine Fixes.bind (.ofExcept _) fun name => ?_
  split
  · refine Fixes.bind (.ofExcept _) fun offset => Fixes.bind .get fun _ => ?_
    exact Fixes.bind (.ofExcept _) fun type => fixes_addMember hview p name _
  · exact Fixes.pure _

/-- So is a member of a union. -/
theorem fixes_declareUnionMember (hview : ∀ r name l, view (Reader.setUnitLayout r name l) = view r)
    (p : String) : Fixes view (declareUnionMember p s) :=
  Fixes.bind (.ofExcept _) fun name => Fixes.bind (.ofExcept _) fun _ => fixes_addMember hview p name _

/-- A value of an enumeration changes the table of enumerations. -/
theorem fixes_declareEnumerator (hview : ∀ r enums, view { r with enums := enums } = view r)
    (p : String) : Fixes view (declareEnumerator p s) := by
  refine Fixes.bind (.ofExcept _) fun text => Fixes.bind .get fun _ => ?_
  refine Fixes.bind (.ofExcept _) fun value => Fixes.get_bind fun r v r' h => ?_
  dsimp only at h
  split at h
  · cases h
    exact hview ..
  · cases h

end Members

/-! ## Steps that leave the place and the ids -/

/-- Where a reader stands, and what its ids stand for. -/
def Reader.place (r : Reader) : Int × List Frame × IdTable := (r.level, r.stack, r.ids)

/-- The place and the ids are left if each of the three is. -/
theorem Reader.place_eq_iff {r r' : Reader} :
    r'.place = r.place ↔ r'.level = r.level ∧ r'.stack = r.stack ∧ r'.ids = r.ids := by
  simp only [place, Prod.mk.injEq]

theorem place_setUnitLayout (r : Reader) (name : String) (l : Layout) :
    (r.setUnitLayout name l).place = r.place := by
  rw [Reader.setUnitLayout]
  split <;> rfl

section Declare

variable {s : Statement} {parent : Option Frame} {r r' : Reader}

/-- A global variable is entered in a table of its own. -/
theorem fixes_declareGlobal : Fixes Reader.place (declareGlobal s) := by
  rw [declareGlobal]
  split
  · refine Fixes.bind (.ofExcept _) fun location => ?_
    split
    · exact Fixes.pure _
    · refine Fixes.bind (.ofExcept _) fun address => Fixes.bind (.ofExcept _) fun type => ?_
      exact Fixes.bind (.ofExcept _) fun name => Fixes.modify fun _ => rfl
  · exact Fixes.pure _

/-! ## What a statement declares -/

/-- **What a statement can do to the ids**, given the one that encloses it. -/
inductive Declares (s : Statement) (parent : Option Frame) (ids : IdTable) : IdTable → Prop
  /-- nothing -/
  | nothing : Declares s parent ids ids
  /-- its own id stands for a type -/
  | type (t : TypeExpr) : Declares s parent ids (ids.insert s.id t)
  /-- the id of the array around it stands for an array of what it stood for -/
  | bound {p : Frame} (count : Int) (t : TypeExpr) (enclosed : parent = some p)
    (isArray : Tag.ofKind p.kind = .array) : Declares s parent ids (ids.insert p.name (.array count t))

/-- What a statement does once it is open. -/
structure Effect (s : Statement) (parent : Option Frame) (r r' : Reader) : Prop where
  /-- the level stays -/
  level : r'.level = r.level
  /-- the last open statement may get a name, unless it is an array -/
  stack : r'.stack = r.stack ∨
    Tag.ofKind s.kind ≠ .array ∧ ∃ name, r'.stack = r.stack.dropLast ++ [⟨s.kind, name⟩]
  /-- the ids change as they can -/
  ids : Declares s parent r.ids r'.ids

/-- A step that leaves the place and the ids has such an effect. -/
theorem Fixes.effect {x : ReadM Unit} (hx : Fixes Reader.place x) (h : x.run r = .ok () r') :
    Effect s parent r r' := by
  obtain ⟨hlevel, hstack, hids⟩ := Reader.place_eq_iff.mp (hx r () r' h)
  exact ⟨hlevel, .inl hstack, hids ▸ .nothing⟩

/-- A named type, and what follows. -/
theorem effect_of_run_openNamed {f : String → ReadM Unit} (hkind : Tag.ofKind s.kind ≠ .array)
    (hf : ∀ name, Fixes Reader.place (f name)) (h : (openNamed s >>= f).run r = .ok () r') :
    Effect s parent r r' := by
  obtain ⟨name, r₁, hopen, hrest⟩ := run_bind_eq_ok_iff.mp h
  obtain ⟨name', r₂, hname, hmodify⟩ := run_bind_eq_ok_iff.mp hopen
  obtain ⟨-, rfl⟩ := run_ofExcept_eq_ok_iff.mp hname
  cases hmodify
  obtain ⟨hlevel, hstack, hids⟩ := Reader.place_eq_iff.mp (hf _ _ _ _ hrest)
  exact ⟨hlevel, .inr ⟨hkind, name, hstack⟩, hids ▸ .type _⟩

/-- A type for the own id is one of the effects that a statement can have. -/
theorem effect_of_declare (t : TypeExpr) : Effect s parent r (r.declare s.id t) :=
  ⟨rfl, .inl rfl, .type t⟩

/-- The count of a bound, as it stands among the attributes: one more than the bound, and none
without it. -/
def boundCount (a : Attributes) : Int :=
  match a.find? "DW_AT_upper_bound" with
  | some (.text v) => boundValue v + 1
  | some (.int n) => n + 1
  | _ => 0

/-- A bound that can be read counts as it stands among the attributes. -/
theorem boundCount_of_contains {a : Attributes} {count : Int}
    (h : (a.numberBy (.ok ∘ boundValue) "DW_AT_upper_bound").map (· + 1) = .ok count) :
    count = boundCount a := by
  rw [Attributes.numberBy, Attributes.expr] at h
  rw [boundCount]
  rcases hfind : a.find? "DW_AT_upper_bound" with _ | t
  · rw [hfind] at h
    cases h
  · rw [hfind] at h
    dsimp only at h ⊢
    split at h
    · next heq => cases heq; cases h; rfl
    · next heq => cases heq; cases h; rfl
    · cases h
    · cases h

/-- **A bound** makes the array one of as many of what it was before. -/
theorem eq_of_run_declareBound {p : String} (h : (declareBound p s).run r = .ok () r') : ∃ t,
    r.ids.find? p = some t ∧ r' = r.declare p (.array (boundCount s.attributes) t) := by
  have helement : ∀ {count}, (do
      let element ← ofExcept ((← get).ids.get p)
      modify fun r => r.declare p (.array count element) : ReadM Unit).run r = .ok () r' →
      ∃ t, r.ids.find? p = some t ∧ r' = r.declare p (.array count t) := by
    intro count h
    rw [run_bind_of_eq (EStateM.run_get _)] at h
    obtain ⟨t, r₁, hfirst, hmodify⟩ := run_bind_eq_ok_iff.mp h
    obtain ⟨hget, rfl⟩ := run_ofExcept_eq_ok_iff.mp hfirst
    cases hmodify
    exact ⟨t, IdTable.get_eq_ok_iff.mp hget, rfl⟩
  rw [declareBound] at h
  split at h
  · obtain ⟨count, r₁, hfirst, hrest⟩ := run_bind_eq_ok_iff.mp h
    obtain ⟨hcount, rfl⟩ := run_ofExcept_eq_ok_iff.mp hfirst
    exact boundCount_of_contains hcount ▸ helement hrest
  · next hcontains =>
    have hzero : boundCount s.attributes = 0 := by
      rw [boundCount]
      rcases hfind : s.attributes.find? "DW_AT_upper_bound" with _ | t
      · rfl
      · exact absurd (contains_of_find? hfind) hcontains
    exact hzero ▸ helement h

/-- **Every statement has such an effect**, but for the start of a unit. -/
theorem effect_of_run_declare (hkind : Tag.ofKind s.kind ≠ .compileUnit)
    (h : (declare s parent).run r = .ok () r') : Effect s parent r r' := by
  rw [declare.eq_def] at h
  cases htag : Tag.ofKind s.kind <;> simp only [htag] at h
  case compileUnit => exact (hkind htag).elim
  case struct | union | enumeration =>
    refine effect_of_run_openNamed (by simp [htag]) (fun name => ?_) h
    split
    · exact Fixes.pure _
    · refine Fixes.bind .get fun _ => Fixes.bind (.ofExcept _) fun size => ?_
      exact Fixes.modify fun _ => rfl
  case array =>
    obtain ⟨t, r₁, htype, hmodify⟩ := run_bind_eq_ok_iff.mp h
    obtain ⟨-, rfl⟩ := run_ofExcept_eq_ok_iff.mp htype
    cases hmodify
    exact effect_of_declare t
  case base =>
    rw [run_bind_of_eq (EStateM.run_get _)] at h
    obtain ⟨name, r₁, hname, hmodify⟩ := run_bind_eq_ok_iff.mp h
    obtain ⟨-, rfl⟩ := run_ofExcept_eq_ok_iff.mp hname
    cases hmodify
    exact effect_of_declare _
  case pointer | qualifier | blank | synonym =>
    cases h
    exact effect_of_declare _
  case datum =>
    refine Fixes.effect ?_ h
    split
    · exact fixes_declareGlobal
    · exact Fixes.pure _
  case member =>
    refine Fixes.effect ?_ h
    split
    · split
      · exact fixes_declareStructMember place_setUnitLayout _
      · exact fixes_declareUnionMember place_setUnitLayout _
      · exact Fixes.pure _
    · exact Fixes.pure _
  case enumerator =>
    refine Fixes.effect ?_ h
    split
    · split
      · exact fixes_declareEnumerator (fun _ _ => rfl) _
      · exact Fixes.pure _
    · exact Fixes.pure _
  case bound =>
    split at h
    · next p =>
      split at h
      · next hp =>
        obtain ⟨t, -, rfl⟩ := eq_of_run_declareBound h
        exact ⟨rfl, .inl rfl, .bound _ t rfl hp⟩
      · exact (Fixes.pure ()).effect h
    · exact (Fixes.pure ()).effect h
  case other => exact (Fixes.pure ()).effect h

/-! ## Opening -/

/-- **A statement takes its place** after some of the open ones, from the outermost on. -/
theorem of_run_openFrame {level : Int} {f : Frame} (h : (openFrame level f).run r = .ok () r') :
    ∃ outer, outer <+: r.stack ∧ r' = { r with level, stack := outer ++ [f] } := by
  have hkept : (if level < r.level then keepFirst (level + 1) r.stack else r.stack) <+: r.stack := by
    split
    · rw [keepFirst]
      split <;> exact List.take_prefix _ _
    · exact List.prefix_refl _
  simp only [openFrame, EStateM.run_bind, EStateM.run_get] at h
  generalize (if level < r.level then keepFirst (level + 1) r.stack else r.stack) = kept at h hkept
  split at h
  · cases h
    exact ⟨r.stack, List.prefix_refl _, rfl⟩
  · split at h
    · cases h
    · cases h
      exact ⟨_, (List.dropLast_prefix _).trans hkept, rfl⟩

/-- What is known of all open statements holds of the one that encloses the last. -/
theorem Reader.mem_of_parent? {p : Frame} (h : r.parent? = some p) : p ∈ r.stack :=
  List.mem_of_mem_dropLast (List.mem_of_getLast? h)

end Declare

/-! ## Lines -/

/-- The statement that a line shows, if the reader opens it. Variables and parameters are collected
apart. -/
def statement? (line : String) : Option Statement :=
  match Line.parse? line with
  | some l => if isLocalKind l.header.kind then none else some l.statement
  | none => none

/-- A line shows a statement, or it leaves the place and the ids. -/
theorem run_readLine_cases {line : String} {r r' : Reader} (h : (readLine line).run r = .ok () r') :
    (statement? line = none ∧ r'.place = r.place) ∨
      ∃ s radix, statement? line = some s ∧ (readStatement s).run { r with radix } = .ok () r' := by
  rw [statement?]
  rcases hparse : Line.parse? line with _ | l
  · rw [readLine, hparse] at h
    cases h
    exact .inl ⟨rfl, rfl⟩
  · by_cases hlocal : isLocalKind l.header.kind = true
    · rw [run_readLine_of_local hparse hlocal] at h
      obtain ⟨unitLocals, rfl⟩ := exists_of_run_declareLocal h
      exact .inl ⟨by simp [hlocal], rfl⟩
    · rw [run_readLine_of_parse? hparse (Bool.eq_false_iff.mpr hlocal)] at h
      exact .inr ⟨l.statement, _, by simp [hlocal], h⟩

/-- The level of a statement. -/
def Statement.depth (s : Statement) : Except Fault Int := Numeral.read .decimal s.level

/-- No statement of some lines is more than one level deeper than the one before it, and the first
not more than one below a given level. -/
def Nests : Int → List String → Prop
  | _, [] => True
  | level, line :: lines =>
    match statement? line with
    | none => Nests level lines
    | some s => ∃ n : Nat, s.depth = .ok n ∧ n ≤ level + 1 ∧ Nests n lines

end CpuTrace.Dump
