import CpuTrace.Proofs.Spine
import CpuTrace.Proofs.Statements
import Mathlib

/-!
# Reading a unit over published tables

The lines of a compile unit are read in the same way whatever other units have published. `Over b r
r'` says that the reader `r'` stands where `r` does, but over the tables that `b` has published: the
unit's own declarations are the same, and an enumeration that the unit does not declare is looked up
among the others'.

A step of a reader **lifts** (`Lifts`) if it does the same over any published tables, once it gives
no fault over none. Steps that lift are closed under sequencing (`Lifts.bind`), so that each statement
is gone through once, part by part (`lifts_declare`). What is known about a reader inside a unit
(`Reader.IsReading`) is kept along the way: its structures are its own, and its types are raw, that
is, chains of pointers and arrays with a name or a reference at the end (`IsRaw`).

The one statement that does not lift is the start of a unit, which publishes the last one. It leaves
the same reader in every case, but for the tables (`run_readLine_start`).
-/

namespace CpuTrace.Dump

/-! ## A reader inside a unit -/

/-- A type of a unit, with references: a spine with a text, a name or a bit-field at its end. -/
abbrev IsRaw : TypeExpr → Prop := IsSpineOf (IsEnd (fun _ => True) ["BitField"])

/-- What holds of a reader from the first line of a unit on. -/
structure Reader.IsReading (r : Reader) : Prop where
  /-- structures are the unit's own, and the types of their members raw -/
  own : ∀ e ∈ r.unit.entries, ∃ l, e.2 = .own l ∧ ∀ m ∈ l.members.values, IsRaw m.type
  /-- ids stand for raw types -/
  ids : ∀ t ∈ r.ids.values, IsRaw t
  /-- the level is that of a statement -/
  level : 0 ≤ r.level
  /-- which is open -/
  stack : r.stack ≠ []
  /-- at the outermost level there is one open statement -/
  top : r.level = 0 → r.stack.length = 1
  /-- sizes are written in decimal or in hexadecimal -/
  radix : r.radix ≠ .marked

/-- One reader stands where another does, over the tables that a third has published. -/
def Over (b r r' : Reader) : Prop :=
  ∃ enums locals, r' = { r with types := b.types, globals := b.globals, enums, locals } ∧
    ∀ name, enums.find? name = (r.enums.find? name).or (b.enums.find? name)

section Reading

variable {r : Reader} {id name kind : String} {t : TypeExpr}

theorem Reader.IsReading.isOwn (h : r.IsReading) : r.IsOwn := by
  intro e he
  obtain ⟨l, hl, -⟩ := h.own e he
  exact ⟨l, hl⟩

/-- An id may stand for any raw type. -/
theorem Reader.IsReading.declare (h : r.IsReading) (ht : IsRaw t) : (r.declare id t).IsReading := by
  refine ⟨h.own, fun u hu => ?_, h.level, h.stack, h.top, h.radix⟩
  rcases Table.mem_values_insert hu with rfl | hu
  · exact ht
  · exact h.ids u hu

/-- Naming the last open statement leaves the number of open ones. -/
theorem Reader.IsReading.nameLast (h : r.IsReading) : (r.nameLast kind name).IsReading := by
  have hlength : (r.nameLast kind name).stack.length = r.stack.length := by
    have hpos := List.length_pos_iff.mpr h.stack
    rw [Reader.nameLast, List.length_append, List.length_dropLast, List.length_singleton]
    omega
  refine ⟨h.own, h.ids, h.level, ?_, fun hlevel => hlength.trans (h.top hlevel), h.radix⟩
  rw [← List.length_pos_iff, hlength]
  exact List.length_pos_iff.mpr h.stack

/-- A structure of the unit may have any raw members. -/
theorem Reader.IsReading.insertUnit (h : r.IsReading) {l : Layout}
    (hl : ∀ m ∈ l.members.values, IsRaw m.type) :
    Reader.IsReading { r with unit := r.unit.insert name (.own l) } := by
  refine ⟨fun e he => ?_, h.ids, h.level, h.stack, h.top, h.radix⟩
  have hfind := Table.find?_eq_some_iff.mpr he
  rw [Table.find?_insert] at hfind
  split at hfind
  · exact ⟨l, (Option.some.inj hfind).symm, hl⟩
  · exact h.own e (Table.find?_eq_some_iff.mp hfind)

end Reading

/-! ## Steps that lift -/

section Lifts

variable {α β : Type} {P : α → Prop} {Q : β → Prop}

/-- A step that gives no fault does the same over any published tables. It keeps what holds inside a
unit, and its value has a property. -/
def Lifts (P : α → Prop) (x : ReadM α) : Prop :=
  ∀ r v r', r.IsReading → x.run r = .ok v r' →
    P v ∧ r'.IsReading ∧ ∀ b s, Over b r s → ∃ s', x.run s = .ok v s' ∧ Over b r' s'

/-- A step that does nothing lifts. -/
theorem Lifts.pure {v : α} (h : P v) : Lifts P (pure v) := by
  intro r v' r' hr hrun
  cases hrun
  exact ⟨h, hr, fun b s hs => ⟨s, rfl, hs⟩⟩

/-- **Steps that lift can be put one after the other.** What is known of the first value is known in
the second step. -/
theorem Lifts.bind {x : ReadM α} {f : α → ReadM β} (hx : Lifts P x) (hf : ∀ v, P v → Lifts Q (f v)) :
    Lifts Q (x >>= f) := by
  intro r v r'' hr hrun
  obtain ⟨u, r', hfirst, hrest⟩ := run_bind_eq_ok_iff.mp hrun
  obtain ⟨hu, hr', hover⟩ := hx r u r' hr hfirst
  obtain ⟨hv, hr'', hover'⟩ := hf u hu r' v r'' hr' hrest
  refine ⟨hv, hr'', fun b s hs => ?_⟩
  obtain ⟨s', hrun', hs'⟩ := hover b s hs
  obtain ⟨s'', hrun'', hs''⟩ := hover' b s' hs'
  exact ⟨s'', run_bind_eq_ok_iff.mpr ⟨u, s', hrun', hrun''⟩, hs''⟩

/-- A value that is looked up does not depend on the tables. -/
theorem Lifts.ofExcept (e : Except Fault α) : Lifts (fun v => e = .ok v) (ofExcept e) := by
  intro r v r' hr hrun
  obtain ⟨rfl, rfl⟩ := run_ofExcept_eq_ok_iff.mp hrun
  exact ⟨rfl, hr, fun b s hs => ⟨s, rfl, hs⟩⟩

/-- A step that fails has nothing to lift. -/
theorem Lifts.throw (e : Fault) : Lifts (fun _ : α => False) (throw e) := by
  intro r v r' _ hrun
  cases hrun

/-- A change that does not touch the published tables. -/
theorem Lifts.modify {f : Reader → Reader} (hkeep : ∀ r, r.IsReading → (f r).IsReading)
    (htables : ∀ r types globals enums locals, f { r with types, globals, enums, locals } =
      { f r with types, globals, enums, locals }) (henums : ∀ r, (f r).enums = r.enums) :
    Lifts (fun _ => True) (modify f) := by
  intro r v r' hr hrun
  cases hrun
  refine ⟨trivial, hkeep r hr, fun b s hs => ?_⟩
  obtain ⟨enums, locals, rfl, hfind⟩ := hs
  refine ⟨_, rfl, enums, locals, htables r b.types b.globals enums locals, fun name => ?_⟩
  rw [henums, hfind]

/-- A step that looks at the reader, but not at its published tables. -/
theorem Lifts.get_bind {f : Reader → ReadM α}
    (htables : ∀ r types globals enums locals, f { r with types, globals, enums, locals } = f r)
    (hf : ∀ r, r.IsReading → Lifts P (f r)) : Lifts P (get >>= f) := by
  intro r v r' hr hrun
  obtain ⟨hv, hr', hover⟩ := hf r hr r v r' hr hrun
  refine ⟨hv, hr', fun b s hs => ?_⟩
  obtain ⟨s', hrun', hs'⟩ := hover b s hs
  refine ⟨s', ?_, hs'⟩
  obtain ⟨enums, locals, rfl, -⟩ := hs
  rw [run_bind_of_eq (EStateM.run_get _), htables]
  exact hrun'

end Lifts

/-! ## The place of a statement -/

/-- Opening a statement leaves one open, and only one at the outermost level. -/
theorem lifts_openFrame {level : Int} (hlevel : 0 ≤ level) (frame : Frame) :
    Lifts (fun _ => True) (openFrame level frame) := by
  intro r v r' hr hrun
  have hpos := List.length_pos_iff.mpr hr.stack
  simp only [openFrame, EStateM.run_bind, EStateM.run_get] at hrun
  by_cases hlt : r.level < level
  · rw [if_pos hlt] at hrun
    cases hrun
    refine ⟨trivial, ⟨hr.own, hr.ids, hlevel, by simp, fun hzero => ?_, hr.radix⟩, ?_⟩
    · have hnonneg := hr.level
      simp only at hzero
      omega
    · rintro b s ⟨enums, locals, rfl, hfind⟩
      refine ⟨_, ?_, enums, locals, rfl, hfind⟩
      simp only [openFrame, EStateM.run_bind, EStateM.run_get, if_pos hlt, EStateM.run_set]
  · have hne : ∀ stack, (stack : List Frame) =
        (if level < r.level then keepFirst (level + 1) r.stack else r.stack) →
        stack.isEmpty = false ∧ (level = 0 → stack.length = 1) := by
      rintro stack rfl
      rw [List.isEmpty_eq_false_iff, ← List.length_pos_iff]
      split
      · rw [keepFirst, if_pos (by omega), List.length_take]
        omega
      · exact ⟨hpos, fun hzero => hr.top (by omega)⟩
    obtain ⟨hstack, htop⟩ := hne _ rfl
    rw [if_neg hlt] at hrun
    simp only [hstack, Bool.false_eq_true, if_false] at hrun
    cases hrun
    refine ⟨trivial, ⟨hr.own, hr.ids, hlevel, by simp, fun hzero => ?_, hr.radix⟩, ?_⟩
    · simp only [List.length_append, List.length_dropLast, List.length_singleton, htop hzero]
    · rintro b s ⟨enums, locals, rfl, hfind⟩
      refine ⟨_, ?_, enums, locals, rfl, hfind⟩
      simp only [openFrame, EStateM.run_bind, EStateM.run_get, if_neg hlt, hstack,
        Bool.false_eq_true, if_false, EStateM.run_set]

/-! ## Structures, unions, enumerations -/

/-- A named type names its place and its id. -/
theorem lifts_openNamed (s : Statement) : Lifts (fun _ => True) (openNamed s) := by
  refine Lifts.bind (.ofExcept _) fun name _ => ?_
  have hkeep : ∀ r : Reader, r.IsReading →
      ((r.nameLast s.kind name).declare s.id (.named name)).IsReading :=
    fun r hr => hr.nameLast.declare (.tip (.named trivial))
  refine Lifts.bind (.modify hkeep ?_ ?_) fun _ _ => ?_
  · intros; rfl
  · intros; rfl
  · exact Lifts.pure trivial

/-- A structure or a union of the unit starts without members. -/
theorem lifts_declareLayout (s : Statement) : Lifts (fun _ => True) (declareLayout s) := by
  refine Lifts.bind (lifts_openNamed s) fun name _ => ?_
  split
  · exact Lifts.pure trivial
  · refine Lifts.get_bind (fun _ _ _ _ _ => rfl) fun _ _ => ?_
    refine Lifts.bind (.ofExcept _) fun size _ => .modify ?_ (fun _ _ _ _ _ => rfl) fun _ => rfl
    intro r hr
    exact hr.insertUnit fun m hm => absurd hm List.not_mem_nil

/-- An enumeration goes into the table of all enumerations, before those of other units. -/
theorem lifts_insertEnum (name : String) (e : Enumeration) :
    Lifts (fun _ => True)
      (modify fun r => { r with enums := r.enums.insert name e } : ReadM Unit) := by
  intro r v r' hr hrun
  cases hrun
  refine ⟨trivial, ⟨hr.own, hr.ids, hr.level, hr.stack, hr.top, hr.radix⟩, ?_⟩
  rintro b s ⟨enums, locals, rfl, hfind⟩
  refine ⟨_, rfl, enums.insert name e, locals, rfl, fun name' => ?_⟩
  rw [Table.find?_insert, Table.find?_insert, hfind]
  split <;> simp

/-- An enumeration starts without values. -/
theorem lifts_declareEnumeration (s : Statement) :
    Lifts (fun _ => True) (declareEnumeration s) := by
  refine Lifts.bind (lifts_openNamed s) fun name _ => ?_
  split
  · exact Lifts.pure trivial
  · refine Lifts.get_bind (fun _ _ _ _ _ => rfl) fun _ _ => ?_
    exact Lifts.bind (.ofExcept _) fun size _ => lifts_insertEnum name ⟨size, ∅⟩

/-- A value goes into an enumeration of the unit, if there is one. -/
theorem lifts_declareEnumerator (parent : String) (s : Statement) :
    Lifts (fun _ => True) (declareEnumerator parent s) := by
  refine Lifts.bind (.ofExcept _) fun text _ => ?_
  refine Lifts.get_bind (fun _ _ _ _ _ => rfl) fun _ _ => ?_
  refine Lifts.bind (.ofExcept _) fun value _ => ?_
  -- an enumeration of this unit is found there, whatever the others have
  intro r v r' hr hrun
  simp only [EStateM.run_bind, EStateM.run_get] at hrun
  rcases henum : r.enums.find? parent with _ | e
  · rw [henum] at hrun
    cases hrun
  · rw [henum] at hrun
    cases hrun
    refine ⟨trivial, ⟨hr.own, hr.ids, hr.level, hr.stack, hr.top, hr.radix⟩, ?_⟩
    rintro b s ⟨enums, locals, rfl, hfind⟩
    have henum' : enums.find? parent = some e := by rw [hfind, henum]; rfl
    simp only [EStateM.run_bind, EStateM.run_get, henum', EStateM.run_set]
    refine ⟨_, rfl, _, locals, rfl, fun name' => ?_⟩
    rw [Table.find?_insert, Table.find?_insert, hfind]
    split <;> simp

/-! ## Members, bounds and variables -/

/-- The attributes are texts, as they are on a line. -/
def Attributes.AreTexts (a : Attributes) : Prop := ∀ key t, a.find? key = some t → ∃ s, t = .text s

section Attributes

variable {a : Attributes} {t : TypeExpr}

/-- What stands on a line is text. -/
theorem Line.areTexts_values (l : Line) : l.values.AreTexts := by
  intro key t h
  rw [Line.values, Table.find?_mapValues, Option.map_eq_some_iff] at h
  obtain ⟨s, -, rfl⟩ := h
  exact ⟨s, rfl⟩

/-- An attribute that is there is a text. -/
theorem Attributes.AreTexts.exists_text (h : a.AreTexts) {key : String} (ht : a.expr key = .ok t) :
    ∃ s, t = .text s := by
  rw [Attributes.expr] at ht
  rcases hfind : a.find? key with _ | u
  · rw [hfind] at ht
    cases ht
  · rw [hfind] at ht
    cases ht
    exact h key _ hfind

/-- A bit-field is a record under its own word. -/
theorem exists_fields_of_bitField {radix : Radix} (h : bitField radix a = .ok t) :
    ∃ fields, t = .list [.text "BitField", .record fields] := by
  simp only [bitField, bind, Except.bind] at h
  split at h
  · cases h
  split at h
  · cases h
  split at h
  · cases h
  split at h
  · cases h
    exact ⟨_, rfl⟩
  · cases h

variable {isName : String → Prop} {kinds : List String}

theorem Attributes.AreTexts.isEnd_expr (h : a.AreTexts) {key : String} (ht : a.expr key = .ok t) :
    IsEnd isName kinds t := by
  obtain ⟨s, rfl⟩ := h.exists_text ht
  exact .text s

/-- What an optional type stands for. -/
theorem Attributes.AreTexts.isEnd_getD (h : a.AreTexts) (ht : IsEnd isName kinds t) (key : String) :
    IsEnd isName kinds ((a.find? key).getD t) := by
  rcases hfind : a.find? key with _ | u
  · exact ht
  · obtain ⟨s, rfl⟩ := h key u hfind
    exact .text s

/-- A member is declared with a text, or with its bits. -/
theorem Attributes.AreTexts.isEnd_memberType (h : a.AreTexts) (hbits : "BitField" ∈ kinds)
    {radix : Radix} (ht : memberType radix a = .ok t) : IsEnd isName kinds t := by
  rw [memberType] at ht
  split at ht
  · obtain ⟨fields, rfl⟩ := exists_fields_of_bitField ht
    exact .record hbits fields
  · exact h.isEnd_expr ht

end Attributes

/-! ## Base types -/

/-- A name that a statement can give to a base type. -/
def IsBaseName (s : String) : Prop := ∃ radix a, scalarName radix a = .ok s

/-- The names of base types. -/
def baseNames : List String :=
  scalarNames.map Prod.snd ++ ["long long", "int", "short", "char", "unsigned long long",
    "unsigned int", "unsigned short", "unsigned char"]

theorem mem_of_integerOfSize {size : Int} {s : String} (h : integerOfSize size = .ok s) :
    s ∈ ["long long", "int", "short", "char"] := by
  rw [integerOfSize] at h
  split at h
  · cases h; decide
  split at h
  · cases h; decide
  split at h
  · cases h; decide
  split at h
  · cases h; decide
  · cases h

/-- **There are only so many names of base types.** -/
theorem IsBaseName.mem {s : String} (h : IsBaseName s) : s ∈ baseNames := by
  obtain ⟨radix, a, h⟩ := h
  rw [scalarName] at h
  split at h
  · -- by its name
    rcases htext : a.text "DW_AT_name" with f | text
    · rw [htext] at h
      cases h
    · rw [htext] at h
      simp only [bind, Except.bind] at h
      split at h
      · next s' hlookup =>
        cases h
        have hmem := (Table.lookup_eq_some_iff (by decide)).mp hlookup
        exact List.mem_append_left _ (List.mem_map_of_mem hmem)
      · cases h
  · -- by size and sign
    simp only [bind, Except.bind] at h
    split at h
    · cases h
    split at h
    · cases h
    split at h
    · cases h
    next name hname =>
      have hunsigned : ∀ name ∈ ["long long", "int", "short", "char"],
          name ∈ baseNames ∧ "unsigned " ++ name ∈ baseNames := by decide
      have hmem := hunsigned name (mem_of_integerOfSize hname)
      cases h
      split
      · exact hmem.2
      · exact hmem.1

/-- A member goes to a structure of the unit. -/
theorem lifts_addMember (parent name : String) {m : Member} (hm : IsRaw m.type) :
    Lifts (fun _ => True) (addMember parent name m) := by
  intro r v r' hr hrun
  simp only [addMember, EStateM.run_bind, EStateM.run_get, Reader.unitLayout?] at hrun
  rcases hfind : r.unit.find? parent with _ | e
  · rw [hfind] at hrun
    cases hrun
  · obtain ⟨l, rfl, hl⟩ := hr.own (parent, e) (Table.find?_eq_some_iff.mp hfind)
    simp only [hfind, EStateM.run_set, Reader.setUnitLayout] at hrun
    cases hrun
    refine ⟨trivial, hr.insertUnit fun n hn => ?_, ?_⟩
    · rcases Table.mem_values_insert hn with rfl | hn
      · exact hm
      · exact hl n hn
    · rintro b s ⟨enums, locals, rfl, henums⟩
      refine ⟨_, ?_, enums, locals, rfl, henums⟩
      simp only [addMember, EStateM.run_bind, EStateM.run_get, Reader.unitLayout?, hfind,
        EStateM.run_set, Reader.setUnitLayout]

section Statements

variable {s : Statement}

/-- A member of a structure has a raw type. -/
theorem lifts_declareStructMember (parent : String) (h : s.attributes.AreTexts) :
    Lifts (fun _ => True) (declareStructMember parent s) := by
  refine Lifts.bind (.ofExcept _) fun name _ => ?_
  split
  · refine Lifts.bind (.ofExcept _) fun offset _ => ?_
    refine Lifts.get_bind (fun _ _ _ _ _ => rfl) fun _ _ => ?_
    exact Lifts.bind (.ofExcept _) fun type htype =>
      lifts_addMember parent name (.tip (h.isEnd_memberType List.mem_cons_self htype))
  · exact Lifts.pure trivial

/-- So has a member of a union. -/
theorem lifts_declareUnionMember (parent : String) (h : s.attributes.AreTexts) :
    Lifts (fun _ => True) (declareUnionMember parent s) := by
  refine Lifts.bind (.ofExcept _) fun name _ => ?_
  exact Lifts.bind (.ofExcept _) fun type htype =>
    lifts_addMember parent name (.tip (h.isEnd_expr htype))

/-- A type is recorded under an id. -/
theorem lifts_modify_declare {t : TypeExpr} (id : String) (ht : IsRaw t) :
    Lifts (fun _ => True) (modify fun r => r.declare id t : ReadM Unit) :=
  Lifts.modify (fun _ hr => hr.declare ht) (fun _ _ _ _ _ => rfl) fun _ => rfl

/-- A bound makes an array of what the id stood for, which was raw. -/
theorem lifts_declareBound (parent : String) (s : Statement) :
    Lifts (fun _ => True) (declareBound parent s) := by
  have helement : ∀ count, Lifts (fun _ => True) (do
      let element ← ofExcept ((← get).ids.get parent)
      modify fun r => r.declare parent (.array count element) : ReadM Unit) := by
    intro count
    refine Lifts.get_bind (fun _ _ _ _ _ => rfl) fun r hr => ?_
    refine Lifts.bind (.ofExcept _) fun element h => lifts_modify_declare parent (IsSpineOf.array _ ?_)
    have hmem := Table.find?_eq_some_iff.mp (IdTable.get_eq_ok_iff.mp h)
    exact hr.ids element (List.mem_map_of_mem hmem)
  rw [declareBound]
  split
  · exact Lifts.bind (.ofExcept _) fun count _ => helement count
  · exact helement 0

/-- A global variable goes into the table of the unit. -/
theorem lifts_declareGlobal (s : Statement) : Lifts (fun _ => True) (declareGlobal s) := by
  rw [declareGlobal]
  split
  · refine Lifts.bind (.ofExcept _) fun location _ => ?_
    split
    · exact Lifts.pure trivial
    · refine Lifts.bind (.ofExcept _) fun address _ => ?_
      refine Lifts.bind (.ofExcept _) fun type _ => ?_
      refine Lifts.bind (.ofExcept _) fun name _ => ?_
      refine Lifts.modify (fun r hr => ?_) (fun _ _ _ _ _ => rfl) fun _ => rfl
      exact ⟨hr.own, hr.ids, hr.level, hr.stack, hr.top, hr.radix⟩
  · exact Lifts.pure trivial

/-- A local variable is collected apart. -/
theorem lifts_declareLocal (a : Attributes) : Lifts (fun _ => True) (declareLocal a) := by
  rw [declareLocal]
  split
  · refine Lifts.bind (.ofExcept _) fun name _ => ?_
    refine Lifts.get_bind (fun _ _ _ _ _ => rfl) fun _ _ => ?_
    refine Lifts.bind (.ofExcept _) fun line _ => ?_
    refine Lifts.bind (.ofExcept _) fun text _ => ?_
    have hfile : ∀ file, Lifts (fun _ => True) (do
        let type ← ofExcept (a.expr "DW_AT_type")
        modify fun r : Reader => { r with
          unitLocals := r.unitLocals ++ [⟨name, line, file, type⟩] } : ReadM Unit) := by
      intro file
      refine Lifts.bind (.ofExcept _) fun type _ => ?_
      refine Lifts.modify (fun r hr => ?_) (fun _ _ _ _ _ => rfl) fun _ => rfl
      exact ⟨hr.own, hr.ids, hr.level, hr.stack, hr.top, hr.radix⟩
    dsimp only
    split
    · exact hfile _
    · exact Lifts.bind (.throw .shortList) fun file h => h.elim
  · exact Lifts.pure trivial

/-! ## All statements -/

/-- **Statements lift**, but for the start of a unit. -/
theorem lifts_declare (h : s.attributes.AreTexts) (hkind : Tag.ofKind s.kind ≠ .compileUnit)
    (parent : Option Frame) : Lifts (fun _ => True) (declare s parent) := by
  rw [declare.eq_def]
  rcases htag : Tag.ofKind s.kind
  case compileUnit => exact (hkind htag).elim
  case struct => exact lifts_declareLayout s
  case union => exact lifts_declareLayout s
  case array =>
    exact Lifts.bind (.ofExcept _) fun type htype => lifts_modify_declare s.id (.tip (h.isEnd_expr htype))
  case enumeration => exact lifts_declareEnumeration s
  case pointer => exact lifts_modify_declare s.id (IsSpineOf.pointer (.tip (h.isEnd_getD (.named trivial) _)))
  case base =>
    refine Lifts.get_bind (fun _ _ _ _ _ => rfl) fun _ _ => ?_
    exact Lifts.bind (.ofExcept _) fun name _ => lifts_modify_declare s.id (.tip (.named trivial))
  case qualifier => exact lifts_modify_declare s.id (.tip (h.isEnd_getD (.named trivial) _))
  case blank => exact lifts_modify_declare s.id (.tip (.named trivial))
  case synonym => exact lifts_modify_declare s.id (.tip (h.isEnd_getD (.text _) _))
  case datum =>
    dsimp only
    split
    · exact lifts_declareGlobal s
    · exact Lifts.pure trivial
  case member =>
    rcases parent with _ | p
    · exact Lifts.pure trivial
    · dsimp only
      split
      · exact lifts_declareStructMember p.name h
      · exact lifts_declareUnionMember p.name h
      · exact Lifts.pure trivial
  case enumerator =>
    rcases parent with _ | p
    · exact Lifts.pure trivial
    · dsimp only
      split
      · exact lifts_declareEnumerator p.name s
      · exact Lifts.pure trivial
  case bound =>
    rcases parent with _ | p
    · exact Lifts.pure trivial
    · dsimp only
      split
      · exact lifts_declareBound p.name s
      · exact Lifts.pure trivial
  case other => exact Lifts.pure trivial

/-- A statement opens, and then declares something. -/
theorem lifts_readStatement (h : s.attributes.AreTexts) (hkind : Tag.ofKind s.kind ≠ .compileUnit)
    (hlevel : ∀ n, Numeral.read .decimal s.level = .ok n → 0 ≤ n) :
    Lifts (fun _ => True) (readStatement s) := by
  refine Lifts.bind (.ofExcept _) fun level hread => ?_
  refine Lifts.bind (lifts_openFrame (hlevel level hread) _) fun _ _ => ?_
  exact Lifts.get_bind (fun _ _ _ _ _ => rfl) fun r _ => lifts_declare h hkind r.parent?

end Statements

/-! ## Lines -/

theorem exists_digitChar {c : Char} (h : c.isDigit = true) : ∃ d < 16, c = Nat.digitChar d := by
  have hrange : 48 ≤ c.toNat ∧ c.toNat ≤ 57 := Char.isDigit_iff_toNat.mp h
  have hchar : ∀ d < 10, Char.ofNat (48 + d) = Nat.digitChar d := by decide
  refine ⟨c.toNat - 48, by omega, ?_⟩
  rw [← hchar _ (by omega), Nat.add_sub_cancel' hrange.1, Char.ofNat_toNat]

/-- The level of a line is a run of digits. -/
theorem Line.isRunOf_level {line : String} {l : Line} (h : Line.parse? line = some l) :
    isRunOf Char.isDigit l.header.level.toList = true := by
  obtain ⟨header, rest, hheader, rfl⟩ : ∃ header rest, header? line.toList = some (header, rest) ∧
      l = ⟨header, .ofList (Dump.attributes rest)⟩ := by
    rw [Line.parse?] at h
    split at h
    · next header rest hheader => exact ⟨header, rest, hheader, (Option.some.inj h).symm⟩
    · cases h
  simp only [header?, bind, Option.bind_eq_some_iff] at hheader
  obtain ⟨level, -, id, -, kind, -, hheader⟩ := hheader
  split at hheader
  · next hrun =>
    cases hheader
    rw [String.toList_ofList]
    simp only [Bool.and_eq_true] at hrun
    exact hrun.1.1
  · cases hheader

/-- A run of digits is a number. -/
theorem exists_digitsFrom? {cs : List Char} (h : ∀ c ∈ cs, c.isDigit = true) :
    ∀ n, ∃ k, Numeral.digitsFrom? 10 n cs = some k := by
  induction cs with
  | nil => exact fun n => ⟨n, rfl⟩
  | cons c cs ih =>
    intro n
    obtain ⟨hc, hcs⟩ := List.forall_mem_cons.mp h
    have hrange : 48 ≤ c.toNat ∧ c.toNat ≤ 57 := Char.isDigit_iff_toNat.mp hc
    have hdigit : Numeral.digit? 10 c = some (c.toNat - 48) := by
      rw [Numeral.digit?, if_pos hrange, if_pos (by omega)]
    simp only [Numeral.digitsFrom?, hdigit]
    exact ih hcs _

/-- The level of a line is a number, and not negative: it has no sign. -/
theorem Line.exists_level {line : String} {l : Line} (h : Line.parse? line = some l) :
    ∃ n : Nat, Numeral.read .decimal l.header.level = .ok n := by
  obtain ⟨hne, hdigits⟩ := isRunOf_iff.mp (Line.isRunOf_level h)
  have hread := Numeral.read?_eq_unsigned? (r := .decimal) fun c hc =>
    Or.inr (exists_digitChar (hdigits c hc))
  obtain ⟨n, hn⟩ := exists_digitsFrom? hdigits 0
  refine ⟨n, ?_⟩
  rw [Numeral.read, hread, Numeral.unsigned?, Numeral.digits?_of_ne_nil hne, hn]
  rfl

/-- So what is read as the level is not negative. -/
theorem Line.level_nonneg {line : String} {l : Line} (h : Line.parse? line = some l) {n : Int}
    (hn : Numeral.read .decimal l.header.level = .ok n) : 0 ≤ n := by
  obtain ⟨k, hk⟩ := Line.exists_level h
  rw [hk] at hn
  cases hn
  exact Int.natCast_nonneg k

/-- A line that starts a compile unit. -/
def StartsUnit (line : String) : Prop :=
  ∃ l, Line.parse? line = some l ∧ Tag.ofKind l.header.kind = .compileUnit

/-- **Lines lift**, but for those that start a unit. -/
theorem lifts_readLine {line : String} (h : ¬ StartsUnit line) :
    Lifts (fun _ => True) (readLine line) := by
  rw [readLine]
  rcases hparse : Line.parse? line with _ | l
  · exact Lifts.pure trivial
  · have hstatement : Lifts (fun _ => True)
        (if isLocalKind l.header.kind then declareLocal l.values else readStatement l.statement) := by
      split
      · exact lifts_declareLocal l.values
      · exact lifts_readStatement l.areTexts_values (fun hkind => h ⟨l, hparse, hkind⟩)
          fun n hn => Line.level_nonneg hparse hn
    dsimp only
    split
    · refine Lifts.bind (Lifts.modify (fun r hr => ?_) (fun _ _ _ _ _ => rfl) fun _ => rfl)
        fun _ _ => hstatement
      exact ⟨hr.own, hr.ids, hr.level, hr.stack, hr.top, by simp⟩
    · exact hstatement

/-- **Lines inside a unit lift**, all of them. -/
theorem lifts_readLines {lines : List String} (h : ∀ line ∈ lines, ¬ StartsUnit line) :
    Lifts (fun _ => True) (readLines lines) := by
  induction lines with
  | nil => exact Lifts.pure trivial
  | cons line lines ih =>
    obtain ⟨hline, hlines⟩ := List.forall_mem_cons.mp h
    exact Lifts.bind (lifts_readLine hline) fun _ _ => ih hlines

/-! ## Units -/

/-- The lines of a compile unit: one that starts it, at the outermost level, and others that start
none. -/
def IsUnit : List String → Prop
  | [] => False
  | line :: lines =>
    (∃ l, Line.parse? line = some l ∧ Tag.ofKind l.header.kind = .compileUnit ∧
      Numeral.read .decimal l.header.level = .ok 0) ∧ ∀ line ∈ lines, ¬ StartsUnit line

/-- The first line of a unit has a hexadecimal id. -/
def StartsHexadecimal : List String → Prop
  | [] => False
  | line :: _ => ∃ l, Line.parse? line = some l ∧ l.header.isHex = true

/-- A reader before the first line, or inside a unit. -/
def Reader.IsPlaced (r : Reader) : Prop := (r.level < 0 ∧ r.stack = []) ∨ r.IsReading

/-- The start of a unit closes all open statements. -/
theorem run_openFrame_zero {r : Reader} (h : r.IsPlaced) (frame : Frame) :
    (openFrame 0 frame).run r = .ok () { r with level := 0, stack := [frame] } := by
  simp only [openFrame, EStateM.run_bind, EStateM.run_get]
  rcases h with ⟨hlevel, hstack⟩ | h
  · rw [if_pos hlevel, hstack]
    rfl
  · have hlevel := h.level
    have hpos := List.length_pos_iff.mpr h.stack
    have hlength : (if 0 < r.level then keepFirst (0 + 1) r.stack else r.stack).length = 1 := by
      split
      · rw [keepFirst, if_pos (by omega), List.length_take]
        omega
      · exact h.top (by omega)
    obtain ⟨f, hf⟩ := List.length_eq_one_iff.mp hlength
    rw [if_neg (by omega), hf]
    rfl

/-- The notation after a line with a given header. -/
def Header.radix (h : Header) (radix : Radix) : Radix := if h.isHex then .hexadecimal else radix

/-- A line that declares neither a variable nor a parameter is read as its statement. -/
theorem run_readLine_of_parse? {line : String} {l : Line} (hparse : Line.parse? line = some l)
    (hlocal : isLocalKind l.header.kind = false) {r : Reader} :
    (readLine line).run r =
      (readStatement l.statement).run { r with radix := l.header.radix r.radix } := by
  rw [readLine, hparse, Header.radix]
  by_cases hhex : l.header.isHex = true
  · simp only [hlocal, hhex, Bool.false_eq_true, if_false, if_true]
    rfl
  · simp only [hlocal, hhex, Bool.false_eq_true, if_false]

/-- A variable or a parameter is collected. -/
theorem run_readLine_of_local {line : String} {l : Line} (hparse : Line.parse? line = some l)
    (hlocal : isLocalKind l.header.kind = true) {r : Reader} :
    (readLine line).run r =
      (declareLocal l.values).run { r with radix := l.header.radix r.radix } := by
  rw [readLine, hparse, Header.radix]
  by_cases hhex : l.header.isHex = true
  · simp only [hlocal, hhex, if_true]
    rfl
  · simp only [hlocal, hhex, Bool.false_eq_true, if_false, if_true]

/-- The tables after publishing, and nothing else. -/
def Reader.published (r : Reader) : Reader where
  types := r.publishedTypes
  globals := r.joinedGlobals
  enums := r.enums

/-- A reader at the first line of a unit. -/
def Reader.atStart (r : Reader) (h : Header) (radix : Radix) (locals : List Local) : Reader :=
  { r with level := 0, stack := [⟨h.kind, h.id⟩], radix := h.radix radix, locals }

/-- A reader at a line that starts a unit. -/
def Reader.beforeStart (r : Reader) (h : Header) : Reader :=
  { r with level := 0, stack := [⟨h.kind, h.id⟩], radix := h.radix r.radix }

/-- The line that starts a unit is read as the start of a unit. -/
theorem run_readLine_eq_startUnit {line : String} {l : Line} (hparse : Line.parse? line = some l)
    (hkind : Tag.ofKind l.header.kind = .compileUnit)
    (hlevel : Numeral.read .decimal l.header.level = .ok 0) {r : Reader} (hr : r.IsPlaced) :
    (readLine line).run r = startUnit.run (r.beforeStart l.header) := by
  have hlocal : isLocalKind l.header.kind = false := by
    rw [isLocalKind, Bool.or_eq_false_iff, beq_eq_false_iff_ne, beq_eq_false_iff_ne]
    constructor
    · intro hk
      rw [hk] at hkind
      cases hkind
    · intro hk
      rw [hk] at hkind
      cases hkind
  have hplaced : Reader.IsPlaced { r with radix := l.header.radix r.radix } := by
    refine hr.imp id fun hr => ⟨hr.own, hr.ids, hr.level, hr.stack, hr.top, ?_⟩
    rw [Header.radix]
    split
    · simp
    · exact hr.radix
  have hopen := run_openFrame_zero hplaced ⟨l.header.kind, l.header.id⟩
  rw [run_readLine_of_parse? hparse hlocal, readStatement]
  simp only [Line.statement, hlevel, EStateM.run_bind, run_ofExcept_ok, hopen, EStateM.run_get]
  rw [declare.eq_def]
  simp only [hkind]
  rfl

/-- **The start of a unit** publishes the last one and leaves nothing but what is published. -/
theorem run_readLine_start {line : String} {l : Line} (hparse : Line.parse? line = some l)
    (hkind : Tag.ofKind l.header.kind = .compileUnit)
    (hlevel : Numeral.read .decimal l.header.level = .ok 0) {r : Reader} (hr : r.IsPlaced)
    (hown : r.IsOwn) (h : Publishable r) :
    ∃ locals, (readLine line).run r = .ok () (r.published.atStart l.header r.radix locals) := by
  -- what is published depends neither on the place nor on the notation
  obtain ⟨s', hpublish, hs'⟩ := @run_publish (r.beforeStart l.header) hown
    ⟨h.layouts, h.globals, h.locals, h.atoms, h.enums⟩
  refine ⟨s'.locals ++ s'.unitLocals, ?_⟩
  rw [run_readLine_eq_startUnit hparse hkind hlevel hr, run_startUnit hpublish, Reader.cleared,
    hs'.types, hs'.globals, hs'.enums, hs'.level, hs'.stack, hs'.radix]
  rfl

/-- If it gives no fault, the last unit could be published. -/
theorem of_run_readLine_start {line : String} {l : Line} (hparse : Line.parse? line = some l)
    (hkind : Tag.ofKind l.header.kind = .compileUnit)
    (hlevel : Numeral.read .decimal l.header.level = .ok 0) {r r' : Reader} (hr : r.IsPlaced)
    (hown : r.IsOwn) (h : (readLine line).run r = .ok () r') :
    Publishable r ∧ ∃ locals, r' = r.published.atStart l.header r.radix locals := by
  have hrun := h
  rw [run_readLine_eq_startUnit hparse hkind hlevel hr] at hrun
  obtain ⟨_, s, hpublish, -⟩ := run_bind_eq_ok_iff.mp hrun
  obtain ⟨⟨hlayouts, hglobals, hlocals, hatoms, henums⟩, -⟩ :=
    @of_run_publish (r.beforeStart l.header) s hown hpublish
  have hpublishable : Publishable r := ⟨hlayouts, hglobals, hlocals, hatoms, henums⟩
  obtain ⟨locals, hstart⟩ := run_readLine_start hparse hkind hlevel hr hown hpublishable
  exact ⟨hpublishable, locals, (EStateM.Result.ok.inj (h.symm.trans hstart)).2⟩

theorem publishable_default : Publishable {} := by
  refine ⟨?_, rfl, ⟨[], rfl⟩, ?_, ?_⟩
  · intro e he
    cases he
  · intro t ht
    cases ht
  · intro e he
    have hmem := (entries_pruned_sublist _ _).subset he
    cases hmem

theorem published_default : ({} : Reader).published = {} := by
  have hnil := List.sublist_nil.mp
    (entries_pruned_sublist ({} : Reader).joinedTypes ({} : Reader).joinedGlobals)
  have htypes : ({} : Reader).publishedTypes = ∅ := by
    refine Table.ext ?_
    rw [Reader.publishedTypes, Table.entries_mapValues, hnil]
    rfl
  rw [Reader.published, htypes]
  rfl

/-- A reader at the start of a unit is inside one. -/
theorem isReading_atStart (h : Header) (locals : List Local) :
    Reader.IsReading (Reader.atStart {} h .decimal locals) := by
  refine ⟨fun e he => absurd he List.not_mem_nil, fun t ht => absurd ht List.not_mem_nil,
    le_refl _, List.cons_ne_nil _ _, fun _ => rfl, ?_⟩
  rw [Reader.atStart, Header.radix]
  split <;> simp

/-- **A unit reads alike over all published tables.** -/
theorem run_readLines_unit {lines : List String} (h : IsUnit lines) {r : Reader}
    (hr : (readLines lines).run {} = .ok () r) :
    r.IsReading ∧ r.types = ∅ ∧ r.globals = ∅ ∧
      ∀ s : Reader, s.IsPlaced → s.IsOwn → Publishable s →
        (s.radix = .decimal ∨ StartsHexadecimal lines) →
          ∃ s', (readLines lines).run s = .ok () s' ∧ Over s.published r s' := by
  cases lines with
  | nil => exact h.elim
  | cons line lines =>
    obtain ⟨⟨l, hparse, hkind, hlevel⟩, hlines⟩ := h
    have hown : ({} : Reader).IsOwn := fun e he => absurd he List.not_mem_nil
    obtain ⟨ls, hstart⟩ := run_readLine_start hparse hkind hlevel (.inl ⟨by decide, rfl⟩) hown
      publishable_default
    rw [published_default] at hstart
    rw [run_readLines_cons hstart] at hr
    obtain ⟨-, hreading, hover⟩ := lifts_readLines hlines _ () r (isReading_atStart _ _) hr
    -- over no tables at all, the unit is read as it is
    obtain ⟨r', hr', enums, locals, heq, -⟩ := hover {} _ ⟨∅, ls, rfl, fun _ => rfl⟩
    obtain rfl : r = r' := (EStateM.Result.ok.inj (hr.symm.trans hr')).2
    refine ⟨hreading, congrArg Reader.types heq, congrArg Reader.globals heq, ?_⟩
    intro s hplaced hown' hpublishable hradix
    obtain ⟨ls', hstart'⟩ := run_readLine_start hparse hkind hlevel hplaced hown' hpublishable
    have hradix_eq : l.header.radix s.radix = l.header.radix .decimal := by
      rcases hradix with hradix | ⟨l', hparse', hhex⟩
      · rw [hradix]
      · obtain rfl : l = l' := Option.some.inj (hparse.symm.trans hparse')
        rw [Header.radix, Header.radix, if_pos hhex, if_pos hhex]
    rw [Reader.atStart, hradix_eq] at hstart'
    rw [run_readLines_cons hstart']
    exact hover _ _ ⟨s.enums, ls', rfl, fun _ => rfl⟩

end CpuTrace.Dump
