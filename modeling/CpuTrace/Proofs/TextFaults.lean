import CpuTrace.Proofs.Unfolding
import CpuTrace.Proofs.UnitReading
import Mathlib

/-!
# Faults of texts

Attributes that are texts can be missing, or hold something that cannot be read. They are never of the
wrong kind, so two faults do not arise from them: that a value to be taken apart is no text, and that
a value is of a kind that an operation does not take. What is left are **plain** faults
(`IsPlainFault`), and every value that a statement or the end of a unit looks up has no others
(`HasPlainFaults`).
-/

namespace CpuTrace.Dump

/-- A fault for which a text of the dump is to blame: one that is missing, or that cannot be read. -/
def IsPlainFault : Fault → Prop
  | .noFrame | .notText | .illTyped => False
  | _ => True

/-- All faults of a result are plain. -/
def HasPlainFaults {α : Type} (x : Except Fault α) : Prop := ∀ e, x = .error e → IsPlainFault e

section PlainFaults

variable {α β : Type}

theorem HasPlainFaults.ok (a : α) : HasPlainFaults (.ok a : Except Fault α) := by
  intro e h
  cases h

theorem HasPlainFaults.error {e : Fault} (h : IsPlainFault e) :
    HasPlainFaults (.error e : Except Fault α) := by
  intro e' he
  cases he
  exact h

/-- A lookup that goes on from another one has the faults of both. -/
theorem HasPlainFaults.bind {x : Except Fault α} {f : α → Except Fault β} (hx : HasPlainFaults x)
    (hf : ∀ a, HasPlainFaults (f a)) : HasPlainFaults (x >>= f) := by
  rcases x with e | a
  · exact .error (hx e rfl)
  · exact hf a

/-- A change of the value adds no fault. -/
theorem HasPlainFaults.map {x : Except Fault α} (g : α → β) (hx : HasPlainFaults x) :
    HasPlainFaults (x.map g) := by
  rcases x with e | a
  · exact .error (hx e rfl)
  · exact .ok _

/-- A text that is no numeral is a plain fault. -/
theorem hasPlainFaults_read (radix : Radix) (s : String) : HasPlainFaults (Numeral.read radix s) := by
  rw [Numeral.read]
  split
  · exact .ok _
  · exact .error trivial

/-! ## Attributes -/

variable {a : Attributes}

/-- So is an attribute that is not there. -/
theorem hasPlainFaults_expr (a : Attributes) (key : String) : HasPlainFaults (a.expr key) := by
  rw [Attributes.expr]
  split
  · exact .ok _
  · exact .error trivial

/-- The attribute of a key is missing or a text. -/
theorem Attributes.AreTexts.expr_cases (h : a.AreTexts) (key : String) :
    a.expr key = .error (.missingName key) ∨ ∃ s, a.expr key = .ok (.text s) := by
  rw [Attributes.expr]
  rcases hfind : a.find? key with _ | t
  · exact .inl rfl
  · obtain ⟨s, rfl⟩ := h key t hfind
    exact .inr ⟨s, rfl⟩

/-- An attribute that should be a text is one, or it is missing. -/
theorem Attributes.AreTexts.text (h : a.AreTexts) (key : String) : HasPlainFaults (a.text key) := by
  rw [Attributes.text]
  rcases h.expr_cases key with he | ⟨s, he⟩ <;> rw [he]
  · exact .error trivial
  · exact .ok s

/-- An attribute that should be a number is a text, so only its reading can fail. -/
theorem Attributes.AreTexts.numberBy (h : a.AreTexts) {read : String → Except Fault Int}
    (hread : ∀ s, HasPlainFaults (read s)) (key : String) : HasPlainFaults (a.numberBy read key) := by
  rw [Attributes.numberBy]
  rcases h.expr_cases key with he | ⟨s, he⟩ <;> rw [he]
  · exact .error trivial
  · exact hread s

theorem Attributes.AreTexts.number (h : a.AreTexts) (radix : Radix) (key : String) :
    HasPlainFaults (a.number radix key) := by
  rw [Attributes.number]
  rcases h.expr_cases key with he | ⟨s, he⟩ <;> rw [he]
  · exact .error trivial
  · exact hasPlainFaults_read radix s

/-- A name that something goes into a table by is a text, or it is missing. -/
theorem Attributes.AreTexts.tableKey (h : a.AreTexts) (key : String) :
    HasPlainFaults (a.tableKey key) := by
  rw [Attributes.tableKey]
  rcases h.expr_cases key with he | ⟨s, he⟩ <;> rw [he]
  · exact .error trivial
  · exact .ok s

/-- A size that no integer has is a plain fault. -/
theorem hasPlainFaults_integerOfSize (size : Int) : HasPlainFaults (integerOfSize size) := by
  rw [integerOfSize]
  split
  · exact .ok _
  split
  · exact .ok _
  split
  · exact .ok _
  split
  · exact .ok _
  · exact .error trivial

/-- The scalar of a base type is looked up by its name, or by its size. -/
theorem Attributes.AreTexts.scalarName (h : a.AreTexts) (radix : Radix) :
    HasPlainFaults (scalarName radix a) := by
  rw [Dump.scalarName]
  split
  · refine .bind (h.text _) fun name => ?_
    cases hlookup : scalarNames.lookup (Text.strip '"' name) with
    | none => simp only [hlookup]; exact .error trivial
    | some s => simp only [hlookup]; exact .ok s
  · refine .bind (h.number radix _) fun size => .bind (hasPlainFaults_expr a _) fun encoding => ?_
    exact .bind (hasPlainFaults_integerOfSize size) fun name => .ok _

/-- The parts of a bit-field are texts and numbers. -/
theorem Attributes.AreTexts.bitField (h : a.AreTexts) (radix : Radix) :
    HasPlainFaults (bitField radix a) := by
  rw [Dump.bitField]
  refine .bind (h.number radix _) fun bytes => .bind (h.number radix _) fun first => ?_
  refine .bind (h.number radix _) fun width => ?_
  split
  · exact .ok _
  · exact .error trivial

/-- The type of a member is a bit-field, or the text of its attribute. -/
theorem Attributes.AreTexts.memberType (h : a.AreTexts) (radix : Radix) :
    HasPlainFaults (memberType radix a) := by
  rw [Dump.memberType]
  split
  · exact h.bitField radix
  · exact hasPlainFaults_expr a _

/-- The offset of a member is the second word of its location, or else the text before a
parenthesis, read as a number. -/
theorem hasPlainFaults_memberOffset (s : String) : HasPlainFaults (memberOffset s) := by
  rw [memberOffset]
  split
  · exact .ok _
  · exact hasPlainFaults_read _ _

theorem hasPlainFaults_enumeratorValue (radix : Radix) (s : String) :
    HasPlainFaults (enumeratorValue radix s) := by
  rw [enumeratorValue]
  split
  · exact .ok _
  · exact hasPlainFaults_read _ _

/-! ## References -/

theorem hasPlainFaults_get (ids : IdTable) (id : String) : HasPlainFaults (ids.get id) := by
  rw [IdTable.get]
  split
  · exact .ok _
  · exact .error trivial

/-- **Following references** adds no fault to those of what is followed: lists are gone through item
by item. -/
theorem hasPlainFaults_mapReferences {follow : String → Except Fault TypeExpr}
    (hfollow : ∀ id, HasPlainFaults (follow id)) (t : TypeExpr) :
    HasPlainFaults (mapReferences follow t) := by
  intro e h
  obtain ⟨id, -, hid⟩ := exists_cites_of_error h
  exact hfollow id e hid

/-- Nor does following them to any depth: an id that stands for nothing and a chain that does not
end are plain faults. -/
theorem hasPlainFaults_resolve (ids : IdTable) (t : TypeExpr) : HasPlainFaults (ids.resolve t) := by
  have hdepth : ∀ (d : Nat) (t : TypeExpr), HasPlainFaults (ids.resolveWithin d t) := by
    intro d
    induction d with
    | zero => exact hasPlainFaults_mapReferences fun _ => .error trivial
    | succ d ih =>
      refine hasPlainFaults_mapReferences fun id => ?_
      rcases hget : ids.get id with e | t
      · exact .error (hasPlainFaults_get ids id e hget)
      · exact ih t
  exact hdepth _ t

/-- The types of global variables are resolved one after the other, up to the first fault. -/
theorem hasPlainFaults_resolveGlobals (ids : IdTable) (vs : List (String × Variable)) :
    HasPlainFaults (resolveGlobals ids vs) := by
  induction vs with
  | nil => exact .ok _
  | cons v vs ih =>
    rw [resolveGlobals]
    exact .bind (hasPlainFaults_resolve ids _) fun t => .bind ih fun rest => .ok _

/-- So are those of local variables. -/
theorem hasPlainFaults_resolveLocals (ids : IdTable) (vs : List Local) :
    HasPlainFaults (resolveLocals ids vs) := by
  rw [resolveLocals]
  induction vs with
  | nil => exact .ok _
  | cons v vs ih =>
    rw [List.mapM_cons]
    refine .bind (.bind (hasPlainFaults_resolve ids _) fun t => .ok _) fun v => ?_
    exact .bind ih fun rest => .ok _

end PlainFaults

end CpuTrace.Dump
