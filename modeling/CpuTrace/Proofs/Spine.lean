import CpuTrace.Dump.Publish
import CpuTrace.Proofs.Unfolding
import Mathlib

/-!
# Spines

The type of a member is a chain of pointers and arrays with something at its end. `Spine` is the
chain, and `Spine.plug` puts an expression at its end. The two traversals of type expressions only
see the end: `deepest` finds the name there (`memberName_plug_named`), and `replace` exchanges it
(`replace_plug_named`).

All grammars of types are of this one form (`IsSpineOf`), and differ in what may stand at the end
(`IsEnd`): which names, and which words with a record. So what is said about the end of a type is said
once for all of them: its name (`IsSpineOf.memberName`), and where its references lead
(`IsEnd.mapReferences_cases`).
-/

namespace CpuTrace

/-- A chain of pointers and arrays. -/
inductive Spine where
  /-- the chain ends -/
  | tip
  /-- a pointer to what follows -/
  | pointer (s : Spine)
  /-- a number of what follows -/
  | array (count : Int) (s : Spine)

namespace Spine

/-- The type that has a given one at the end of the chain. -/
def plug : Spine → TypeExpr → TypeExpr
  | tip, t => t
  | pointer s, t => .pointer (s.plug t)
  | array count s, t => .array count (s.plug t)

/-! ## Names -/

/-- A pointer adds no name to that of its target. -/
theorem deepest_pointer (t : TypeExpr) :
    (TypeExpr.pointer t).deepest = t.deepest.orElse (.atom .none) := by
  simp only [TypeExpr.deepest, TypeExpr.deepestOf]
  rfl

/-- Nor does an array to that of its element. -/
theorem deepest_array (count : Int) (t : TypeExpr) :
    (TypeExpr.array count t).deepest = t.deepest.orElse (.atom .none) := by
  simp only [TypeExpr.deepest, TypeExpr.deepestOf]
  rfl

theorem memberName_eq (offset : Int) (t : TypeExpr) :
    Dump.memberName ⟨offset, t⟩ = t.deepest.orElse (.atom .none) := by
  simp only [Dump.memberName, TypeExpr.deepest, TypeExpr.deepestOf]
  rfl

theorem orElse_orElse (t : TypeExpr) :
    (t.orElse (.atom .none)).orElse (.atom .none) = t.orElse (.atom .none) := by
  by_cases h : t.isVoid = true
  · simp [TypeExpr.orElse, h]
  · simp [TypeExpr.orElse, h]

/-- The chain does not matter to the name that is found. -/
theorem memberName_plug (offset : Int) (s : Spine) (t : TypeExpr) :
    Dump.memberName ⟨offset, s.plug t⟩ = t.deepest.orElse (.atom .none) := by
  have hspine : (s.plug t).deepest.orElse (.atom .none) = t.deepest.orElse (.atom .none) := by
    induction s with
    | tip => rfl
    | pointer s ih => rw [plug, deepest_pointer, orElse_orElse, ih]
    | array count s ih => rw [plug, deepest_array, orElse_orElse, ih]
  rw [memberName_eq, hspine]

/-- **The name at the end** is the name of a member. -/
theorem memberName_plug_named (offset : Int) (s : Spine) {name : String} (h : name ≠ "") :
    Dump.memberName ⟨offset, s.plug (.named name)⟩ = .text name := by
  have hvoid : (TypeExpr.text name).isVoid = false := by simp [TypeExpr.isVoid, h]
  rw [memberName_plug, TypeExpr.deepest, TypeExpr.orElse, hvoid, if_neg Bool.false_ne_true]

/-- A bare text at the end is no name. -/
theorem memberName_plug_text (offset : Int) (s : Spine) (x : String) :
    Dump.memberName ⟨offset, s.plug (.text x)⟩ = .atom .none := by
  rw [memberName_plug, TypeExpr.deepest]
  rfl

/-! ## Exchanging the end -/

/-- **The name at the end** is what `replace` exchanges, and nothing else is. -/
theorem replace_plug_named (s : Spine) (name : String) (t : TypeExpr) :
    (s.plug (.named name)).replace (.named name) t = s.plug t := by
  induction s with
  | tip => rw [plug, TypeExpr.replace, if_pos rfl, plug]
  | pointer s ih => simp [plug, TypeExpr.replace, TypeExpr.replaceList, ih]
  | array count s ih => simp [plug, TypeExpr.replace, TypeExpr.replaceList, ih]

end Spine

namespace Dump

/-! ## Grammars of types -/

/-- Whether a text is a reference. -/
def isReference (s : String) : Bool := s.toList.head? == some '<'

/-- The types that say more about themselves in a record. -/
def recordKinds : List String := ["BitField", "Enumeration"]

/-- **What can stand at the end of a type**, given which names and which records can. -/
inductive IsEnd (isName : String → Prop) (kinds : List String) : TypeExpr → Prop
  /-- a bare text, a reference or not -/
  | text (s : String) : IsEnd isName kinds (.text s)
  /-- a name -/
  | named {s : String} (h : isName s) : IsEnd isName kinds (.named s)
  /-- a bit-field or an enumeration -/
  | record {kind : String} (h : kind ∈ kinds) (fields : List (Atom × TypeExpr)) :
    IsEnd isName kinds (.list [.text kind, .record fields])

/-- A spine with something of a kind at its end. -/
def IsSpineOf (P : TypeExpr → Prop) (t : TypeExpr) : Prop :=
  ∃ (s : Spine) (b : TypeExpr), P b ∧ t = s.plug b

section Grammar

variable {P : TypeExpr → Prop} {isName : String → Prop} {kinds : List String} {t u : TypeExpr}

/-- More names and more records give a larger grammar. -/
theorem IsEnd.mono {isName' : String → Prop} {kinds' : List String} (h : IsEnd isName kinds t)
    (hnames : ∀ s, isName s → isName' s) (hkinds : kinds ⊆ kinds') : IsEnd isName' kinds' t := by
  cases h with
  | text s => exact .text s
  | named h => exact .named (hnames _ h)
  | record h fields => exact .record (hkinds h) fields

theorem IsSpineOf.tip (h : P t) : IsSpineOf P t := ⟨.tip, t, h, rfl⟩

theorem IsSpineOf.pointer (h : IsSpineOf P t) : IsSpineOf P (.pointer t) := by
  obtain ⟨s, b, hb, rfl⟩ := h
  exact ⟨.pointer s, b, hb, rfl⟩

theorem IsSpineOf.array (count : Int) (h : IsSpineOf P t) : IsSpineOf P (.array count t) := by
  obtain ⟨s, b, hb, rfl⟩ := h
  exact ⟨.array count s, b, hb, rfl⟩

/-- A spine at the end of a spine makes a longer one. -/
theorem IsSpineOf.plug (h : IsSpineOf P t) (s : Spine) : IsSpineOf P (s.plug t) := by
  induction s with
  | tip => exact h
  | pointer s ih => exact ih.pointer
  | array count s ih => exact ih.array count

/-- What may stand at the end can be widened. -/
theorem IsSpineOf.imp {Q : TypeExpr → Prop} (h : IsSpineOf P t) (hPQ : ∀ b, P b → Q b) :
    IsSpineOf Q t := by
  obtain ⟨s, b, hb, rfl⟩ := h
  exact ⟨s, b, hPQ b hb, rfl⟩

/-! ## Names at the end -/

/-- An end names one thing or nothing. -/
theorem IsEnd.deepest (h : IsEnd isName kinds t) :
    (∃ s, t.deepest = .text s) ∨ t.deepest = .atom .none := by
  cases h with
  | text s => exact .inr rfl
  | @named s _ => exact .inl ⟨s, rfl⟩
  | record _ fields => exact .inr rfl

/-- What says nothing is none at the next step of the chain, and a text stays. -/
theorem orElse_none_cases (h : (∃ s, t = .text s) ∨ t = .atom .none) :
    (∃ s, t.orElse (.atom .none) = .text s) ∨ t.orElse (.atom .none) = .atom .none := by
  rw [TypeExpr.orElse]
  split
  · exact .inr rfl
  · exact h

/-- So does the type: no step of the chain adds a name. -/
theorem IsSpineOf.deepest (h : IsSpineOf (IsEnd isName kinds) t) :
    (∃ s, t.deepest = .text s) ∨ t.deepest = .atom .none := by
  obtain ⟨s, b, hb, rfl⟩ := h
  induction s with
  | tip => exact hb.deepest
  | pointer s ih =>
    rw [Spine.plug, Spine.deepest_pointer]
    exact orElse_none_cases ih
  | array count s ih =>
    rw [Spine.plug, Spine.deepest_array]
    exact orElse_none_cases ih

/-- **The name of a member** is a text, or there is none. -/
theorem IsSpineOf.memberName {m : Member} (h : IsSpineOf (IsEnd isName kinds) m.type) :
    (∃ s, memberName m = .text s) ∨ memberName m = .atom .none := by
  rw [show m = ⟨m.offset, m.type⟩ from rfl, Spine.memberName_eq]
  exact orElse_none_cases h.deepest

/-! ## References at the end -/

variable {follow : String → Except Fault TypeExpr}

/-- References are followed at the end of a spine only. -/
theorem exists_of_mapReferences_plug {s : Spine} {b : TypeExpr} :
    ∀ {u : TypeExpr}, mapReferences follow (s.plug b) = .ok u →
      ∃ v, mapReferences follow b = .ok v ∧ u = s.plug v := by
  induction s with
  | tip => exact fun h => ⟨_, h, rfl⟩
  | pointer s ih =>
    intro u hu
    obtain ⟨us, rfl, hus⟩ := mapReferences_list_eq_ok_iff.mp hu
    obtain ⟨w, _, hw, hrest, rfl⟩ := List.forall₂_cons_left_iff.mp hus
    obtain ⟨x, _, hx, hnil, rfl⟩ := List.forall₂_cons_left_iff.mp hrest
    cases hnil
    cases hw
    obtain ⟨v, hv, rfl⟩ := ih hx
    exact ⟨v, hv, rfl⟩
  | array count s ih =>
    intro u hu
    obtain ⟨us, rfl, hus⟩ := mapReferences_list_eq_ok_iff.mp hu
    obtain ⟨w, _, hw, hrest, rfl⟩ := List.forall₂_cons_left_iff.mp hus
    obtain ⟨n, _, hn, hlast, rfl⟩ := List.forall₂_cons_left_iff.mp hrest
    obtain ⟨x, _, hx, hnil, rfl⟩ := List.forall₂_cons_left_iff.mp hlast
    cases hnil
    cases hw
    cases hn
    obtain ⟨v, hv, rfl⟩ := ih hx
    exact ⟨v, hv, rfl⟩

/-- A text that is no reference stays. -/
theorem mapReferences_text_cases {s : String} (h : mapReferences follow (.text s) = .ok u) :
    u = .text s ∨ isReference s = true ∧ ∃ id, follow id = .ok u := by
  rw [mapReferences] at h
  split at h
  · next cs hs => exact .inr ⟨by rw [isReference, hs]; rfl, _, h⟩
  · cases h
    exact .inl rfl

/-- **Following the references of an end.** It stays, or it is a reference that is followed, or it is
a name that is one, and what is followed to stands in its place, in the list that made it a name. -/
theorem IsEnd.mapReferences_cases (hb : IsEnd isName kinds t) (hkinds : kinds ⊆ recordKinds)
    (h : mapReferences follow t = .ok u) :
    u = t ∨ (∃ id, follow id = .ok u) ∨
      ∃ s id v, isName s ∧ isReference s = true ∧ follow id = .ok v ∧ u = .list [v] := by
  cases hb with
  | text s => exact (mapReferences_text_cases h).imp_right fun h => .inl h.2
  | @named s hname =>
    obtain ⟨us, rfl, hus⟩ := mapReferences_list_eq_ok_iff.mp h
    obtain ⟨v, _, hv, hnil, rfl⟩ := List.forall₂_cons_left_iff.mp hus
    cases hnil
    rcases mapReferences_text_cases hv with rfl | ⟨hreference, id, hid⟩
    · exact .inl rfl
    · exact .inr (.inr ⟨s, id, v, hname, hreference, hid, rfl⟩)
  | record hkind fields =>
    rcases List.mem_pair.mp (hkinds hkind) with rfl | rfl
    · cases h; exact .inl rfl
    · cases h; exact .inl rfl

/-- **Following references to any depth.** A property that one round gives, if what the references
lead to has it, is one that all rounds give. -/
theorem resolve_induction {ids : IdTable} {Q : TypeExpr → Prop} (hids : ∀ t ∈ ids.values, P t)
    (hstep : ∀ follow t u, (∀ id v, follow id = .ok v → Q v) → P t →
      mapReferences follow t = .ok u → Q u)
    (ht : P t) (hu : ids.resolve t = .ok u) : Q u := by
  have hdepth : ∀ (d : Nat) {t u : TypeExpr}, P t → ids.resolveWithin d t = .ok u → Q u := by
    intro d
    induction d with
    | zero => exact fun ht hu => hstep _ _ _ (fun id v h => by cases h) ht hu
    | succ d ih =>
      refine fun ht hu => hstep _ _ _ (fun id v hid => ?_) ht hu
      rcases hget : ids.get id with e | t'
      · rw [hget] at hid
        cases hid
      · rw [hget] at hid
        have hmem := Table.find?_eq_some_iff.mp (IdTable.get_eq_ok_iff.mp hget)
        exact ih (hids t' (List.mem_map_of_mem hmem)) hid
  exact hdepth _ ht hu

end Grammar

end Dump

end CpuTrace
