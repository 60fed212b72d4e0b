import CpuTrace.Proofs.Agreement
import CpuTrace.Proofs.Spine
import CpuTrace.Proofs.UnitReading
import Mathlib

/-!
# Types of published members

A published member has a **plain** type (`IsPlain`): a spine with a name, a bare text, a bit-field or
an enumeration at its end. Plain types come from raw ones when their references are followed, unless
what stands at the end is no name at all (`isResolved_of_resolve`, `IsResolved.isPlain`).

Writing enumerations into a member changes at most the end of its spine (`mergeMember_cases`), and so
keeps the type plain. What stands behind a pointer is of no interest to flattening, so the change
matters only to a name that the member holds **by value** (`TypeExpr.Holds`), alone or as the element
of arrays: if no enumeration has such a name, the type stays alike (`alike_mergeMember`).
-/

namespace CpuTrace

/-! ## Names held by value -/

/-- A type is a name, or an array of what holds the name. -/
inductive TypeExpr.Holds : TypeExpr → String → Prop
  /-- the name itself -/
  | named (name : String) : Holds (.named name) name
  /-- the name as an element -/
  | array (count : Int) {t : TypeExpr} {name : String} (element : Holds t name) :
    Holds (.array count t) name

theorem TypeExpr.Holds.needs {types : TypeTable} {t : TypeExpr} {name : String}
    (h : t.Holds name) : types.Needs t name := by
  induction h with
  | named name => exact .named name
  | array count _ ih => exact .element ih

theorem TypeExpr.Holds.exists_spine {t : TypeExpr} {name : String} (h : t.Holds name) :
    ∃ s : Spine, t = s.plug (.named name) := by
  induction h with
  | named name => exact ⟨.tip, rfl⟩
  | array count _ ih =>
    obtain ⟨s, rfl⟩ := ih
    exact ⟨.array count s, rfl⟩

/-- Alike types hold the same name. -/
theorem TypeExpr.Holds.alike {t : TypeExpr} {name : String} (h : t.Holds name) :
    ∀ {t'}, t.Alike t' → t'.Holds name := by
  induction h with
  | named name =>
    intro t' ht
    cases ht
    exact .named name
  | array count _ ih =>
    intro t' ht
    obtain ⟨element', rfl, helement⟩ := ht.of_array
    exact .array count (ih helement)

/-- The end of a spine can be exchanged without a difference, unless it is held by value. -/
theorem TypeExpr.Alike.plug {s : Spine} {name : String} :
    ∀ {t : TypeExpr}, t.Alike (s.plug (.named name)) →
      (∀ b, t.Alike (s.plug b)) ∨ t.Holds name := by
  induction s with
  | tip =>
    intro t h
    cases h
    exact Or.inr (.named name)
  | pointer s ih =>
    intro t h
    left
    intro b
    generalize hu : (Spine.pointer s).plug (.named name) = u at h
    cases h with
    | refl => exact hu ▸ .pointer _ _
    | pointer v w => exact .pointer _ _
    | array n h => simp [Spine.plug] at hu
  | array count s ih =>
    intro t h
    have helement : ∃ element, t = .array count element ∧
        element.Alike (s.plug (.named name)) := by
      generalize hu : (Spine.array count s).plug (.named name) = u at h
      cases h with
      | refl => exact ⟨_, hu.symm, .refl _⟩
      | pointer v w => simp [Spine.plug] at hu
      | array n h =>
        obtain ⟨rfl, rfl⟩ : count = n ∧ s.plug (.named name) = _ := by
          simpa [Spine.plug] using hu
        exact ⟨_, rfl, h⟩
    obtain ⟨element, rfl, halike⟩ := helement
    exact (ih halike).imp (fun h b => .array count (h b)) (.array count)

namespace Dump

/-! ## Plain types -/

/-- A published type: a spine with a text, a name, a bit-field or an enumeration at its end. -/
abbrev IsPlain : TypeExpr → Prop := IsSpineOf (IsEnd (fun _ => True) recordKinds)

/-- A spine with something at its end, or with a list around what is no name. -/
abbrev IsResolved : TypeExpr → Prop :=
  IsSpineOf fun b => IsEnd (fun _ => True) recordKinds b ∨ ∃ u us, b = .list [.list (u :: us)]

/-- A list around a text is a name; around anything else it is none. -/
theorem IsResolved.singleton {t : TypeExpr} (h : IsResolved t) : IsResolved (.list [t]) := by
  obtain ⟨s, b, hb, rfl⟩ := h
  refine .tip ?_
  cases s with
  | tip =>
    rcases hb with hb | ⟨u, us, rfl⟩
    · cases hb with
      | text s => exact .inl (.named trivial)
      | named _ => exact .inr ⟨_, _, rfl⟩
      | record _ fields => exact .inr ⟨_, _, rfl⟩
    · exact .inr ⟨_, _, rfl⟩
  | pointer s => exact .inr ⟨_, _, rfl⟩
  | array count s => exact .inr ⟨_, _, rfl⟩

/-- Following the references of a raw type, if they lead to resolved ones. -/
theorem isResolved_of_mapReferences {follow : String → Except Fault TypeExpr} {t u : TypeExpr}
    (hfollow : ∀ id v, follow id = .ok v → IsResolved v) (ht : IsRaw t)
    (hu : mapReferences follow t = .ok u) : IsResolved u := by
  have hkinds : ["BitField"] ⊆ recordKinds := by decide
  obtain ⟨s, b, hb, rfl⟩ := ht
  obtain ⟨v, hv, rfl⟩ := exists_of_mapReferences_plug hu
  refine IsSpineOf.plug ?_ s
  rcases hb.mapReferences_cases hkinds hv with rfl | ⟨id, hid⟩ | ⟨_, id, w, -, -, hid, rfl⟩
  · exact .tip (.inl (hb.mono (fun _ h => h) hkinds))
  · exact hfollow id v hid
  · exact (hfollow id w hid).singleton

theorem isResolved_of_resolve {ids : IdTable} (hids : ∀ t ∈ ids.values, IsRaw t) {t u : TypeExpr}
    (ht : IsRaw t) (hu : ids.resolve t = .ok u) : IsResolved u :=
  resolve_induction hids (fun _ _ _ => isResolved_of_mapReferences) ht hu

/-- **A resolved type that names something is plain.** -/
theorem IsResolved.isPlain {m : Member} (h : IsResolved m.type)
    (hatom : isAtom (memberName m) = true) : IsPlain m.type := by
  obtain ⟨offset, t⟩ := m
  obtain ⟨s, b, hb, rfl⟩ := h
  rcases hb with hb | ⟨u, us, rfl⟩
  · exact ⟨s, b, hb, rfl⟩
  · rw [Spine.memberName_plug] at hatom
    cases hatom

/-! ## Writing enumerations -/

section Merge

variable {enums : Table String Enumeration} {m : Member}

/-- An enumeration as a type, if it has the size of an integer. -/
theorem Enumeration.exists_fields {e : Enumeration} {t : TypeExpr} (h : e.expr = .ok t) :
    ∃ fields, t = .list [.text "Enumeration", .record fields] := by
  rw [Enumeration.expr] at h
  rcases hsize : integerOfSize e.size with f | target
  · rw [hsize] at h
    cases h
  · rw [hsize] at h
    cases h
    exact ⟨_, rfl⟩

/-- **What writing an enumeration does**: nothing, unless the name at the end of the spine is that of
one. -/
theorem mergeMember_cases (h : IsPlain m.type) :
    (mergeMember enums m = (m, none) ∧
        ∀ name, memberName m = .text name → enums.find? name = none) ∨
      ∃ (s : Spine) (name : String) (e : Enumeration), m.type = s.plug (.named name) ∧
        memberName m = .text name ∧ enums.find? name = some e ∧
        ∀ t, e.expr = .ok t → mergeMember enums m = ({ m with type := s.plug t }, none) := by
  obtain ⟨offset, t⟩ := m
  obtain ⟨s, b, hb, rfl⟩ := h
  have hnone : memberName ⟨offset, s.plug b⟩ = .atom .none →
      mergeMember enums ⟨offset, s.plug b⟩ = (⟨offset, s.plug b⟩, none) ∧
        ∀ name, memberName ⟨offset, s.plug b⟩ = .text name → enums.find? name = none := by
    intro hname
    refine ⟨by rw [mergeMember, hname], fun name hname' => ?_⟩
    cases hname.symm.trans hname'
  cases hb with
  | text x => exact .inl (hnone (Spine.memberName_plug_text offset s x))
  | record _ fields => exact .inl (hnone (Spine.memberName_plug offset s _))
  | @named name _ =>
    by_cases hempty : name = ""
    · subst hempty
      exact .inl (hnone (Spine.memberName_plug offset s _))
    · have hname := Spine.memberName_plug_named offset s hempty
      rcases hfind : enums.find? name with _ | e
      · refine .inl ⟨?_, fun name' hname' => ?_⟩
        · rw [mergeMember, hname]
          simp only [hfind]
        · obtain rfl : name = name' := Atom.text.inj (TypeExpr.atom.inj (hname.symm.trans hname'))
          exact hfind
      · right
        refine ⟨s, name, e, rfl, hname, hfind, fun t ht => ?_⟩
        rw [mergeMember, hname]
        simp only [hfind, ht, Spine.replace_plug_named]

/-- Every enumeration that the member can have has the size of an integer. -/
def HasSize (enums : Table String Enumeration) (m : Member) : Prop :=
  ∀ name e, memberName m = .text name → enums.find? name = some e → ∃ t, e.expr = .ok t

/-- An enumeration that has been written had the size of an integer. -/
theorem hasSize_of_mergeMember (h : (mergeMember enums m).2 = none) : HasSize enums m := by
  intro name e hname he
  rw [mergeMember, hname] at h
  simp only [he] at h
  rcases hexpr : e.expr with f | t
  · rw [hexpr] at h
    cases h
  · exact ⟨t, rfl⟩

theorem offset_mergeMember (enums : Table String Enumeration) (m : Member) :
    (mergeMember enums m).1.offset = m.offset := by
  rw [mergeMember]
  split
  · split
    · rfl
    · split <;> rfl
  · rfl

/-- The member is as it was, or there is an enumeration at the end of its spine. -/
theorem mergeMember_eq (h : IsPlain m.type) (hsize : HasSize enums m) :
    (mergeMember enums m = (m, none) ∧
        ∀ name, memberName m = .text name → enums.find? name = none) ∨
      ∃ (s : Spine) (name : String) (fields : List (Atom × TypeExpr)),
        m.type = s.plug (.named name) ∧ memberName m = .text name ∧
        (enums.find? name).isSome = true ∧ mergeMember enums m =
          ({ m with type := s.plug (.list [.text "Enumeration", .record fields]) }, none) := by
  refine (mergeMember_cases h).imp_right ?_
  rintro ⟨s, name, e, htype, hname, hfind, hmerge⟩
  obtain ⟨t, ht⟩ := hsize name e hname hfind
  obtain ⟨fields, rfl⟩ := Enumeration.exists_fields ht
  exact ⟨s, name, fields, htype, hname, by rw [hfind]; rfl, hmerge _ ht⟩

theorem snd_mergeMember (h : IsPlain m.type) (hsize : HasSize enums m) :
    (mergeMember enums m).2 = none := by
  rcases mergeMember_eq h hsize with ⟨heq, -⟩ | ⟨s, name, fields, -, -, -, heq⟩
  · rw [heq]
  · rw [heq]

/-- The type stays, or an enumeration stands at the end of its spine. -/
theorem type_mergeMember (h : IsPlain m.type) :
    (mergeMember enums m).1.type = m.type ∨
      ∃ (s : Spine) (fields : List (Atom × TypeExpr)),
        (mergeMember enums m).1.type = s.plug (.list [.text "Enumeration", .record fields]) := by
  rcases @mergeMember_cases enums m h with ⟨heq, -⟩ | ⟨s, name, e, -, hname, hfind, hmerge⟩
  · exact .inl (by rw [heq])
  · rcases hexpr : e.expr with f | t
    · -- an enumeration of no integer's size is not written
      left
      rw [mergeMember, hname]
      simp only [hfind, hexpr]
    · obtain ⟨fields, rfl⟩ := Enumeration.exists_fields hexpr
      exact .inr ⟨s, fields, by rw [hmerge _ hexpr]⟩

/-- A plain type stays plain. -/
theorem isPlain_mergeMember (h : IsPlain m.type) : IsPlain (mergeMember enums m).1.type := by
  rcases @type_mergeMember enums m h with heq | ⟨s, fields, heq⟩
  · rw [heq]
    exact h
  · rw [heq]
    exact ⟨s, _, .record (by decide) fields, rfl⟩

/-- A name that is still there is that of no enumeration. -/
theorem memberName_mergeMember (h : IsPlain m.type) (hsize : HasSize enums m) {name : String}
    (hname : memberName (mergeMember enums m).1 = .text name) :
    memberName m = .text name ∧ enums.find? name = none := by
  rcases mergeMember_eq h hsize with ⟨heq, hnone⟩ | ⟨s, name', fields, -, -, -, heq⟩
  · rw [heq] at hname
    exact ⟨hname, hnone name hname⟩
  · rw [heq, Spine.memberName_plug] at hname
    cases hname

/-- Enumerations that are written again, with others, are written once. -/
theorem mergeMember_mergeMember {enums' : Table String Enumeration} (h : IsPlain m.type)
    (hsize : HasSize enums' m)
    (hmore : ∀ name e, enums.find? name = some e → enums'.find? name = some e) :
    (mergeMember enums' (mergeMember enums m).1).1 = (mergeMember enums' m).1 := by
  rcases @mergeMember_cases enums _ h with ⟨heq, -⟩ | ⟨s, name, e, htype, hname, hfind, hmerge⟩
  · rw [heq]
  · obtain ⟨t, ht⟩ := hsize name e hname (hmore name e hfind)
    obtain ⟨fields, rfl⟩ := Enumeration.exists_fields ht
    have hnone : ∀ offset, memberName ⟨offset, s.plug (.list [.text "Enumeration", .record fields])⟩ =
        .atom .none := fun offset => Spine.memberName_plug offset s _
    have hmerge' : (mergeMember enums' m).1 = (mergeMember enums m).1 := by
      rw [hmerge _ ht, mergeMember, hname]
      simp only [hmore name e hfind, ht, htype, Spine.replace_plug_named]
    rw [hmerge', hmerge _ ht, mergeMember, hnone]

theorem ne_empty_of_memberName {name : String} (h : memberName m = .text name) : name ≠ "" := by
  rintro rfl
  obtain ⟨offset, t⟩ := m
  rw [Spine.memberName_eq, TypeExpr.orElse] at h
  split at h
  · cases h
  · next hvoid =>
    rw [h] at hvoid
    exact hvoid rfl

/-- **Alike types stay alike** if no enumeration has the name that the type holds by value. -/
theorem alike_mergeMember {t : TypeExpr} (ht : t.Alike m.type) (h : IsPlain m.type)
    (hsize : HasSize enums m)
    (hholds : ∀ name, t.Holds name → name ≠ "" → enums.find? name = none) :
    t.Alike (mergeMember enums m).1.type := by
  rcases mergeMember_eq h hsize with ⟨heq, -⟩ | ⟨s, name, fields, htype, hname, hsome, heq⟩
  · rw [heq]
    exact ht
  · rw [htype] at ht
    rw [heq]
    refine ht.plug.elim (fun h => h _) fun hheld => ?_
    rw [hholds name hheld (ne_empty_of_memberName hname)] at hsome
    cases hsome

/-- Alike layouts stay alike if no enumeration has a name that a member holds by value. -/
theorem alike_mergedLayout {l l' : Layout} (h : l.Alike l')
    (hplain : ∀ m ∈ l'.members.values, IsPlain m.type ∧ HasSize enums m)
    (hholds : ∀ m ∈ l.members.entries, ∀ name, m.2.type.Holds name → name ≠ "" →
      enums.find? name = none) : l.Alike (mergedLayout enums l') := by
  refine ⟨h.size, ?_⟩
  rw [mergedLayout, mapMembers, Table.entries_mapValues, List.forall₂_map_right_iff]
  have hmem : List.Forall₂ (fun m n => m ∈ l.members.entries ∧ n ∈ l'.members.entries ∧
      Member.Alike m n) l.members.entries l'.members.entries := by
    refine List.forall₂_iff_zip.mpr ⟨h.members.length_eq, fun {m n} hmn => ?_⟩
    obtain ⟨hm, hn⟩ := List.of_mem_zip hmn
    exact ⟨hm, hn, (List.forall₂_iff_zip.mp h.members).2 hmn⟩
  refine hmem.imp fun m n hmn => ?_
  obtain ⟨hm, hn, halike⟩ := hmn
  obtain ⟨hplain', hsize⟩ := hplain n.2 (List.mem_map_of_mem hn)
  refine ⟨halike.name, halike.offset.trans (offset_mergeMember enums n.2).symm, ?_⟩
  exact alike_mergeMember halike.type hplain' hsize (hholds m hm)

end Merge

/-! ## Unnamed structures that are needed -/

/-- What is plain and looks like an array is one, of plain elements. -/
theorem IsPlain.of_array {count element : TypeExpr} {args : List TypeExpr}
    (h : IsPlain (.list (.text "array" :: count :: element :: args))) :
    ∃ n, count = .int n ∧ args = [] ∧ IsPlain element := by
  obtain ⟨s, b, hb, heq⟩ := h
  cases s with
  | tip =>
    rw [Spine.plug] at heq
    cases hb with
    | text x => simp at heq
    | named _ => simp at heq
    | record hkind fields =>
      -- no record has the name of an array
      simp only [TypeExpr.list.injEq, List.cons.injEq, TypeExpr.atom.injEq, Atom.text.injEq] at heq
      obtain ⟨rfl, -⟩ := heq
      exact absurd hkind (by decide)
  | pointer s => simp [Spine.plug] at heq
  | array n s =>
    obtain ⟨rfl, rfl, rfl⟩ : count = .int n ∧ element = s.plug b ∧ args = [] := by
      simpa [Spine.plug] using heq
    exact ⟨n, rfl, rfl, s, b, hb, rfl⟩

/-- The only unnamed heads of plain types are those of types by name. -/
theorem IsPlain.holds_of_head {t : TypeExpr} (h : IsPlain t) {name : String}
    (head : t.HasHead (.text name)) (hunnamed : isUnnamed name = true) : t.Holds name := by
  have hword : ∀ word ∈ "pointer" :: "array" :: recordKinds, isUnnamed word = false := by decide
  have habsurd : name ∈ "pointer" :: "array" :: recordKinds → t.Holds name := by
    intro hmem
    rw [hword name hmem] at hunnamed
    cases hunnamed
  obtain ⟨s, b, hb, rfl⟩ := h
  cases s with
  | pointer s => cases head; exact habsurd (by decide)
  | array n s => cases head; exact habsurd (by decide)
  | tip =>
    cases hb with
    | named _ => cases head; exact .named _
    | record hkind fields =>
      cases head
      exact habsurd (List.mem_cons_of_mem _ (List.mem_cons_of_mem _ hkind))
    | text x =>
      -- a character is no unnamed name
      cases head with
      | text hx => simp [isUnnamed] at hunnamed

/-- **An unnamed structure that a type needs is held** by the type itself, or by a member of a
structure that the type needs. -/
theorem holds_of_needs {types : TypeTable}
    (hplain : ∀ owner l, types.find? owner = some l → ∀ m ∈ l.members.entries, IsPlain m.2.type)
    {t : TypeExpr} {name : String} (h : types.Needs t name) (hunnamed : isUnnamed name = true) :
    IsPlain t → t.Holds name ∨ ∃ owner l m, types.Needs t owner ∧ owner ≠ "array" ∧
      types.find? owner = some l ∧ m ∈ l.members.entries ∧ m.2.type.Holds name := by
  induction h with
  | named name => exact fun _ => .inl (.named name)
  | head head notArray => exact fun ht => .inl (ht.holds_of_head head hunnamed)
  | stride head =>
    intro ht
    obtain ⟨n, rfl, rfl, helement⟩ := ht.of_array
    exact .inl (.array n (helement.holds_of_head head hunnamed))
  | element needs ih =>
    intro ht
    obtain ⟨n, rfl, rfl, helement⟩ := ht.of_array
    refine (ih hunnamed helement).imp (.array n) ?_
    rintro ⟨owner, l, m, howner, hl⟩
    exact ⟨owner, l, m, .element howner, hl⟩
  | @member t owner name l m head notArray layout mem needs ih =>
    intro _
    right
    rcases ih hunnamed (hplain owner l layout m mem) with hm | ⟨owner', l', m', howner, hl⟩
    · exact ⟨owner, l, m, .head head notArray, notArray, layout, mem, hm⟩
    · exact ⟨owner', l', m', .member head notArray layout mem howner, hl⟩

end Dump

end CpuTrace
