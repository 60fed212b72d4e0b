import CpuTrace.Dump.Reference
import CpuTrace.Proofs.Table
import Mathlib

/-!
# Unfolding of references

`IdTable.resolve` follows references up to a bound. `Unfolds ids t u` leaves the bound open: with
*some* bound the references of `t` can all be followed, and give `u`. This is the notion to reason
with, since an unfolding is put together from those of its parts (`Unfolds.reference`,
`Unfolds.list`).

The two agree (`resolve_eq_ok_iff`). An answer is **settled** (`IsSettled`) unless it ran out of
depth. More depth never changes a settled answer (`resolveWithin_mono`). And depth beyond the number
of ids gains nothing (`resolve_eq_of_settled`): as long as one more step of depth settles a new id,
there is an id for each step so far, and once a step settles no new id, no later one does
(`stabilizes`).
-/

namespace CpuTrace

/-! ## Bounded iteration over a finite domain -/

section Stabilizes

open Classical in
/-- **Stabilisation.** A property of the items of a list grows with the depth. If a depth at which
nothing is added stays one, then a depth as large as the list is long already has everything. -/
theorem stabilizes {α : Type} (s : List α) (P : Nat → α → Prop)
    (mono : ∀ d a, P d a → P (d + 1) a)
    (step : ∀ d, (∀ a ∈ s, P (d + 1) a → P d a) → ∀ a ∈ s, P (d + 2) a → P (d + 1) a) :
    ∀ a ∈ s, ∀ d, P d a → P s.length a := by
  -- the items that a depth has
  let level (d : Nat) : Finset α := s.toFinset.filter (P d)
  have hcount : ∀ d, (∀ a ∈ s, P (d + 1) a → P d a) ∨ d + 1 ≤ (level (d + 1)).card := by
    intro d
    induction d with
    | zero =>
      rcases Classical.em (∀ a ∈ s, P 1 a → P 0 a) with h | h
      · exact Or.inl h
      · push Not at h
        obtain ⟨a, ha, hP, -⟩ := h
        exact Or.inr (Finset.card_pos.mpr
          ⟨a, Finset.mem_filter.mpr ⟨List.mem_toFinset.mpr ha, hP⟩⟩)
    | succ d ih =>
      rcases Classical.em (∀ a ∈ s, P (d + 2) a → P (d + 1) a) with h | h
      · exact Or.inl h
      · right
        have hle := ih.resolve_left fun hstable => h (step d hstable)
        push Not at h
        obtain ⟨a, ha, hP, hnot⟩ := h
        have hsub : level (d + 1) ⊆ level (d + 2) :=
          Finset.monotone_filter_right _ fun b _ hb => mono _ _ hb
        refine Nat.lt_of_le_of_lt hle (Finset.card_lt_card (Finset.ssubset_iff_of_subset hsub |>.mpr
          ⟨a, Finset.mem_filter.mpr ⟨List.mem_toFinset.mpr ha, hP⟩, fun hmem => hnot ?_⟩))
        exact (Finset.mem_filter.mp hmem).2
  have hstable : ∀ k, ∀ a ∈ s, P (s.length + k + 1) a → P (s.length + k) a := by
    intro k
    induction k with
    | zero =>
      refine (hcount s.length).resolve_right fun h => ?_
      have hle : (level (s.length + 1)).card ≤ s.length :=
        (Finset.card_filter_le _ _).trans (List.toFinset_card_le s)
      omega
    | succ k ih => exact step _ ih
  intro a ha d hd
  rcases Nat.le_total d s.length with hle | hle
  · obtain ⟨k, hk⟩ := Nat.exists_eq_add_of_le hle
    rw [hk]
    clear hk hle
    induction k with
    | zero => exact hd
    | succ k ih => exact mono _ _ ih
  · obtain ⟨k, rfl⟩ := Nat.exists_eq_add_of_le hle
    clear hle
    induction k with
    | zero => exact hd
    | succ k ih => exact ih (hstable k a ha hd)

end Stabilizes

/-- Each item of a list has a partner in a related one. -/
theorem exists_mem_of_forall₂ {α β : Type} {R : α → β → Prop} {xs : List α} {ys : List β}
    (h : List.Forall₂ R xs ys) {x : α} (hx : x ∈ xs) : ∃ y ∈ ys, R x y := by
  induction h with
  | nil => exact absurd hx List.not_mem_nil
  | cons hfirst _ ih =>
    rcases List.mem_cons.mp hx with rfl | hx
    · exact ⟨_, List.mem_cons_self, hfirst⟩
    · obtain ⟨y, hy, hxy⟩ := ih hx
      exact ⟨y, List.mem_cons_of_mem _ hy, hxy⟩

/-- Induction on type expressions, with the items of a list at hand. -/
theorem TypeExpr.induction {motive : TypeExpr → Prop} (atom : ∀ a, motive (.atom a))
    (record : ∀ fs, motive (.record fs))
    (list : ∀ ts, (∀ t ∈ ts, motive t) → motive (.list ts)) (t : TypeExpr) : motive t :=
  @TypeExpr.rec motive (fun ts => ∀ t ∈ ts, motive t) (fun _ => True) (fun _ => True)
    atom list (fun fs _ => record fs) (fun _ h => absurd h List.not_mem_nil)
    (fun _ _ ht hts => List.forall_mem_cons.mpr ⟨ht, hts⟩) trivial (fun _ _ _ _ => trivial)
    (fun _ _ _ => trivial) t

namespace Dump

/-! ## Following references -/

section MapReferences

variable {follow follow' : String → Except Fault TypeExpr}

theorem mapReferencesList_eq_ok_iff {ts us : List TypeExpr} :
    mapReferencesList follow ts = .ok us ↔
      List.Forall₂ (fun t u => mapReferences follow t = .ok u) ts us := by
  induction ts generalizing us with
  | nil => simp [mapReferencesList, eq_comm]
  | cons t ts ih =>
    rw [List.forall₂_cons_left_iff, mapReferencesList]
    rcases ht : mapReferences follow t with e | u
    · simp
    · rcases hts : mapReferencesList follow ts with e | us'
      · have hnone : ∀ us, ¬ List.Forall₂ (fun t u => mapReferences follow t = .ok u) ts us := by
          intro us h
          rw [ih.mpr h] at hts
          cases hts
        simp [hnone]
      · constructor
        · rintro ⟨rfl⟩
          exact ⟨u, us', rfl, ih.mp hts, rfl⟩
        · rintro ⟨u', us'', hu, hus, rfl⟩
          rw [ih.mpr hus] at hts
          cases hu
          cases hts
          rfl

theorem mapReferences_list_eq_ok_iff {ts : List TypeExpr} {u : TypeExpr} :
    mapReferences follow (.list ts) = .ok u ↔
      ∃ us, u = .list us ∧ List.Forall₂ (fun t u => mapReferences follow t = .ok u) ts us := by
  rw [mapReferences]
  rcases h : mapReferencesList follow ts with e | us
  · have hnone : ∀ us, ¬ List.Forall₂ (fun t u => mapReferences follow t = .ok u) ts us := by
      intro us hus
      rw [mapReferencesList_eq_ok_iff.mpr hus] at h
      cases h
    simp [hnone]
  · constructor
    · rintro ⟨rfl⟩
      exact ⟨us, rfl, mapReferencesList_eq_ok_iff.mp h⟩
    · rintro ⟨us', rfl, hus⟩
      rw [mapReferencesList_eq_ok_iff.mpr hus] at h
      cases h
      rfl

/-- An answer that did not run out of depth. -/
def IsSettled {α : Type} (x : Except Fault α) : Prop := x ≠ .error .endless

theorem isSettled_ok {α : Type} (a : α) : IsSettled (.ok a : Except Fault α) := by simp [IsSettled]

theorem not_isSettled_endless {α : Type} : ¬ IsSettled (.error .endless : Except Fault α) := by
  simp [IsSettled]

theorem mapReferencesList_eq_of_settled {ts : List TypeExpr}
    (h : ∀ t ∈ ts, IsSettled (mapReferences follow t) →
      mapReferences follow' t = mapReferences follow t)
    (hsettled : IsSettled (mapReferencesList follow ts)) :
    mapReferencesList follow' ts = mapReferencesList follow ts := by
  induction ts with
  | nil => rfl
  | cons t ts ih =>
    obtain ⟨ht, hts⟩ := List.forall_mem_cons.mp h
    rw [mapReferencesList] at hsettled
    rw [mapReferencesList, mapReferencesList]
    rcases hfirst : mapReferences follow t with e | u
    · -- the list has the fault of its first item
      rw [hfirst] at hsettled ht
      have he : IsSettled (.error e : Except Fault TypeExpr) := by simpa [IsSettled] using hsettled
      rw [ht he]
    · rw [hfirst] at hsettled ht
      have hrest : IsSettled (mapReferencesList follow ts) := by
        rintro hendless
        rw [hendless] at hsettled
        exact not_isSettled_endless hsettled
      rw [ht (isSettled_ok u), ih hts hrest]

/-- If what a reference is followed to stays the same unless the depth runs out, so does the whole
expression. -/
theorem mapReferences_eq_of_settled (h : ∀ id, IsSettled (follow id) → follow' id = follow id)
    (t : TypeExpr) :
    IsSettled (mapReferences follow t) → mapReferences follow' t = mapReferences follow t := by
  induction t using TypeExpr.induction with
  | atom a =>
    intro hsettled
    cases a with
    | none => rfl
    | int n => rfl
    | text s =>
      rw [mapReferences] at hsettled
      rw [mapReferences, mapReferences]
      split
      · next cs hs =>
        rw [hs] at hsettled
        exact h _ hsettled
      · rfl
  | record fs => intro _; rfl
  | list ts ih =>
    intro hsettled
    have hitems : IsSettled (mapReferencesList follow ts) := by
      rintro hendless
      rw [mapReferences, hendless] at hsettled
      exact not_isSettled_endless hsettled
    rw [mapReferences, mapReferences, mapReferencesList_eq_of_settled ih hitems]

/-! ## Cited ids -/

/-- A text that is reached through lists refers to an id. -/
inductive Cites : TypeExpr → String → Prop
  /-- a reference cites its id -/
  | reference {s : String} {cs : List Char} (h : s.toList = '<' :: cs) :
    Cites (.text s) (referredId cs)
  /-- a list cites what its items cite -/
  | item {t : TypeExpr} {ts : List TypeExpr} {id : String} (mem : t ∈ ts) (cites : Cites t id) :
    Cites (.list ts) id

/-- A fault in a list is one of an item. -/
theorem exists_mem_of_mapReferencesList_error {e : Fault} {ts : List TypeExpr}
    (h : mapReferencesList follow ts = .error e) : ∃ t ∈ ts, mapReferences follow t = .error e := by
  induction ts with
  | nil => cases h
  | cons t ts ih =>
    rw [mapReferencesList] at h
    rcases hfirst : mapReferences follow t with e' | u
    · rw [hfirst] at h
      cases h
      exact ⟨t, List.mem_cons_self .., hfirst⟩
    · rcases hrest : mapReferencesList follow ts with e' | us
      · rw [hfirst, hrest] at h
        cases h
        obtain ⟨t', ht', hfault⟩ := ih hrest
        exact ⟨t', List.mem_cons_of_mem t ht', hfault⟩
      · rw [hfirst, hrest] at h
        cases h

/-- A fault in an expression is one of a reference in it. -/
theorem exists_cites_of_error {e : Fault} {t : TypeExpr} (h : mapReferences follow t = .error e) :
    ∃ id, Cites t id ∧ follow id = .error e := by
  induction t using TypeExpr.induction with
  | atom a =>
    cases a with
    | none => cases h
    | int n => cases h
    | text s =>
      rw [mapReferences] at h
      split at h
      · next cs hs => exact ⟨_, .reference hs, h⟩
      · cases h
  | record fs => cases h
  | list ts ih =>
    rw [mapReferences] at h
    rcases hlist : mapReferencesList follow ts with e' | us
    · rw [hlist] at h
      cases h
      obtain ⟨t, ht, hfault⟩ := exists_mem_of_mapReferencesList_error hlist
      obtain ⟨id, hid, hfollow⟩ := ih t ht hfault
      exact ⟨id, .item ht hid, hfollow⟩
    · rw [hlist] at h
      cases h

/-- Without a fault, every reference in an expression can be followed. -/
theorem exists_follow_of_cites {t u : TypeExpr} {id : String} (hid : Cites t id)
    (h : mapReferences follow t = .ok u) : ∃ v, follow id = .ok v := by
  induction hid generalizing u with
  | reference hs =>
    rw [mapReferences, hs] at h
    exact ⟨u, h⟩
  | item mem _ ih =>
    obtain ⟨us, -, hus⟩ := mapReferences_list_eq_ok_iff.mp h
    obtain ⟨v, -, hv⟩ := exists_mem_of_forall₂ hus mem
    exact ih hv

end MapReferences

namespace IdTable

variable {ids : IdTable}

theorem get_eq_ok_iff {id : String} {t : TypeExpr} :
    ids.get id = .ok t ↔ ids.find? id = some t := by
  rw [get]
  rcases ids.find? id with _ | t' <;> simp

/-- One more step of depth does not change an answer. -/
theorem resolveWithin_succ {d : Nat} :
    ∀ {t : TypeExpr}, IsSettled (ids.resolveWithin d t) →
      ids.resolveWithin (d + 1) t = ids.resolveWithin d t := by
  induction d with
  | zero =>
    intro t h
    exact mapReferences_eq_of_settled (fun _ hid => (not_isSettled_endless hid).elim) t h
  | succ d ih =>
    intro t h
    refine mapReferences_eq_of_settled (fun id hid => ?_) t h
    rcases hget : ids.get id with e | t'
    · rfl
    · rw [hget] at hid
      exact ih hid

theorem resolveWithin_mono {d d' : Nat} (hle : d ≤ d') {t : TypeExpr}
    (h : IsSettled (ids.resolveWithin d t)) : ids.resolveWithin d' t = ids.resolveWithin d t := by
  induction hle with
  | refl => rfl
  | step _ ih => rw [resolveWithin_succ (by rw [ih]; exact h), ih]

theorem resolveWithin_ok_mono {d d' : Nat} (hle : d ≤ d') {t u : TypeExpr}
    (h : ids.resolveWithin d t = .ok u) : ids.resolveWithin d' t = .ok u := by
  rw [resolveWithin_mono hle (by rw [h]; exact isSettled_ok u), h]

/-- A depth is enough for the type of an id, if there is one. -/
def Settles (ids : IdTable) (d : Nat) (id : String) : Prop :=
  ∀ t, ids.find? id = some t → IsSettled (ids.resolveWithin d t)

/-- If less depth settles the same ids, the depth after it gives the same answers. -/
theorem resolveWithin_eq_of_settles {d d' : Nat}
    (h : ∀ id ∈ ids.keys, ids.Settles d' id → ids.Settles d id) {t : TypeExpr}
    (hsettled : IsSettled (ids.resolveWithin (d' + 1) t)) :
    ids.resolveWithin (d + 1) t = ids.resolveWithin (d' + 1) t := by
  refine mapReferences_eq_of_settled (fun id hid => ?_) t hsettled
  rcases hget : ids.get id with e | t'
  · rfl
  · simp only [hget] at hid ⊢
    have hfind := get_eq_ok_iff.mp hget
    have hlater : ids.Settles d' id := by
      intro t'' ht''
      obtain rfl : t' = t'' := Option.some.inj (hfind.symm.trans ht'')
      exact hid
    have hkey := Table.mem_keys_of_find? hfind
    have hearlier := h id hkey hlater t' hfind
    -- both depths answer, and the larger of them gives both answers
    rw [← resolveWithin_mono (Nat.le_max_left d d') hearlier,
      ← resolveWithin_mono (Nat.le_max_right d d') hid]

/-- A depth of as many steps as there are ids settles whatever can be settled. -/
theorem settles_size {d : Nat} {id : String} (hkey : id ∈ ids.keys) (h : ids.Settles d id) :
    ids.Settles ids.size id := by
  have hkeys : ids.keys.length = ids.size := List.length_map ..
  rw [← hkeys]
  refine stabilizes ids.keys ids.Settles ?_ ?_ id hkey d h
  · intro d id hd t ht
    rw [resolveWithin_succ (hd t ht)]
    exact hd t ht
  · intro d hstable id _ hd t ht
    rw [resolveWithin_eq_of_settles hstable (hd t ht)]
    exact hd t ht

/-- **Enough depth.** The answer that some depth gives without running out of it is the answer. -/
theorem resolve_eq_of_settled {d : Nat} {t : TypeExpr} (h : IsSettled (ids.resolveWithin d t)) :
    ids.resolve t = ids.resolveWithin d t := by
  have hsucc := resolveWithin_succ h
  rw [← hsucc] at h ⊢
  exact resolveWithin_eq_of_settles (fun id hkey => settles_size hkey) h

/-- The references of an expression can be followed to their ends, and give another. -/
def Unfolds (ids : IdTable) (t u : TypeExpr) : Prop := ∃ d, ids.resolveWithin d t = .ok u

/-- **Unfolding.** The bound of `resolve` is large enough: it gives an answer exactly if the
references can be followed to their ends. -/
theorem resolve_eq_ok_iff {t u : TypeExpr} : ids.resolve t = .ok u ↔ ids.Unfolds t u := by
  constructor
  · intro h
    exact ⟨_, h⟩
  · rintro ⟨d, hd⟩
    rw [resolve_eq_of_settled (by rw [hd]; exact isSettled_ok u), hd]

namespace Unfolds

/-- A reference unfolds to what its id unfolds to. -/
theorem reference {s : String} {cs : List Char} {t u : TypeExpr} (hs : s.toList = '<' :: cs)
    (ht : ids.find? (referredId cs) = some t) (h : ids.Unfolds t u) :
    ids.Unfolds (.text s) u := by
  obtain ⟨d, hd⟩ := h
  refine ⟨d + 1, ?_⟩
  rw [resolveWithin, mapReferences, hs]
  simp only [get_eq_ok_iff.mpr ht, hd]

/-- A text that is no reference stands for itself. -/
theorem text {s : String} (hs : ∀ cs, s.toList ≠ '<' :: cs) : ids.Unfolds (.text s) (.text s) := by
  refine ⟨0, ?_⟩
  rw [resolveWithin, mapReferences]
  split
  · next cs hcs => exact (hs cs hcs).elim
  · rfl

theorem int (n : Int) : ids.Unfolds (.int n) (.int n) := ⟨0, rfl⟩

/-- A list unfolds item by item. -/
theorem list {ts us : List TypeExpr} (h : List.Forall₂ ids.Unfolds ts us) :
    ids.Unfolds (.list ts) (.list us) := by
  -- the depth of the list is the largest depth of an item
  have hdepth : ∃ d, List.Forall₂ (fun t u => ids.resolveWithin d t = .ok u) ts us := by
    induction h with
    | nil => exact ⟨0, .nil⟩
    | cons htu _ ih =>
      obtain ⟨d₁, h₁⟩ := htu
      obtain ⟨d₂, h₂⟩ := ih
      exact ⟨max d₁ d₂, .cons (resolveWithin_ok_mono (Nat.le_max_left ..) h₁)
        (h₂.imp fun _ _ h => resolveWithin_ok_mono (Nat.le_max_right ..) h)⟩
  obtain ⟨d, hd⟩ := hdepth
  refine ⟨d, ?_⟩
  cases d <;> exact mapReferences_list_eq_ok_iff.mpr ⟨us, rfl, hd⟩

/-- Unfolding puts for references what their ids unfold to, here and in all parts. -/
theorem exists_follow {t u : TypeExpr} (h : ids.Unfolds t u) : ∃ follow,
    mapReferences follow t = .ok u ∧
      (∀ id v, follow id = .ok v → ∃ w, ids.find? id = some w ∧ ids.Unfolds w v) ∧
      ∀ t' u', mapReferences follow t' = .ok u' → ids.Unfolds t' u' := by
  obtain ⟨d, hd⟩ := h
  cases d with
  | zero =>
    refine ⟨_, hd, fun id v hv => ?_, fun t' u' h => ⟨0, h⟩⟩
    cases hv
  | succ d =>
    refine ⟨_, hd, fun id v hv => ?_, fun t' u' h => ⟨d + 1, h⟩⟩
    rcases hget : ids.get id with e | w
    · simp only [hget] at hv
      cases hv
    · simp only [hget] at hv
      exact ⟨w, get_eq_ok_iff.mp hget, d, hv⟩

theorem of_reference {s : String} {cs : List Char} {u : TypeExpr} (hs : s.toList = '<' :: cs)
    (h : ids.Unfolds (.text s) u) :
    ∃ t, ids.find? (referredId cs) = some t ∧ ids.Unfolds t u := by
  obtain ⟨follow, hmap, hfollow, -⟩ := h.exists_follow
  rw [mapReferences, hs] at hmap
  exact hfollow _ _ hmap

/-- An array unfolds to as many of what its element unfolds to. -/
theorem of_array {count : Int} {t u : TypeExpr} (h : ids.Unfolds (.array count t) u) :
    ∃ t', u = .array count t' ∧ ids.Unfolds t t' := by
  obtain ⟨follow, hmap, -, hunfolds⟩ := h.exists_follow
  obtain ⟨us, rfl, hus⟩ := mapReferences_list_eq_ok_iff.mp hmap
  rcases hus with _ | ⟨harray, _ | ⟨hcount, _ | ⟨ht, ⟨⟩⟩⟩⟩
  cases harray
  cases hcount
  exact ⟨_, rfl, hunfolds _ _ ht⟩

end Unfolds

end IdTable

end Dump

end CpuTrace
