import CpuTrace.Table
import Mathlib

/-!
# Laws of tables

What each operation on a table does to the two views of it: the value at a key (`Table.find?`) and
the entries in order (`Table.entries`). Since no key occurs twice, having a value at a key and
having it as an entry are the same (`find?_eq_some_iff`). Insertion changes one value and leaves
the others alone (`find?_insert`); a key that is new goes to the end
(`entries_insert_of_not_mem`).
-/

namespace CpuTrace.Table

universe u v w

variable {κ : Type u} {α : Type v} {β : Type w}

/-- Tables with the same entries are the same. -/
theorem ext {s t : Table κ α} (h : s.entries = t.entries) : s = t := by
  cases s; cases t
  cases h
  rfl

@[simp] theorem entries_empty : (∅ : Table κ α).entries = [] := rfl

theorem mem_keys_of_mem {t : Table κ α} {k : κ} {a : α} (h : (k, a) ∈ t.entries) : k ∈ t.keys :=
  List.mem_map_of_mem h

theorem exists_of_mem_keys {t : Table κ α} {k : κ} (h : k ∈ t.keys) :
    ∃ a, (k, a) ∈ t.entries := by
  obtain ⟨⟨k', a⟩, hmem, rfl⟩ := List.mem_map.mp h
  exact ⟨a, hmem⟩

/-! ## Values at keys -/

section Find

variable [DecidableEq κ]

@[simp] theorem find?_empty (k : κ) : (∅ : Table κ α).find? k = none := rfl

theorem lookup_cons_eq_ite (e : κ × α) (es : List (κ × α)) (k : κ) :
    (e :: es).lookup k = if k = e.1 then some e.2 else es.lookup k := by
  rw [List.lookup_cons]
  by_cases h : k = e.1
  · rw [beq_iff_eq.mpr h, if_pos h]
  · rw [beq_eq_false_iff_ne.mpr h, if_neg h]

theorem lookup_eq_some_iff {es : List (κ × α)} (hes : (es.map Prod.fst).Nodup) {k : κ} {a : α} :
    es.lookup k = some a ↔ (k, a) ∈ es := by
  induction es with
  | nil => simp
  | cons e es ih =>
    obtain ⟨k', a'⟩ := e
    obtain ⟨hk', hes⟩ := List.nodup_cons.mp hes
    rw [lookup_cons_eq_ite]
    by_cases h : k = k'
    · subst h
      have hout : (k, a) ∉ es := fun hmem => hk' (List.mem_map.mpr ⟨_, hmem, rfl⟩)
      simp [hout, eq_comm]
    · simp [ih hes, h]

/-- **The value at a key** is the one that stands beside it. -/
theorem find?_eq_some_iff {t : Table κ α} {k : κ} {a : α} :
    t.find? k = some a ↔ (k, a) ∈ t.entries :=
  lookup_eq_some_iff t.distinct

/-- There is none exactly if the key is not there. -/
theorem find?_eq_none_iff {t : Table κ α} {k : κ} : t.find? k = none ↔ k ∉ t.keys := by
  rw [Option.eq_none_iff_forall_ne_some]
  constructor
  · intro h hk
    obtain ⟨a, ha⟩ := exists_of_mem_keys hk
    exact h a (find?_eq_some_iff.mpr ha)
  · intro h a ha
    exact h (mem_keys_of_mem (find?_eq_some_iff.mp ha))

theorem mem_keys_of_find? {t : Table κ α} {k : κ} {a : α} (h : t.find? k = some a) : k ∈ t.keys :=
  mem_keys_of_mem (find?_eq_some_iff.mp h)

theorem exists_find?_of_mem_keys {t : Table κ α} {k : κ} (h : k ∈ t.keys) :
    ∃ a, t.find? k = some a := by
  obtain ⟨a, ha⟩ := exists_of_mem_keys h
  exact ⟨a, find?_eq_some_iff.mpr ha⟩

theorem lookup_insertEntry (k k' : κ) (a : α) (es : List (κ × α)) :
    (insertEntry k a es).lookup k' = if k' = k then some a else es.lookup k' := by
  induction es with
  | nil => rw [insertEntry, lookup_cons_eq_ite]
  | cons e es ih =>
    rw [insertEntry]
    by_cases he : e.1 = k
    · rw [if_pos he, lookup_cons_eq_ite, lookup_cons_eq_ite, he]
      by_cases h : k' = k <;> simp [h]
    · rw [if_neg he, lookup_cons_eq_ite, lookup_cons_eq_ite, ih]
      by_cases h : k' = e.1
      · have hne : ¬ k' = k := fun hk => he (h ▸ hk)
        rw [if_pos h, if_neg hne, if_pos h]
      · rw [if_neg h, if_neg h]

/-- **Insertion** changes the value at its key and no other. -/
theorem find?_insert (t : Table κ α) (k k' : κ) (a : α) :
    (t.insert k a).find? k' = if k' = k then some a else t.find? k' :=
  lookup_insertEntry k k' a t.entries

@[simp] theorem find?_insert_self (t : Table κ α) (k : κ) (a : α) :
    (t.insert k a).find? k = some a := by
  rw [find?_insert, if_pos rfl]

/-- What is in a table after an insertion was put in, or was there. -/
theorem mem_values_insert {t : Table κ α} {k : κ} {a b : α} (h : b ∈ (t.insert k a).values) :
    b = a ∨ b ∈ t.values := by
  obtain ⟨⟨k', b⟩, hmem, rfl⟩ := List.mem_map.mp h
  have hfind := find?_eq_some_iff.mpr hmem
  rw [find?_insert] at hfind
  split at hfind
  · exact Or.inl (Option.some.inj hfind).symm
  · exact Or.inr (List.mem_map_of_mem (find?_eq_some_iff.mp hfind))

/-- Changing all values changes what is found. -/
theorem find?_mapValues (f : κ → α → β) (t : Table κ α) (k : κ) :
    (t.mapValues f).find? k = (t.find? k).map (f k) := by
  rw [Option.ext_iff]
  intro b
  rw [find?_eq_some_iff, Option.map_eq_some_iff]
  constructor
  · intro h
    obtain ⟨⟨k', a⟩, hmem, heq⟩ := List.mem_map.mp h
    obtain ⟨rfl, rfl⟩ := Prod.mk.inj heq
    exact ⟨a, find?_eq_some_iff.mpr hmem, rfl⟩
  · rintro ⟨a, ha, rfl⟩
    exact List.mem_map_of_mem (f := fun e : κ × α => (e.1, f e.1 e.2)) (find?_eq_some_iff.mp ha)

end Find

/-! ## Entries in order -/

@[simp] theorem entries_mapValues (f : κ → α → β) (t : Table κ α) :
    (t.mapValues f).entries = t.entries.map fun e => (e.1, f e.1 e.2) := rfl

@[simp] theorem keys_mapValues (f : κ → α → β) (t : Table κ α) :
    (t.mapValues f).keys = t.keys := by
  rw [keys, entries_mapValues, List.map_map]
  rfl

/-- Changing every value into itself changes nothing. -/
theorem mapValues_of_fixed {t : Table κ α} {f : κ → α → α} (h : ∀ e ∈ t.entries, f e.1 e.2 = e.2) :
    t.mapValues f = t :=
  ext ((List.map_congr_left fun e he => congrArg (Prod.mk e.1) (h e he)).trans (List.map_id _))

section Entries

variable [DecidableEq κ]

/-- A new key goes to the end. -/
theorem insertEntry_of_not_mem {k : κ} {es : List (κ × α)} (h : k ∉ es.map Prod.fst) (a : α) :
    insertEntry k a es = es ++ [(k, a)] := by
  induction es with
  | nil => rfl
  | cons e es ih =>
    obtain ⟨he, hes⟩ := not_or.mp (fun hc => h (List.mem_cons.mpr hc))
    rw [insertEntry, if_neg (Ne.symm he), ih hes, List.cons_append]

theorem insertEntry_append {k : κ} {es : List (κ × α)} (h : k ∉ es.map Prod.fst) (a : α)
    (fs : List (κ × α)) : insertEntry k a (es ++ fs) = es ++ insertEntry k a fs := by
  induction es with
  | nil => rfl
  | cons e es ih =>
    obtain ⟨he, hes⟩ := not_or.mp (fun hc => h (List.mem_cons.mpr hc))
    rw [List.cons_append, insertEntry, if_neg (Ne.symm he), ih hes, List.cons_append]

/-- A new key goes to the end. -/
theorem entries_insert_of_not_mem {t : Table κ α} {k : κ} (h : k ∉ t.keys) (a : α) :
    (t.insert k a).entries = t.entries ++ [(k, a)] :=
  insertEntry_of_not_mem h a

/-- A known key keeps its place and takes the new value. -/
theorem entries_insert_of_append {t : Table κ α} {k : κ} {a : α} {es fs : List (κ × α)}
    (ht : t.entries = es ++ (k, a) :: fs) (b : α) :
    (t.insert k b).entries = es ++ (k, b) :: fs := by
  have hnew : k ∉ es.map Prod.fst := by
    have hdistinct := t.distinct
    rw [ht, List.map_append, List.nodup_append] at hdistinct
    intro hk
    exact hdistinct.2.2 k hk k (by simp) rfl
  have h : (t.insert k b).entries = insertEntry k b (es ++ (k, a) :: fs) := by rw [← ht]; rfl
  rw [h, insertEntry_append hnew]
  simp [insertEntry]

/-- A value that is there already changes nothing. -/
theorem insert_of_find? {t : Table κ α} {k : κ} {a : α} (h : t.find? k = some a) :
    t.insert k a = t := by
  obtain ⟨es, fs, ht⟩ := List.append_of_mem (find?_eq_some_iff.mp h)
  exact ext ((entries_insert_of_append ht a).trans ht.symm)

/-- Of two values put at one key, the later counts. -/
theorem insert_insert (t : Table κ α) (k : κ) (a b : α) :
    (t.insert k a).insert k b = t.insert k b := by
  have hentries : ∀ es : List (κ × α),
      insertEntry k b (insertEntry k a es) = insertEntry k b es := by
    intro es
    induction es with
    | nil => simp [insertEntry]
    | cons e es ih =>
      by_cases he : e.1 = k
      · simp [insertEntry, he]
      · simp [insertEntry, he, ih]
  exact ext (hentries t.entries)

/-- Inserting pairs that agree with what is there puts the new ones behind it. -/
theorem entries_foldl_insert_of_agree {es : List (κ × α)} (hes : (es.map Prod.fst).Nodup) :
    ∀ {t : Table κ α}, (∀ e ∈ es, e.1 ∈ t.keys → t.find? e.1 = some e.2) →
      (es.foldl (fun r e => r.insert e.1 e.2) t).entries =
        t.entries ++ es.filter fun e => e.1 ∉ t.keys := by
  induction es with
  | nil => intro t _; exact (List.append_nil _).symm
  | cons e es ih =>
    intro t h
    obtain ⟨he, hes⟩ := List.nodup_cons.mp hes
    obtain ⟨hfirst, hrest⟩ := List.forall_mem_cons.mp h
    by_cases hkey : e.1 ∈ t.keys
    · rw [List.foldl_cons, insert_of_find? (hfirst hkey), ih hes hrest,
        List.filter_cons_of_neg (by simpa using hkey)]
    · have hother : ∀ e' ∈ es, e'.1 ≠ e.1 := fun e' he' heq => he (heq ▸ List.mem_map_of_mem he')
      have hentries := entries_insert_of_not_mem hkey e.2
      have hkeys : ∀ e' ∈ es, e'.1 ∈ (t.insert e.1 e.2).keys ↔ e'.1 ∈ t.keys := by
        intro e' he'
        rw [keys, hentries, List.map_append, List.mem_append]
        simp [keys, hother e' he']
      have hagree : ∀ e' ∈ es, e'.1 ∈ (t.insert e.1 e.2).keys →
          (t.insert e.1 e.2).find? e'.1 = some e'.2 := by
        intro e' he' hk
        rw [find?_insert, if_neg (hother e' he')]
        exact hrest e' he' ((hkeys e' he').mp hk)
      have hfilter : (es.filter fun e' => e'.1 ∉ (t.insert e.1 e.2).keys) =
          es.filter fun e' => e'.1 ∉ t.keys :=
        List.filter_congr fun e' he' => by simp only [hkeys e' he']
      rw [List.foldl_cons, ih hes hagree, hentries, hfilter, List.append_assoc,
        List.filter_cons_of_pos (by simpa using hkey)]
      rfl

/-- Inserting pairs with new keys puts them behind what is there. -/
theorem entries_foldl_insert {es : List (κ × α)} {t : Table κ α}
    (h : ((t.entries ++ es).map Prod.fst).Nodup) :
    (es.foldl (fun r e => r.insert e.1 e.2) t).entries = t.entries ++ es := by
  rw [List.map_append, List.nodup_append] at h
  obtain ⟨-, hes, hdisjoint⟩ := h
  have hnew : ∀ e ∈ es, e.1 ∉ t.keys :=
    fun e he hk => hdisjoint e.1 hk e.1 (List.mem_map_of_mem he) rfl
  rw [entries_foldl_insert_of_agree hes fun e he hk => absurd hk (hnew e he),
    List.filter_eq_self.mpr (by simpa using hnew)]

/-- A list without a key twice is the table that it makes. -/
theorem entries_ofList {es : List (κ × α)} (h : (es.map Prod.fst).Nodup) :
    (ofList es).entries = es :=
  entries_foldl_insert h

theorem mapValues_insert (f : κ → α → β) (t : Table κ α) (k : κ) (a : α) :
    (t.insert k a).mapValues f = (t.mapValues f).insert k (f k a) := by
  have hentries : ∀ es : List (κ × α), (insertEntry k a es).map (fun e => (e.1, f e.1 e.2)) =
      insertEntry k (f k a) (es.map fun e => (e.1, f e.1 e.2)) := by
    intro es
    induction es with
    | nil => rfl
    | cons e es ih =>
      by_cases he : e.1 = k
      · simp [insertEntry, he]
      · simp [insertEntry, he, ih]
  exact ext (hentries t.entries)

/-- Values may be changed before or after they are put into a table. -/
theorem mapValues_ofList (f : κ → α → β) (es : List (κ × α)) :
    (ofList es).mapValues f = ofList (es.map fun e => (e.1, f e.1 e.2)) := by
  have hfold : ∀ t : Table κ α, (es.foldl (fun t e => t.insert e.1 e.2) t).mapValues f =
      (es.map fun e => (e.1, f e.1 e.2)).foldl (fun t e => t.insert e.1 e.2) (t.mapValues f) := by
    induction es with
    | nil => exact fun t => rfl
    | cons e es ih =>
      intro t
      rw [List.foldl_cons, ih, List.map_cons, List.foldl_cons, mapValues_insert]
  exact hfold empty

theorem ofList_concat (es : List (κ × α)) (e : κ × α) :
    ofList (es ++ [e]) = (ofList es).insert e.1 e.2 :=
  List.foldl_append

/-- The value at a key is the last one that was put there. -/
theorem find?_foldl_insert (es : List (κ × α)) :
    ∀ (t : Table κ α) (k : κ), (es.foldl (fun r e => r.insert e.1 e.2) t).find? k =
      (es.reverse.lookup k).or (t.find? k) := by
  induction es with
  | nil => intro t k; rfl
  | cons e es ih =>
    intro t k
    rw [List.foldl_cons, ih, find?_insert, List.reverse_cons, List.lookup_append, Option.or_assoc]
    congr 1
    rw [lookup_cons_eq_ite]
    by_cases h : k = e.1 <;> simp [h]

/-- A list is a table with the last of the values for each key. -/
theorem find?_ofList (es : List (κ × α)) (k : κ) : (ofList es).find? k = es.reverse.lookup k :=
  (find?_foldl_insert es empty k).trans Option.or_none

/-- The second table of an update goes first. -/
theorem find?_update (t s : Table κ α) (k : κ) :
    (t.update s).find? k = (s.find? k).or (t.find? k) := by
  have hlookup : s.entries.reverse.lookup k = s.find? k := by
    rw [Option.ext_iff]
    intro a
    have hnodup : (s.entries.reverse.map Prod.fst).Nodup := by
      rw [List.map_reverse, List.nodup_reverse]
      exact s.distinct
    rw [lookup_eq_some_iff hnodup, List.mem_reverse, find?_eq_some_iff]
  rw [update, find?_foldl_insert, hlookup]

/-- An update with what is there already changes nothing. -/
theorem update_of_find? {t s : Table κ α} (h : ∀ k a, s.find? k = some a → t.find? k = some a) :
    t.update s = t := by
  have hall : ∀ e ∈ s.entries, t.find? e.1 = some e.2 :=
    fun e he => h e.1 e.2 (find?_eq_some_iff.mpr he)
  have hnone : (s.entries.filter fun e => e.1 ∉ t.keys) = [] := by
    refine List.filter_eq_nil_iff.mpr fun e he => ?_
    simpa using mem_keys_of_find? (hall e he)
  refine ext ?_
  rw [update, entries_foldl_insert_of_agree s.distinct fun e he _ => hall e he, hnone,
    List.append_nil]

end Entries

/-! ## Sweeps -/

section Sweep

variable {ε : Type w}

/-- A sweep without a fault changes all values. -/
theorem sweep_of_none {t : Table κ α} {f : κ → α → α × Option ε}
    (h : ∀ e ∈ t.entries, (f e.1 e.2).2 = none) :
    t.sweep f = (t.mapValues fun k a => (f k a).1, none) := by
  have hentries : ∀ es : List (κ × α), (∀ e ∈ es, (f e.1 e.2).2 = none) →
      sweepEntries f es = (es.map fun e => (e.1, (f e.1 e.2).1), none) := by
    intro es
    induction es with
    | nil => intro _; rfl
    | cons e es ih =>
      intro hes
      obtain ⟨he, hes⟩ := List.forall_mem_cons.mp hes
      have hpair : f e.1 e.2 = ((f e.1 e.2).1, none) := Prod.ext rfl he
      rw [sweepEntries, hpair]
      simp only [ih hes, List.map_cons]
  have hfst : (sweepEntries f t.entries).1 = _ := congrArg Prod.fst (hentries t.entries h)
  have hsnd : (sweepEntries f t.entries).2 = none := congrArg Prod.snd (hentries t.entries h)
  exact Prod.ext (ext hfst) hsnd

/-- A sweep reports a fault if and only if a value does. -/
theorem snd_sweep_eq_none_iff {t : Table κ α} {f : κ → α → α × Option ε} :
    (t.sweep f).2 = none ↔ ∀ e ∈ t.entries, (f e.1 e.2).2 = none := by
  refine ⟨?_, fun h => by rw [sweep_of_none h]⟩
  have hentries : ∀ es : List (κ × α), (sweepEntries f es).2 = none →
      ∀ e ∈ es, (f e.1 e.2).2 = none := by
    intro es
    induction es with
    | nil => intro _ e he; cases he
    | cons e es ih =>
      rw [sweepEntries]
      rcases hf : f e.1 e.2 with ⟨a, _ | fault⟩
      · intro hes
        exact List.forall_mem_cons.mpr ⟨by rw [hf], ih hes⟩
      · intro hes
        cases hes
  exact hentries t.entries

/-- The fault of a sweep is that of a value. -/
theorem exists_of_snd_sweep {t : Table κ α} {f : κ → α → α × Option ε} {fault : ε}
    (h : (t.sweep f).2 = some fault) : ∃ e ∈ t.entries, (f e.1 e.2).2 = some fault := by
  have hentries : ∀ es : List (κ × α), (sweepEntries f es).2 = some fault →
      ∃ e ∈ es, (f e.1 e.2).2 = some fault := by
    intro es
    induction es with
    | nil => intro hes; cases hes
    | cons e es ih =>
      rw [sweepEntries]
      rcases hf : f e.1 e.2 with ⟨a, _ | fault'⟩
      · intro hes
        obtain ⟨e', he', hfault⟩ := ih hes
        exact ⟨e', List.mem_cons_of_mem e he', hfault⟩
      · intro hes
        exact ⟨e, List.mem_cons_self .., by rw [hf]; exact hes⟩
  exact hentries t.entries h

/-- A sweep leaves a value as it was, or changes it. -/
theorem mem_of_mem_sweep {t : Table κ α} {f : κ → α → α × Option ε} {e : κ × α}
    (h : e ∈ (t.sweep f).1.entries) :
    e ∈ t.entries ∨ ∃ a, (e.1, a) ∈ t.entries ∧ e.2 = (f e.1 a).1 := by
  have hentries : ∀ es : List (κ × α), e ∈ (sweepEntries f es).1 →
      e ∈ es ∨ ∃ a, (e.1, a) ∈ es ∧ e.2 = (f e.1 a).1 := by
    intro es
    induction es with
    | nil => intro hes; cases hes
    | cons e' es ih =>
      have hfirst : ∀ {a fault}, f e'.1 e'.2 = (a, fault) → e = (e'.1, a) →
          e ∈ e' :: es ∨ ∃ a, (e.1, a) ∈ e' :: es ∧ e.2 = (f e.1 a).1 := by
        rintro a fault hf rfl
        exact .inr ⟨e'.2, List.mem_cons_self .., by rw [hf]⟩
      rw [sweepEntries]
      rcases hf : f e'.1 e'.2 with ⟨a, _ | fault⟩
      · intro hes
        rcases List.mem_cons.mp hes with heq | hmem
        · exact hfirst hf heq
        · refine (ih hmem).imp (List.mem_cons_of_mem e') ?_
          rintro ⟨b, hb, heq⟩
          exact ⟨b, List.mem_cons_of_mem e' hb, heq⟩
      · intro hes
        rcases List.mem_cons.mp hes with heq | hmem
        · exact hfirst hf heq
        · exact .inl (List.mem_cons_of_mem e' hmem)
  exact hentries t.entries h

/-- **A second sweep takes over a first one.** Where the first made a change, the second makes the same,
and finds it made. Where the first met a fault, it left the value alone. Then it does not matter whether
the first came before, and how far it came. -/
theorem sweep_sweep {f g : κ → α → α × Option ε}
    (hdone : ∀ k a b, f k a = (b, none) → g k a = (b, none) ∧ g k b = (b, none))
    (hfault : ∀ k a b e, f k a = (b, some e) → b = a) (t : Table κ α) :
    (t.sweep f).1.sweep g = t.sweep g := by
  have hentries : ∀ es : List (κ × α),
      sweepEntries g (sweepEntries f es).1 = sweepEntries g es := by
    intro es
    induction es with
    | nil => rfl
    | cons e es ih =>
      rcases hf : f e.1 e.2 with ⟨b, _ | fault⟩
      · obtain ⟨hfirst, hagain⟩ := hdone _ _ _ hf
        simp only [sweepEntries, hf, hfirst, hagain, ih]
      · obtain rfl := hfault _ _ _ _ hf
        simp only [sweepEntries, hf]
  have hfst : (sweepEntries g (sweepEntries f t.entries).1).1 = (sweepEntries g t.entries).1 := by
    rw [hentries]
  have hsnd : (sweepEntries g (sweepEntries f t.entries).1).2 = (sweepEntries g t.entries).2 := by
    rw [hentries]
  exact Prod.ext (ext hfst) hsnd

end Sweep

end CpuTrace.Table
