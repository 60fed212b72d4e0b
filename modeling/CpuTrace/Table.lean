/-!
# Tables in order of insertion

`Table κ α` maps keys to values and remembers the order in which its keys came. Nearly everything
the library keeps is such a table: the layouts of a type table, the members of a layout, the
identifiers of a compile unit, the slots of a processor. The order is part of the value, since
listings follow it and a run that stops half way has changed the earlier entries only.

Two rules fix the order: a new key goes to the end, and a known key keeps its place and takes the
new value (`insert`). Nothing else moves a key; entries that are left out (`filter`) leave the
others where they are. That no key occurs twice is a field of the type, so no operation can lose it.
-/

namespace CpuTrace

universe u v w

/-- A table from keys to values, in order of insertion. -/
structure Table (κ : Type u) (α : Type v) where
  /-- the pairs of key and value, oldest key first -/
  entries : List (κ × α)
  /-- no key occurs twice -/
  distinct : (entries.map Prod.fst).Nodup

namespace Table

variable {κ : Type u} {α : Type v} {β : Type w}

instance [DecidableEq κ] [DecidableEq α] : DecidableEq (Table κ α) := fun s t =>
  decidable_of_iff (s.entries = t.entries)
    ⟨fun h => by cases s; cases t; cases h; rfl, fun h => h ▸ rfl⟩

/-- The table without entries. -/
def empty : Table κ α := ⟨[], List.nodup_nil⟩

instance : EmptyCollection (Table κ α) := ⟨empty⟩

instance : Inhabited (Table κ α) := ⟨empty⟩

/-- The keys, oldest first. -/
def keys (t : Table κ α) : List κ := t.entries.map Prod.fst

/-- The values, in the order of their keys. -/
def values (t : Table κ α) : List α := t.entries.map Prod.snd

/-- The number of entries. -/
def size (t : Table κ α) : Nat := t.entries.length

/-- The value at a key. -/
def find? [DecidableEq κ] (t : Table κ α) (k : κ) : Option α :=
  t.entries.lookup k

/-- Whether a key is present. -/
def contains [DecidableEq κ] (t : Table κ α) (k : κ) : Bool :=
  (t.find? k).isSome

/-! ## Insertion -/

/-- Puts a value at a key of a list of entries: in place if the key is there, at the end if not. -/
def insertEntry [DecidableEq κ] (k : κ) (a : α) : List (κ × α) → List (κ × α)
  | [] => [(k, a)]
  | e :: es => if e.1 = k then (k, a) :: es else e :: insertEntry k a es

/-- The keys after an insertion: the same if the key was there, else one more at the end. -/
theorem map_fst_insertEntry [DecidableEq κ] (k : κ) (a : α) (es : List (κ × α)) :
    (insertEntry k a es).map Prod.fst =
      if k ∈ es.map Prod.fst then es.map Prod.fst else es.map Prod.fst ++ [k] := by
  induction es with
  | nil => rfl
  | cons e es ih =>
    by_cases h : e.1 = k
    · simp [insertEntry, h]
    · have h' : ¬ k = e.1 := fun hk => h hk.symm
      by_cases hm : k ∈ es.map Prod.fst
      · have hm' : k ∈ (e :: es).map Prod.fst := List.mem_cons_of_mem _ hm
        rw [if_pos hm] at ih
        rw [insertEntry, if_neg h, if_pos hm', List.map_cons, List.map_cons, ih]
      · have hm' : k ∉ (e :: es).map Prod.fst := fun hc => (List.mem_cons.mp hc).elim h' hm
        rw [if_neg hm] at ih
        rw [insertEntry, if_neg h, if_neg hm', List.map_cons, List.map_cons, ih, List.cons_append]

theorem nodup_insertEntry [DecidableEq κ] (k : κ) (a : α) {es : List (κ × α)}
    (h : (es.map Prod.fst).Nodup) : ((insertEntry k a es).map Prod.fst).Nodup := by
  rw [map_fst_insertEntry]
  split
  · exact h
  · next hk =>
    refine List.nodup_append.mpr ⟨h, by simp, ?_⟩
    intro x hx y hy hxy
    rw [List.mem_singleton] at hy
    exact hk (hy ▸ hxy ▸ hx)

/-- Puts a value at a key: a known key keeps its place, a new key goes to the end. -/
def insert [DecidableEq κ] (t : Table κ α) (k : κ) (a : α) : Table κ α :=
  ⟨insertEntry k a t.entries, nodup_insertEntry k a t.distinct⟩

/-- The table that results from inserting pairs one after the other. -/
def ofList [DecidableEq κ] (es : List (κ × α)) : Table κ α :=
  es.foldl (fun t e => t.insert e.1 e.2) empty

/-- Inserts all entries of a second table, in its order. -/
def update [DecidableEq κ] (t s : Table κ α) : Table κ α :=
  s.entries.foldl (fun r e => r.insert e.1 e.2) t

/-! ## Selection and change of values -/

/-- Keeps the entries that pass a test on key and value. -/
def filter (p : κ → α → Bool) (t : Table κ α) : Table κ α :=
  ⟨t.entries.filter fun e => p e.1 e.2,
    (List.Sublist.map Prod.fst List.filter_sublist).nodup t.distinct⟩

/-- Changes every value, with its key in view; keys and order stay. -/
def mapValues (f : κ → α → β) (t : Table κ α) : Table κ β :=
  ⟨t.entries.map fun e => (e.1, f e.1 e.2), by
    have h : (t.entries.map fun e => (e.1, f e.1 e.2)).map Prod.fst = t.entries.map Prod.fst := by
      rw [List.map_map]; rfl
    rw [h]; exact t.distinct⟩

/-! ## Sweeps

A sweep changes the values one after the other and stops at the first fault. What was changed
before the fault stays changed. -/

/-- A sweep over a list of entries. -/
def sweepEntries {ε : Type w} (f : κ → α → α × Option ε) :
    List (κ × α) → List (κ × α) × Option ε
  | [] => ([], none)
  | e :: es =>
    match f e.1 e.2 with
    | (a, some fault) => ((e.1, a) :: es, some fault)
    | (a, none) =>
      let rest := sweepEntries f es
      ((e.1, a) :: rest.1, rest.2)

/-- A sweep changes no key. -/
theorem map_fst_sweepEntries {ε : Type w} (f : κ → α → α × Option ε) (es : List (κ × α)) :
    (sweepEntries f es).1.map Prod.fst = es.map Prod.fst := by
  induction es with
  | nil => rfl
  | cons e es ih =>
    simp only [sweepEntries]
    split
    · rfl
    · simp [ih]

/-- Applies `f` to the values in order and stops after the first that reports a fault. -/
def sweep {ε : Type w} (t : Table κ α) (f : κ → α → α × Option ε) : Table κ α × Option ε :=
  (⟨(sweepEntries f t.entries).1, by rw [map_fst_sweepEntries]; exact t.distinct⟩,
    (sweepEntries f t.entries).2)

end Table

end CpuTrace
