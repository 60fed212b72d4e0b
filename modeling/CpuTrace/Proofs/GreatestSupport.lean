import CpuTrace.Proofs.Publishing
import Mathlib

/-!
# What pruning leaves

Publishing drops unnamed structures in rounds (`pruneOnce`): a round sees what is named by what is
left, and drops the rest. This module puts together what all rounds do to a reader:

* **They end** after at most as many rounds as there are structures, since a round that is not the
  last drops one (`exists_iterate_eq_pruned`), and another round would change nothing
  (`pruneOnce_pruned`).
* **They leave the greatest set** of structures that supports itself: unnamed structures that name
  each other stay, and a chain that nothing names goes, link by link.
* **They change nothing else.** What is left keeps its layout and its place, and a structure that is
  dropped stays with its unit (`unitLayout?_withTypes`).

The main statement is `prune_leaves_greatest_support`.
-/

namespace CpuTrace.Dump

/-! ## Rounds -/

section Rounds

variable {types : TypeTable} {globals : Table String Variable}

/-- **Rounds end**: after some number of them, at most one for each structure, nothing is left to
drop. -/
theorem exists_iterate_eq_pruned (types : TypeTable) (globals : Table String Variable) :
    ∃ rounds ≤ types.size, (fun ts => pruneOnce ts globals)^[rounds] types = pruned types globals := by
  fun_induction pruned types globals with
  | case1 types next h => exact ⟨0, Nat.zero_le _, rfl⟩
  | case2 types next h ih =>
    obtain ⟨rounds, hle, hrounds⟩ := ih
    have hlt : next.size < types.size := Nat.lt_of_le_of_ne (size_pruneOnce_le types globals) h
    refine ⟨rounds + 1, by omega, ?_⟩
    rw [Function.iterate_succ_apply]
    exact hrounds

/-- A round that drops nothing leaves the table as it is. -/
theorem pruneOnce_of_size (h : (pruneOnce types globals).size = types.size) :
    pruneOnce types globals = types :=
  Table.ext (List.Sublist.eq_of_length List.filter_sublist h)

theorem pruneOnce_pruned (types : TypeTable) (globals : Table String Variable) :
    pruneOnce (pruned types globals) globals = pruned types globals := by
  fun_induction pruned types globals with
  | case1 types next h => exact pruneOnce_of_size h
  | case2 types next h ih => exact ih

/-! ## What stays -/

/-- What a global variable names is left. -/
theorem mem_keys_pruned_of_namedByGlobal {name : String} (hkey : name ∈ types.keys)
    (h : NamedByGlobal globals name) : name ∈ (pruned types globals).keys := by
  refine mem_keys_pruned_iff.mpr ⟨(· = name), ?_, rfl⟩
  rintro n rfl
  exact ⟨hkey, .inr (.inr h)⟩

/-- What a member of the table that is left names, one of the table names. -/
theorem NamedBy.of_pruned {owner name : String} (h : NamedBy (pruned types globals) owner name) :
    owner ∈ (pruned types globals).keys ∧ NamedBy types owner name := by
  obtain ⟨l, m, hl, hm⟩ := h
  have hkey := Table.mem_keys_of_find? hl
  exact ⟨hkey, l, m, (find?_pruned hkey).symm.trans hl, hm⟩

end Rounds

/-! ## Layouts of the unit -/

/-- **What is dropped stays with its unit**: if a table has no other layouts than those that were
there, the unit has the layouts that it had. -/
theorem unitLayout?_withTypes {r : Reader} {types : TypeTable}
    (h : ∀ name l, types.find? name = some l → r.types.find? name = some l) (name : String) :
    (r.withTypes types).unitLayout? name = r.unitLayout? name := by
  rw [Reader.unitLayout?, Reader.unitLayout?, Reader.withTypes]
  dsimp only
  rw [Table.find?_mapValues]
  rcases r.unit.find? name with _ | l | _
  · rfl
  · rfl
  · -- what was shared is so still, unless the table has lost it
    rcases hfind : types.find? name with _ | l
    · rcases r.types.find? name with _ | l <;> simp [Table.contains, hfind]
    · simp [Table.contains, hfind, h name l hfind]

/-! ## Pruning -/

/-- **Pruning leaves the greatest support.** If every member and every global variable names one thing
or nothing, dropping unnamed structures ends without a fault, after at most one round for each
structure. The names that are left are those of all self-supporting sets together. The entries that are
left are as they were, in their order; every name that the reader did not make is left, and so is all
that a variable names, or a member that is left. The layouts of the unit are the same, and so is the
rest of the reader. -/
theorem prune_leaves_greatest_support (r : Reader)
    (hmembers : ∀ l ∈ r.types.values, ∀ m ∈ l.members.values,
      (∃ s, memberName m = .text s) ∨ memberName m = .atom .none)
    (hglobals : ∀ v ∈ r.globals.values, (∃ s, v.type.deepest = .text s) ∨
      v.type.deepest = .atom .none) :
    ∃ r', prune.run r = .ok () r' ∧
      (∃ rounds ≤ r.types.size, (fun ts => pruneOnce ts r.globals)^[rounds] r.types = r'.types) ∧
      pruneOnce r'.types r.globals = r'.types ∧
      (∀ name, name ∈ r'.types.keys ↔
        ∃ X : String → Prop, SelfSupporting r.types r.globals X ∧ X name) ∧
      r'.types.entries.Sublist r.types.entries ∧
      (∀ name ∈ r.types.keys, isUnnamed name = false → name ∈ r'.types.keys) ∧
      (∀ name ∈ r.types.keys, (∃ owner, NamedBy r'.types owner name) ∨ NamedByGlobal r.globals name →
        name ∈ r'.types.keys) ∧
      (∀ name, r'.unitLayout? name = r.unitLayout? name) ∧
      r' = { r with types := r'.types, unit := r'.unit } := by
  have hatoms : ∀ t ∈ usedNames r.types r.globals, isAtom t = true := by
    intro t ht
    rcases List.mem_append.mp ht with ht | ht
    · obtain ⟨l, hl, hname⟩ := List.mem_flatMap.mp ht
      obtain ⟨m, hm, rfl⟩ := List.mem_map.mp hname
      exact isAtom_of_name (hmembers l hl m hm)
    · obtain ⟨v, hv, rfl⟩ := List.mem_map.mp ht
      exact isAtom_of_name (hglobals v hv)
  refine ⟨_, run_prune.mpr ⟨hatoms, rfl⟩, exists_iterate_eq_pruned _ _, pruneOnce_pruned _ _,
    fun name => mem_keys_pruned_iff, entries_pruned_sublist _ _, fun name hkey hnamed => ?_,
    fun name hkey hnamed => ?_, ?_, rfl⟩
  · exact mem_keys_pruned_of_namedBy hkey (.inl hnamed)
  · rcases hnamed with ⟨owner, hby⟩ | hglobal
    · obtain ⟨howner, hby'⟩ := hby.of_pruned
      exact mem_keys_pruned_of_namedBy hkey (.inr ⟨owner, howner, hby'⟩)
    · exact mem_keys_pruned_of_namedByGlobal hkey hglobal
  · refine unitLayout?_withTypes fun name l hl => ?_
    rw [← find?_pruned (Table.mem_keys_of_find? hl), hl]

/-- Unnamed structures of every kind: one that a structure holds, a chain of two that nothing names, two
that point to each other, and one that a variable holds. -/
def supportReader : Reader where
  types := .ofList
    [("__unnamed_2", ⟨8, .ofList [("x", ⟨0, .pointer (.named "__unnamed_3")⟩)]⟩),
      ("A", ⟨4, .ofList [("u", ⟨0, .named "__unnamed_1"⟩)]⟩),
      ("__unnamed_3", ⟨4, ∅⟩), ("__unnamed_1", ⟨4, .ofList [("n", ⟨0, .text "void"⟩)]⟩),
      ("__unnamed_4", ⟨8, .ofList [("y", ⟨0, .pointer (.named "__unnamed_5")⟩)]⟩),
      ("__unnamed_5", ⟨8, .ofList [("z", ⟨0, .pointer (.named "__unnamed_4")⟩)]⟩),
      ("__unnamed_6", ⟨4, ∅⟩)]
  unit := .ofList [("__unnamed_3", .shared)]
  globals := .ofList [("g", ⟨4096, .array 2 (.named "__unnamed_6")⟩)]

theorem prune_supportReader :
    ∃ r', prune.run supportReader = .ok () r' ∧
      r'.types.keys = ["A", "__unnamed_1", "__unnamed_4", "__unnamed_5", "__unnamed_6"] ∧
      (∀ name, name ∈ r'.types.keys ↔
        ∃ X : String → Prop, SelfSupporting supportReader.types supportReader.globals X ∧ X name) ∧
      r'.types.entries.Sublist supportReader.types.entries ∧
      r'.unitLayout? "__unnamed_3" = some ⟨4, ∅⟩ := by
  have hmembers : ∀ l ∈ supportReader.types.values, ∀ m ∈ l.members.values,
      (∃ s, memberName m = .text s) ∨ memberName m = .atom .none := by
    have hnames : supportReader.types.values.flatMap (fun l => l.members.values.map memberName) =
        [.text "__unnamed_3", .text "__unnamed_1", .atom .none, .text "__unnamed_5",
          .text "__unnamed_4"] := by cbv
    have hall : ∀ t ∈ supportReader.types.values.flatMap (fun l => l.members.values.map memberName),
        (∃ s, t = .text s) ∨ t = .atom .none := by simp [hnames]
    exact fun l hl m hm => hall _ (List.mem_flatMap.mpr ⟨l, hl, List.mem_map_of_mem hm⟩)
  have hglobals : ∀ v ∈ supportReader.globals.values, (∃ s, v.type.deepest = .text s) ∨
      v.type.deepest = .atom .none := by
    have hvalues : supportReader.globals.values = [⟨4096, .array 2 (.named "__unnamed_6")⟩] := by cbv
    simp only [hvalues, List.mem_singleton, forall_eq]
    exact .inl ⟨"__unnamed_6", by cbv⟩
  obtain ⟨r', hrun, -, -, hgreatest, hsublist, -, -, hunit, -⟩ :=
    prune_leaves_greatest_support supportReader hmembers hglobals
  refine ⟨r', hrun, ?_, hgreatest, hsublist, (hunit _).trans (by cbv)⟩
  obtain ⟨-, rfl⟩ := run_prune.mp hrun
  cbv

end CpuTrace.Dump
