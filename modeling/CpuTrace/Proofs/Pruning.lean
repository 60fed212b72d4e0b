import CpuTrace.Dump.Publish
import CpuTrace.Proofs.Table
import Mathlib

/-!
# Dropping unnamed structures

`pruned` drops, round by round, the structures that the dump leaves unnamed and that nothing names.
What is left has a description without rounds: a set of names is **self-supporting**
(`SelfSupporting`) if each unnamed one among them is named by a member of a structure of the set,
or by a global variable. The names left are the largest such set (`mem_keys_pruned_iff`): no round
drops a member of a self-supporting set (`SelfSupporting.pruneOnce`), and what no round changes any
more supports itself (`selfSupporting_of_stable`). Two unnamed structures that name each other stay.

Nothing else happens to the table: the entries left are as they were, in their order
(`entries_pruned_sublist`).
-/

namespace CpuTrace.Dump

variable {types : TypeTable} {globals : Table String Variable}

/-- A member of a structure of the table names something. -/
def NamedBy (types : TypeTable) (owner name : String) : Prop :=
  ∃ l m, types.find? owner = some l ∧ m ∈ l.members.values ∧ memberName m = .text name

/-- A global variable names something. -/
def NamedByGlobal (globals : Table String Variable) (name : String) : Prop :=
  ∃ v ∈ globals.values, v.type.deepest = .text name

/-- A set of structures of the table each of which has a name of its own, or is named by another
one of the set or by a variable. -/
def SelfSupporting (types : TypeTable) (globals : Table String Variable) (X : String → Prop) :
    Prop :=
  ∀ name, X name → name ∈ types.keys ∧
    (isUnnamed name = false ∨ (∃ owner, X owner ∧ NamedBy types owner name) ∨
      NamedByGlobal globals name)

/-- What is in use is what a member or a variable names. -/
theorem mem_usedNames_iff {name : String} :
    .text name ∈ usedNames types globals ↔
      (∃ owner, NamedBy types owner name) ∨ NamedByGlobal globals name := by
  rw [usedNames, List.mem_append, List.mem_flatMap]
  refine or_congr ?_ ?_
  · constructor
    · rintro ⟨l, hl, hm⟩
      obtain ⟨m, hm, hname⟩ := List.mem_map.mp hm
      obtain ⟨⟨owner, l⟩, hentry, rfl⟩ := List.mem_map.mp hl
      exact ⟨owner, l, m, Table.find?_eq_some_iff.mpr hentry, hm, hname⟩
    · rintro ⟨owner, l, m, hl, hm, hname⟩
      exact ⟨l, List.mem_map_of_mem (Table.find?_eq_some_iff.mp hl),
        List.mem_map.mpr ⟨m, hm, hname⟩⟩
  · exact List.mem_map

/-- A name is an atom, and so is none. -/
theorem isAtom_of_name {t : TypeExpr} (h : (∃ s, t = .text s) ∨ t = .atom .none) :
    isAtom t = true := by
  rcases h with ⟨s, rfl⟩ | rfl <;> rfl

/-! ## One round -/

theorem mem_entries_pruneOnce_iff {e : String × Layout} :
    e ∈ (pruneOnce types globals).entries ↔ e ∈ types.entries ∧
      (isUnnamed e.1 = false ∨ .text e.1 ∈ usedNames types globals) := by
  rw [pruneOnce, dropUnused, Table.filter, List.mem_filter]
  simp

theorem mem_keys_pruneOnce_iff {name : String} :
    name ∈ (pruneOnce types globals).keys ↔ name ∈ types.keys ∧
      (isUnnamed name = false ∨ .text name ∈ usedNames types globals) := by
  constructor
  · intro h
    obtain ⟨l, hl⟩ := Table.exists_of_mem_keys h
    obtain ⟨hmem, hused⟩ := mem_entries_pruneOnce_iff.mp hl
    exact ⟨Table.mem_keys_of_mem hmem, hused⟩
  · rintro ⟨h, hused⟩
    obtain ⟨l, hl⟩ := Table.exists_of_mem_keys h
    exact Table.mem_keys_of_mem (mem_entries_pruneOnce_iff.mpr ⟨hl, hused⟩)

/-- What a round keeps, it keeps as it was. -/
theorem find?_pruneOnce {name : String} (h : name ∈ (pruneOnce types globals).keys) :
    (pruneOnce types globals).find? name = types.find? name := by
  obtain ⟨l, hl⟩ := Table.exists_of_mem_keys h
  rw [Table.find?_eq_some_iff.mpr hl,
    Table.find?_eq_some_iff.mpr (mem_entries_pruneOnce_iff.mp hl).1]

/-- A round drops nothing of a self-supporting set, and the set stays one. -/
theorem SelfSupporting.pruneOnce {X : String → Prop} (h : SelfSupporting types globals X) :
    SelfSupporting (pruneOnce types globals) globals X := by
  have hkept : ∀ name, X name → name ∈ (Dump.pruneOnce types globals).keys := by
    intro name hname
    obtain ⟨hkey, hsupport⟩ := h name hname
    refine mem_keys_pruneOnce_iff.mpr ⟨hkey, hsupport.imp_right fun hs => ?_⟩
    exact mem_usedNames_iff.mpr (hs.imp_left fun ⟨owner, _, hby⟩ => ⟨owner, hby⟩)
  intro name hname
  refine ⟨hkept name hname, (h name hname).2.imp_right (Or.imp_left ?_)⟩
  rintro ⟨owner, howner, l, m, hl, hm⟩
  exact ⟨owner, howner, l, m, (find?_pruneOnce (hkept owner howner)).trans hl, hm⟩

/-- If a round drops nothing, the names of the table support themselves. -/
theorem selfSupporting_of_stable (h : (pruneOnce types globals).size = types.size) :
    SelfSupporting types globals (· ∈ types.keys) := by
  have heq : (pruneOnce types globals).entries = types.entries :=
    List.Sublist.eq_of_length List.filter_sublist h
  intro name hname
  have hkey : name ∈ (pruneOnce types globals).keys := by
    rw [Table.keys, heq]
    exact hname
  obtain ⟨-, hused⟩ := mem_keys_pruneOnce_iff.mp hkey
  refine ⟨hname, hused.imp_right fun hu => (mem_usedNames_iff.mp hu).imp_left ?_⟩
  rintro ⟨owner, l, m, hl, hm⟩
  exact ⟨owner, Table.mem_keys_of_find? hl, l, m, hl, hm⟩

/-! ## All rounds -/

/-- The entries left are entries of the table, in its order. -/
theorem entries_pruned_sublist (types : TypeTable) (globals : Table String Variable) :
    (pruned types globals).entries.Sublist types.entries := by
  fun_induction pruned types globals with
  | case1 types next h => exact List.Sublist.refl _
  | case2 types next h ih => exact ih.trans List.filter_sublist

theorem find?_pruned {name : String} (h : name ∈ (pruned types globals).keys) :
    (pruned types globals).find? name = types.find? name := by
  obtain ⟨l, hl⟩ := Table.exists_of_mem_keys h
  rw [Table.find?_eq_some_iff.mpr hl,
    Table.find?_eq_some_iff.mpr ((entries_pruned_sublist types globals).subset hl)]

/-- A self-supporting set of names is left. -/
theorem SelfSupporting.subset_pruned {X : String → Prop} (h : SelfSupporting types globals X)
    {name : String} (hname : X name) : name ∈ (pruned types globals).keys := by
  fun_induction pruned types globals with
  | case1 types next hstable => exact (h name hname).1
  | case2 types next hstable ih => exact ih h.pruneOnce

/-- A set that supports itself in some tables does so in all that have the same layouts for it, and
the same variables. -/
theorem SelfSupporting.transfer {types' : TypeTable} {globals' : Table String Variable}
    {X : String → Prop} (h : SelfSupporting types globals X)
    (htypes : ∀ name l, X name → types.find? name = some l → types'.find? name = some l)
    (hglobals : ∀ v ∈ globals.values, v ∈ globals'.values) : SelfSupporting types' globals' X := by
  intro name hname
  obtain ⟨hkey, hsupport⟩ := h name hname
  obtain ⟨l, hl⟩ := Table.exists_of_mem_keys hkey
  have hfind := htypes name l hname (Table.find?_eq_some_iff.mpr hl)
  refine ⟨Table.mem_keys_of_find? hfind, hsupport.imp_right ?_⟩
  rintro (⟨owner, howner, l, m, hl, hm⟩ | ⟨v, hv, hv'⟩)
  · exact .inl ⟨owner, howner, l, m, htypes owner l howner hl, hm⟩
  · exact .inr ⟨v, hglobals v hv, hv'⟩

/-- The names left support themselves. -/
theorem selfSupporting_pruned (types : TypeTable) (globals : Table String Variable) :
    SelfSupporting types globals (· ∈ (pruned types globals).keys) := by
  fun_induction pruned types globals with
  | case1 types next hstable => exact selfSupporting_of_stable hstable
  | case2 types next hstable ih =>
    refine ih.transfer (fun name l _ hl => ?_) fun _ hv => hv
    have hsub : next.entries.Sublist types.entries := List.filter_sublist
    exact Table.find?_eq_some_iff.mpr (hsub.subset (Table.find?_eq_some_iff.mp hl))

/-- **Greatest fixed point.** A name is left exactly if it belongs to a set that supports
itself. -/
theorem mem_keys_pruned_iff {name : String} :
    name ∈ (pruned types globals).keys ↔
      ∃ X : String → Prop, SelfSupporting types globals X ∧ X name :=
  ⟨fun h => ⟨_, selfSupporting_pruned types globals, h⟩, fun ⟨_, hX, hname⟩ =>
    hX.subset_pruned hname⟩

/-- A name is left if it is no unnamed one, or if a structure that is left names it. -/
theorem mem_keys_pruned_of_namedBy {name : String} (hkey : name ∈ types.keys)
    (h : isUnnamed name = false ∨
      ∃ owner ∈ (pruned types globals).keys, NamedBy types owner name) :
    name ∈ (pruned types globals).keys := by
  refine mem_keys_pruned_iff.mpr ⟨fun n => n = name ∨ n ∈ (pruned types globals).keys, ?_, .inl rfl⟩
  rintro n (rfl | hn)
  · refine ⟨hkey, h.imp_right fun ⟨owner, howner, hby⟩ => .inl ⟨owner, .inr howner, hby⟩⟩
  · obtain ⟨hkey', hsupport⟩ := selfSupporting_pruned types globals n hn
    refine ⟨hkey', hsupport.imp_right (Or.imp_left ?_)⟩
    rintro ⟨owner, howner, hby⟩
    exact ⟨owner, .inr howner, hby⟩

end CpuTrace.Dump
