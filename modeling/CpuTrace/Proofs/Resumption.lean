import CpuTrace.Proofs.Republishing
import Mathlib

/-!
# Resuming after a fault

Following the references of a unit stops at the first that leads nowhere. By then the structures before
it, and some members of its own, have lost theirs. If the missing ids are declared later, the unit can
be taken up again where it was left, and nothing has to be undone:

* **unfoldings are stable**: what references lead to stays the same when ids are added
  (`IdTable.Expands.mono`);
* **unfoldings are final**: they cite nothing, so following them again changes nothing;
* **what comes after the fault** has not been touched.

So a sweep with more ids takes over what one with fewer has left (`Table.sweep_sweep`), a layout that
was swept half way is as good as the one from the start (`resolveLayout_resolveLayout`), and so is a
unit (`run_resolveUnit_resumed`).
-/

namespace CpuTrace.Dump

/-! ## More ids -/

/-- Ids stand for the same in another table, which may have more. -/
def IdTable.IsExtendedBy (ids ids' : IdTable) : Prop :=
  ∀ id t, ids.find? id = some t → ids'.find? id = some t

theorem IdTable.isExtendedBy_insert {ids : IdTable} {id : String} (h : id ∉ ids.keys) (t : TypeExpr) :
    ids.IsExtendedBy (ids.insert id t) := by
  intro id' u hu
  have hne : id' ≠ id := fun heq => h (heq ▸ Table.mem_keys_of_find? hu)
  rw [Table.find?_insert, if_neg hne]
  exact hu

section Layouts

variable {ids ids' : IdTable} {t u : TypeExpr}

/-- **Unfoldings are stable.** -/
theorem IdTable.Expands.mono (hext : ids.IsExtendedBy ids') (h : ids.Expands t u) :
    ids'.Expands t u := by
  induction h with
  | reference hs declared _ ih => exact .reference hs (hext _ _ declared) ih
  | atom h => exact .atom h
  | record fields => exact .record fields
  | list length _ ih => exact .list length ih

theorem IdTable.IsExtendedBy.resolve_eq (hext : ids.IsExtendedBy ids') (h : ids.resolve t = .ok u) :
    ids'.resolve t = .ok u :=
  resolve_eq_ok_iff_expands.mpr ((resolve_eq_ok_iff_expands.mp h).mono hext)

/-- A member that has lost its references loses the same ones with more ids, and no more after that. -/
theorem resolveMember_of_done (hext : ids.IsExtendedBy ids') {m m' : Member}
    (h : resolveMember ids m = (m', none)) :
    resolveMember ids' m = (m', none) ∧ resolveMember ids' m' = (m', none) := by
  rw [resolveMember] at h
  rcases ht : ids.resolve m.type with e | t
  · rw [ht] at h
    cases h
  · rw [ht] at h
    cases h
    constructor
    · rw [resolveMember, hext.resolve_eq ht]
    · rw [resolveMember, resolve_of_closed (isClosed_of_resolve ht)]

/-- A member with a reference that leads nowhere stays as it is. -/
theorem resolveMember_of_fault {m m' : Member} {e : Fault} (h : resolveMember ids m = (m', some e)) :
    m' = m := by
  rw [resolveMember] at h
  rcases ht : ids.resolve m.type with e' | t
  · rw [ht] at h
    cases h
    rfl
  · rw [ht] at h
    cases h

/-- **A layout that was left half way** is as good as the one from the start. -/
theorem resolveLayout_resolveLayout (hext : ids.IsExtendedBy ids') (l : Layout) :
    resolveLayout ids' (resolveLayout ids l).1 = resolveLayout ids' l := by
  have hsweep : (l.members.sweep fun _ m => resolveMember ids m).1.sweep
      (fun _ m => resolveMember ids' m) = l.members.sweep fun _ m => resolveMember ids' m :=
    Table.sweep_sweep (fun _ _ _ => resolveMember_of_done hext)
      (fun _ _ _ _ => resolveMember_of_fault) l.members
  simp only [resolveLayout, hsweep]

/-- A layout whose references can be followed loses the same ones with more ids. -/
theorem Resolvable.mono (hext : ids.IsExtendedBy ids') {l : Layout} (h : Resolvable ids l) :
    Resolvable ids' l ∧ resolvedLayout ids' l = resolvedLayout ids l := by
  refine ⟨fun m hm => ?_, mapMembers_congr fun m hm => ?_⟩
  · obtain ⟨t, ht⟩ := h m hm
    exact ⟨t, hext.resolve_eq ht⟩
  · obtain ⟨t, ht⟩ := h m hm
    rw [resolveMember, resolveMember, ht, hext.resolve_eq ht]

end Layouts

/-! ## One structure of a unit -/

section Entries

variable {r r' s : Reader} {ids : IdTable} {name : String} {e : Fault} {l k : Layout}

theorem run_bind_eq_error_iff {α β : Type} {x : ReadM α} {f : α → ReadM β} :
    (x >>= f).run r = .error e r' ↔
      x.run r = .error e r' ∨ ∃ a r'', x.run r = .ok a r'' ∧ (f a).run r'' = .error e r' := by
  rw [EStateM.run_bind]
  rcases x.run r with ⟨a, r''⟩ | ⟨e', r''⟩
  · simp
  · simp

/-- Of two layouts put in one place, the later counts. -/
theorem setUnitLayout_setUnitLayout (r : Reader) (name : String) (l k : Layout) :
    (r.setUnitLayout name l).setUnitLayout name k = r.setUnitLayout name k := by
  rcases hfind : r.unit.find? name with _ | l' | _ <;>
    simp [Reader.setUnitLayout, hfind, Table.insert_insert]

/-- Where a layout is kept does not depend on ids. -/
theorem setUnitLayout_with_ids (r : Reader) (name : String) (l : Layout) (ids : IdTable) :
    { r.setUnitLayout name l with ids := ids } = { r with ids := ids }.setUnitLayout name l := by
  rcases hfind : r.unit.find? name with _ | l' | _ <;> simp [Reader.setUnitLayout, hfind]

/-- Changing a layout that is there adds no structure to the unit. -/
theorem keys_unit_setUnitLayout (h : r.unitLayout? name = some l) (k : Layout) :
    (r.setUnitLayout name k).unit.keys = r.unit.keys := by
  have hkey := mem_keys_of_unitLayout? h
  rw [Reader.setUnitLayout]
  split
  · rfl
  · exact (Table.map_fst_insertEntry ..).trans (if_pos hkey)

/-- A fault is one of the structure's layout, and leaves the layout half way. -/
theorem run_resolveEntry_eq_error_iff :
    (resolveEntry name).run r = .error e r' ↔
      ∃ l, r.unitLayout? name = some l ∧ (resolveLayout r.ids l).2 = some e ∧
        r' = r.setUnitLayout name (resolveLayout r.ids l).1 := by
  rw [resolveEntry, EStateM.run_bind, EStateM.run_get]
  dsimp only
  rcases r.unitLayout? name with _ | l
  · simp
  · dsimp only
    rw [EStateM.run_bind, EStateM.run_set]
    simp only [Option.some.injEq, exists_eq_left']
    rcases (resolveLayout r.ids l).2 with _ | e' <;> simp [eq_comm]

/-- A structure goes the same way in two readers if its layouts there lead to the same. -/
theorem run_resolveEntry_congr (hl : r.unitLayout? name = some l) (hk : s.unitLayout? name = some k)
    (hlayout : resolveLayout r.ids l = resolveLayout s.ids k)
    (hset : ∀ l, r.setUnitLayout name l = s.setUnitLayout name l) :
    (resolveEntry name).run r = (resolveEntry name).run s := by
  rw [resolveEntry, EStateM.run_bind, EStateM.run_bind, EStateM.run_get, EStateM.run_get]
  dsimp only
  rw [hl, hk]
  dsimp only
  rw [EStateM.run_bind, EStateM.run_bind, EStateM.run_set, EStateM.run_set, hlayout, hset]

/-- **A structure that was left half way** goes on as it would have from the start. -/
theorem run_resolveEntry_resumed (hext : r.ids.IsExtendedBy ids)
    (h : (resolveEntry name).run r = .error e r') :
    (resolveEntry name).run { r' with ids := ids } = (resolveEntry name).run { r with ids := ids } := by
  obtain ⟨l, hl, -, rfl⟩ := run_resolveEntry_eq_error_iff.mp h
  have hhalf : (r.setUnitLayout name (resolveLayout r.ids l).1).unitLayout? name =
      some (resolveLayout r.ids l).1 := by
    rw [unitLayout?_setUnitLayout, if_pos rfl]
  refine run_resolveEntry_congr hhalf hl (resolveLayout_resolveLayout hext l) fun k => ?_
  rw [setUnitLayout_with_ids, setUnitLayout_setUnitLayout]

/-- **A structure that was finished** is finished alike with more ids. -/
theorem run_resolveEntry_of_done (hext : r.ids.IsExtendedBy ids)
    (h : (resolveEntry name).run r = .ok () r') :
    (resolveEntry name).run { r with ids := ids } = .ok () { r' with ids := ids } := by
  refine run_resolveEntry_eq_ok_iff.mpr ?_
  rcases run_resolveEntry_eq_ok_iff.mp h with ⟨hnone, rfl⟩ | ⟨l, hl, hresolvable, rfl⟩
  · exact .inl ⟨hnone, rfl⟩
  · obtain ⟨hmore, hsame⟩ := hresolvable.mono hext
    refine .inr ⟨l, hl, hmore, ?_⟩
    rw [setUnitLayout_with_ids]
    exact congrArg _ hsame.symm

/-- What a structure that was finished looks like. -/
theorem isClosedAt_of_resolveEntry (h : (resolveEntry name).run r = .ok () r') : r'.IsClosedAt name := by
  intro l hl
  rcases run_resolveEntry_eq_ok_iff.mp h with ⟨hnone, rfl⟩ | ⟨l', -, hresolvable, rfl⟩
  · rw [hnone] at hl
    cases hl
  · rw [unitLayout?_setUnitLayout, if_pos rfl] at hl
    cases hl
    exact isClosed_resolvedLayout hresolvable

end Entries

/-! ## All structures of a unit -/

section Units

variable {r r' : Reader} {ids : IdTable} {names : List String} {e : Fault}

/-- What a fault leaves alone: other structures, the ids, and the names of the unit's structures. -/
theorem kept_of_forM_error :
    ∀ {r : Reader}, (names.forM resolveEntry).run r = .error e r' →
      (∀ name ∉ names, r'.unitLayout? name = r.unitLayout? name) ∧ r'.unit.keys = r.unit.keys := by
  induction names with
  | nil =>
    intro r h
    cases h
  | cons first names ih =>
    intro r h
    rcases run_bind_eq_error_iff.mp h with hfirst | ⟨_, r₁, hfirst, hrest⟩
    · obtain ⟨l, hl, -, rfl⟩ := run_resolveEntry_eq_error_iff.mp hfirst
      refine ⟨fun name hname => ?_, keys_unit_setUnitLayout hl _⟩
      rw [unitLayout?_setUnitLayout, if_neg (List.ne_of_not_mem_cons hname)]
    · obtain ⟨hkept, hkeys⟩ := ih hrest
      refine ⟨fun name hname => ?_, hkeys.trans ?_⟩
      · obtain ⟨hne, hnot⟩ := List.ne_and_not_mem_of_not_mem_cons hname
        rw [hkept name hnot]
        exact (resolvedFor_of_resolveEntry hfirst).kept name (List.mem_singleton.not.mpr hne)
      · rcases run_resolveEntry_eq_ok_iff.mp hfirst with ⟨-, rfl⟩ | ⟨l, hl, -, rfl⟩
        · rfl
        · exact keys_unit_setUnitLayout hl _

/-- The induction is on the structures in order: those that were finished change nothing any more, and
bring the run from the start to the same place. -/
theorem run_forM_resolveEntry_resumed : ∀ {r : Reader}, names.Nodup → r.ids.IsExtendedBy ids →
    (names.forM resolveEntry).run r = .error e r' →
    (names.forM resolveEntry).run { r' with ids := ids } =
      (names.forM resolveEntry).run { r with ids := ids } := by
  induction names with
  | nil =>
    intro r _ _ h
    cases h
  | cons first names ih =>
    intro r hnodup hext h
    obtain ⟨hfirst, hnames⟩ := List.nodup_cons.mp hnodup
    have hcons : (first :: names).forM resolveEntry =
        resolveEntry first >>= fun _ => names.forM resolveEntry := rfl
    rw [hcons, EStateM.run_bind, EStateM.run_bind]
    rcases run_bind_eq_error_iff.mp h with hfault | ⟨_, r₁, hdone, hrest⟩
    · rw [run_resolveEntry_resumed hext hfault]
    · have hids : r₁.ids = r.ids := (resolvedFor_of_resolveEntry hdone).ids
      have hclosed : Reader.IsClosedAt { r' with ids := ids } first := by
        intro l hl
        have hkept : r'.unitLayout? first = r₁.unitLayout? first :=
          (kept_of_forM_error hrest).1 first hfirst
        exact isClosedAt_of_resolveEntry hdone l (hkept.symm.trans hl)
      rw [run_resolveEntry_of_done hext hdone, run_resolveEntry_of_closed hclosed]
      exact ih hnames (hids ▸ hext) hrest

/-- **Nothing has to be undone.** A unit has stopped at a fault, with some of its references followed. If
it is taken up again with more ids, it goes the way that it would go from the start with them: to the
same fault, or to none and then the same layouts, with the same names, sizes and types in the same
order. -/
theorem run_resolveUnit_resumed (r r' : Reader) (e : Fault) (hfault : resolveUnit.run r = .error e r')
    (ids : IdTable) (hext : r.ids.IsExtendedBy ids) :
    resolveUnit.run { r' with ids := ids } = resolveUnit.run { r with ids := ids } := by
  have hkeys := (kept_of_forM_error hfault).2
  have hrun : resolveUnit.run { r' with ids := ids } =
      (r'.unit.keys.forM resolveEntry).run { r' with ids := ids } := rfl
  rw [hrun, hkeys]
  exact run_forM_resolveEntry_resumed r.unit.distinct hext hfault

end Units

/-- Ids of which one leads, by way of another, to one that is missing. -/
def listIds : IdTable := .ofList
  [("0x10", .named "int"), ("0x30", .pointer (.text "<0x040")), ("0x50", .array 2 (.text "<0x30"))]

/-- The members of a table of lists. -/
def tableLayout (count slots : TypeExpr) : Layout :=
  ⟨24, .ofList [("count", ⟨0, count⟩), ("slots", ⟨8, slots⟩)]⟩

/-- The members of a node of a list. -/
def nodeLayout (value next : TypeExpr) : Layout :=
  ⟨16, .ofList [("value", ⟨0, value⟩), ("next", ⟨8, next⟩)]⟩

/-- A unit with a structure of its own, one that has been published, and one more of its own. -/
def listUnit : Reader where
  ids := listIds
  types := .ofList [("table", tableLayout (.text "<0x010") (.text "<0x50"))]
  unit := .ofList
    [("cell", .own ⟨4, .ofList [("value", ⟨0, .text "<0x10"⟩)]⟩), ("table", .shared),
      ("node", .own (nodeLayout (.text "<0x10") (.text "<0x30")))]

/-- The unit is left with the first structure done, the second half way and the third untouched. With
the missing id, it ends as it would have from the start. -/
theorem run_resolveUnit_listUnit : ∃ r' s : Reader,
    resolveUnit.run listUnit = .error (.missingName "0x40") r' ∧
      listIds.IsExtendedBy (listIds.insert "0x40" (.named "node")) ∧
      r'.unitLayouts =
        [("cell", ⟨4, .ofList [("value", ⟨0, .named "int"⟩)]⟩),
          ("table", tableLayout (.named "int") (.text "<0x50")),
          ("node", nodeLayout (.text "<0x10") (.text "<0x30"))] ∧
      resolveUnit.run { r' with ids := listIds.insert "0x40" (.named "node") } = .ok () s ∧
      resolveUnit.run { listUnit with ids := listIds.insert "0x40" (.named "node") } = .ok () s ∧
      s.unitLayouts =
        [("cell", ⟨4, .ofList [("value", ⟨0, .named "int"⟩)]⟩),
          ("table", tableLayout (.named "int") (.array 2 (.pointer (.named "node")))),
          ("node", nodeLayout (.named "int") (.pointer (.named "node")))] := by
  have hext : listIds.IsExtendedBy (listIds.insert "0x40" (.named "node")) :=
    IdTable.isExtendedBy_insert (by decide) _
  obtain ⟨r', hfault, hhalf⟩ : ∃ r', resolveUnit.run listUnit = .error (.missingName "0x40") r' ∧
      r'.unitLayouts =
        [("cell", ⟨4, .ofList [("value", ⟨0, .named "int"⟩)]⟩),
          ("table", tableLayout (.named "int") (.text "<0x50")),
          ("node", nodeLayout (.text "<0x10") (.text "<0x30"))] := ⟨_, rfl, rfl⟩
  obtain ⟨s, hrun, hlayouts⟩ : ∃ s,
      resolveUnit.run { listUnit with ids := listIds.insert "0x40" (.named "node") } = .ok () s ∧
      s.unitLayouts =
        [("cell", ⟨4, .ofList [("value", ⟨0, .named "int"⟩)]⟩),
          ("table", tableLayout (.named "int") (.array 2 (.pointer (.named "node")))),
          ("node", nodeLayout (.named "int") (.pointer (.named "node")))] := ⟨_, rfl, rfl⟩
  refine ⟨r', s, hfault, hext, hhalf, ?_, hrun, hlayouts⟩
  rw [run_resolveUnit_resumed listUnit r' _ hfault _ hext]
  exact hrun

end CpuTrace.Dump
