import CpuTrace.Proofs.GreatestSupport
import CpuTrace.Proofs.LocalVariables
import CpuTrace.Proofs.ReferenceGraph
import CpuTrace.Proofs.TypeGrammar
import Mathlib

/-!
# Publishing twice

A unit that has been published can be published again: a listing does so, and more lines may follow
before the next one. It should then find nothing to do. This is not clear for structures that were
dropped. They stay with their unit, so the second publication adds them to the table of all types once
more, behind the others, and has to drop them again; and by then enumerations have been written into
what was left, which names less than before.

`Reader.IsPublished` says what a reader is like in which nothing is left to do, and
`Reader.IsPublished.run_publish` that publishing leaves such a reader alone. A publication without a
fault leads to one (`isPublished_of_run`), because:

* **references** are gone, and what has none is its own unfolding (`ResolvedFor.isClosedAt`);
* **what is left supports itself** (`PublishedFrom.supported`). Here an enumeration must not have the
  name of a structure: it would be written over the only member that names an unnamed structure;
* **what is dropped does not**, with the members that are now there (`PublishedFrom.unsupported`);
* **no member names an enumeration** any more (`PublishedFrom.find?_enums_of_memberName`).

The main statement is `publish_publish`.
-/

namespace CpuTrace.Dump

/-! ## Layouts of the unit -/

section Layouts

variable {r : Reader} {l : Layout} {name : String}

/-- A structure that has a layout in the unit is one of the unit. -/
theorem mem_keys_of_unitLayout? (h : r.unitLayout? name = some l) : name ∈ r.unit.keys := by
  rw [Reader.unitLayout?] at h
  rcases hfind : r.unit.find? name with _ | e
  · rw [hfind] at h
    cases h
  · exact Table.mem_keys_of_find? hfind

theorem mem_unitLayouts : (name, l) ∈ r.unitLayouts ↔ r.unitLayout? name = some l := by
  rw [Reader.unitLayouts, List.mem_filterMap]
  constructor
  · rintro ⟨e, -, he⟩
    obtain ⟨l', hl', heq⟩ := Option.map_eq_some_iff.mp he
    obtain ⟨rfl, rfl⟩ := Prod.mk.inj heq
    exact hl'
  · intro h
    obtain ⟨e, he⟩ := Table.exists_of_mem_keys (mem_keys_of_unitLayout? h)
    exact ⟨(name, e), he, by rw [h]; rfl⟩

theorem nodup_unitLayouts (r : Reader) : (r.unitLayouts.map Prod.fst).Nodup := by
  have hdistinct : r.unit.entries.Pairwise fun e e' => e.1 ≠ e'.1 :=
    List.pairwise_map.mp r.unit.distinct
  rw [Reader.unitLayouts, List.Nodup, List.pairwise_map, List.pairwise_filterMap]
  refine hdistinct.imp fun {e e'} hne p hp q hq => ?_
  obtain ⟨_, -, rfl⟩ := Option.map_eq_some_iff.mp hp
  obtain ⟨_, -, rfl⟩ := Option.map_eq_some_iff.mp hq
  exact hne

/-- The layouts of the unit, as a table. -/
def Reader.unitTypes (r : Reader) : TypeTable := ⟨r.unitLayouts, nodup_unitLayouts r⟩

/-- The structures of a unit are found where the reader finds them. -/
theorem find?_unitTypes (r : Reader) (name : String) : r.unitTypes.find? name = r.unitLayout? name := by
  rw [Option.ext_iff]
  intro l
  exact Table.find?_eq_some_iff.trans mem_unitLayouts

/-- Publishing puts the layouts of the unit before those of other units. -/
theorem find?_publishTypes (r : Reader) (name : String) :
    r.publishTypes.types.find? name = (r.unitLayout? name).or (r.types.find? name) := by
  rw [← find?_unitTypes]
  exact Table.find?_update r.types r.unitTypes name

/-- The unit has the layouts that it had. -/
theorem unitLayout?_publishTypes (r : Reader) (name : String) :
    r.publishTypes.unitLayout? name = r.unitLayout? name := by
  have hunit : r.publishTypes.unit.find? name = (r.unit.find? name).map fun _ => .shared :=
    Table.find?_mapValues _ _ _
  rw [Reader.unitLayout?, hunit, find?_publishTypes, Reader.unitLayout?]
  rcases r.unit.find? name with _ | l | _ <;> simp

/-- Changing a layout of the unit changes no other. -/
theorem unitLayout?_setUnitLayout (r : Reader) (name name' : String) (l : Layout) :
    (r.setUnitLayout name l).unitLayout? name' =
      if name' = name then some l else r.unitLayout? name' := by
  by_cases heq : name' = name
  · subst heq
    rcases hfind : r.unit.find? name' with _ | l' | _ <;>
      simp [Reader.unitLayout?, Reader.setUnitLayout, hfind]
  · rcases hfind : r.unit.find? name with _ | l' | _ <;>
      simp [Reader.unitLayout?, Reader.setUnitLayout, hfind, Table.find?_insert, heq]

/-- A layout that is put where it is changes nothing. -/
theorem setUnitLayout_of_unitLayout? (h : r.unitLayout? name = some l) :
    r.setUnitLayout name l = r := by
  rw [Reader.unitLayout?] at h
  rw [Reader.setUnitLayout]
  rcases hfind : r.unit.find? name with _ | l' | _ <;> rw [hfind] at h
  · cases h
  · cases h
    dsimp only
    rw [Table.insert_of_find? hfind]
  · dsimp only at h ⊢
    rw [Table.insert_of_find? h]

end Layouts

/-! ## References -/

/-- The members of a layout cite no ids. -/
def Layout.IsClosed (l : Layout) : Prop := l.members.All fun m => Dump.IsClosed m.type

/-- If the unit has a layout of a name, it cites no ids. -/
def Reader.IsClosedAt (r : Reader) (name : String) : Prop :=
  ∀ l, r.unitLayout? name = some l → Layout.IsClosed l

section References

variable {r r' : Reader} {ids : IdTable} {l : Layout} {name : String}

/-- A layout whose references have been followed has none left. -/
theorem isClosed_resolvedLayout (h : Resolvable ids l) : Layout.IsClosed (resolvedLayout ids l) := by
  intro m hm
  obtain ⟨n, hn, rfl⟩ := mem_values_mapMembers.mp hm
  obtain ⟨t, ht⟩ := h n hn
  rw [resolveMember, ht]
  exact isClosed_of_resolve ht

theorem Layout.IsClosed.resolvable (h : Layout.IsClosed l) (ids : IdTable) : Resolvable ids l :=
  fun m hm => ⟨m.type, resolve_of_closed (h m hm) ids⟩

/-- A layout without references stays. -/
theorem Layout.IsClosed.resolvedLayout (h : Layout.IsClosed l) (ids : IdTable) :
    resolvedLayout ids l = l := by
  refine mapMembers_of_fixed fun m hm => ?_
  rw [resolveMember, resolve_of_closed (h m hm) ids]

/-- **What following references does** to some structures of the unit: their layouts lose them. All other
layouts stay. -/
structure ResolvedFor (names : List String) (r r' : Reader) : Prop where
  /-- the references lead to types -/
  resolvable : ∀ name ∈ names, ∀ l, r.unitLayout? name = some l → Resolvable r.ids l
  /-- the layouts have none left -/
  resolved : ∀ name ∈ names, r'.unitLayout? name = (r.unitLayout? name).map (resolvedLayout r.ids)
  /-- other layouts of the unit stay -/
  kept : ∀ name ∉ names, r'.unitLayout? name = r.unitLayout? name
  /-- so do those that the unit does not have -/
  types : ∀ name, r.unitLayout? name = none → r'.types.find? name = r.types.find? name
  /-- ids stand for what they stood for -/
  ids : r'.ids = r.ids
  /-- enumerations stay -/
  enums : r'.enums = r.enums

/-- One entry resolves its own structure, and no other. -/
theorem resolvedFor_of_resolveEntry (h : (resolveEntry name).run r = .ok () r') :
    ResolvedFor [name] r r' := by
  rcases run_resolveEntry_eq_ok_iff.mp h with ⟨hnone, rfl⟩ | ⟨l, hl, hresolvable, rfl⟩
  · refine ⟨?_, ?_, fun _ _ => rfl, fun _ _ => rfl, rfl, rfl⟩ <;> rw [List.forall_mem_singleton, hnone]
    · exact fun l hl => by cases hl
    · rfl
  · refine ⟨?_, ?_, fun name' hname' => ?_, fun name' hnone => ?_, ?_, ?_⟩
    · rw [List.forall_mem_singleton, hl]
      exact fun l' hl' => Option.some.inj hl' ▸ hresolvable
    · rw [List.forall_mem_singleton, unitLayout?_setUnitLayout, if_pos rfl, hl]
      rfl
    · rw [unitLayout?_setUnitLayout, if_neg (List.mem_singleton.not.mp hname')]
    · have hne : name' ≠ name := fun heq => by
        rw [heq, hl] at hnone
        cases hnone
      rw [Reader.setUnitLayout]
      split
      · exact (Table.find?_insert ..).trans (if_neg hne)
      · rfl
    · rw [Reader.setUnitLayout]
      split <;> rfl
    · rw [Reader.setUnitLayout]
      split <;> rfl

/-- Entries of different names are resolved one after the other. -/
theorem ResolvedFor.cons {names : List String} {r₁ : Reader} (h : ResolvedFor [name] r r₁)
    (h' : ResolvedFor names r₁ r') (hname : name ∉ names) : ResolvedFor (name :: names) r r' := by
  have hkept : ∀ name' ∈ names, r₁.unitLayout? name' = r.unitLayout? name' := fun name' hname' =>
    h.kept name' fun heq => hname (List.mem_singleton.mp heq ▸ hname')
  have hself := List.forall_mem_singleton.mp h.resolved
  refine ⟨?_, ?_, fun name' hname' => ?_, fun name' hnone => ?_, h'.ids.trans h.ids,
    h'.enums.trans h.enums⟩
  · refine List.forall_mem_cons.mpr ⟨List.forall_mem_singleton.mp h.resolvable, fun name' hname' => ?_⟩
    rw [← hkept name' hname', ← h.ids]
    exact h'.resolvable name' hname'
  · refine List.forall_mem_cons.mpr ⟨(h'.kept name hname).trans hself, fun name' hname' => ?_⟩
    rw [h'.resolved name' hname', hkept name' hname', h.ids]
  · obtain ⟨hne, hnot⟩ := List.ne_and_not_mem_of_not_mem_cons hname'
    exact (h'.kept name' hnot).trans (h.kept name' (List.mem_singleton.not.mpr hne))
  · have hnone₁ : r₁.unitLayout? name' = none := by
      by_cases heq : name' = name
      · rw [heq] at hnone ⊢
        rw [hself, hnone]
        rfl
      · exact (h.kept name' (List.mem_singleton.not.mpr heq)).trans hnone
    exact (h'.types name' hnone₁).trans (h.types name' hnone)

theorem resolvedFor_of_forM {names : List String} : ∀ {r : Reader}, names.Nodup →
    (names.forM resolveEntry).run r = .ok () r' → ResolvedFor names r r' := by
  induction names with
  | nil =>
    intro r _ h
    cases h
    exact ⟨by simp, by simp, fun _ _ => rfl, fun _ _ => rfl, rfl, rfl⟩
  | cons name names ih =>
    intro r hnodup h
    obtain ⟨hname, hnames⟩ := List.nodup_cons.mp hnodup
    obtain ⟨_, r₁, hfirst, hrest⟩ := run_bind_eq_ok_iff.mp h
    exact (resolvedFor_of_resolveEntry hfirst).cons (ih hnames hrest) hname

/-- **Resolving a unit** resolves each of its structures, once. -/
theorem resolvedFor_of_resolveUnit (h : resolveUnit.run r = .ok () r') :
    ResolvedFor r.unit.keys r r' :=
  resolvedFor_of_forM r.unit.distinct h

/-- The unit has the layouts that it had, without references. -/
theorem ResolvedFor.unitLayout?_eq (h : ResolvedFor r.unit.keys r r') (name : String) :
    r'.unitLayout? name = (r.unitLayout? name).map (resolvedLayout r.ids) := by
  by_cases hkey : name ∈ r.unit.keys
  · exact h.resolved name hkey
  · have hnone : r.unitLayout? name = none :=
      Option.eq_none_iff_forall_ne_some.mpr fun l hl => hkey (mem_keys_of_unitLayout? hl)
    rw [h.kept name hkey, hnone]
    rfl

/-- **Following references** leaves none in the unit. -/
theorem ResolvedFor.isClosedAt (h : ResolvedFor r.unit.keys r r') (name : String) :
    r'.IsClosedAt name := by
  intro l hl
  rw [h.unitLayout?_eq] at hl
  obtain ⟨l₀, hl₀, rfl⟩ := Option.map_eq_some_iff.mp hl
  exact isClosed_resolvedLayout (h.resolvable name (mem_keys_of_unitLayout? hl₀) l₀ hl₀)

/-- Where there are none, following them changes nothing. -/
theorem run_resolveEntry_of_closed (h : r.IsClosedAt name) :
    (resolveEntry name).run r = .ok () r := by
  refine run_resolveEntry_eq_ok_iff.mpr ?_
  rcases hl : r.unitLayout? name with _ | l
  · exact .inl ⟨rfl, rfl⟩
  · have hclosed := h l hl
    refine .inr ⟨l, rfl, hclosed.resolvable r.ids, ?_⟩
    rw [hclosed.resolvedLayout, setUnitLayout_of_unitLayout? hl]

/-- Structures without references are resolved to themselves. -/
theorem run_resolveUnit_of_closed (h : ∀ name, r.IsClosedAt name) : resolveUnit.run r = .ok () r := by
  have hall : ∀ names : List String, (names.forM resolveEntry).run r = .ok () r := by
    intro names
    induction names with
    | nil => rfl
    | cons name names ih =>
      exact run_bind_eq_ok_iff.mpr ⟨(), r, run_resolveEntry_of_closed (h name), ih⟩
  exact hall r.unit.keys

/-! ### Variables -/

theorem resolveGlobals_of_closed {vs : List (String × Variable)}
    (h : ∀ v ∈ vs, IsClosed v.2.type) (ids : IdTable) : resolveGlobals ids vs = .ok vs := by
  induction vs with
  | nil => rfl
  | cons v vs ih =>
    obtain ⟨hv, hvs⟩ := List.forall_mem_cons.mp h
    rw [resolveGlobals, resolve_of_closed hv, ih hvs]
    rfl

theorem resolveLocals_of_closed {vs : List Local} (h : ∀ v ∈ vs, IsClosed v.type) (ids : IdTable) :
    resolveLocals ids vs = .ok vs := by
  induction vs with
  | nil => rfl
  | cons v vs ih =>
    obtain ⟨hv, hvs⟩ := List.forall_mem_cons.mp h
    rw [resolveLocals] at ih ⊢
    rw [List.mapM_cons, ih hvs, resolve_of_closed hv]
    rfl

/-- Variables that have been resolved have no references. -/
theorem isClosed_resolvedGlobals (r : Reader) : ∀ v ∈ r.resolvedGlobals, IsClosed v.2.type := by
  intro v hv
  rw [Reader.resolvedGlobals] at hv
  split at hv
  · next vs hvs =>
    obtain ⟨w, -, hw⟩ := exists_of_resolveGlobals hvs v hv
    exact isClosed_of_resolve hw
  · cases hv

theorem isClosed_of_resolveLocals {vs us : List Local} (h : resolveLocals ids vs = .ok us) :
    ∀ u ∈ us, IsClosed u.type := by
  intro u hu
  obtain ⟨v, -, hv, -⟩ := exists_mem_of_forall₂ (forall₂_of_resolveLocals h).flip hu
  exact isClosed_of_resolve (IdTable.resolve_eq_ok_iff.mpr hv)

end References

/-! ## Readers that are published -/

/-- **Nothing is left to publish.** What publishing would do has been done, and would have no effect if it
were done again. -/
structure Reader.IsPublished (r : Reader) : Prop where
  /-- the layouts of the unit cite no ids -/
  layouts : ∀ name, r.IsClosedAt name
  /-- nor do its global variables -/
  unitGlobals : r.unitGlobals.All fun v => IsClosed v.type
  /-- nor do its local variables -/
  unitLocals : ∀ v ∈ r.unitLocals, IsClosed v.type
  /-- its global variables are among those of all units -/
  globals : ∀ name v, r.unitGlobals.find? name = some v → r.globals.find? name = some v
  /-- a structure that it has to itself is not among those of all units -/
  own : ∀ name l, r.unit.find? name = some (.own l) → name ∉ r.types.keys
  /-- what is in use are names, with the structures that the unit would add -/
  atoms : ∀ t ∈ usedNames r.publishTypes.types r.globals, isAtom t = true
  /-- the structures that are there support themselves -/
  supported : SelfSupporting r.types r.globals (· ∈ r.types.keys)
  /-- the others do not -/
  unsupported : ∀ X, SelfSupporting r.publishTypes.types r.globals X →
    ∀ name, X name → name ∈ r.types.keys
  /-- no member names an enumeration -/
  merged : ∀ e ∈ r.types.entries, ∀ m ∈ e.2.members.values, ∀ name, memberName m = .text name →
    r.enums.find? name = none

section Published

variable {r : Reader}

/-- **Dropping what was added.** If a table has further entries behind those of another one, and the
names of the other one are the greatest set that supports itself, then they are left. -/
theorem pruned_of_append {types types' : TypeTable} {globals : Table String Variable}
    {rest : List (String × Layout)} (hrest : types'.entries = types.entries ++ rest)
    (hsupported : SelfSupporting types' globals (· ∈ types.keys))
    (hgreatest : ∀ X, SelfSupporting types' globals X → ∀ name, X name → name ∈ types.keys) :
    pruned types' globals = types := by
  have hsub := entries_pruned_sublist types' globals
  rw [hrest] at hsub
  obtain ⟨kept, dropped, hentries, hkept, hdropped⟩ := List.sublist_append_iff.mp hsub
  have hdistinct := types'.distinct
  rw [hrest, List.map_append, List.nodup_append] at hdistinct
  -- what is left of the rest would have a name of the other table, and no name occurs twice
  have hnone : dropped = [] := by
    refine List.eq_nil_iff_forall_not_mem.mpr fun e he => ?_
    have hmem : e ∈ (pruned types' globals).entries := hentries ▸ List.mem_append_right kept he
    have hkey := hgreatest _ (selfSupporting_pruned types' globals) e.1 (Table.mem_keys_of_mem hmem)
    exact hdistinct.2.2 e.1 hkey e.1 (List.mem_map_of_mem (hdropped.subset he)) rfl
  rw [hnone, List.append_nil] at hentries
  -- and nothing of the other table is lost
  have hall : types.entries ⊆ kept := by
    intro e he
    have hkey : e.1 ∈ (pruned types' globals).keys :=
      hsupported.subset_pruned (Table.mem_keys_of_mem he)
    have hfind : types'.find? e.1 = some e.2 :=
      Table.find?_eq_some_iff.mpr (hrest ▸ List.mem_append_left rest he)
    rw [← hentries]
    exact Table.find?_eq_some_iff.mp ((find?_pruned hkey).trans hfind)
  have hnodup : types.entries.Nodup := List.Nodup.of_map Prod.fst types.distinct
  refine Table.ext (hentries.trans (hkept.eq_of_length_le ?_))
  exact (hnodup.subperm hall).length_le

/-- What becomes of a structure of the unit whose layout all units have: it stays there, or the unit has
it to itself again. -/
def UnitEntry.kept (kept : Bool) (layout : Option Layout) : UnitEntry :=
  match kept, layout with
  | false, some l => .own l
  | _, _ => .shared

theorem UnitEntry.kept_eq_own_iff {kept : Bool} {layout : Option Layout} {l : Layout} :
    UnitEntry.kept kept layout = .own l ↔ kept = false ∧ layout = some l := by
  rcases kept with _ | _ <;> rcases layout with _ | l' <;> simp [UnitEntry.kept]

/-- After a publication the unit keeps what has been dropped from the table. -/
theorem unit_withTypes_publishTypes (r : Reader) (types : TypeTable) :
    (r.publishTypes.withTypes types).unit = r.unit.mapValues fun name _ =>
      .kept (types.contains name) (r.publishTypes.types.find? name) := by
  refine Table.ext ?_
  simp only [Reader.withTypes, Reader.publishTypes, Table.entries_mapValues, List.map_map]
  refine List.map_congr_left fun e _ => ?_
  simp only [Function.comp_apply, UnitEntry.kept]
  split <;> simp_all

namespace Reader.IsPublished

theorem resolveGlobals_eq_self (h : r.IsPublished) :
    resolveGlobals r.ids r.unitGlobals.entries = .ok r.unitGlobals.entries :=
  resolveGlobals_of_closed (fun v hv => h.unitGlobals v.2 (List.mem_map_of_mem hv)) r.ids

/-- Variables that are published already join nothing new. -/
theorem joinedGlobals_eq (h : r.IsPublished) : r.resolvedGlobals = r.unitGlobals.entries ∧
    Table.ofList r.resolvedGlobals = r.unitGlobals ∧ r.joinedGlobals = r.globals := by
  have hresolved : r.resolvedGlobals = r.unitGlobals.entries := by
    rw [Reader.resolvedGlobals, h.resolveGlobals_eq_self]
  have htable : Table.ofList r.resolvedGlobals = r.unitGlobals := by
    rw [hresolved]
    exact Table.ext (Table.entries_ofList r.unitGlobals.distinct)
  refine ⟨hresolved, htable, ?_⟩
  rw [Reader.joinedGlobals, htable]
  exact Table.update_of_find? h.globals

/-- The structures that publishing adds are dropped again. -/
theorem pruned_publishTypes (h : r.IsPublished) :
    pruned r.publishTypes.types r.globals = r.types := by
  have hagree : ∀ e ∈ r.unitLayouts, e.1 ∈ r.types.keys → r.types.find? e.1 = some e.2 := by
    intro e he hkey
    have hl := mem_unitLayouts.mp he
    rw [Reader.unitLayout?] at hl
    rcases hfind : r.unit.find? e.1 with _ | l | _ <;> rw [hfind] at hl
    · cases hl
    · exact (h.own e.1 l hfind hkey).elim
    · exact hl
  have hentries := Table.entries_foldl_insert_of_agree (nodup_unitLayouts r) hagree
  refine pruned_of_append hentries (h.supported.transfer (fun name l _ hl => ?_) fun _ hv => hv)
    h.unsupported
  exact Table.find?_eq_some_iff.mpr
    (hentries ▸ List.mem_append_left _ (Table.find?_eq_some_iff.mp hl))

/-- The unit is as it was: it shares what is left, and has to itself what is dropped. -/
theorem unit_withTypes (h : r.IsPublished) :
    (r.publishTypes.withTypes r.types).unit = r.unit := by
  rw [unit_withTypes_publishTypes]
  refine Table.mapValues_of_fixed fun e he => ?_
  have hfind : r.unit.find? e.1 = some e.2 := Table.find?_eq_some_iff.mpr he
  have htypes := find?_publishTypes r e.1
  rw [Reader.unitLayout?, hfind] at htypes
  rcases hentry : e.2 with l | _ <;> rw [hentry] at hfind htypes
  · have hnone : r.types.find? e.1 = none := Table.find?_eq_none_iff.mpr (h.own e.1 l hfind)
    simp [htypes, Table.contains, hnone, UnitEntry.kept]
  · rcases hl : r.types.find? e.1 with _ | l
    · simp [htypes, Table.contains, hl, UnitEntry.kept]
    · simp [Table.contains, hl, UnitEntry.kept]

/-- No enumeration is left to be written. -/
theorem mergeMember_eq_self (h : r.IsPublished) {e : String × Layout} (he : e ∈ r.types.entries)
    {m : Member} (hm : m ∈ e.2.members.values) : mergeMember r.enums m = (m, none) := by
  rw [mergeMember]
  split
  · next name hname => rw [h.merged e he m hm name hname]
  · rfl

/-- **Publishing again** changes nothing, but that the local variables of the unit are there once more. -/
theorem run_publish (h : r.IsPublished) :
    publish.run r = .ok () { r with locals := r.locals ++ r.unitLocals } := by
  obtain ⟨hresolved, htable, hjoined⟩ := h.joinedGlobals_eq
  have hglobals : publishGlobals.run r.publishTypes = .ok () r.publishTypes := by
    refine run_publishGlobals.mpr ⟨?_, ?_⟩
    · exact h.resolveGlobals_eq_self.trans (congrArg Except.ok hresolved.symm)
    · change r.publishTypes = { r.publishTypes with
        unitGlobals := Table.ofList r.resolvedGlobals, globals := r.joinedGlobals }
      rw [htable, hjoined]
      rfl
  have hlocals : publishLocals.run r.publishTypes =
      .ok () { r.publishTypes with locals := r.locals ++ r.unitLocals } :=
    run_publishLocals.mpr ⟨r.unitLocals, resolveLocals_of_closed h.unitLocals r.ids, rfl⟩
  have hprune : prune.run { r.publishTypes with locals := r.locals ++ r.unitLocals } =
      .ok () { r with locals := r.locals ++ r.unitLocals } := by
    refine run_prune.mpr ⟨h.atoms, ?_⟩
    change _ = { r with
      types := pruned r.publishTypes.types r.globals
      unit := (r.publishTypes.withTypes (pruned r.publishTypes.types r.globals)).unit
      locals := r.locals ++ r.unitLocals }
    rw [h.pruned_publishTypes, h.unit_withTypes]
  have hmerge : mergeEnums.run { r with locals := r.locals ++ r.unitLocals } =
      .ok () { r with locals := r.locals ++ r.unitLocals } := by
    have htypes : (r.types.mapValues fun _ l => mergedLayout r.enums l) = r.types :=
      Table.mapValues_of_fixed fun e he =>
        mapMembers_of_fixed fun m hm => by rw [h.mergeMember_eq_self he hm]
    refine run_mergeEnums.mpr ⟨fun e he m hm => by rw [h.mergeMember_eq_self he hm], ?_⟩
    dsimp only
    rw [htypes]
  rw [publish]
  exact run_bind_eq_ok_iff.mpr ⟨(), r, run_resolveUnit_of_closed h.layouts,
    run_bind_eq_ok_iff.mpr ⟨(), r.publishTypes, rfl,
    run_bind_eq_ok_iff.mpr ⟨(), _, hglobals,
    run_bind_eq_ok_iff.mpr ⟨(), _, hlocals,
    run_bind_eq_ok_iff.mpr ⟨(), _, hprune, hmerge⟩⟩⟩⟩⟩

end Reader.IsPublished

end Published

/-! ## The first publication -/

section Merged

variable {enums : Table String Enumeration} {l : Layout}

/-- A text that is no reference cites nothing. -/
theorem isClosed_text {s : String} (h : isReference s = false) : IsClosed (.text s) := by
  intro id hid
  cases hid with
  | reference hs =>
    rw [isReference, hs] at h
    cases h

/-- A spine cites what stands at its end. -/
theorem isClosed_plug {t : TypeExpr} (h : IsClosed t) (s : Spine) : IsClosed (s.plug t) := by
  induction s with
  | tip => exact h
  | pointer s ih =>
    refine isClosed_list.mpr (List.forall_mem_cons.mpr ⟨isClosed_text (by decide), ?_⟩)
    exact List.forall_mem_singleton.mpr ih
  | array count s ih =>
    have hcount : IsClosed (.int count) := fun id hid => by cases hid
    refine isClosed_list.mpr (List.forall_mem_cons.mpr ⟨isClosed_text (by decide), ?_⟩)
    exact List.forall_mem_cons.mpr ⟨hcount, List.forall_mem_singleton.mpr ih⟩

/-- Enumerations bring no references. -/
theorem Layout.IsClosed.merged (h : Layout.IsClosed l) (htyped : Layout.IsTyped l) :
    Layout.IsClosed (mergedLayout enums l) := by
  intro m hm
  obtain ⟨n, hn, rfl⟩ := mem_values_mapMembers.mp hm
  rcases @type_mergeMember enums n (htyped n hn).isPlain with heq | ⟨s, fields, heq⟩
  · rw [heq]
    exact h n hn
  · have hrecord : Dump.IsClosed (.record fields) := fun id hid => by cases hid
    rw [heq]
    refine isClosed_plug (isClosed_list.mpr (List.forall_mem_cons.mpr ⟨?_, ?_⟩)) s
    · exact isClosed_text (by decide)
    · exact List.forall_mem_singleton.mpr hrecord

end Merged

/-- **What publishing makes of structures** whose references have been followed: it drops some of them,
and writes enumerations into the others. -/
structure PublishedFrom (s r : Reader) : Prop where
  /-- there are no references left -/
  closed : ∀ name, s.IsClosedAt name
  /-- types follow the grammar -/
  typed : s.publishTypes.types.All Layout.IsTyped
  /-- what is not dropped, with enumerations -/
  types : r.types = (pruned s.publishTypes.types r.globals).mapValues fun _ l => mergedLayout r.enums l
  /-- the unit has to itself what is dropped -/
  unit : r.unit = s.unit.mapValues fun name _ =>
    .kept ((pruned s.publishTypes.types r.globals).contains name) (s.publishTypes.types.find? name)
  /-- the enumerations that are written have the size of an integer -/
  mergeable : ∀ e ∈ (pruned s.publishTypes.types r.globals).entries, Mergeable r.enums e.2

/-- **A publication**, in its two parts: the unit is resolved, and then published as it is. -/
theorem publishedFrom_of_run {r r' : Reader} (hr : r.IsTyped) (h : publish.run r = .ok () r') :
    ∃ s, ResolvedFor r.unit.keys r s ∧ r'.enums = s.enums ∧ PublishedFrom s r' := by
  obtain ⟨_, s, hunit, h₁⟩ := run_bind_eq_ok_iff.mp h
  have hmakes : Makes (isReference · = false) r resolveUnit r := makes_resolveUnit (.refl _ r)
  have hs : s.IsTyped := by
    have hafter : after resolveUnit r = s := by rw [after, hunit]
    exact (hafter ▸ hmakes.changes).isTyped hr
  obtain ⟨_, r₂, htypes, h₂⟩ := run_bind_eq_ok_iff.mp h₁
  cases htypes
  obtain ⟨_, r₃, hrun₃, h₃⟩ := run_bind_eq_ok_iff.mp h₂
  obtain ⟨-, rfl⟩ := run_publishGlobals.mp hrun₃
  obtain ⟨_, r₄, hrun₄, h₄⟩ := run_bind_eq_ok_iff.mp h₃
  obtain ⟨vs, -, rfl⟩ := run_publishLocals.mp hrun₄
  obtain ⟨_, r₅, hprune, hmerge⟩ := run_bind_eq_ok_iff.mp h₄
  obtain ⟨-, rfl⟩ := run_prune.mp hprune
  obtain ⟨hmergeable, rfl⟩ := run_mergeEnums.mp hmerge
  have hresolved := resolvedFor_of_resolveUnit hunit
  exact ⟨s, hresolved, rfl, hresolved.isClosedAt, hs.publishTypes.types, rfl,
    unit_withTypes_publishTypes s _, hmergeable⟩

namespace PublishedFrom

variable {s r : Reader} {name : String} {l : Layout}

theorem keys_types (h : PublishedFrom s r) :
    r.types.keys = (pruned s.publishTypes.types r.globals).keys := by
  rw [h.types, Table.keys_mapValues]

/-- A layout of all units is one that was there, with enumerations. -/
theorem exists_of_find?_types (h : PublishedFrom s r) (hl : r.types.find? name = some l) :
    ∃ l₀, (name, l₀) ∈ (pruned s.publishTypes.types r.globals).entries ∧
      l = mergedLayout r.enums l₀ := by
  rw [h.types, Table.find?_mapValues] at hl
  obtain ⟨l₀, hl₀, rfl⟩ := Option.map_eq_some_iff.mp hl
  exact ⟨l₀, Table.find?_eq_some_iff.mp hl₀, rfl⟩

/-- A layout that the unit has to itself is one that has been dropped. -/
theorem of_own (h : PublishedFrom s r) (hl : r.unit.find? name = some (.own l)) :
    name ∉ r.types.keys ∧ s.publishTypes.types.find? name = some l := by
  rw [h.unit, Table.find?_mapValues] at hl
  obtain ⟨e, -, hkept⟩ := Option.map_eq_some_iff.mp hl
  obtain ⟨hdropped, hfind⟩ := UnitEntry.kept_eq_own_iff.mp hkept
  refine ⟨?_, hfind⟩
  rw [h.keys_types, ← Table.find?_eq_none_iff]
  exact Option.not_isSome_iff_eq_none.mp (Bool.eq_false_iff.mp hdropped)

/-- **Layouts come from layouts**: those of the unit and those of all units are as they were, or have
enumerations written into them. -/
theorem exists_layout (h : PublishedFrom s r)
    (hl : r.unitLayout? name = some l ∨ r.types.find? name = some l) :
    ∃ l₀, s.publishTypes.types.find? name = some l₀ ∧
      (l = l₀ ∨ (name, l₀) ∈ (pruned s.publishTypes.types r.globals).entries ∧
        l = mergedLayout r.enums l₀) := by
  have hcases : r.unit.find? name = some (.own l) ∨ r.types.find? name = some l := by
    refine hl.elim (fun hl => ?_) .inr
    rw [Reader.unitLayout?] at hl
    split at hl
    · next hfind =>
      cases hl
      exact .inl hfind
    · exact .inr hl
    · cases hl
  rcases hcases with hown | htypes
  · exact ⟨l, (h.of_own hown).2, .inl rfl⟩
  · obtain ⟨l₀, hl₀, heq⟩ := h.exists_of_find?_types htypes
    have hmem := (entries_pruned_sublist s.publishTypes.types r.globals).subset hl₀
    exact ⟨l₀, Table.find?_eq_some_iff.mpr hmem, .inr ⟨hl₀, heq⟩⟩

/-- What a member names into which an enumeration could have been written, it named before, and it is no
enumeration. -/
theorem name_of_merged (h : PublishedFrom s r) {e : String × Layout}
    (he : e ∈ (pruned s.publishTypes.types r.globals).entries) {m : Member}
    (hm : m ∈ e.2.members.values) (hname : memberName (mergeMember r.enums m).1 = .text name) :
    memberName m = .text name ∧ r.enums.find? name = none := by
  have hmem := (entries_pruned_sublist s.publishTypes.types r.globals).subset he
  have hplain : IsPlain m.type := (h.typed e.2 (List.mem_map_of_mem hmem) m hm).isPlain
  exact memberName_mergeMember hplain (hasSize_of_mergeMember (h.mergeable e he m hm)) hname

/-- **No member names an enumeration** any more. -/
theorem find?_enums_of_memberName (h : PublishedFrom s r) {e : String × Layout}
    (he : e ∈ r.types.entries) {m : Member} (hm : m ∈ e.2.members.values)
    (hname : memberName m = .text name) : r.enums.find? name = none := by
  obtain ⟨l₀, hl₀, heq⟩ := h.exists_of_find?_types (Table.find?_eq_some_iff.mpr he)
  rw [heq] at hm
  obtain ⟨n, hn, rfl⟩ := mem_values_mapMembers.mp hm
  exact (h.name_of_merged hl₀ hn hname).2

/-- The layouts of the unit cite no ids. -/
theorem isClosedAt (h : PublishedFrom s r) (name : String) : r.IsClosedAt name := by
  intro l hl
  obtain ⟨l₀, hl₀, heq⟩ := h.exists_layout (.inl hl)
  -- the layout was one of the unit
  have hunit : s.unitLayout? name = some l₀ := by
    have hkey := mem_keys_of_unitLayout? hl
    rw [h.unit, Table.keys_mapValues] at hkey
    obtain ⟨e, he⟩ := Table.exists_find?_of_mem_keys hkey
    have hshared : s.publishTypes.unit.find? name = some .shared := by
      rw [Reader.publishTypes, Table.find?_mapValues, he]
      rfl
    rw [← unitLayout?_publishTypes, Reader.unitLayout?, hshared]
    exact hl₀
  rcases heq with rfl | ⟨-, rfl⟩
  · exact h.closed name l hunit
  · exact (h.closed name l₀ hunit).merged (h.typed.of_find? hl₀)

/-- **What is left supports itself**, since a name that it needs is no enumeration. -/
theorem supported (h : PublishedFrom s r) (hdisjoint : ∀ name ∈ r.enums.keys, name ∉ r.types.keys) :
    SelfSupporting r.types r.globals (· ∈ r.types.keys) := by
  intro name hname
  refine ⟨hname, ?_⟩
  have hnone : r.enums.find? name = none :=
    Table.find?_eq_none_iff.mpr fun henum => hdisjoint name henum hname
  rw [h.keys_types] at hname ⊢
  obtain ⟨-, hsupport⟩ := selfSupporting_pruned s.publishTypes.types r.globals name hname
  refine hsupport.imp_right (Or.imp_left ?_)
  rintro ⟨owner, howner, l, m, hl, hm, hmember⟩
  -- the member keeps its name
  have hkept : (mergeMember r.enums m).1 = m := by
    rw [mergeMember, hmember]
    simp only [hnone]
  refine ⟨owner, howner, mergedLayout r.enums l, m, ?_, mem_values_mapMembers.mpr ⟨m, hm, hkept⟩,
    hmember⟩
  rw [h.types, Table.find?_mapValues, find?_pruned howner, hl]
  rfl

/-- **What is dropped does not support itself**, if it is put back: a set that did would have done so
before. -/
theorem unsupported (h : PublishedFrom s r) (X : String → Prop)
    (hX : SelfSupporting r.publishTypes.types r.globals X) (name : String) (hname : X name) :
    name ∈ r.types.keys := by
  have hlayout : ∀ name l, r.publishTypes.types.find? name = some l →
      r.unitLayout? name = some l ∨ r.types.find? name = some l := by
    intro name l hl
    rw [find?_publishTypes, Option.or_eq_some_iff] at hl
    exact hl.imp_right And.right
  have hbefore : SelfSupporting s.publishTypes.types r.globals X := by
    intro name hname
    obtain ⟨hkey, hsupport⟩ := hX name hname
    obtain ⟨l, hl⟩ := Table.exists_find?_of_mem_keys hkey
    obtain ⟨l₀, hl₀, -⟩ := h.exists_layout (hlayout name l hl)
    refine ⟨Table.mem_keys_of_find? hl₀, hsupport.imp_right (Or.imp_left ?_)⟩
    rintro ⟨owner, howner, l, m, hl, hm, hmember⟩
    obtain ⟨l₀, hl₀, rfl | ⟨hleft, rfl⟩⟩ := h.exists_layout (hlayout owner l hl)
    · exact ⟨owner, howner, l, m, hl₀, hm, hmember⟩
    · obtain ⟨n, hn, rfl⟩ := mem_values_mapMembers.mp hm
      exact ⟨owner, howner, l₀, n, hl₀, hn, (h.name_of_merged hleft hn hmember).1⟩
  rw [h.keys_types]
  exact hbefore.subset_pruned hname

end PublishedFrom

/-- **After a publication nothing is left to publish**, unless an enumeration has the name of a
structure. -/
theorem isPublished_of_run {r r' : Reader} (hr : r.IsTyped) (h : publish.run r = .ok () r')
    (hdisjoint : ∀ name ∈ r'.enums.keys, name ∉ r'.types.keys) : r'.IsPublished := by
  obtain ⟨s, -, -, hs⟩ := publishedFrom_of_run hr h
  obtain ⟨vs, hvs, hcollected⟩ := collected_of_run_publish h
  obtain ⟨-, hunitLocals, hglobals, hunitGlobals, -⟩ := Collected.mk.inj hcollected
  have hr' : r'.IsTyped := by
    have hafter : after publish r = r' := by rw [after, h]
    have hmakes : Makes (isReference · = false) r publish r := makes_publish (.refl _ r)
    exact (hafter ▸ hmakes.changes).isTyped hr
  refine ⟨hs.isClosedAt, ?_, ?_, ?_, fun name l hl => (hs.of_own hl).1, ?_, hs.supported hdisjoint,
    hs.unsupported, ?_⟩
  · rw [hunitGlobals]
    exact .ofList (isClosed_resolvedGlobals r)
  · rw [hunitLocals]
    exact isClosed_of_resolveLocals hvs
  · intro name v hv
    rw [hglobals, Reader.joinedGlobals, Table.find?_update, ← hunitGlobals, hv]
    rfl
  · exact List.all_eq_true.mp hr'.publishTypes.all_isAtom
  · exact fun e he m hm name => hs.find?_enums_of_memberName he hm

/-- **Publishing twice.** Take any lines and publications, whatever faults they give, in which no name is
a reference, and then a publication without a fault. If no enumeration has the name of a published
structure, another publication gives no fault either, and leaves all tables of the reader as they are:
the published structures with their order, sizes and members, those of the unit, the enumerations, the
global variables of the unit and of all units, and the local variables of the unit, which only join
those of all units once more. So two listings in a row are the same. -/
theorem publish_publish (events : List Event) (h : ∀ e ∈ events, e.hasReference = false) (r : Reader)
    (hrun : publish.run (runAll {} events) = .ok () r)
    (hdisjoint : ∀ name ∈ r.enums.keys, name ∉ r.types.keys) :
    publish.run r = .ok () { r with locals := r.locals ++ r.unitLocals } ∧
      ∃ listing, describe.run (runAll {} events) = .ok listing r ∧
        describe.run r = .ok listing { r with locals := r.locals ++ r.unitLocals } := by
  have hsound := isSound_runAll events h ⟨isOpen_default, isTyped_default⟩
  have hagain := (isPublished_of_run hsound.isTyped hrun hdisjoint).run_publish
  refine ⟨hagain, r.listing, ?_, ?_⟩
  · exact run_bind_eq_ok_iff.mpr ⟨(), r, hrun, rfl⟩
  · exact run_bind_eq_ok_iff.mpr ⟨(), _, hagain, rfl⟩

/-- A structure with an enumeration, an unnamed one that nothing names, and a local variable. -/
def colorUnit : List Event :=
  [.line "<1><2><DW_TAG_enumeration_type> DW_AT_name<Color> DW_AT_byte_size<4>",
    .line "<1><4><DW_TAG_structure_type> DW_AT_name<Cell> DW_AT_byte_size<8>",
    .line "<2><5><DW_TAG_member> DW_AT_name<c> DW_AT_type<<2>> DW_AT_data_member_location<4>",
    .line "<1><6><DW_TAG_structure_type> DW_AT_byte_size<4>",
    .line "<1><8><DW_TAG_variable> DW_AT_name<v> DW_AT_decl_line<1> DW_AT_type<<4>>"]

theorem publish_publish_colorUnit : ∃ (r : Reader) (listing : List String),
    (∀ e ∈ colorUnit, e.hasReference = false) ∧ publish.run (runAll {} colorUnit) = .ok () r ∧
      r.types.keys = ["Cell"] ∧ r.unit.keys = ["Cell", "__unnamed_6"] ∧ r.enums.keys = ["Color"] ∧
      publish.run r = .ok () { r with locals := r.locals ++ r.unitLocals } ∧
      describe.run (runAll {} colorUnit) = .ok listing r ∧
      describe.run r = .ok listing { r with locals := r.locals ++ r.unitLocals } := by
  have hlines : ∀ e ∈ colorUnit, e.hasReference = false := by
    simp only [colorUnit, List.forall_mem_cons]
    exact ⟨by cbv, by cbv, by cbv, by cbv, by cbv, by simp⟩
  have hnames : viewAfter? (fun r => (r.types.keys, r.unit.keys, r.enums.keys)) publish
      (runAll {} colorUnit) = some (["Cell"], ["Cell", "__unnamed_6"], ["Color"]) := by
    decide +kernel
  obtain ⟨r, hrun, hview⟩ := exists_of_viewAfter? hnames
  simp only [Prod.mk.injEq] at hview
  obtain ⟨htypes, hunit, henums⟩ := hview
  have hdisjoint : ∀ name ∈ r.enums.keys, name ∉ r.types.keys := by
    rw [htypes, henums]
    decide
  obtain ⟨hagain, listing, hfirst, hsecond⟩ := publish_publish colorUnit hlines r hrun hdisjoint
  exact ⟨r, listing, hlines, hrun, htypes, hunit, henums, hagain, hfirst, hsecond⟩

end CpuTrace.Dump
