import CpuTrace.Proofs.Pruning
import Mathlib

/-!
# Publishing, as a function of tables

`publish` runs through five phases, each of which can stop it. `Publishable` has the conditions under
which none does, and `Reader.publishedTypes` the table of all types that results. The two theorems
`run_publish` and `of_run_publish` say that these are exactly the cases and the results of a run
without a fault.

What a unit has published it shares with the table of all types, and then a change in one place is
seen in the other. Until then its structures are its own (`Reader.IsOwn`), and what happens to them
does not depend on the table.
-/

namespace CpuTrace.Dump

/-! ## Runs -/

section Runs

variable {α β : Type} {x : ReadM α} {f : α → ReadM β} {r r' : Reader}

/-- A run goes on where its first part ended. -/
theorem run_bind_of_eq {a : α} (h : x.run r = .ok a r') : (x >>= f).run r = (f a).run r' := by
  rw [EStateM.run_bind, h]

/-- A run without a fault has a first part without one. -/
theorem run_bind_eq_ok_iff {b : β} :
    (x >>= f).run r = .ok b r' ↔ ∃ a r'', x.run r = .ok a r'' ∧ (f a).run r'' = .ok b r' := by
  rw [EStateM.run_bind]
  rcases x.run r with ⟨a, r''⟩ | ⟨e, r''⟩
  · simp
  · simp

theorem run_ofExcept_ok (a : α) (r : Reader) :
    (ofExcept (.ok a : Except Fault α) : ReadM α).run r = .ok a r := rfl

/-- A value that is looked up leaves the reader as it is. -/
theorem run_ofExcept_eq_ok_iff {e : Except Fault α} {a : α} :
    (ofExcept e : ReadM α).run r = .ok a r' ↔ e = .ok a ∧ r' = r := by
  rcases e with e | b
  · constructor
    · intro h
      cases h
    · intro h
      cases h.1
  · rw [run_ofExcept_ok]
    constructor
    · intro h
      cases h
      exact ⟨rfl, rfl⟩
    · rintro ⟨h, rfl⟩
      cases h
      rfl

end Runs

/-! ## Members of a layout -/

/-- A layout with all its members changed. -/
def mapMembers (f : Member → Member) (l : Layout) : Layout :=
  { l with members := l.members.mapValues fun _ m => f m }

/-- The references of all members can be followed. -/
def Resolvable (ids : IdTable) (l : Layout) : Prop :=
  ∀ m ∈ l.members.values, ∃ t, ids.resolve m.type = .ok t

/-- A layout without references. -/
def resolvedLayout (ids : IdTable) (l : Layout) : Layout :=
  mapMembers (fun m => (resolveMember ids m).1) l

/-- The enumerations of all members can be written into them. -/
def Mergeable (enums : Table String Enumeration) (l : Layout) : Prop :=
  ∀ m ∈ l.members.values, (mergeMember enums m).2 = none

/-- A layout with enumerations written into its members. -/
def mergedLayout (enums : Table String Enumeration) (l : Layout) : Layout :=
  mapMembers (fun m => (mergeMember enums m).1) l

section Layouts

variable {ids : IdTable} {enums : Table String Enumeration} {l : Layout}

theorem snd_resolveMember_eq_none_iff {m : Member} :
    (resolveMember ids m).2 = none ↔ ∃ t, ids.resolve m.type = .ok t := by
  rw [resolveMember]
  rcases ids.resolve m.type with e | t <;> simp

theorem forall_values_iff {P : Member → Prop} :
    (∀ m ∈ l.members.values, P m) ↔ ∀ e ∈ l.members.entries, P e.2 := by
  simp only [Table.values, List.forall_mem_map]

/-- A layout is resolved without a fault if all its members can be. -/
theorem snd_resolveLayout_eq_none_iff : (resolveLayout ids l).2 = none ↔ Resolvable ids l := by
  rw [resolveLayout, Table.snd_sweep_eq_none_iff, Resolvable, forall_values_iff]
  simp only [snd_resolveMember_eq_none_iff]

/-- Then it is the layout with all members resolved. -/
theorem resolveLayout_of_resolvable (h : Resolvable ids l) :
    resolveLayout ids l = (resolvedLayout ids l, none) := by
  have hnone := Table.snd_sweep_eq_none_iff.mp (snd_resolveLayout_eq_none_iff.mpr h)
  rw [resolveLayout, Table.sweep_of_none hnone]
  rfl

theorem snd_mergeLayout_eq_none_iff : (mergeLayout enums l).2 = none ↔ Mergeable enums l := by
  rw [mergeLayout, Table.snd_sweep_eq_none_iff, Mergeable, forall_values_iff]

/-- The same for enumerations, if all of them can be written. -/
theorem mergeLayout_of_mergeable (h : Mergeable enums l) :
    mergeLayout enums l = (mergedLayout enums l, none) := by
  have hnone := Table.snd_sweep_eq_none_iff.mp (snd_mergeLayout_eq_none_iff.mpr h)
  rw [mergeLayout, Table.sweep_of_none hnone]
  rfl

end Layouts

/-! ## The unit's own layouts -/

/-- What the unit has declared is not published yet. -/
def Reader.IsOwn (r : Reader) : Prop := ∀ e ∈ r.unit.entries, ∃ l, e.2 = .own l

/-- The layouts that the unit has to itself. -/
def Reader.ownLayouts (r : Reader) : List (String × Layout) :=
  r.unit.entries.filterMap fun e =>
    match e.2 with
    | .own l => some (e.1, l)
    | .shared => none

/-- A layout of the unit without references. -/
def UnitEntry.resolved (ids : IdTable) : UnitEntry → UnitEntry
  | .own l => .own (resolvedLayout ids l)
  | .shared => .shared

section Own

variable {r r' : Reader}

/-- If the structures of a unit are its own, what is found is among them. -/
theorem Reader.IsOwn.unitLayout? (h : r.IsOwn) {name : String} {l : Layout} :
    r.unitLayout? name = some l ↔ (name, .own l) ∈ r.unit.entries := by
  rw [Reader.unitLayout?, ← Table.find?_eq_some_iff]
  rcases hfind : r.unit.find? name with _ | e
  · simp
  · obtain ⟨l', hl'⟩ := h (name, e) (Table.find?_eq_some_iff.mp hfind)
    obtain rfl : e = .own l' := hl'
    simp

theorem Reader.mem_ownLayouts {name : String} {l : Layout} :
    (name, l) ∈ r.ownLayouts ↔ (name, .own l) ∈ r.unit.entries := by
  rw [ownLayouts, List.mem_filterMap]
  constructor
  · rintro ⟨⟨name', e⟩, hmem, he⟩
    cases e with
    | own l' =>
      obtain ⟨rfl, rfl⟩ := Prod.mk.inj (Option.some.inj he)
      exact hmem
    | shared => cases he
  · intro h
    exact ⟨_, h, rfl⟩

theorem Reader.IsOwn.unitLayouts_eq (h : r.IsOwn) : r.unitLayouts = r.ownLayouts := by
  refine List.filterMap_congr fun e he => ?_
  obtain ⟨l, hl⟩ := h e he
  obtain ⟨name, _⟩ := e
  subst hl
  rw [h.unitLayout?.mpr he]
  rfl

/-- One structure of the unit, wherever its layout is kept. -/
theorem run_resolveEntry_eq_ok_iff {name : String} :
    (resolveEntry name).run r = .ok () r' ↔
      (r.unitLayout? name = none ∧ r' = r) ∨
        ∃ l, r.unitLayout? name = some l ∧ Resolvable r.ids l ∧
          r' = r.setUnitLayout name (resolvedLayout r.ids l) := by
  rw [resolveEntry, EStateM.run_bind, EStateM.run_get]
  dsimp only
  rcases r.unitLayout? name with _ | l
  · simp [eq_comm]
  · dsimp only
    rw [EStateM.run_bind, EStateM.run_set]
    simp only [reduceCtorEq, false_and, false_or, Option.some.injEq, exists_eq_left']
    rcases hfault : (resolveLayout r.ids l).2 with _ | e
    · have hresolvable := snd_resolveLayout_eq_none_iff.mp hfault
      rw [resolveLayout_of_resolvable hresolvable]
      simp only [EStateM.run_pure, EStateM.Result.ok.injEq, true_and, hresolvable, eq_comm]
    · have hnot : ¬ Resolvable r.ids l := fun hr => by
        rw [snd_resolveLayout_eq_none_iff.mpr hr] at hfault
        cases hfault
      simp [hnot]

/-- One layout that is the unit's own. -/
theorem run_resolveEntry (h : r.IsOwn) {name : String} {l : Layout}
    (hl : (name, .own l) ∈ r.unit.entries) :
    (resolveEntry name).run r = .ok () r' ↔ Resolvable r.ids l ∧
      r' = { r with unit := r.unit.insert name (.own (resolvedLayout r.ids l)) } := by
  have hfind : r.unit.find? name = some (.own l) := Table.find?_eq_some_iff.mpr hl
  simp only [run_resolveEntry_eq_ok_iff, h.unitLayout?.mpr hl, Reader.setUnitLayout, hfind]
  simp

/-- The rest of the unit's layouts, behind those that are done. -/
theorem run_forM_resolveEntry {todo : List (String × UnitEntry)} :
    ∀ {r : Reader} {done : List (String × UnitEntry)}, r.unit.entries = done ++ todo → r.IsOwn →
      (((todo.map Prod.fst).forM resolveEntry).run r = .ok () r' ↔
        (∀ name l, (name, .own l) ∈ todo → Resolvable r.ids l) ∧
          ∃ unit : Table String UnitEntry, r' = { r with unit } ∧
            unit.entries = done ++ todo.map fun e => (e.1, e.2.resolved r.ids)) := by
  induction todo with
  | nil =>
    intro r done hentries _
    rw [List.append_nil] at hentries
    have hrun : (([] : List String).forM resolveEntry).run r = .ok () r := rfl
    rw [List.map_nil, List.map_nil, List.append_nil, hrun]
    constructor
    · intro h
      have hr : r' = r := by
        cases h
        rfl
      exact ⟨fun _ _ h => absurd h List.not_mem_nil, r.unit, hr, hentries⟩
    · rintro ⟨-, unit, rfl, hunit⟩
      rw [Table.ext (hunit.trans hentries.symm)]
  | cons e todo ih =>
    intro r done hentries hown
    have hmem : e ∈ r.unit.entries := by rw [hentries]; simp
    obtain ⟨name, _⟩ := e
    obtain ⟨l, rfl⟩ := hown _ hmem
    let unit := r.unit.insert name (.own (resolvedLayout r.ids l))
    have hunit : unit.entries = (done ++ [(name, .own (resolvedLayout r.ids l))]) ++ todo := by
      rw [List.append_assoc]
      exact Table.entries_insert_of_append hentries _
    have hown' : Reader.IsOwn { r with unit } := by
      intro e he
      rw [hunit, List.append_assoc, List.mem_append, List.mem_append, List.mem_singleton] at he
      rcases he with he | rfl | he
      · exact hown e (by rw [hentries]; simp [he])
      · exact ⟨_, rfl⟩
      · exact hown e (by rw [hentries]; simp [he])
    have hrest := ih (r := { r with unit }) hunit hown'
    rw [List.map_cons, List.map_cons]
    constructor
    · intro h
      obtain ⟨_, r'', hfirst, h⟩ := run_bind_eq_ok_iff.mp h
      obtain ⟨hl, rfl⟩ := (run_resolveEntry hown hmem).mp hfirst
      obtain ⟨htodo, unit', rfl, hunit'⟩ := hrest.mp h
      refine ⟨fun name' l' h' => ?_, unit', rfl, ?_⟩
      · rcases List.mem_cons.mp h' with h' | h'
        · cases h'
          exact hl
        · exact htodo name' l' h'
      · rw [hunit', List.append_assoc]
        rfl
    · rintro ⟨htodo, unit', rfl, hunit'⟩
      refine run_bind_eq_ok_iff.mpr ⟨(), { r with unit }, ?_, ?_⟩
      · exact (run_resolveEntry hown hmem).mpr ⟨htodo name l (List.mem_cons_self ..), rfl⟩
      · refine hrest.mpr ⟨fun name' l' h' => htodo name' l' (List.mem_cons_of_mem _ h'), unit', rfl, ?_⟩
        rw [hunit', List.append_assoc]
        rfl

/-- **References** of the unit's layouts. -/
theorem run_resolveUnit (h : r.IsOwn) :
    resolveUnit.run r = .ok () r' ↔ (∀ e ∈ r.ownLayouts, Resolvable r.ids e.2) ∧
      r' = { r with unit := r.unit.mapValues fun _ e => e.resolved r.ids } := by
  have hrun : resolveUnit.run r = ((r.unit.entries.map Prod.fst).forM resolveEntry).run r := rfl
  have hlayouts : (∀ e ∈ r.ownLayouts, Resolvable r.ids e.2) ↔
      ∀ name l, (name, .own l) ∈ r.unit.entries → Resolvable r.ids l :=
    ⟨fun h name l hl => h (name, l) (Reader.mem_ownLayouts.mpr hl),
      fun h e he => h e.1 e.2 (Reader.mem_ownLayouts.mp he)⟩
  rw [hrun, run_forM_resolveEntry (List.nil_append _).symm h, hlayouts]
  refine and_congr_right fun _ => ⟨?_, ?_⟩
  · rintro ⟨unit, rfl, hunit⟩
    rw [Table.ext (t := r.unit.mapValues fun _ e => e.resolved r.ids) hunit]
  · rintro rfl
    exact ⟨_, rfl, rfl⟩

end Own

/-! ## All phases -/

namespace Reader

/-- The unit's layouts without references. -/
def resolvedLayouts (r : Reader) : List (String × Layout) :=
  r.ownLayouts.map fun e => (e.1, resolvedLayout r.ids e.2)

/-- All types, with those of the unit. -/
def joinedTypes (r : Reader) : TypeTable :=
  r.resolvedLayouts.foldl (fun t e => t.insert e.1 e.2) r.types

/-- The unit's global variables without references. -/
def resolvedGlobals (r : Reader) : List (String × Variable) :=
  match resolveGlobals r.ids r.unitGlobals.entries with
  | .ok vs => vs
  | .error _ => []

/-- All global variables, with those of the unit. -/
def joinedGlobals (r : Reader) : Table String Variable :=
  r.globals.update (.ofList r.resolvedGlobals)

/-- All types that are left after publishing, with their enumerations. -/
def publishedTypes (r : Reader) : TypeTable :=
  (pruned r.joinedTypes r.joinedGlobals).mapValues fun _ l => mergedLayout r.enums l

end Reader

/-- **No phase stops.** -/
structure Publishable (r : Reader) : Prop where
  /-- the references of members lead to types -/
  layouts : ∀ e ∈ r.ownLayouts, Resolvable r.ids e.2
  /-- so do those of global variables -/
  globals : resolveGlobals r.ids r.unitGlobals.entries = .ok r.resolvedGlobals
  /-- and those of local variables -/
  locals : ∃ vs, resolveLocals r.ids r.unitLocals = .ok vs
  /-- what members and variables name are names -/
  atoms : ∀ t ∈ usedNames r.joinedTypes r.joinedGlobals, isAtom t = true
  /-- enumerations have the size of an integer -/
  enums : ∀ e ∈ (pruned r.joinedTypes r.joinedGlobals).entries, Mergeable r.enums e.2

/-- **What publishing changes**, as far as it matters to what comes after. -/
structure Publishes (r r' : Reader) : Prop where
  /-- the table of all types -/
  types : r'.types = r.publishedTypes
  /-- the table of all global variables -/
  globals : r'.globals = r.joinedGlobals
  /-- enumerations stay -/
  enums : r'.enums = r.enums
  /-- the place in the dump stays -/
  level : r'.level = r.level
  /-- the open statements stay -/
  stack : r'.stack = r.stack
  /-- the notation stays -/
  radix : r'.radix = r.radix

section Publish

variable {r r' : Reader}

/-- The unit's layouts join the table of all types. -/
theorem publishTypes_resolved (h : r.IsOwn) :
    Reader.publishTypes { r with unit := r.unit.mapValues fun _ e => e.resolved r.ids } =
      { r with types := r.joinedTypes, unit := r.unit.mapValues fun _ _ => .shared } := by
  have hown : Reader.IsOwn { r with unit := r.unit.mapValues fun _ e => e.resolved r.ids } := by
    intro e he
    obtain ⟨⟨name, e⟩, hmem, rfl⟩ := List.mem_map.mp he
    obtain ⟨l, rfl⟩ := h _ hmem
    exact ⟨_, rfl⟩
  have hlayouts : Reader.ownLayouts { r with unit := r.unit.mapValues fun _ e => e.resolved r.ids } =
      r.resolvedLayouts := by
    simp only [Reader.ownLayouts, Reader.resolvedLayouts, Table.mapValues, List.filterMap_map,
      List.map_filterMap]
    refine List.filterMap_congr fun e he => ?_
    obtain ⟨l, hl⟩ := h e he
    simp only [Function.comp_apply, hl, UnitEntry.resolved, Option.map_some]
  have hunit : (r.unit.mapValues fun _ e => e.resolved r.ids).mapValues (fun _ _ => UnitEntry.shared) =
      r.unit.mapValues fun _ _ => .shared :=
    Table.ext (by simp [Table.mapValues])
  rw [Reader.publishTypes, hown.unitLayouts_eq, hlayouts, hunit]
  rfl

/-- **Pruning**: what is in use has to be a name or none. -/
theorem run_prune :
    prune.run r = .ok () r' ↔ (∀ t ∈ usedNames r.types r.globals, isAtom t = true) ∧
      r' = r.withTypes (pruned r.types r.globals) := by
  simp only [prune, EStateM.run_bind, EStateM.run_get]
  by_cases hatoms : (usedNames r.types r.globals).all isAtom = true
  · rw [if_pos hatoms, EStateM.run_set, and_iff_right (List.all_eq_true.mp hatoms)]
    simp [eq_comm]
  · have hnot : ¬ ∀ t ∈ usedNames r.types r.globals, isAtom t = true :=
      fun h => hatoms (List.all_eq_true.mpr h)
    rw [if_neg hatoms]
    simp [hnot]

/-- **Writing enumerations**: all of them have to be of the size of an integer. -/
theorem run_mergeEnums :
    mergeEnums.run r = .ok () r' ↔ (∀ e ∈ r.types.entries, Mergeable r.enums e.2) ∧
      r' = { r with types := r.types.mapValues fun _ l => mergedLayout r.enums l } := by
  have hmerge : (∀ e ∈ r.types.entries, Mergeable r.enums e.2) ↔
      (r.types.sweep fun _ l => mergeLayout r.enums l).2 = none := by
    rw [Table.snd_sweep_eq_none_iff]
    simp only [snd_mergeLayout_eq_none_iff]
  simp only [mergeEnums, EStateM.run_bind, EStateM.run_get, EStateM.run_set, hmerge]
  rcases hfault : (r.types.sweep fun _ l => mergeLayout r.enums l).2 with _ | e
  · have hvalues : (r.types.mapValues fun _ l => (mergeLayout r.enums l).1) =
        r.types.mapValues fun _ l => mergedLayout r.enums l := by
      refine Table.ext (List.map_congr_left fun e he => ?_)
      exact congrArg (e.1, Prod.fst ·) (mergeLayout_of_mergeable (hmerge.mpr hfault e he))
    rw [Table.sweep_of_none (Table.snd_sweep_eq_none_iff.mp hfault), hvalues]
    simp only [EStateM.run_pure, EStateM.Result.ok.injEq, true_and, eq_comm]
  · simp

/-- What a resolved variable holds is what one of the variables led to. -/
theorem exists_of_resolveGlobals {ids : IdTable} {vs : List (String × Variable)} :
    ∀ {us : List (String × Variable)}, resolveGlobals ids vs = .ok us →
      ∀ u ∈ us, ∃ v ∈ vs, ids.resolve v.2.type = .ok u.2.type := by
  induction vs with
  | nil =>
    intro us h
    cases h
    exact fun u hu => absurd hu List.not_mem_nil
  | cons v vs ih =>
    intro us h
    simp only [resolveGlobals, bind, Except.bind] at h
    split at h
    · cases h
    · next t ht =>
      split at h
      · cases h
      · next rest hrest =>
        cases h
        refine List.forall_mem_cons.mpr ⟨⟨v, List.mem_cons_self .., ht⟩, fun u hu => ?_⟩
        obtain ⟨w, hw, hres⟩ := ih hrest u hu
        exact ⟨w, List.mem_cons_of_mem _ hw, hres⟩

/-- The unit's global variables. -/
theorem run_publishGlobals :
    publishGlobals.run r = .ok () r' ↔
      resolveGlobals r.ids r.unitGlobals.entries = .ok r.resolvedGlobals ∧
      r' = { r with unitGlobals := .ofList r.resolvedGlobals, globals := r.joinedGlobals } := by
  simp only [publishGlobals, EStateM.run_bind, EStateM.run_get, Reader.joinedGlobals,
    Reader.resolvedGlobals]
  rcases resolveGlobals r.ids r.unitGlobals.entries with e | vs
  · constructor
    · intro h
      cases h
    · intro h
      cases h.1
  · simp only [run_ofExcept_ok, EStateM.run_set, EStateM.Result.ok.injEq, true_and, eq_comm]

/-- The unit's local variables. -/
theorem run_publishLocals :
    publishLocals.run r = .ok () r' ↔ ∃ vs, resolveLocals r.ids r.unitLocals = .ok vs ∧
      r' = { r with unitLocals := vs, locals := r.locals ++ vs } := by
  simp only [publishLocals, EStateM.run_bind, EStateM.run_get]
  rcases resolveLocals r.ids r.unitLocals with e | vs
  · constructor
    · intro h
      cases h
    · rintro ⟨vs, h, -⟩
      cases h
  · simp only [run_ofExcept_ok, EStateM.run_set, EStateM.Result.ok.injEq, true_and, eq_comm]
    constructor
    · rintro rfl
      exact ⟨vs, rfl, rfl⟩
    · rintro ⟨vs', h, rfl⟩
      cases h
      rfl

/-- **If publishing gives no fault**, no phase stopped, and these are the tables. -/
theorem of_run_publish (hown : r.IsOwn) (h : publish.run r = .ok () r') :
    Publishable r ∧ Publishes r r' := by
  rw [publish] at h
  obtain ⟨_, r₁, hresolve, h⟩ := run_bind_eq_ok_iff.mp h
  obtain ⟨hlayouts, rfl⟩ := (run_resolveUnit hown).mp hresolve
  obtain ⟨_, r₂, htypes, h⟩ := run_bind_eq_ok_iff.mp h
  rw [EStateM.run_modify, publishTypes_resolved hown] at htypes
  cases htypes
  obtain ⟨_, r₃, hrun₃, h⟩ := run_bind_eq_ok_iff.mp h
  obtain ⟨hglobals, rfl⟩ := run_publishGlobals.mp hrun₃
  obtain ⟨_, r₄, hrun₄, h⟩ := run_bind_eq_ok_iff.mp h
  obtain ⟨vs, hlocals, rfl⟩ := run_publishLocals.mp hrun₄
  obtain ⟨_, r₅, hprune, h⟩ := run_bind_eq_ok_iff.mp h
  obtain ⟨hatoms, rfl⟩ := run_prune.mp hprune
  obtain ⟨henums, rfl⟩ := run_mergeEnums.mp h
  exact ⟨⟨hlayouts, hglobals, ⟨vs, hlocals⟩, hatoms, henums⟩, rfl, rfl, rfl, rfl, rfl, rfl⟩

/-- **If no phase stops**, publishing gives no fault and these tables. -/
theorem run_publish (hown : r.IsOwn) (h : Publishable r) :
    ∃ r', publish.run r = .ok () r' ∧ Publishes r r' := by
  obtain ⟨vs, hlocals⟩ := h.locals
  have hresolve := (run_resolveUnit hown).mpr ⟨h.layouts, rfl⟩
  have htypes : (modify Reader.publishTypes : ReadM Unit).run
      { r with unit := r.unit.mapValues fun _ e => e.resolved r.ids } =
        .ok () { r with types := r.joinedTypes, unit := r.unit.mapValues fun _ _ => .shared } := by
    rw [EStateM.run_modify, publishTypes_resolved hown]
  have hpublish : ∃ r', publish.run r = .ok () r' :=
    ⟨_, run_bind_eq_ok_iff.mpr ⟨(), _, hresolve,
      run_bind_eq_ok_iff.mpr ⟨(), _, htypes,
      run_bind_eq_ok_iff.mpr ⟨(), _, run_publishGlobals.mpr ⟨h.globals, rfl⟩,
      run_bind_eq_ok_iff.mpr ⟨(), _, run_publishLocals.mpr ⟨vs, hlocals, rfl⟩,
      run_bind_eq_ok_iff.mpr ⟨(), _, run_prune.mpr ⟨h.atoms, rfl⟩,
      run_mergeEnums.mpr ⟨h.enums, rfl⟩⟩⟩⟩⟩⟩⟩
  obtain ⟨r', hrun⟩ := hpublish
  exact ⟨r', hrun, (of_run_publish hown hrun).2⟩

end Publish

end CpuTrace.Dump
