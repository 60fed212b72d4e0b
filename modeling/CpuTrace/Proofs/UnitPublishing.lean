import CpuTrace.Proofs.MemberTypes
import Mathlib

/-!
# Publishing a unit over others

What a unit publishes joins what others have published before. Nothing that they have published can
stop it (`Background.publishable`), provided that every enumeration has the size of an integer that a
member names. The resulting tables have a simple description, which goes on holding from unit to
unit (`Background`): each layout is that of the **last** unit that declares its name
(`LastDeclares`), with enumerations written into it.

So a name that no later unit declares keeps its layout, up to what pointers point to. If all names
that a type needs are of this kind, and none is that of an enumeration elsewhere, the tables of the
unit alone and of the whole dump agree on them: when the unit is published (`agree_published`) and
from then on (`Background.agree`).
-/

namespace CpuTrace.Dump

/-! ## Layouts of a unit -/

section Layouts

variable {r : Reader}

theorem mem_values_mapMembers {f : Member → Member} {l : Layout} {m : Member} :
    m ∈ (mapMembers f l).members.values ↔ ∃ n ∈ l.members.values, f n = m := by
  simp only [mapMembers, Table.values, Table.entries_mapValues, List.map_map, List.mem_map,
    Function.comp_apply, exists_exists_and_eq_and]

theorem find?_mapMembers {f : Member → Member} {l : Layout} {name : String} :
    (mapMembers f l).members.find? name = (l.members.find? name).map f :=
  Table.find?_mapValues ..

/-- Two changes of all members are one. -/
theorem mapMembers_mapMembers (f g : Member → Member) (l : Layout) :
    mapMembers f (mapMembers g l) = mapMembers (fun m => f (g m)) l := by
  have hmembers : (mapMembers f (mapMembers g l)).members =
      (mapMembers (fun m => f (g m)) l).members := Table.ext (by simp [mapMembers])
  rw [mapMembers, mapMembers, Layout.mk.injEq]
  exact ⟨rfl, hmembers⟩

theorem mapMembers_congr {f g : Member → Member} {l : Layout}
    (h : ∀ m ∈ l.members.values, f m = g m) : mapMembers f l = mapMembers g l := by
  rw [mapMembers, mapMembers, Layout.mk.injEq]
  refine ⟨rfl, Table.ext (List.map_congr_left fun e he => ?_)⟩
  exact congrArg (Prod.mk e.1) (h e.2 (List.mem_map_of_mem he))

theorem mapMembers_of_fixed {f : Member → Member} {l : Layout}
    (h : ∀ m ∈ l.members.values, f m = m) : mapMembers f l = l := by
  rw [mapMembers, Table.mapValues_of_fixed fun e he => h e.2 (List.mem_map_of_mem he)]

/-- Resolving keeps the names and their order. -/
theorem map_fst_resolvedLayouts (h : r.IsOwn) : r.resolvedLayouts.map Prod.fst = r.unit.keys := by
  rw [Reader.resolvedLayouts, Reader.ownLayouts, List.map_map, List.map_filterMap, Table.keys,
    ← List.filterMap_eq_map]
  refine List.filterMap_congr fun e he => ?_
  obtain ⟨l, hl⟩ := h e he
  simp only [hl, Option.map_some, Function.comp_apply]

/-- A unit's layouts go before those that are published. -/
theorem find?_joinedTypes (h : r.IsOwn) {name : String} {l : Layout} :
    r.joinedTypes.find? name = some l ↔ (name, l) ∈ r.resolvedLayouts ∨
      name ∉ r.unit.keys ∧ r.types.find? name = some l := by
  have hkeys := map_fst_resolvedLayouts h
  have hnodup : (r.resolvedLayouts.reverse.map Prod.fst).Nodup := by
    rw [List.map_reverse, hkeys, List.nodup_reverse]
    exact r.unit.distinct
  have hlookup : ∀ l, r.resolvedLayouts.reverse.lookup name = some l ↔
      (name, l) ∈ r.resolvedLayouts := by
    intro l
    rw [Table.lookup_eq_some_iff hnodup, List.mem_reverse]
  rw [Reader.joinedTypes, Table.find?_foldl_insert, Option.or_eq_some_iff, hlookup]
  refine or_congr Iff.rfl (and_congr_left fun _ => ?_)
  rw [← hkeys, List.mem_map, Option.eq_none_iff_forall_ne_some]
  constructor
  · rintro hnone ⟨⟨name', l'⟩, hmem, rfl⟩
    exact hnone l' ((hlookup l').mpr hmem)
  · intro hnot l' hl'
    exact hnot ⟨(name, l'), (hlookup l').mp hl', rfl⟩

/-- A published layout is a joined one that was kept, with enumerations. -/
theorem find?_publishedTypes {name : String} {l : Layout} :
    r.publishedTypes.find? name = some l ↔ name ∈ (pruned r.joinedTypes r.joinedGlobals).keys ∧
      ∃ l', r.joinedTypes.find? name = some l' ∧ l = mergedLayout r.enums l' := by
  rw [Reader.publishedTypes, Table.find?_mapValues, Option.map_eq_some_iff]
  constructor
  · rintro ⟨l', hl', rfl⟩
    have hkey := Table.mem_keys_of_find? hl'
    exact ⟨hkey, l', (find?_pruned hkey).symm.trans hl', rfl⟩
  · rintro ⟨hkey, l', hl', rfl⟩
    exact ⟨l', (find?_pruned hkey).trans hl', rfl⟩

end Layouts

/-! ## Units and what they have published -/

/-- What holds of a reader that has read one unit and no others. -/
structure Reader.IsAlone (r : Reader) : Prop where
  /-- it is inside that unit -/
  reading : r.IsReading
  /-- no types are published -/
  types : r.types = ∅
  /-- nor are variables -/
  globals : r.globals = ∅
  /-- the unit can be published -/
  publishable : Publishable r

/-- A member of a unit names something. -/
def Reader.Mentions (r : Reader) (name : String) : Prop :=
  ∃ e ∈ r.resolvedLayouts, ∃ m ∈ e.2.members.values, memberName m = .text name

/-- A member with an enumeration of one of some units in the place of its name, or without. -/
inductive EnumWritten (units : List Reader) (m : Member) : Member → Prop
  /-- the member as it is -/
  | same : EnumWritten units m m
  /-- an enumeration at the end of its spine -/
  | enumeration {r : Reader} {s : Spine} {name : String} {e : Enumeration} {t : TypeExpr}
    (unit : r ∈ units) (find : r.enums.find? name = some e) (expr : e.expr = .ok t)
    (type : m.type = s.plug (.named name)) : EnumWritten units m { m with type := s.plug t }

/-- A layout with enumerations of some units written into its members. -/
structure EnumsWritten (units : List Reader) (l l' : Layout) : Prop where
  /-- the size is the same -/
  size : l.size = l'.size
  /-- so are the members, but for enumerations -/
  members : List.Forall₂ (fun m m' => m.1 = m'.1 ∧ EnumWritten units m.2 m'.2) l.members.entries
    l'.members.entries

/-- **The last unit that declares a name** declares it with this layout, but for enumerations. -/
def LastDeclares (units : List Reader) (name : String) (l : Layout) : Prop :=
  ∃ older r newer l', units = older ++ r :: newer ∧ (∀ r' ∈ newer, name ∉ r'.unit.keys) ∧
    (name, l') ∈ r.resolvedLayouts ∧ EnumsWritten units l' l

/-- What the tables that some units have published have in common with the units. -/
structure Background (units : List Reader) (b : Reader) : Prop where
  /-- a layout is that of the last unit that declares its name -/
  layouts : ∀ e ∈ b.types.entries, LastDeclares units e.1 e.2
  /-- what a unit declares under a name of its own is there -/
  named : ∀ r ∈ units, ∀ name ∈ r.unit.keys, isUnnamed name = false → name ∈ b.types.keys
  /-- members have plain types -/
  plain : ∀ e ∈ b.types.entries, ∀ m ∈ e.2.members.values, IsPlain m.type
  /-- what a member names, a member of a unit names -/
  mentions : ∀ e ∈ b.types.entries, ∀ m ∈ e.2.members.values, ∀ name,
    memberName m = .text name → ∃ r ∈ units, r.Mentions name
  /-- variables name names -/
  globals : ∀ v ∈ b.globals.values, isAtom v.type.deepest = true
  /-- an enumeration is that of a unit -/
  enums : ∀ name e, b.enums.find? name = some e → ∃ r ∈ units, r.enums.find? name = some e

/-- Every enumeration of some units that a member of one of them names has the size of an
integer. -/
def EnumsHaveSize (units : List Reader) : Prop :=
  ∀ r ∈ units, ∀ r' ∈ units, ∀ name e, r.Mentions name → r'.enums.find? name = some e →
    ∃ t, e.expr = .ok t

/-- Before any unit nothing is published. -/
theorem background_nil : Background [] {} :=
  ⟨fun _ h => absurd h List.not_mem_nil, fun _ h => absurd h List.not_mem_nil,
    fun _ h => absurd h List.not_mem_nil, fun _ h => absurd h List.not_mem_nil,
    fun _ h => absurd h List.not_mem_nil, fun _ _ h => nomatch h⟩

/-- What some units have written, more units have. -/
theorem EnumWritten.mono {units units' : List Reader} {m m' : Member} (h : EnumWritten units m m')
    (hsub : ∀ r ∈ units, r ∈ units') : EnumWritten units' m m' := by
  cases h with
  | same => exact .same
  | enumeration unit find expr type => exact .enumeration (hsub _ unit) find expr type

/-- Writing enumerations once more changes only what has none. -/
theorem EnumWritten.mergeMember {units : List Reader} {enums : Table String Enumeration}
    {m m' : Member} (h : EnumWritten units m m') (hplain : IsPlain m'.type) (hsize : HasSize enums m')
    (henums : ∀ name e, enums.find? name = some e → ∃ r ∈ units, r.enums.find? name = some e) :
    EnumWritten units m (mergeMember enums m').1 := by
  rcases @mergeMember_cases enums _ hplain with
    ⟨heq, -⟩ | ⟨s, name, e, htype, hname, hfind, hmerge⟩
  · rw [heq]
    exact h
  · obtain ⟨t, ht⟩ := hsize name e hname hfind
    obtain ⟨r, hr, hfind'⟩ := henums name e hfind
    rw [hmerge t ht]
    cases h with
    | same => exact .enumeration hr hfind' ht htype
    | enumeration unit find expr type =>
      -- an enumeration is no name
      obtain ⟨fields, rfl⟩ := Enumeration.exists_fields expr
      rw [Spine.memberName_plug] at hname
      cases hname

theorem EnumsWritten.refl (units : List Reader) (l : Layout) : EnumsWritten units l l :=
  ⟨rfl, List.forall₂_same.mpr fun _ _ => ⟨rfl, .same⟩⟩

theorem EnumsWritten.mono {units units' : List Reader} {l l' : Layout} (h : EnumsWritten units l l')
    (hsub : ∀ r ∈ units, r ∈ units') : EnumsWritten units' l l' :=
  ⟨h.size, h.members.imp fun _ _ hm => ⟨hm.1, hm.2.mono hsub⟩⟩

/-- Writing the enumerations of some units into a layout leaves one with enumerations of these
units. -/
theorem EnumsWritten.mergedLayout {units : List Reader} {enums : Table String Enumeration}
    {l l' : Layout} (h : EnumsWritten units l l')
    (hplain : ∀ m ∈ l'.members.values, IsPlain m.type ∧ HasSize enums m)
    (henums : ∀ name e, enums.find? name = some e → ∃ r ∈ units, r.enums.find? name = some e) :
    EnumsWritten units l (mergedLayout enums l') := by
  refine ⟨h.size, ?_⟩
  rw [Dump.mergedLayout, mapMembers, Table.entries_mapValues, List.forall₂_map_right_iff]
  refine List.forall₂_iff_zip.mpr ⟨h.members.length_eq, fun {m m'} hmem => ?_⟩
  obtain ⟨hname, hm⟩ := (List.forall₂_iff_zip.mp h.members).2 hmem
  obtain ⟨hplain', hsize⟩ := hplain m'.2 (List.mem_map_of_mem (List.of_mem_zip hmem).2)
  exact ⟨hname, hm.mergeMember hplain' hsize henums⟩

/-! ## Members of a unit alone -/

section Alone

variable {r : Reader}

theorem mem_joinedTypes_of_alone (h : r.IsAlone) {name : String} {l : Layout} :
    r.joinedTypes.find? name = some l ↔ (name, l) ∈ r.resolvedLayouts := by
  rw [find?_joinedTypes h.reading.isOwn, h.types]
  simp

/-- **Members of a unit have plain types**, once references are followed. -/
theorem isPlain_of_mem_resolvedLayouts
    (hown : ∀ e ∈ r.unit.entries, ∃ l, e.2 = .own l ∧ ∀ m ∈ l.members.values, IsRaw m.type)
    (hids : ∀ t ∈ r.ids.values, IsRaw t) (h : Publishable r) {e : String × Layout}
    (he : e ∈ r.resolvedLayouts) {m : Member} (hm : m ∈ e.2.members.values) : IsPlain m.type := by
  have hatom : isAtom (memberName m) = true := by
    have hisOwn : r.IsOwn := fun e he => (hown e he).imp fun _ h => h.1
    have hjoined := (find?_joinedTypes hisOwn).mpr (.inl he)
    refine h.atoms _ (List.mem_append.mpr (.inl (List.mem_flatMap.mpr ⟨e.2, ?_, ?_⟩)))
    · exact List.mem_map_of_mem (Table.find?_eq_some_iff.mp hjoined)
    · exact List.mem_map_of_mem hm
  obtain ⟨⟨name, l⟩, hmem, rfl⟩ := List.mem_map.mp he
  obtain ⟨n, hn, rfl⟩ := mem_values_mapMembers.mp hm
  obtain ⟨u, hu⟩ := h.layouts _ hmem n hn
  have hraw : IsRaw n.type := by
    obtain ⟨l', hl', hraw⟩ := hown _ (Reader.mem_ownLayouts.mp hmem)
    cases hl'
    exact hraw n hn
  refine IsResolved.isPlain ?_ hatom
  have hresolved := isResolved_of_resolve hids hraw hu
  simp only [resolveMember, hu]
  exact hresolved

theorem Reader.IsAlone.isPlain (h : r.IsAlone) {e : String × Layout} (he : e ∈ r.resolvedLayouts)
    {m : Member} (hm : m ∈ e.2.members.values) : IsPlain m.type :=
  isPlain_of_mem_resolvedLayouts h.reading.own h.reading.ids h.publishable he hm

end Alone

/-! ## A unit over a background -/

/-- A plain type names something or nothing. -/
theorem IsPlain.isAtom {m : Member} (h : IsPlain m.type) : isAtom (memberName m) = true :=
  isAtom_of_name h.memberName

section Step

variable {units : List Reader} {b r c : Reader}

theorem Over.isOwn (h : Over b r c) (hr : r.IsOwn) : c.IsOwn := by
  obtain ⟨enums, locals, rfl, -⟩ := h
  exact hr

/-- A joined layout is one of the unit, or was published under a name that the unit does not
declare. -/
theorem Over.find?_joinedTypes (h : Over b r c) (hr : r.IsOwn) {name : String} {l : Layout} :
    c.joinedTypes.find? name = some l ↔ (name, l) ∈ r.resolvedLayouts ∨
      name ∉ r.unit.keys ∧ b.types.find? name = some l := by
  rw [Dump.find?_joinedTypes (h.isOwn hr)]
  obtain ⟨enums, locals, rfl, -⟩ := h
  exact Iff.rfl

/-- The variables of a unit are among all variables. -/
theorem Over.find?_joinedGlobals (h : Over b r c) (hr : r.IsAlone) (name : String) :
    c.joinedGlobals.find? name = (r.joinedGlobals.find? name).or (b.globals.find? name) := by
  have hglobals := hr.globals
  obtain ⟨enums, locals, rfl, -⟩ := h
  rw [Reader.joinedGlobals, Reader.joinedGlobals, Table.find?_update, Table.find?_update, hglobals]
  simp only [Table.find?_empty, Option.or_none]
  rfl

/-- An enumeration that is found is that of the unit, or of one before it. -/
theorem Over.find?_enums (h : Over b r c) (hb : Background units b) {name : String} {e : Enumeration}
    (he : c.enums.find? name = some e) : ∃ r' ∈ units ++ [r], r'.enums.find? name = some e := by
  obtain ⟨enums, locals, rfl, hfind⟩ := h
  rw [hfind, Option.or_eq_some_iff] at he
  rcases he with he | ⟨-, he⟩
  · exact ⟨r, by simp, he⟩
  · obtain ⟨r', hr', he'⟩ := hb.enums name e he
    exact ⟨r', by simp [hr'], he'⟩

/-- **Joined members have plain types**, and enumerations that fit. -/
theorem Background.joined (hb : Background units b) (h : Over b r c) (hr : r.IsAlone)
    (hsizes : EnumsHaveSize (units ++ [r])) {name : String} {l : Layout}
    (hl : c.joinedTypes.find? name = some l) {m : Member} (hm : m ∈ l.members.values) :
    (IsPlain m.type ∧ HasSize c.enums m) ∧
      ∀ name, memberName m = .text name → ∃ r' ∈ units ++ [r], r'.Mentions name := by
  have hmember : IsPlain m.type ∧
      ∀ name, memberName m = .text name → ∃ r' ∈ units ++ [r], r'.Mentions name := by
    rcases (h.find?_joinedTypes hr.reading.isOwn).mp hl with hown | ⟨-, hl⟩
    · exact ⟨hr.isPlain hown hm, fun name hname => ⟨r, by simp, _, hown, m, hm, hname⟩⟩
    · have hentry := Table.find?_eq_some_iff.mp hl
      refine ⟨hb.plain _ hentry m hm, fun name hname => ?_⟩
      obtain ⟨r', hr', hmentions⟩ := hb.mentions _ hentry m hm name hname
      exact ⟨r', by simp [hr'], hmentions⟩
  refine ⟨⟨hmember.1, fun name e hname he => ?_⟩, hmember.2⟩
  obtain ⟨r', hr', hmentions⟩ := hmember.2 name hname
  obtain ⟨r'', hr'', he''⟩ := h.find?_enums hb he
  exact hsizes r' hr' r'' hr'' name e hmentions he''

/-- **Nothing that others have published stops a unit.** -/
theorem Background.publishable (hb : Background units b) (h : Over b r c) (hr : r.IsAlone)
    (hsizes : EnumsHaveSize (units ++ [r])) : Publishable c := by
  have hjoined := @Background.joined units b r c hb h hr hsizes
  have hglobals : ∀ v ∈ c.joinedGlobals.values, Dump.isAtom v.type.deepest = true := by
    intro v hv
    obtain ⟨⟨name, v⟩, hmem, rfl⟩ := List.mem_map.mp hv
    have hfind := Table.find?_eq_some_iff.mpr hmem
    rw [h.find?_joinedGlobals hr, Option.or_eq_some_iff] at hfind
    rcases hfind with hfind | ⟨-, hfind⟩
    · refine hr.publishable.atoms _ (List.mem_append.mpr (.inr (List.mem_map.mpr ⟨v, ?_, rfl⟩)))
      exact List.mem_map_of_mem (Table.find?_eq_some_iff.mp hfind)
    · exact hb.globals v (List.mem_map_of_mem (Table.find?_eq_some_iff.mp hfind))
  have hatoms : ∀ t ∈ usedNames c.joinedTypes c.joinedGlobals, Dump.isAtom t = true := by
    intro t ht
    rcases List.mem_append.mp ht with ht | ht
    · obtain ⟨l, hl, ht⟩ := List.mem_flatMap.mp ht
      obtain ⟨m, hm, rfl⟩ := List.mem_map.mp ht
      obtain ⟨⟨name, l⟩, hentry, rfl⟩ := List.mem_map.mp hl
      exact (hjoined (Table.find?_eq_some_iff.mpr hentry) hm).1.1.isAtom
    · obtain ⟨v, hv, rfl⟩ := List.mem_map.mp ht
      exact hglobals v hv
  have henums : ∀ e ∈ (pruned c.joinedTypes c.joinedGlobals).entries, Mergeable c.enums e.2 := by
    intro e he m hm
    have hentry := (entries_pruned_sublist _ _).subset he
    obtain ⟨⟨hplain, hsize⟩, -⟩ := hjoined (Table.find?_eq_some_iff.mpr hentry) hm
    exact snd_mergeMember hplain hsize
  have hpublishable := hr.publishable
  obtain ⟨enums, locals, rfl, -⟩ := h
  exact ⟨hpublishable.layouts, hpublishable.globals, hpublishable.locals, hatoms, henums⟩

/-- A layout that the unit does not declare is left to the units before. -/
theorem Background.lastDeclares (hb : Background units b) (h : Over b r c) (hr : r.IsAlone)
    (hsizes : EnumsHaveSize (units ++ [r])) {name : String} {l : Layout}
    (hl : c.joinedTypes.find? name = some l) :
    LastDeclares (units ++ [r]) name (mergedLayout c.enums l) := by
  have hplain := fun m hm => (@Background.joined units b r c hb h hr hsizes name l hl m hm).1
  have henums := fun name e => @Over.find?_enums units b r c h hb name e
  rcases (h.find?_joinedTypes hr.reading.isOwn).mp hl with hown | ⟨hnot, hl⟩
  · exact ⟨units, r, [], l, rfl, fun _ h => absurd h List.not_mem_nil, hown,
      (EnumsWritten.refl _ l).mergedLayout hplain henums⟩
  · obtain ⟨older, r', newer, l', rfl, hnewer, hmem, hl'⟩ :=
      hb.layouts _ (Table.find?_eq_some_iff.mp hl)
    refine ⟨older, r', newer ++ [r], l', by simp, fun r'' hr'' => ?_, hmem,
      (hl'.mono fun _ => List.mem_append_left _).mergedLayout hplain henums⟩
    rcases List.mem_append.mp hr'' with hr'' | hr''
    · exact hnewer r'' hr''
    · rw [List.mem_singleton.mp hr'']
      exact hnot

/-- A structure with a name of its own is joined, and never dropped. -/
theorem Background.mem_keys_published (hb : Background units b) (h : Over b r c) (hr : r.IsAlone)
    {r' : Reader} (hr' : r' ∈ units ++ [r]) {name : String} (hname : name ∈ r'.unit.keys)
    (hunnamed : isUnnamed name = false) : name ∈ c.publishedTypes.keys := by
  have hfind := @Over.find?_joinedTypes b r c h hr.reading.isOwn
  have hjoined : ∃ l, c.joinedTypes.find? name = some l := by
    by_cases hown : name ∈ r.unit.keys
    · rw [← map_fst_resolvedLayouts hr.reading.isOwn] at hown
      obtain ⟨⟨name, l⟩, hmem, rfl⟩ := List.mem_map.mp hown
      exact ⟨l, hfind.mpr (.inl hmem)⟩
    · have hr' : r' ∈ units := by
        rcases List.mem_append.mp hr' with hr' | hr'
        · exact hr'
        · rw [List.mem_singleton.mp hr'] at hname
          exact absurd hname hown
      obtain ⟨l, hl⟩ := Table.exists_of_mem_keys (hb.named r' hr' name hname hunnamed)
      exact ⟨l, hfind.mpr (.inr ⟨hown, Table.find?_eq_some_iff.mpr hl⟩)⟩
  obtain ⟨l, hl⟩ := hjoined
  have hkept : name ∈ (pruned c.joinedTypes c.joinedGlobals).keys :=
    mem_keys_pruned_of_namedBy (Table.mem_keys_of_find? hl)
      (.inl hunnamed)
  have hpublished := find?_publishedTypes.mpr ⟨hkept, l, hl, rfl⟩
  exact Table.mem_keys_of_find? hpublished

/-- **The description goes on holding.** -/
theorem Background.published (hb : Background units b) (h : Over b r c) (hr : r.IsAlone)
    (hsizes : EnumsHaveSize (units ++ [r])) : Background (units ++ [r]) c.published := by
  have hjoined := @Background.joined units b r c hb h hr hsizes
  have hentry : ∀ e ∈ c.published.types.entries, ∃ l, c.joinedTypes.find? e.1 = some l ∧
      e.2 = mergedLayout c.enums l := fun e he =>
    (find?_publishedTypes.mp (Table.find?_eq_some_iff.mpr he)).2
  refine ⟨fun e he => ?_, fun r' hr' name hname hunnamed => ?_, fun e he m hm => ?_,
    fun e he m hm name hname => ?_, fun v hv => ?_, fun name e he => h.find?_enums hb he⟩
  · obtain ⟨l, hl, heq⟩ := hentry e he
    rw [heq]
    exact hb.lastDeclares h hr hsizes hl
  · exact hb.mem_keys_published h hr hr' hname hunnamed
  · obtain ⟨l, hl, heq⟩ := hentry e he
    rw [heq] at hm
    obtain ⟨n, hn, rfl⟩ := mem_values_mapMembers.mp hm
    obtain ⟨⟨hplain, hsize⟩, -⟩ := hjoined hl hn
    exact isPlain_mergeMember hplain
  · obtain ⟨l, hl, heq⟩ := hentry e he
    rw [heq] at hm
    obtain ⟨n, hn, rfl⟩ := mem_values_mapMembers.mp hm
    obtain ⟨⟨hplain, hsize⟩, hmentions⟩ := hjoined hl hn
    exact hmentions name (memberName_mergeMember hplain hsize hname).1
  · refine (hb.publishable h hr hsizes).atoms _ (List.mem_append.mpr (.inr ?_))
    exact List.mem_map.mpr ⟨v, hv, rfl⟩

end Step

/-! ## Agreement with a unit alone -/

theorem Reader.IsAlone.over {r : Reader} (h : r.IsAlone) : Over {} r r := by
  refine ⟨r.enums, r.locals, ?_, fun name => by simp⟩
  have htypes := h.types
  have hglobals := h.globals
  cases r
  simp_all

/-- A layout that is published was declared by some unit. -/
theorem LastDeclares.exists_mem_keys {units : List Reader} {name : String} {l : Layout}
    (h : LastDeclares units name l) (hunits : ∀ r ∈ units, r.IsAlone) :
    ∃ r ∈ units, name ∈ r.unit.keys := by
  obtain ⟨older, r, newer, l', rfl, -, hmem, -⟩ := h
  have hr : r ∈ older ++ r :: newer := by simp
  refine ⟨r, hr, ?_⟩
  rw [← map_fst_resolvedLayouts (hunits r hr).reading.isOwn]
  exact List.mem_map_of_mem hmem

theorem EnumsHaveSize.mono {units units' : List Reader} (h : EnumsHaveSize units)
    (hsub : ∀ r ∈ units', r ∈ units) : EnumsHaveSize units' :=
  fun r hr r' hr' => h r (hsub r hr) r' (hsub r' hr')

section Agreement

variable {units : List Reader} {b r c u : Reader} {name : String}

/-- After publishing, no member names an enumeration. -/
theorem Background.find?_enums_of_memberName (hb : Background units b) (h : Over b r c)
    (hr : r.IsAlone) (hsizes : EnumsHaveSize (units ++ [r])) {owner : String} {l : Layout}
    (hl : c.publishedTypes.find? owner = some l) {m : Member} (hm : m ∈ l.members.values)
    {name : String} (hname : memberName m = .text name) : c.enums.find? name = none := by
  obtain ⟨-, l', hl', rfl⟩ := find?_publishedTypes.mp hl
  obtain ⟨n, hn, rfl⟩ := mem_values_mapMembers.mp hm
  obtain ⟨⟨hplain, hsize⟩, -⟩ := hb.joined h hr hsizes hl' hn
  exact (memberName_mergeMember hplain hsize hname).2

/-- A name held by value is the name of the member. -/
theorem memberName_of_holds {m : Member} {name : String} (h : m.type.Holds name) (hne : name ≠ "") :
    memberName m = .text name := by
  obtain ⟨offset, t⟩ := m
  obtain ⟨s, rfl⟩ := h.exists_spine
  exact Spine.memberName_plug_named offset s hne

theorem ne_empty_of_isUnnamed (h : isUnnamed name = true) : name ≠ "" := by
  rintro rfl
  cases h

/-- A needed name that is declared by value is that of no enumeration of the unit. -/
theorem Reader.IsAlone.find?_enums (hu : u.IsAlone) (hsizes : EnumsHaveSize [u]) {owner : String}
    {l : Layout} (hl : u.publishedTypes.find? owner = some l) {m : String × Member}
    (hm : m ∈ l.members.entries) {x : String} (hx : m.2.type.Holds x) (hne : x ≠ "") :
    u.enums.find? x = none :=
  background_nil.find?_enums_of_memberName hu.over hu hsizes hl (List.mem_map_of_mem hm)
    (memberName_of_holds hx hne)

/-- An unnamed structure that a named type of the unit needs is held by a member of another one that
it needs. -/
theorem Reader.IsAlone.exists_owner (hu : u.IsAlone) (hsizes : EnumsHaveSize [u])
    (hname : isUnnamed name = false) {x : String} (hx : u.publishedTypes.Needs (.named name) x)
    (hunnamed : isUnnamed x = true) :
    ∃ owner l m, u.publishedTypes.Needs (.named name) owner ∧ owner ≠ "array" ∧
      u.publishedTypes.find? owner = some l ∧ m ∈ l.members.entries ∧ m.2.type.Holds x := by
  have hplain : ∀ owner l, u.publishedTypes.find? owner = some l → ∀ m ∈ l.members.entries,
      IsPlain m.2.type := by
    intro owner l hl m hm
    exact (background_nil.published hu.over hu hsizes).plain _ (Table.find?_eq_some_iff.mp hl) _
      (List.mem_map_of_mem hm)
  refine (holds_of_needs hplain hx hunnamed (.tip (.named trivial))).resolve_left fun h => ?_
  cases h
  rw [hname] at hunnamed
  cases hunnamed

/-- A structure that a named type of the unit needs is not dropped when the unit is published
alone. -/
theorem Reader.IsAlone.mem_keys_pruned (hu : u.IsAlone) (hsizes : EnumsHaveSize [u])
    (hname : isUnnamed name = false) {x : String} (hx : u.publishedTypes.Needs (.named name) x)
    (hkey : x ∈ u.joinedTypes.keys) : x ∈ (pruned u.joinedTypes u.joinedGlobals).keys := by
  refine mem_keys_pruned_of_namedBy hkey ?_
  rcases hunnamed : isUnnamed x
  · exact .inl rfl
  · right
    obtain ⟨owner, l, m, -, -, hl, hm, hheld⟩ := hu.exists_owner hsizes hname hx hunnamed
    obtain ⟨howner, l', hl', rfl⟩ := find?_publishedTypes.mp hl
    obtain ⟨n, hn, hmn⟩ := mem_values_mapMembers.mp (List.mem_map_of_mem hm)
    obtain ⟨⟨hplain, hsize⟩, -⟩ := background_nil.joined hu.over hu hsizes hl' hn
    have hmember := memberName_of_holds hheld (ne_empty_of_isUnnamed hunnamed)
    rw [← hmn] at hmember
    exact ⟨owner, howner, l', n, hl', hn, (memberName_mergeMember hplain hsize hmember).1⟩

/-- Enumerations of the unit are found first. -/
theorem Over.find?_enums_of_some (h : Over b r c) {x : String} {e : Enumeration}
    (he : r.enums.find? x = some e) : c.enums.find? x = some e := by
  obtain ⟨enums, locals, rfl, hfind⟩ := h
  rw [hfind, he]
  rfl

theorem Over.find?_enums_of_none (h : Over b r c) {x : String} (hr : r.enums.find? x = none)
    (hb : b.enums.find? x = none) : c.enums.find? x = none := by
  obtain ⟨enums, locals, rfl, hfind⟩ := h
  rw [hfind, hr, hb]
  rfl

/-- A layout with the enumerations of the unit is alike with those of all units, if none of them has a
name that a member holds by value. -/
theorem Over.alike_mergedLayout (h : Over b r c) {l : Layout}
    (hplain : ∀ m ∈ l.members.values, IsPlain m.type ∧ HasSize c.enums m)
    (hholds : ∀ m ∈ (mergedLayout r.enums l).members.entries, ∀ name, m.2.type.Holds name →
      name ≠ "" → c.enums.find? name = none) :
    (mergedLayout r.enums l).Alike (mergedLayout c.enums l) := by
  have hsize : ∀ m ∈ l.members.values, HasSize r.enums m := fun m hm name e hname he =>
    (hplain m hm).2 name e hname (h.find?_enums_of_some he)
  -- writing the enumerations of the unit first makes no difference
  have htwice : mergedLayout c.enums (mergedLayout r.enums l) = mergedLayout c.enums l := by
    rw [mergedLayout, mergedLayout, mapMembers_mapMembers]
    exact mapMembers_congr fun m hm => mergeMember_mergeMember (hplain m hm).1 (hplain m hm).2
      fun name e he => h.find?_enums_of_some he
  rw [← htwice]
  refine Dump.alike_mergedLayout ⟨rfl, List.forall₂_same.mpr fun m _ => ⟨rfl, rfl, .refl _⟩⟩ ?_ hholds
  intro m hm
  obtain ⟨n, hn, rfl⟩ := mem_values_mapMembers.mp hm
  refine ⟨isPlain_mergeMember (hplain n hn).1, fun name e hname he => ?_⟩
  exact (hplain n hn).2 name e (memberName_mergeMember (hplain n hn).1 (hsize n hn) hname).1 he

/-- What supports itself in the unit alone supports itself over others. -/
theorem Over.selfSupporting (h : Over b u c) (hu : u.IsAlone) :
    SelfSupporting c.joinedTypes c.joinedGlobals
      (· ∈ (pruned u.joinedTypes u.joinedGlobals).keys) := by
  refine (selfSupporting_pruned _ _).transfer (fun x l _ hl => ?_) fun v hv => ?_
  · exact (h.find?_joinedTypes hu.reading.isOwn).mpr (.inl ((mem_joinedTypes_of_alone hu).mp hl))
  · obtain ⟨⟨x, v⟩, hmem, rfl⟩ := List.mem_map.mp hv
    have hfind : c.joinedGlobals.find? x = some v := by
      rw [h.find?_joinedGlobals hu, Table.find?_eq_some_iff.mpr hmem]
      rfl
    exact List.mem_map_of_mem (Table.find?_eq_some_iff.mp hfind)

/-- If tables agree with those of a unit on all that a type needs, this supports itself there. -/
theorem Reader.IsAlone.selfSupporting (hu : u.IsAlone) (hsizes : EnumsHaveSize [u])
    (hname : isUnnamed name = false) {types : TypeTable} (globals : Table String Variable)
    (hagree : ∀ x, u.publishedTypes.Needs (.named name) x → u.publishedTypes.Agree types x) :
    SelfSupporting types globals fun x =>
      u.publishedTypes.Needs (.named name) x ∧ x ∈ u.publishedTypes.keys := by
  rintro x ⟨hx, hkey⟩
  obtain ⟨l, hl⟩ := Table.exists_of_mem_keys hkey
  obtain ⟨l', hl', -⟩ := (hagree x hx).find?_some (Table.find?_eq_some_iff.mpr hl)
  refine ⟨Table.mem_keys_of_find? hl', ?_⟩
  rcases hunnamed : isUnnamed x
  · exact .inl rfl
  · obtain ⟨owner, k, m, howner, hne, hk, hm, hheld⟩ := hu.exists_owner hsizes hname hx hunnamed
    obtain ⟨k', hk', -, halike⟩ := (hagree owner howner).find?_some hk
    obtain ⟨m', hm', hmm'⟩ := exists_mem_of_forall₂ (halike hne).members hm
    refine .inr (.inl ⟨owner, ⟨howner, Table.mem_keys_of_find? hk⟩, k',
      m'.2, hk', List.mem_map_of_mem hm', ?_⟩)
    exact memberName_of_holds (hheld.alike hmm'.type) (ne_empty_of_isUnnamed hunnamed)

/-- **When the unit is published**, over what others have published before it, all that a type needs
is as it is in the unit alone. -/
theorem agree_published (hb : Background units b) (hunits : ∀ r ∈ units, r.IsAlone) (h : Over b u c)
    (hu : u.IsAlone) (hsizes : EnumsHaveSize (units ++ [u])) (hname : isUnnamed name = false)
    (hothers : ∀ x, u.publishedTypes.Needs (.named name) x → ∀ r ∈ units,
      x ∉ r.enums.keys ∧ (x ∉ u.unit.keys → x ∉ r.unit.keys)) :
    ∀ x, u.publishedTypes.Needs (.named name) x → u.publishedTypes.Agree c.publishedTypes x := by
  have hsizes' : EnumsHaveSize [u] := hsizes.mono fun r hr => List.mem_append_right _ hr
  have hjoined := fun x l => @Over.find?_joinedTypes b u c h hu.reading.isOwn x l
  intro x hx
  rw [TypeTable.Agree]
  rcases hfind : u.publishedTypes.find? x with _ | l
  · -- a layout that the unit does not keep is not declared, here or elsewhere
    have hnone : c.publishedTypes.find? x = none := by
      rw [Option.eq_none_iff_forall_ne_some]
      intro l hl
      obtain ⟨-, l', hl', -⟩ := find?_publishedTypes.mp hl
      rcases (hjoined x l').mp hl' with hown | ⟨hnot, hl'⟩
      · have halone := (mem_joinedTypes_of_alone hu).mpr hown
        have hkey := hu.mem_keys_pruned hsizes' hname hx
          (Table.mem_keys_of_find? halone)
        rw [find?_publishedTypes.mpr ⟨hkey, l', halone, rfl⟩] at hfind
        cases hfind
      · obtain ⟨r, hr, hdeclares⟩ :=
          (hb.layouts _ (Table.find?_eq_some_iff.mp hl')).exists_mem_keys hunits
        exact (hothers x hx r hr).2 hnot hdeclares
    rw [hnone]
    exact .none
  · obtain ⟨hkey, l₀, hl₀, rfl⟩ := find?_publishedTypes.mp hfind
    have hown := (mem_joinedTypes_of_alone hu).mp hl₀
    have hl₀' := (hjoined x l₀).mpr (.inl hown)
    rw [find?_publishedTypes.mpr ⟨(h.selfSupporting hu).subset_pruned hkey, l₀, hl₀', rfl⟩]
    refine .some ⟨rfl, fun hx' => ?_⟩
    refine h.alike_mergedLayout (fun m hm => (hb.joined h hu hsizes hl₀' hm).1) fun m hm y hy hne => ?_
    refine h.find?_enums_of_none (hu.find?_enums hsizes' hfind hm hy hne)
      (Option.eq_none_iff_forall_ne_some.mpr fun e he => ?_)
    obtain ⟨r, hr, he'⟩ := hb.enums y e he
    have hneeds := hx.trans hx' hfind hm hy.needs
    exact (hothers y hneeds r hr).1 (Table.mem_keys_of_find? he')

/-- **From then on**, a unit that declares nothing that the type needs leaves all of it as it is. -/
theorem Background.agree (hb : Background units b) (h : Over b r c) (hr : r.IsAlone) (hu : u.IsAlone)
    (hmem : u ∈ units) (hsizes : EnumsHaveSize (units ++ [r])) (hname : isUnnamed name = false)
    (hothers : ∀ x, u.publishedTypes.Needs (.named name) x →
      x ∉ r.unit.keys ∧ x ∉ r.enums.keys ∧ ∀ r' ∈ units, r' = u ∨ x ∉ r'.enums.keys)
    (hagree : ∀ x, u.publishedTypes.Needs (.named name) x → u.publishedTypes.Agree b.types x) :
    ∀ x, u.publishedTypes.Needs (.named name) x → u.publishedTypes.Agree c.publishedTypes x := by
  have hsizes' : EnumsHaveSize [u] := hsizes.mono fun r' hr' => by
    rw [List.mem_singleton.mp hr']
    exact List.mem_append_left _ hmem
  -- the unit changes nothing before structures are dropped
  have hjoined : ∀ x, u.publishedTypes.Needs (.named name) x →
      c.joinedTypes.find? x = b.types.find? x := by
    intro x hx
    have hnot := (hothers x hx).1
    rw [Option.ext_iff]
    intro l
    rw [h.find?_joinedTypes hr.reading.isOwn, and_iff_right hnot, or_iff_right]
    intro hown
    rw [← map_fst_resolvedLayouts hr.reading.isOwn] at hnot
    exact hnot (List.mem_map_of_mem hown)
  have hagree' : ∀ x, u.publishedTypes.Needs (.named name) x →
      u.publishedTypes.Agree c.joinedTypes x := by
    intro x hx
    rw [TypeTable.Agree, hjoined x hx]
    exact hagree x hx
  intro x hx
  rw [TypeTable.Agree]
  rcases hfind : u.publishedTypes.find? x with _ | l
  · have hnone : c.publishedTypes.find? x = none := by
      rw [Option.eq_none_iff_forall_ne_some]
      intro l hl
      obtain ⟨-, l', hl', -⟩ := find?_publishedTypes.mp hl
      rw [(hagree' x hx).find?_none hfind] at hl'
      cases hl'
    rw [hnone]
    exact .none
  · obtain ⟨l', hl', hsize, halike⟩ := (hagree' x hx).find?_some hfind
    have hkey : x ∈ u.publishedTypes.keys :=
      Table.mem_keys_of_find? hfind
    have hsupport := hu.selfSupporting hsizes' hname c.joinedGlobals hagree'
    rw [find?_publishedTypes.mpr ⟨hsupport.subset_pruned ⟨hx, hkey⟩, l', hl', rfl⟩]
    refine .some ⟨hsize, fun hne => alike_mergedLayout (halike hne) ?_ ?_⟩
    · exact fun m hm => (hb.joined h hr hsizes hl' hm).1
    · intro m hm y hy hne'
      obtain ⟨-, hnot, hnot'⟩ := hothers y (hx.trans hne hfind hm hy.needs)
      have hnone := Table.find?_eq_none_iff.mpr hnot
      refine h.find?_enums_of_none hnone (Option.eq_none_iff_forall_ne_some.mpr fun e he => ?_)
      obtain ⟨r', hr', he'⟩ := hb.enums y e he
      rcases hnot' r' hr' with rfl | hnot'
      · rw [hu.find?_enums hsizes' hfind hm hy hne'] at he'
        cases he'
      · exact hnot' (Table.mem_keys_of_find? he')

end Agreement

end CpuTrace.Dump
