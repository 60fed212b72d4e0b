import CpuTrace.Proofs.Republishing
import Mathlib

/-!
# Enumerations at the ends of types

When a unit is published, enumerations are written into the members that have one. The name is found by
one traversal of a member's type, and exchanged by another one that looks for it everywhere. This module
says what comes of the two:

* **at the end of a spine** that has the name of an enumeration stands the enumeration, behind the same
  pointers and arrays (`EndsMerged.written`);
* **in all other types** nothing changes (`EndsMerged.kept`);
* **the rest of a layout** stays: its size, and the names, the order and the offsets of its members
  (`Layout.Retyped`).

An enumeration lists its names by value. Of names with one value it lists the last (`IsChoices`).

The main statement is `publish_writes_enumerations`, for any lines that have been read before.
-/

namespace CpuTrace.Dump

/-! ## Choices -/

/-- **Names by value.** The values are those of an enumeration. The name of a value is the last that has
it. -/
structure IsChoices (values : Table String Int) (choices : Table Int String) : Prop where
  /-- the values are all there, and no others -/
  keys : ∀ v, v ∈ choices.keys ↔ v ∈ values.values
  /-- a name has its value, and none behind it does -/
  last : ∀ v name, choices.find? v = some name →
    ∃ before after, values.entries = before ++ (name, v) :: after ∧ ∀ e ∈ after, e.2 ≠ v

/-- The type that an enumeration is written as: the integer type of its size, with its names. -/
def Enumeration.IsWrittenAs (e : Enumeration) (t : TypeExpr) : Prop :=
  ∃ target choices, integerOfSize e.size = .ok target ∧ IsChoices e.values choices ∧
    t = .list [.text "Enumeration", .record
      [(.text "target", .text target),
        (.text "choices", .record (choices.entries.map fun c => (.int c.1, .text c.2)))]]

/-- A table with names and values exchanged. -/
theorem isChoices_ofList (values : Table String Int) :
    IsChoices values (.ofList (values.entries.map fun v => (v.2, v.1))) := by
  refine ⟨fun v => ?_, fun v name h => ?_⟩
  · rw [← not_iff_not, ← Table.find?_eq_none_iff, Table.find?_ofList, List.lookup_eq_none_iff]
    simp only [List.mem_reverse, bne_iff_ne, Table.values, List.mem_map, not_exists, not_and]
    constructor
    · exact fun h e he heq => h (e.2, e.1) ⟨e, he, rfl⟩ heq.symm
    · rintro h _ ⟨e, he, rfl⟩ heq
      exact h e he heq.symm
  · rw [Table.find?_ofList, List.lookup_eq_some_iff] at h
    obtain ⟨after, before, hsplit, hafter⟩ := h
    rw [← List.reverse_inj, List.reverse_reverse, List.reverse_append, List.reverse_cons,
      List.append_assoc, List.singleton_append] at hsplit
    obtain ⟨before', after', hentries, -, hrest⟩ := List.map_eq_append_iff.mp hsplit
    obtain ⟨e, after'', rfl, he, hmap⟩ := List.map_eq_cons_iff.mp hrest
    obtain ⟨name', v'⟩ := e
    obtain ⟨rfl, rfl⟩ := Prod.mk.inj he
    refine ⟨before', after'', hentries, fun e hmem heq => ?_⟩
    have hpair : (e.2, e.1) ∈ after := by
      rw [← List.mem_reverse, ← hmap]
      exact List.mem_map.mpr ⟨e, hmem, rfl⟩
    simpa [heq] using hafter _ hpair

theorem Enumeration.isWrittenAs_expr {e : Enumeration} {t : TypeExpr} (h : e.expr = .ok t) :
    e.IsWrittenAs t := by
  rw [Enumeration.expr] at h
  rcases hsize : integerOfSize e.size with f | target <;> rw [hsize] at h
  · cases h
  · cases h
    exact ⟨target, _, hsize, isChoices_ofList e.values, rfl⟩

/-! ## Types -/

/-- **What becomes of a type** when enumerations are written. -/
structure EndsMerged (enums : Table String Enumeration) (t t' : TypeExpr) : Prop where
  /-- a name of an enumeration at the end of pointers and arrays is exchanged -/
  written : ∀ (s : Spine) (name : String) (e : Enumeration), t = s.plug (.named name) → name ≠ "" →
    enums.find? name = some e → ∃ u, e.IsWrittenAs u ∧ t' = s.plug u
  /-- if there is none, the type stays -/
  kept : (∀ (s : Spine) (name : String), t = s.plug (.named name) → name ≠ "" →
    name ∉ enums.keys) → t' = t

/-- **The two traversals find the same end**, and change nothing else. -/
theorem endsMerged_mergeMember {enums : Table String Enumeration} {m : Member} (h : IsPlain m.type)
    (hmerge : (mergeMember enums m).2 = none) :
    EndsMerged enums m.type (mergeMember enums m).1.type := by
  refine ⟨fun s name e htype hempty he => ?_, fun hother => ?_⟩
  · have hname : memberName m = .text name := by
      have hplug := Spine.memberName_plug_named m.offset s hempty
      rwa [← htype] at hplug
    obtain ⟨t, ht⟩ := hasSize_of_mergeMember hmerge name e hname he
    refine ⟨t, Enumeration.isWrittenAs_expr ht, ?_⟩
    rw [mergeMember, hname]
    simp only [he, ht, htype, Spine.replace_plug_named]
  · rcases @mergeMember_cases enums m h with ⟨heq, -⟩ | ⟨s, name, e, htype, hname, he, -⟩
    · rw [heq]
    · have hnot := hother s name htype (ne_empty_of_memberName hname)
      exact (hnot (Table.mem_keys_of_find? he)).elim

/-! ## Layouts -/

/-- A layout with other types: they are related to those that were there, and all else is the same. -/
structure Layout.Retyped (related : TypeExpr → TypeExpr → Prop) (l l' : Layout) : Prop where
  /-- the size -/
  size : l'.size = l.size
  /-- the names and offsets of the members, in their order -/
  members : List.Forall₂ (fun m m' => m'.1 = m.1 ∧ m'.2.offset = m.2.offset ∧
    related m.2.type m'.2.type) l.members.entries l'.members.entries

theorem retyped_mapMembers {related : TypeExpr → TypeExpr → Prop} {f : Member → Member} {l : Layout}
    (h : ∀ m ∈ l.members.values, (f m).offset = m.offset ∧ related m.type (f m).type) :
    Layout.Retyped related l (mapMembers f l) := by
  refine ⟨rfl, ?_⟩
  rw [mapMembers, Table.entries_mapValues, List.forall₂_map_right_iff, List.forall₂_same]
  exact fun e he => ⟨rfl, h e.2 (List.mem_map_of_mem he)⟩

/-- What the type of a member stands for when it is published: if its structure is one of the unit,
references are followed. -/
def Reader.StandsFor (r : Reader) (name : String) (t u : TypeExpr) : Prop :=
  if (r.unitLayout? name).isSome = true then r.ids.resolve t = .ok u else u = t

/-- **What becomes of a layout.** If it is left, its members have what they stand for, with enumerations
at the ends. -/
theorem PublishedFrom.exists_retyped {r s r' : Reader} {name : String} {l' : Layout}
    (h : PublishedFrom s r') (hresolved : ResolvedFor r.unit.keys r s)
    (hl' : r'.types.find? name = some l') :
    ∃ l, (r.unitLayout? name).or (r.types.find? name) = some l ∧
      Layout.Retyped (fun t t' => ∃ u, r.StandsFor name t u ∧ EndsMerged r'.enums u t') l l' := by
  obtain ⟨l₀, hleft, rfl⟩ := h.exists_of_find?_types hl'
  have hmem := (entries_pruned_sublist s.publishTypes.types r'.globals).subset hleft
  have hmerged : ∀ m ∈ l₀.members.values, EndsMerged r'.enums m.type (mergeMember r'.enums m).1.type :=
    fun m hm => endsMerged_mergeMember (h.typed l₀ (List.mem_map_of_mem hmem) m hm).isPlain
      (h.mergeable _ hleft m hm)
  have hfind : s.publishTypes.types.find? name = some l₀ := Table.find?_eq_some_iff.mpr hmem
  rw [find?_publishTypes, hresolved.unitLayout?_eq] at hfind
  rcases hunit : r.unitLayout? name with _ | l
  · -- the structure is one of another unit
    rw [hunit, Option.map_none, Option.none_or, hresolved.types name hunit] at hfind
    refine ⟨l₀, hfind, retyped_mapMembers fun m hm => ⟨offset_mergeMember _ m, m.type, ?_, hmerged m hm⟩⟩
    simp [Reader.StandsFor, hunit]
  · rw [hunit, Option.map_some, Option.some_or] at hfind
    obtain rfl := Option.some.inj hfind
    refine ⟨l, rfl, ?_⟩
    rw [mergedLayout, resolvedLayout, mapMembers_mapMembers]
    refine retyped_mapMembers fun m hm => ?_
    obtain ⟨t, ht⟩ := hresolved.resolvable name (mem_keys_of_unitLayout? hunit) l hunit m hm
    have hmember := hmerged _ (mem_values_mapMembers.mpr ⟨m, hm, rfl⟩)
    rw [resolveMember, ht] at hmember ⊢
    refine ⟨offset_mergeMember _ _, t, ?_, hmember⟩
    simpa [Reader.StandsFor, hunit] using ht

/-! ## Publishing -/

/-- **Enumerations are written at the ends of types, and nowhere else.** Take any lines and publications,
whatever faults they give, in which no name is a reference, and then a publication without a fault. The
enumerations are as they were, and no published member names one of them any more. Each published
structure is the one that the unit had, or else the one that was there: with the same size, and the same
members at the same offsets. The type of a member is what its type stood for. Only if that is the name of
an enumeration, behind any pointers and arrays, the enumeration stands there in its place, behind the same
pointers and arrays. -/
theorem publish_writes_enumerations (events : List Event)
    (h : ∀ e ∈ events, e.hasReference = false) (r' : Reader)
    (hrun : publish.run (runAll {} events) = .ok () r') :
    r'.enums = (runAll {} events).enums ∧
    (∀ name l, r'.types.find? name = some l → ∀ field m, l.members.find? field = some m →
      ∀ d ∈ r'.enums.keys, memberName m ≠ .text d) ∧
    ∀ name l', r'.types.find? name = some l' →
      ∃ l, ((runAll {} events).unitLayout? name).or ((runAll {} events).types.find? name) = some l ∧
        Layout.Retyped (fun t t' => ∃ u, (runAll {} events).StandsFor name t u ∧
          EndsMerged (runAll {} events).enums u t') l l' := by
  have hsound := isSound_runAll events h ⟨isOpen_default, isTyped_default⟩
  obtain ⟨s, hresolved, henums, hs⟩ := publishedFrom_of_run hsound.isTyped hrun
  have hsame : r'.enums = (runAll {} events).enums := henums.trans hresolved.enums
  refine ⟨hsame, fun name l hl field m hm d hd hname => ?_, fun name l' hl' => ?_⟩
  · have hnone := hs.find?_enums_of_memberName (Table.find?_eq_some_iff.mp hl)
      (List.mem_map_of_mem (Table.find?_eq_some_iff.mp hm)) hname
    exact Table.find?_eq_none_iff.mp hnone hd
  · rw [← hsame]
    exact hs.exists_retyped hresolved hl'

/-- A structure with an array of pointers to an enumeration in which two names have one value. -/
def paletteUnit : List Event :=
  [.line "<1><2><DW_TAG_enumeration_type> DW_AT_name<Color> DW_AT_byte_size<4>",
    .line "<2><3><DW_TAG_enumerator> DW_AT_name<red> DW_AT_const_value<0>",
    .line "<2><4><DW_TAG_enumerator> DW_AT_name<green> DW_AT_const_value<1>",
    .line "<2><5><DW_TAG_enumerator> DW_AT_name<lime> DW_AT_const_value<1>",
    .line "<1><6><DW_TAG_pointer_type> DW_AT_type<<2>>",
    .line "<1><7><DW_TAG_array_type> DW_AT_type<<6>>",
    .line "<2><8><DW_TAG_subrange_type> DW_AT_upper_bound<2>",
    .line "<1><9><DW_TAG_structure_type> DW_AT_name<Palette> DW_AT_byte_size<32>",
    .line "<2><10><DW_TAG_member> DW_AT_name<colors> DW_AT_type<<7>> DW_AT_data_member_location<8>"]

theorem publish_writes_paletteUnit : ∃ (r : Reader) (l l' : Layout) (m : Member),
    (∀ e ∈ paletteUnit, e.hasReference = false) ∧
    publish.run (runAll {} paletteUnit) = .ok () r ∧ r.types.find? "Palette" = some l' ∧
    l'.members.find? "colors" = some m ∧ m.offset = 8 ∧
    m.type = .array 3 (.pointer (.list [.text "Enumeration", .record
      [(.text "target", .text "int"),
        (.text "choices", .record [(.int 0, .text "red"), (.int 1, .text "lime")])]])) ∧
    (∀ d ∈ r.enums.keys, memberName m ≠ .text d) ∧
    ((runAll {} paletteUnit).unitLayout? "Palette").or
      ((runAll {} paletteUnit).types.find? "Palette") = some l ∧
    Layout.Retyped (fun t t' => ∃ u, (runAll {} paletteUnit).StandsFor "Palette" t u ∧
      EndsMerged (runAll {} paletteUnit).enums u t') l l' := by
  have hlines : ∀ e ∈ paletteUnit, e.hasReference = false := by
    simp only [paletteUnit, List.forall_mem_cons]
    exact ⟨by cbv, by cbv, by cbv, by cbv, by cbv, by cbv, by cbv, by cbv, by cbv, by simp⟩
  have hcolors : viewAfter? (fun r => (r.types.find? "Palette").bind (·.members.find? "colors"))
      publish (runAll {} paletteUnit) = some (some
        ⟨8, .array 3 (.pointer (.list [.text "Enumeration", .record
          [(.text "target", .text "int"),
            (.text "choices", .record [(.int 0, .text "red"), (.int 1, .text "lime")])]]))⟩) := by
    decide +kernel
  obtain ⟨r, hrun, hview⟩ := exists_of_viewAfter? hcolors
  obtain ⟨l', hl', hm⟩ := Option.bind_eq_some_iff.mp hview
  obtain ⟨-, hnames, hlayouts⟩ := publish_writes_enumerations paletteUnit hlines r hrun
  obtain ⟨l, hl, hretyped⟩ := hlayouts "Palette" l' hl'
  exact ⟨r, l, l', _, hlines, hrun, hl', hm, rfl, rfl, hnames "Palette" l' hl' "colors" _ hm, hl,
    hretyped⟩

end CpuTrace.Dump
