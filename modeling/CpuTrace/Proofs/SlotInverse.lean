import CpuTrace.Layout.SlotTable
import CpuTrace.Proofs.Table
import Mathlib

/-!
# The inverse of a slot table

`slotsByOffset` goes through slots in order and puts each name at its offset, so that a later slot
takes the place of an earlier one (`slotsByOffset_concat`). Unions and first members share offsets, so
this happens often, and turning a table round loses names. It loses no offset
(`mem_slotsByOffset`), and the name that is left is that of the last slot there
(`getElem?_slotsByOffset_eq_some_iff`).

Hence the inverse of a table is an inverse from one side: a name that it gives has the offset that was
asked for. `slotsByOffset_inverts` says so, and that it is one from the other side exactly if no two
slots share an offset.
-/

namespace CpuTrace

section Slots

variable {slots : List Slot} {offset : Int} {name : String}

/-- One more slot is put over what is there. -/
theorem slotsByOffset_concat (slots : List Slot) (s : Slot) :
    slotsByOffset (slots ++ [s]) = (slotsByOffset slots).insert s.offset s.name :=
  List.foldl_concat ..

/-- The name at an offset is that of the first slot there, seen from the end. -/
theorem getElem?_slotsByOffset (slots : List Slot) (offset : Int) :
    (slotsByOffset slots)[offset]? =
      (slots.reverse.find? fun s => s.offset == offset).map Slot.name := by
  induction slots using List.reverseRecOn with
  | nil => exact Std.TreeMap.getElem?_emptyc
  | append_singleton slots s ih =>
    rw [slotsByOffset_concat, Std.TreeMap.getElem?_insert, ih, List.reverse_concat, List.find?_cons]
    by_cases h : s.offset = offset
    · rw [if_pos (compare_eq_iff_eq.mpr h), beq_iff_eq.mpr h]
      rfl
    · rw [if_neg (mt compare_eq_iff_eq.mp h), beq_eq_false_iff_ne.mpr h]

/-- **The last slot at an offset** is the one whose name is kept. -/
theorem getElem?_slotsByOffset_eq_some_iff :
    (slotsByOffset slots)[offset]? = some name ↔
      ∃ before after, slots = before ++ ⟨name, offset⟩ :: after ∧ ∀ s ∈ after, s.offset ≠ offset := by
  rw [getElem?_slotsByOffset, Option.map_eq_some_iff]
  simp only [List.find?_eq_some_iff_append, beq_iff_eq, Bool.not_eq_true', beq_eq_false_iff_ne]
  constructor
  · rintro ⟨s, ⟨rfl, later, earlier, hslots, hlater⟩, rfl⟩
    refine ⟨earlier.reverse, later.reverse, ?_, fun k hk => hlater k (List.mem_reverse.mp hk)⟩
    rw [← List.reverse_reverse slots, hslots]
    simp
  · rintro ⟨before, after, rfl, hafter⟩
    exact ⟨⟨name, offset⟩, ⟨rfl, after.reverse, before.reverse, by simp, by simpa using hafter⟩, rfl⟩

/-- **No offset is lost**, and none is added. -/
theorem mem_slotsByOffset : offset ∈ slotsByOffset slots ↔ offset ∈ slots.map Slot.offset := by
  induction slots using List.reverseRecOn with
  | nil => simp [slotsByOffset]
  | append_singleton slots s ih =>
    rw [slotsByOffset_concat, Std.TreeMap.mem_insert, ih, compare_eq_iff_eq, List.map_append,
      List.mem_append, List.map_singleton, List.mem_singleton, or_comm, eq_comm]

/-- At the offset of a slot there is a name of a slot. -/
theorem exists_getElem?_slotsByOffset {s : Slot} (hs : s ∈ slots) :
    ∃ name, (slotsByOffset slots)[s.offset]? = some name ∧ ⟨name, s.offset⟩ ∈ slots := by
  have hmem : s.offset ∈ slotsByOffset slots := mem_slotsByOffset.mpr (List.mem_map_of_mem hs)
  obtain ⟨name, hname⟩ := Option.isSome_iff_exists.mp (Std.TreeMap.isSome_getElem?_iff_mem.mpr hmem)
  refine ⟨name, hname, ?_⟩
  obtain ⟨before, after, rfl, -⟩ := getElem?_slotsByOffset_eq_some_iff.mp hname
  simp

/-- Slots at different offsets keep their names. -/
theorem getElem?_slotsByOffset_of_nodup (h : (slots.map Slot.offset).Nodup) {s : Slot}
    (hs : s ∈ slots) : (slotsByOffset slots)[s.offset]? = some s.name := by
  obtain ⟨name, hname, hmem⟩ := exists_getElem?_slotsByOffset hs
  rw [hname, ← List.inj_on_of_nodup_map h hmem hs rfl]

theorem size_slotsByOffset_of_nodup (h : (slots.map Slot.offset).Nodup) :
    (slotsByOffset slots).size = slots.length := by
  induction slots using List.reverseRecOn with
  | nil => rfl
  | append_singleton slots s ih =>
    rw [List.map_append, List.map_singleton, List.nodup_append] at h
    obtain ⟨hslots, -, hdisjoint⟩ := h
    have hnew : ¬ (slotsByOffset slots).contains s.offset = true := by
      rw [← Std.TreeMap.mem_iff_contains, mem_slotsByOffset]
      exact fun hmem => hdisjoint _ hmem _ (List.mem_singleton_self _) rfl
    rw [slotsByOffset_concat, Std.TreeMap.size_insert, if_neg hnew, ih hslots, List.length_append,
      List.length_singleton]

end Slots

/-! ## Tables -/

namespace SlotTable

variable {t : SlotTable} {name : String} {offset : Int}

theorem mem_slots : ⟨name, offset⟩ ∈ t.slots ↔ t.find? name = some offset := by
  rw [Table.find?_eq_some_iff, slots, List.mem_map]
  constructor
  · rintro ⟨e, he, heq⟩
    obtain ⟨rfl, rfl⟩ := Slot.mk.inj heq
    exact he
  · intro h
    exact ⟨_, h, rfl⟩

theorem map_offset_slots (t : SlotTable) : t.slots.map Slot.offset = t.values := by
  rw [slots, List.map_map]
  rfl

/-- **The inverse of a slot table.** It has the offsets of the table and no others. A name that it has
at an offset has this offset in the table, and no name that comes later in the table has it. It gives
back every name of the table from its offset exactly if no two names share an offset. -/
theorem slotsByOffset_inverts (t : SlotTable) :
    (∀ offset, offset ∈ slotsByOffset t.slots ↔ offset ∈ t.values) ∧
    (∀ offset name, (slotsByOffset t.slots)[offset]? = some name →
      t.find? name = some offset ∧ ∃ before after,
        t.entries = before ++ (name, offset) :: after ∧ ∀ e ∈ after, e.2 ≠ offset) ∧
    ((∀ name offset, t.find? name = some offset →
      (slotsByOffset t.slots)[offset]? = some name) ↔ t.values.Nodup) := by
  refine ⟨fun offset => ?_, fun offset name hname => ?_, fun h => ?_, fun h name offset hfind => ?_⟩
  · rw [mem_slotsByOffset, map_offset_slots]
  · obtain ⟨before, after, hslots, hafter⟩ := getElem?_slotsByOffset_eq_some_iff.mp hname
    refine ⟨mem_slots.mp (by rw [hslots]; simp), ?_⟩
    obtain ⟨before', rest, hentries, -, hrest⟩ := List.map_eq_append_iff.mp hslots
    obtain ⟨e, after', rfl, he, rfl⟩ := List.map_eq_cons_iff.mp hrest
    obtain ⟨rfl, rfl⟩ := Slot.mk.inj he
    exact ⟨before', after', hentries, fun e' he' => hafter _ (List.mem_map_of_mem he')⟩
  · -- two names with one offset would both be the one that is kept
    have hnames : t.entries.Pairwise fun e e' => e.1 ≠ e'.1 := List.pairwise_map.mp t.distinct
    rw [Table.values, List.Nodup, List.pairwise_map]
    refine hnames.imp_of_mem fun {e e'} he he' hne heq => hne ?_
    have hfirst := h _ _ (Table.find?_eq_some_iff.mpr he)
    have hsecond := h _ _ (Table.find?_eq_some_iff.mpr he')
    rw [heq, hsecond] at hfirst
    exact (Option.some.inj hfirst).symm
  · rw [← map_offset_slots] at h
    exact getElem?_slotsByOffset_of_nodup h (mem_slots.mpr hfind)

end SlotTable

end CpuTrace
