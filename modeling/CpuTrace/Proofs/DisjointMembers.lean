import CpuTrace.Proofs.Containment
import CpuTrace.Proofs.SlotInverse
import Mathlib

/-!
# Members that do not overlap

A member takes the bytes from its offset on, as many as the size of its type. A table is **placed**
(`TypeTable.IsPlaced`) if the members of each of its layouts stay inside the layout and no two of them
take the same byte. Members without bytes may stand anywhere inside, also where another one starts.

In such a table a leaf lies inside the bytes of the type that it belongs to (`LeafAt.inside`). So the
leaves of one member lie below those of the next, and the leaves of one element below those of the
next: the order of paths is that of offsets (`PathBefore.offset_lt`). What flattening lists therefore
goes up strictly, and the table from offsets back to names loses nothing (`offsets_ascend`).

Counts need no condition. An array with a negative count has no leaves, whatever its size comes to.
-/

namespace CpuTrace

/-! ## Bytes -/

/-- A member takes a byte of its structure. -/
def Member.Takes (types : TypeTable) (m : Member) (byte : Int) : Prop :=
  ∃ size, types.sizeOf m.type = .ok size ∧ m.offset ≤ byte ∧ byte < m.offset + size

/-- The members of a layout stay inside it and do not overlap. -/
structure Layout.IsPlaced (types : TypeTable) (l : Layout) : Prop where
  /-- no member starts before the layout does -/
  starts : ∀ m ∈ l.members.entries, 0 ≤ m.2.offset
  /-- every member has a size and ends where the layout does, or before -/
  ends : ∀ m ∈ l.members.entries, ∃ size, types.sizeOf m.2.type = .ok size ∧
    m.2.offset + size ≤ l.size
  /-- no byte is that of two members -/
  disjoint : ∀ m ∈ l.members.entries, ∀ n ∈ l.members.entries, m.1 ≠ n.1 →
    ∀ byte, m.2.Takes types byte → ¬ n.2.Takes types byte

/-- Of two members of the given sizes one ends before the other starts, or has no bytes. -/
abbrev Layout.Apart (size : String × Member → Int) (m n : String × Member) : Prop :=
  size m ≤ 0 ∨ size n ≤ 0 ∨ m.2.offset + size m ≤ n.2.offset ∨ n.2.offset + size n ≤ m.2.offset

/-- Members of the given sizes are placed if each lies inside and any two are apart. -/
theorem Layout.isPlaced_of_apart {types : TypeTable} {l : Layout} (size : String × Member → Int)
    (hsize : ∀ m ∈ l.members.entries, types.sizeOf m.2.type = .ok (size m))
    (hinside : ∀ m ∈ l.members.entries, 0 ≤ m.2.offset ∧ m.2.offset + size m ≤ l.size)
    (hapart : l.members.entries.Pairwise (Layout.Apart size)) : l.IsPlaced types where
  starts m hm := (hinside m hm).1
  ends m hm := ⟨size m, hsize m hm, (hinside m hm).2⟩
  disjoint := by
    rintro m hm n hn hne byte ⟨j, hj, hlo, hhi⟩ ⟨k, hk, hlo', hhi'⟩
    obtain rfl := Except.ok.inj ((hsize m hm).symm.trans hj)
    obtain rfl := Except.ok.inj ((hsize n hn).symm.trans hk)
    have hsymm : Std.Symm (Layout.Apart size) := ⟨fun m n h => by omega⟩
    have hmn : Layout.Apart size m n := hapart.forall hm hn fun h => hne (h ▸ rfl)
    omega

/-- All layouts of a table are placed, and none is named like an array. -/
structure TypeTable.IsPlaced (types : TypeTable) : Prop where
  /-- the word for arrays is no name -/
  noArray : types.find? "array" = none
  /-- the members of every layout -/
  layouts : ∀ e ∈ types.entries, e.2.IsPlaced types

/-! ## Leaves inside their type -/

section Leaves

variable {types : TypeTable} {t v : TypeExpr} {p : List Step} {offset : Int}

theorem TypeTable.IsPlaced.layout (h : types.IsPlaced) {a : Atom} {l : Layout}
    (layout : types.layout? a = some l) : l.IsPlaced types := by
  cases a with
  | text name => exact h.layouts _ (Table.find?_eq_some_iff.mp layout)
  | none => cases layout
  | int n => cases layout

/-- A table with placed layouts encloses its members. -/
theorem TypeTable.IsPlaced.encloses (h : types.IsPlaced) : types.Encloses where
  noArray := h.noArray
  layouts e he := ⟨(h.layouts e he).starts, (h.layouts e he).ends⟩

/-- **A leaf starts inside its type.** -/
theorem LeafAt.inside (hplaced : types.IsPlaced) (h : LeafAt types t p offset v) :
    ∀ size, types.sizeOf t = .ok size → 0 ≤ offset ∧ offset < size := by
  intro size hsize
  obtain ⟨n, hn, hstart, hend⟩ := h.within hplaced.encloses size hsize
  have hpos := h.isScalar.sizeOf_pos hn
  omega

/-- The first step of a leaf path, and the leaf from where it leads. -/
theorem LeafAt.of_cons {s : Step} (h : LeafAt types t (s :: p) offset v) :
    ∃ u d rest, Descends types t s u ∧ Displaces types t s d ∧ LeafAt types u p rest v ∧
      offset = d + rest := by
  cases h with
  | step down by_ rest => exact ⟨_, _, _, down, by_, rest, rfl⟩

/-- A leaf of a member of a layout lies inside the bytes of the member. -/
theorem LeafAt.of_member (hplaced : types.IsPlaced) {a : Atom} {l : Layout} {m : String × Member}
    (head : t.HasHead a) (notArray : a ≠ .text "array") (layout : types.layout? a = some l)
    (mem : m ∈ l.members.entries) (h : LeafAt types t (.member m.1 :: p) offset v) :
    ∃ size, types.sizeOf m.2.type = .ok size ∧ m.2.offset ≤ offset ∧ offset < m.2.offset + size := by
  obtain ⟨u, d, rest, down, by_, hrest, rfl⟩ := h.of_cons
  obtain rfl := down.unique (.member head notArray layout mem)
  obtain rfl := by_.unique (.member head notArray layout mem)
  obtain ⟨size, hsize, -⟩ := (hplaced.layout layout).ends m mem
  obtain ⟨hnonneg, hlt⟩ := hrest.inside hplaced size hsize
  exact ⟨size, hsize, by omega, by omega⟩

theorem Layout.Precedes.mem {l : Layout} {m n : String × Member} (h : l.Precedes m n) :
    m ∈ l.members.entries ∧ n ∈ l.members.entries := by
  rcases h with ⟨hm, hn, -⟩ | ⟨hsub, -⟩
  · exact ⟨hm, hn⟩
  · exact ⟨hsub.subset (by simp), hsub.subset (by simp)⟩

/-- Members with bytes come in the order of these bytes. -/
theorem Layout.IsPlaced.end_le {l : Layout} (h : l.IsPlaced types) {m n : String × Member}
    (hmn : l.Precedes m n) {j k : Int} (hj : types.sizeOf m.2.type = .ok j)
    (hk : types.sizeOf n.2.type = .ok k) (hpos : 0 < k) : m.2.offset + j ≤ n.2.offset := by
  obtain ⟨hm, hn⟩ := hmn.mem
  have hle : m.2.offset ≤ n.2.offset := hmn.elim (fun h => h.2.2.le) fun h => h.2.le
  -- otherwise the first byte of the second is one of the first
  by_contra hlt
  exact h.disjoint m hm n hn hmn.fst_ne n.2.offset ⟨j, hj, hle, by omega⟩
    ⟨k, hk, Int.le_refl _, by omega⟩

/-- **The order of paths is that of offsets.** -/
theorem PathBefore.offset_lt (hplaced : types.IsPlaced) {q : List Step} (h : PathBefore types t p q) :
    ∀ {offset offset' : Int} {v v' : TypeExpr}, LeafAt types t p offset v →
      LeafAt types t q offset' v' → offset < offset' := by
  induction h with
  | @member t a l m n p q head notArray layout hmn =>
    intro offset offset' v v' hp hq
    obtain ⟨hm, hn⟩ := hmn.mem
    obtain ⟨j, hj, -, hlt⟩ := hp.of_member hplaced head notArray layout hm
    obtain ⟨k, hk, hle, hlt'⟩ := hq.of_member hplaced head notArray layout hn
    have hend := (hplaced.layout layout).end_le hmn hj hk (by omega)
    omega
  | @index t i j p q hij =>
    intro offset offset' v v' hp hq
    obtain ⟨u, d, rest, down, by_, hrest, rfl⟩ := hp.of_cons
    obtain ⟨u', d', rest', down', by', hrest', rfl⟩ := hq.of_cons
    cases by_ with
    | @index count stride element args i hstride =>
      cases by' with
      | index hstride' =>
        obtain rfl := Except.ok.inj (hstride.symm.trans hstride')
        cases down with
        | index below =>
          cases down' with
          | index below' =>
            obtain ⟨hnonneg, hlt⟩ := hrest.inside hplaced stride hstride
            obtain ⟨hnonneg', -⟩ := hrest'.inside hplaced stride hstride
            have hstep : ((i : Int) + 1) * stride ≤ j * stride :=
              Int.mul_le_mul_of_nonneg_right (by omega) (by omega)
            rw [Int.add_mul, Int.one_mul] at hstep
            omega
  | under step before ih =>
    intro offset offset' v v' hp hq
    obtain ⟨u, d, rest, down, by_, hrest, rfl⟩ := hp.of_cons
    obtain ⟨u', d', rest', down', by', hrest', rfl⟩ := hq.of_cons
    obtain rfl := down.unique step
    obtain rfl := down'.unique step
    obtain rfl := by_.unique by'
    have hlt := ih hrest hrest'
    omega

end Leaves

/-! ## Slots and their inverse -/

/-- **Ascending leaves.** What flattening lists without a fault goes up strictly. -/
theorem TypeTable.IsPlaced.pairwise_leaves {types : TypeTable} (h : types.IsPlaced) {t : TypeExpr}
    {ls : List Leaf} (hls : Lists types t ls) : ls.Pairwise fun l k => l.offset < k.offset := by
  refine hls.ordered.imp_of_mem fun {l k} hl hk hlk => ?_
  exact hlk.offset_lt h (hls.sound l hl) (hls.sound k hk)

/-- **The inverse** of slots at different offsets has one entry for each of them, its name. -/
theorem slotsByOffset_of_nodup {slots : List Slot} (h : (slots.map Slot.offset).Nodup) :
    (slotsByOffset slots).size = slots.length ∧
      ∀ s ∈ slots, (slotsByOffset slots)[s.offset]? = some s.name :=
  ⟨size_slotsByOffset_of_nodup h, fun _ hs => getElem?_slotsByOffset_of_nodup h hs⟩

/-- Slots of different names are the slots of their table. -/
theorem slots_ofSlots {slots : List Slot} (h : (slots.map Slot.name).Nodup) :
    (SlotTable.ofSlots slots).slots = slots := by
  rw [SlotTable.slots, SlotTable.ofSlots, Table.entries_ofList (by rw [List.map_map]; exact h),
    List.map_map]
  exact List.map_id _

/-- **Slots of a placed table.** If no members overlap, flattening that ends without a fault lists
slots at strictly ascending offsets, so no two at one offset. If also no name is listed twice, the
inverse of the slot table has one entry for each line, and leads from its offset back to its name. -/
theorem offsets_ascend (types : TypeTable) (hplaced : types.IsPlaced) (t : TypeExpr) (offset : Int)
    (path : List Step) (h : (types.slots t offset path).fault = none) :
    let slots := (types.slots t offset path).items.toList
    slots.Pairwise (fun s k => s.offset < k.offset) ∧ (slots.map Slot.offset).Nodup ∧
      ((slots.map Slot.name).Nodup →
        (slotsByOffset (SlotTable.ofSlots slots).slots).size = slots.length ∧
          ∀ s ∈ slots, (slotsByOffset (SlotTable.ofSlots slots).slots)[s.offset]? = some s.name) := by
  intro slots
  have hascend : slots.Pairwise fun s k => s.offset < k.offset := by
    have hlists : Lists types t (types.leaves t 0 []).items.toList :=
      types.lists_leavesWithin types.size t (types.fault_slots t offset path ▸ h)
    simp only [slots, types.slots_eq_map, Emission.toList_items_map, List.pairwise_map]
    exact (hplaced.pairwise_leaves hlists).imp fun hlt => Int.add_lt_add_left hlt offset
  have hnodup : (slots.map Slot.offset).Nodup :=
    List.pairwise_map.mpr (hascend.imp fun hlt => hlt.ne)
  refine ⟨hascend, hnodup, fun hnames => ?_⟩
  rw [slots_ofSlots hnames]
  exact slotsByOffset_of_nodup hnodup

/-- Members out of order, and one without bytes where an array of structures starts. -/
def recordOfPairs : TypeTable := .ofList
  [("Record", ⟨12, .ofList
      [("tail", ⟨4, .array 2 (.named "Pair")⟩), ("none", ⟨4, .array 0 (.named "int")⟩),
        ("head", ⟨0, .named "int"⟩)]⟩),
    ("Pair", ⟨4, .ofList [("high", ⟨2, .named "short"⟩), ("low", ⟨0, .named "short"⟩)]⟩)]

theorem recordOfPairs_isPlaced : recordOfPairs.IsPlaced where
  noArray := by decide
  layouts := by
    have hentries : ∃ record pair, recordOfPairs.entries = [("Record", record), ("Pair", pair)] ∧
        record.IsPlaced recordOfPairs ∧ pair.IsPlaced recordOfPairs := by
      refine ⟨_, _, rfl, ?_, ?_⟩
      · refine Layout.isPlaced_of_apart
          (fun m => if m.1 = "tail" then 8 else if m.1 = "none" then 0 else 4) ?_ ?_ ?_
        · exact List.map_inj_left.mp (by cbv)
        · decide
        · decide
      · refine Layout.isPlaced_of_apart (fun _ => 2) ?_ ?_ ?_
        · exact List.map_inj_left.mp (by cbv)
        · decide
        · decide
    obtain ⟨record, pair, h, hrecord, hpair⟩ := hentries
    rw [h]
    simpa using ⟨hrecord, hpair⟩

theorem offsets_recordOfPairs :
    recordOfPairs.IsPlaced ∧
      (recordOfPairs.slots (.named "Record") 8 [.member "r"]).fault = none ∧
      (recordOfPairs.slots (.named "Record") 8 [.member "r"]).items.toList =
        [⟨"r.head", 8⟩, ⟨"r.tail[0].low", 12⟩, ⟨"r.tail[0].high", 14⟩, ⟨"r.tail[1].low", 16⟩,
          ⟨"r.tail[1].high", 18⟩] ∧
      (slotsByOffset (SlotTable.ofSlots
        (recordOfPairs.slots (.named "Record") 8 [.member "r"]).items.toList).slots)[(14 : Int)]? =
          some "r.tail[0].high" := by
  have h : (recordOfPairs.slots (.named "Record") 8 [.member "r"]).fault = none := by cbv
  have hslots : (recordOfPairs.slots (.named "Record") 8 [.member "r"]).items.toList =
      [⟨"r.head", 8⟩, ⟨"r.tail[0].low", 12⟩, ⟨"r.tail[0].high", 14⟩, ⟨"r.tail[1].low", 16⟩,
        ⟨"r.tail[1].high", 18⟩] := by cbv
  obtain ⟨-, -, hinverse⟩ :=
    offsets_ascend recordOfPairs recordOfPairs_isPlaced (.named "Record") 8 [.member "r"] h
  rw [hslots] at hinverse
  refine ⟨recordOfPairs_isPlaced, h, hslots, ?_⟩
  rw [hslots]
  exact (hinverse (by decide)).2 ⟨"r.tail[0].high", 14⟩ (by simp)

end CpuTrace
