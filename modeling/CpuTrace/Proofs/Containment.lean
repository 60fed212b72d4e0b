import CpuTrace.Proofs.LeafPaths
import CpuTrace.Proofs.Table
import Mathlib

/-!
# Slots inside their object

A table **encloses** its members (`TypeTable.Encloses`) if each of them has a size and lies between
the first and the last byte of its layout. Members may overlap, as those of a union do.

Flattening goes down one step at a time, and no step leaves what it starts from: a member lies inside
its structure, an element inside its array. So a leaf lies inside the type that it was reached from,
with all of its bytes (`LeafAt.within`), and the slots of an object at some address are slots of the
bytes of that object (`slots_within`).
-/

namespace CpuTrace

/-! ## Sizes -/

section Sizes

variable {types : TypeTable} {t : TypeExpr} {a : Atom} {n : Int}

/-- A type that a table has a layout for is as large as the layout. -/
theorem sizeOf_of_layout {l : Layout} (head : t.HasHead a) (layout : types.layout? a = some l) :
    types.sizeOf t = .ok l.size := by
  cases head with
  | list a args =>
    rw [TypeTable.sizeOf, TypeTable.measure.eq_def]
    simp only [layout, TypeExpr.number]
  | text h => simp only [TypeTable.sizeOf, TypeTable.measure, h, layout, TypeExpr.number]

/-- The size of an array, with whatever follows the element. -/
theorem sizeOf_elements (h : types.find? "array" = none) (count : Int) (element : TypeExpr)
    (args : List TypeExpr) :
    types.sizeOf (.list (.text "array" :: .int count :: element :: args)) =
      (types.sizeOf element).map (count * ·) := by
  rw [← types.sizeOf_array count element h, TypeTable.sizeOf, TypeTable.sizeOf]
  simp only [TypeTable.measure, TypeTable.layout?, h]

/-- The size of a scalar is that of its head. -/
theorem sizeOf_of_scalar (head : t.HasHead a) (notArray : a ≠ .text "array")
    (layout : types.layout? a = none) : types.sizeOf t = scalarSize a := by
  have hmeasure : types.measure t = (scalarSize a).map .int := by
    cases head with
    | list a args =>
      rw [TypeTable.measure.eq_def]
      simp only [layout, if_neg notArray]
    | text hs => simp only [TypeTable.measure, hs, layout]
  rw [TypeTable.sizeOf, hmeasure]
  rcases scalarSize a with e | k <;> rfl

/-- Scalars that have a size take at least one byte. -/
theorem scalarSize_pos (h : scalarSize a = .ok n) : 0 < n := by
  have hpos : ∀ e ∈ scalarSizes, 0 < e.2 := by decide
  rw [scalarSize.eq_def] at h
  split at h
  · next s =>
    rcases hlookup : scalarSizes.lookup s with _ | k
    · rw [hlookup] at h
      cases h
    · rw [hlookup] at h
      cases h
      exact hpos _ ((Table.lookup_eq_some_iff (by decide)).mp hlookup)
  · cases h

end Sizes

/-! ## Steps are functions -/

section Steps

variable {types : TypeTable} {t u u' : TypeExpr} {s : Step} {d d' : Int}

/-- Two members of one name, of the layout of one type, are one. -/
theorem eq_of_member_step {a a' : Atom} {l l' : Layout} {m m' : String × Member}
    (head : t.HasHead a) (layout : types.layout? a = some l) (mem : m ∈ l.members.entries)
    (head' : t.HasHead a') (layout' : types.layout? a' = some l') (mem' : m' ∈ l'.members.entries)
    (h : m.1 = m'.1) : m = m' := by
  rw [head'.unique head, layout] at layout'
  obtain rfl := Option.some.inj layout'
  exact Layout.eq_of_fst_eq mem mem' h

/-- A step leads to one type. -/
theorem Descends.unique (h : Descends types t s u) (h' : Descends types t s u') : u = u' := by
  cases h with
  | @member _ a l m head notArray layout mem =>
    generalize hs : Step.member m.1 = s at h'
    cases h' with
    | member head' notArray' layout' mem' =>
      rw [eq_of_member_step head layout mem head' layout' mem' (Step.member.inj hs)]
    | index below => cases hs
  | index below =>
    cases h' with
    | index below' => rfl

/-- A step adds one displacement. -/
theorem Displaces.unique (h : Displaces types t s d) (h' : Displaces types t s d') : d = d' := by
  cases h with
  | @member _ a l m head notArray layout mem =>
    generalize hs : Step.member m.1 = s at h'
    cases h' with
    | member head' notArray' layout' mem' =>
      rw [eq_of_member_step head layout mem head' layout' mem' (Step.member.inj hs)]
    | index size => cases hs
  | index size =>
    cases h' with
    | index size' => rw [Except.ok.inj (size.symm.trans size')]

end Steps

/-! ## Leaves inside their type -/

/-- The members of a layout have a size and lie inside the layout. -/
structure Layout.Encloses (types : TypeTable) (l : Layout) : Prop where
  /-- no member starts before the layout does -/
  starts : ∀ m ∈ l.members.entries, 0 ≤ m.2.offset
  /-- every member ends where the layout does, or before -/
  ends : ∀ m ∈ l.members.entries, ∃ size, types.sizeOf m.2.type = .ok size ∧
    m.2.offset + size ≤ l.size

/-- Members of the given sizes are enclosed if each lies inside. -/
theorem Layout.encloses_of_sizes {types : TypeTable} {l : Layout} (size : String × Member → Int)
    (hsize : ∀ m ∈ l.members.entries, types.sizeOf m.2.type = .ok (size m))
    (hinside : ∀ m ∈ l.members.entries, 0 ≤ m.2.offset ∧ m.2.offset + size m ≤ l.size) :
    l.Encloses types where
  starts m hm := (hinside m hm).1
  ends m hm := ⟨size m, hsize m hm, (hinside m hm).2⟩

/-- All layouts of a table enclose their members, and none is named like an array. -/
structure TypeTable.Encloses (types : TypeTable) : Prop where
  /-- the word for arrays is no name -/
  noArray : types.find? "array" = none
  /-- the members of every layout -/
  layouts : ∀ e ∈ types.entries, e.2.Encloses types

section Leaves

variable {types : TypeTable} {t v : TypeExpr} {p : List Step} {offset : Int}

theorem TypeTable.Encloses.layout (h : types.Encloses) {a : Atom} {l : Layout}
    (layout : types.layout? a = some l) : l.Encloses types := by
  cases a with
  | text name => exact h.layouts _ (Table.find?_eq_some_iff.mp layout)
  | none => cases layout
  | int n => cases layout

/-- A scalar that has a size takes at least one byte. -/
theorem IsScalar.sizeOf_pos {n : Int} (h : IsScalar types t) (hn : types.sizeOf t = .ok n) :
    0 < n := by
  obtain ⟨a, head, notArray, layout⟩ := h
  rw [sizeOf_of_scalar head notArray layout] at hn
  exact scalarSize_pos hn

theorem LeafAt.isScalar (h : LeafAt types t p offset v) : IsScalar types v := by
  induction h with
  | scalar h => exact h
  | step _ _ _ ih => exact ih

/-- **A leaf lies inside its type** with all of its bytes, in a table that encloses its members. Its
own size is known, since that of the type is. -/
theorem LeafAt.within (hencloses : types.Encloses) (h : LeafAt types t p offset v) :
    ∀ size, types.sizeOf t = .ok size →
      ∃ n, types.sizeOf v = .ok n ∧ 0 ≤ offset ∧ offset + n ≤ size := by
  induction h with
  | scalar hscalar =>
    intro size hsize
    exact ⟨size, hsize, Int.le_refl 0, by omega⟩
  | @step t u v s p d offset down by_ rest ih =>
    intro size hsize
    cases down with
    | @member _ a l m head notArray layout mem =>
      -- the layout encloses the member, and the member the leaf
      obtain rfl : d = m.2.offset := by_.unique (.member head notArray layout mem)
      rw [sizeOf_of_layout head layout] at hsize
      obtain rfl : l.size = size := Except.ok.inj hsize
      have hl := hencloses.layout layout
      obtain ⟨k, hk, hend⟩ := hl.ends m mem
      have hstart := hl.starts m mem
      obtain ⟨n, hn, hleaf⟩ := ih k hk
      exact ⟨n, hn, by omega, by omega⟩
    | @index count element args i below =>
      cases by_ with
      | @index _ stride _ _ _ hstride =>
        rw [sizeOf_elements hencloses.noArray, hstride] at hsize
        obtain rfl : count * stride = size := Except.ok.inj hsize
        obtain ⟨n, hn, hleaf⟩ := ih stride hstride
        -- elements that hold a leaf have bytes, so those before this one do not go below the first
        have hpos := rest.isScalar.sizeOf_pos hn
        have hbelow : ((i : Int) + 1) * stride ≤ count * stride :=
          Int.mul_le_mul_of_nonneg_right (by omega) (by omega)
        have hnonneg : 0 ≤ (i : Int) * stride := Int.mul_nonneg (by omega) (by omega)
        rw [Int.add_mul, Int.one_mul] at hbelow
        exact ⟨n, hn, by omega, by omega⟩

end Leaves

/-! ## Slots inside their object -/

/-- **Slots stay inside the object.** If a table encloses its members, flattening a type of known
size from some base on, without a fault, gives the slots of the leaves of the type. Each leaf has a
size, and takes bytes from the base on up to the end of the type. -/
theorem slots_within (types : TypeTable) (hencloses : types.Encloses) (t : TypeExpr) (size : Int)
    (hsize : types.sizeOf t = .ok size) (base : Int) (path : List Step)
    (h : (types.slots t base path).fault = none) :
    ∃ ls : List Leaf, Lists types t ls ∧
      List.Forall₂ (fun leaf slot => slot = (leaf.under base path).slot ∧
        ∃ n, types.sizeOf leaf.type = .ok n ∧ 0 < n ∧
          base ≤ slot.offset ∧ slot.offset + n ≤ base + size)
        ls (types.slots t base path).items.toList := by
  rw [types.slots_eq_map] at h ⊢
  have hlists : Lists types t (types.leaves t 0 []).items.toList :=
    types.lists_leavesWithin types.size t h
  refine ⟨_, hlists, ?_⟩
  simp only [Emission.toList_items_map, List.map_map]
  refine List.forall₂_map_right_iff.mpr (List.forall₂_same.mpr fun leaf hleaf => ⟨rfl, ?_⟩)
  have hat := hlists.sound leaf hleaf
  obtain ⟨n, hn, hstart, hend⟩ := hat.within hencloses size hsize
  refine ⟨n, hn, hat.isScalar.sizeOf_pos hn, ?_, ?_⟩
  · simp only [Function.comp, Leaf.slot, Leaf.under]
    omega
  · simp only [Function.comp, Leaf.slot, Leaf.under]
    omega

/-- A bank of two words, each as a whole and by its upper half, and the upper half of the last word
once more. -/
def wordBank : TypeTable := .ofList
  [("Bank", ⟨8, .ofList
      [("words", ⟨0, .array 2 (.named "Word")⟩), ("last", ⟨6, .named "short"⟩)]⟩),
    ("Word", ⟨4, .ofList [("whole", ⟨0, .named "int"⟩), ("upper", ⟨2, .named "short"⟩)]⟩)]

theorem wordBank_encloses : wordBank.Encloses where
  noArray := by decide
  layouts := by
    have hentries : ∃ bank word, wordBank.entries = [("Bank", bank), ("Word", word)] ∧
        bank.Encloses wordBank ∧ word.Encloses wordBank := by
      refine ⟨_, _, rfl, ?_, ?_⟩
      · refine Layout.encloses_of_sizes (fun m => if m.1 = "words" then 8 else 2) ?_ (by decide)
        exact List.map_inj_left.mp (by cbv)
      · refine Layout.encloses_of_sizes (fun m => if m.1 = "whole" then 4 else 2) ?_ (by decide)
        exact List.map_inj_left.mp (by cbv)
    obtain ⟨bank, word, h, hbank, hword⟩ := hentries
    rw [h]
    simpa using ⟨hbank, hword⟩

theorem slots_within_wordBank :
    wordBank.Encloses ∧ wordBank.sizeOf (.named "Bank") = .ok 8 ∧
      (wordBank.slots (.named "Bank") 16 [.member "b"]).fault = none ∧
      (wordBank.slots (.named "Bank") 16 [.member "b"]).items.toList =
        [⟨"b.words[0].whole", 16⟩, ⟨"b.words[0].upper", 18⟩, ⟨"b.words[1].whole", 20⟩,
          ⟨"b.words[1].upper", 22⟩, ⟨"b.last", 22⟩] ∧
      ∃ ls : List Leaf, Lists wordBank (.named "Bank") ls ∧
        List.Forall₂ (fun leaf slot => slot = (leaf.under 16 [.member "b"]).slot ∧
          ∃ n, wordBank.sizeOf leaf.type = .ok n ∧ 0 < n ∧ 16 ≤ slot.offset ∧ slot.offset + n ≤ 24)
          ls (wordBank.slots (.named "Bank") 16 [.member "b"]).items.toList := by
  have hsize : wordBank.sizeOf (.named "Bank") = .ok 8 := by cbv
  have h : (wordBank.slots (.named "Bank") 16 [.member "b"]).fault = none := by cbv
  refine ⟨wordBank_encloses, hsize, h, by cbv, ?_⟩
  exact slots_within wordBank wordBank_encloses (.named "Bank") 8 hsize 16 [.member "b"] h

end CpuTrace
