import CpuTrace.Proofs.Containment
import CpuTrace.Proofs.LeafPaths
import Mathlib

/-!
# Arrays of arrays

An array of more than one dimension is a **nest**: an array of arrays, with the outermost count first
(`TypeExpr.nest`). Flattening goes through its index vectors with the last index running fastest
(`indices`), and each element stands in **row-major** order: its place is computed from the outermost
index inwards, multiplying by each count and adding the index (`rowMajor`).

`leaves_nest` says so for a nest of scalars alone. The leaves under a member of a structure are those
of its type, and no others (`leaves_member`), so the slots of a member that is a nest are the ones of
the grid (`memberSlots_nest`).
-/

namespace CpuTrace

/-- An array of arrays, the outermost count first. -/
def TypeExpr.nest : List Int → TypeExpr → TypeExpr
  | [], t => t
  | count :: counts, t => .array count (nest counts t)

theorem TypeExpr.nest_append (counts counts' : List Int) (t : TypeExpr) :
    nest (counts ++ counts') t = nest counts (nest counts' t) := by
  induction counts with
  | nil => rfl
  | cons count counts ih => rw [List.cons_append, nest, nest, ih]

/-- The index vectors that given counts allow, the last index running fastest. -/
def indices : List Int → List (List Nat)
  | [] => [[]]
  | count :: counts => (List.range count.toNat).flatMap fun i => (indices counts).map (i :: ·)

/-- The place of an element, from the outermost index inwards, after what is known of it so far. -/
def placeFrom (place : Int) : List Int → List Nat → Int
  | count :: counts, i :: is => placeFrom (place * count + i) counts is
  | _, _ => place

/-- **Row-major order**: each count multiplies the place so far, and the index is added. -/
def rowMajor (counts : List Int) (is : List Nat) : Int := placeFrom 0 counts is

/-- Index vectors have an index below each count, and all of these are there. -/
theorem mem_indices_iff {counts : List Int} {is : List Nat} :
    is ∈ indices counts ↔
      List.Forall₂ (fun (count : Int) (i : Nat) => (i : Int) < count) counts is := by
  induction counts generalizing is with
  | nil => simp [indices]
  | cons count counts ih =>
    simp only [indices, List.mem_flatMap, List.mem_range, List.mem_map, ih, List.forall₂_cons_left_iff]
    constructor
    · rintro ⟨i, hi, js, hjs, rfl⟩
      exact ⟨i, js, by omega, hjs, rfl⟩
    · rintro ⟨i, js, hi, hjs, rfl⟩
      exact ⟨i, by omega, js, hjs, rfl⟩

/-- What is known of a place counts for all the elements inside. -/
theorem placeFrom_eq {counts : List Int} {is : List Nat} (h : is ∈ indices counts) (place : Int) :
    placeFrom place counts is = place * counts.prod + rowMajor counts is := by
  rw [mem_indices_iff] at h
  induction h generalizing place with
  | nil => simp [rowMajor, placeFrom]
  | cons _ _ ih =>
    rw [rowMajor, placeFrom, placeFrom, ih, ih, List.prod_cons]
    ring

theorem rowMajor_cons (count : Int) {counts : List Int} (i : Nat) {is : List Nat}
    (h : is ∈ indices counts) :
    rowMajor (count :: counts) (i :: is) = i * counts.prod + rowMajor counts is := by
  rw [rowMajor, placeFrom, zero_mul, zero_add, placeFrom_eq h]

section Nest

variable {types : TypeTable} {e : TypeExpr} {size : Int}

/-- The size of a nest is that of all its elements. -/
theorem sizeOf_nest {counts : List Int} (hsize : types.sizeOf e = .ok size)
    (harray : counts ≠ [] → types.find? "array" = none) :
    types.sizeOf (.nest counts e) = .ok (counts.prod * size) := by
  induction counts with
  | nil => simpa [TypeExpr.nest] using hsize
  | cons count counts ih =>
    have hnone := harray (List.cons_ne_nil _ _)
    rw [TypeExpr.nest, types.sizeOf_array count _ hnone, ih fun _ => hnone, List.prod_cons, mul_assoc]
    rfl

/-- **A nest of scalars** has a leaf for every index vector, in row-major order. -/
theorem leaves_nest {enter : Layout → Int → List Step → Emission Fault Leaf}
    (hscalar : IsScalar types e) (hsize : types.sizeOf e = .ok size) {counts : List Int}
    (harray : 1 < counts.length → types.find? "array" = none) :
    ∀ (offset : Int) (path : List Step),
      (types.unfold enter (.nest counts e) offset path).fault = none ∧
      (types.unfold enter (.nest counts e) offset path).items.toList =
        (indices counts).map fun is =>
          ⟨path ++ is.map .index, offset + rowMajor counts is * size, e⟩ := by
  induction counts with
  | nil =>
    intro offset path
    obtain ⟨a, head, notArray, layout⟩ := hscalar
    rw [TypeExpr.nest, TypeTable.unfold_scalar head notArray layout]
    simp [indices, rowMajor, placeFrom, Emission.one]
  | cons count counts ih =>
    intro offset path
    have ih := ih fun h => harray (by simp; omega)
    have hstride : types.sizeOf (.nest counts e) = .ok (counts.prod * size) :=
      sizeOf_nest hsize fun h => harray (by simpa using List.length_pos_iff.mpr h)
    have hunfold : types.unfold enter (.nest (count :: counts) e) offset path =
        .forEach (List.range count.toNat) fun i =>
          types.unfold enter (.nest counts e) (offset + counts.prod * size * i)
            (path ++ [.index i]) := by
      rw [TypeExpr.nest, TypeTable.unfold_array, hstride]
      rfl
    have hfault : (types.unfold enter (.nest (count :: counts) e) offset path).fault = none := by
      rw [hunfold, Emission.fault_forEach_eq_none]
      exact fun i _ => (ih _ _).1
    refine ⟨hfault, ?_⟩
    rw [hunfold] at hfault ⊢
    rw [Emission.items_forEach hfault, indices, List.map_flatMap]
    refine List.flatMap_congr fun i _ => ?_
    rw [(ih _ _).2, List.map_map]
    refine List.map_congr_left fun is his => ?_
    simp only [Function.comp_apply, rowMajor_cons count i his, List.map_cons, List.append_assoc,
      List.singleton_append, Leaf.mk.injEq, true_and, and_true]
    ring

end Nest

/-! ## Members -/

/-- Whether a leaf is in a member of a structure. -/
def Leaf.isWithin (root name : String) (x : Leaf) : Bool :=
  [.member root, .member name].isPrefixOf x.path

theorem filter_isWithin {types : TypeTable} (depth : Nat) (t : TypeExpr) (offset : Int)
    (root name other : String) :
    (types.leavesWithin depth t offset [.member root, .member other]).items.toList.filter
        (Leaf.isWithin root name) =
      if other = name then
        (types.leavesWithin depth t offset [.member root, .member other]).items.toList
      else [] := by
  rw [types.leavesWithin_eq_map, Emission.toList_items_map, List.filter_map]
  split
  · next h =>
    subst h
    congr 1
    rw [List.filter_eq_self]
    intro x _
    simp [Leaf.isWithin, Leaf.under]
  · next h =>
    rw [List.filter_eq_nil_iff.mpr, List.map_nil]
    intro x _
    simp [Leaf.isWithin, Leaf.under, Ne.symm h]

/-- Of pieces under different names, those under one name are one piece. -/
theorem flatMap_ite_eq {α β : Type} {es : List (String × α)} (hnodup : (es.map Prod.fst).Nodup)
    {e : String × α} (he : e ∈ es) (f : String × α → List β) :
    (es.flatMap fun x => if x.1 = e.1 then f x else []) = f e := by
  induction es with
  | nil => cases he
  | cons x es ih =>
    rw [List.map_cons, List.nodup_cons] at hnodup
    rw [List.flatMap_cons]
    rcases List.mem_cons.mp he with rfl | he
    · have hnil : (es.flatMap fun x => if x.1 = e.1 then f x else []) = [] := by
        rw [List.flatMap_eq_nil_iff]
        intro y hy
        have hne : y.1 ≠ e.1 := fun h => hnodup.1 (h ▸ List.mem_map_of_mem hy)
        rw [if_neg hne]
      rw [if_pos rfl, hnil, List.append_nil]
    · have hne : x.1 ≠ e.1 := fun h => hnodup.1 (h ▸ List.mem_map_of_mem he)
      rw [if_neg hne, ih hnodup.2 he, List.nil_append]

/-- **The leaves under a member** are those of its type, from its offset on, and no others. -/
theorem leaves_member {types : TypeTable} {root name : String} {l : Layout} {m : Member}
    (hlayout : types.find? root = some l) (hmember : l.members.find? name = some m)
    (hfault : (types.leaves (.named root) 0 [.member root]).fault = none) :
    ∃ depth, (types.leaves (.named root) 0 [.member root]).items.toList.filter
        (Leaf.isWithin root name) =
      (types.leavesWithin depth m.type m.offset [.member root, .member name]).items.toList := by
  have hmem := Table.find?_eq_some_iff.mp hlayout
  obtain ⟨depth, hdepth⟩ : ∃ depth, types.size = depth + 1 :=
    Nat.exists_eq_succ_of_ne_zero fun h => by
      rw [List.length_eq_zero_iff.mp h] at hmem
      cases hmem
  refine ⟨depth, ?_⟩
  have hne : root ≠ "array" := by
    rintro rfl
    rw [TypeTable.leaves, hdepth, TypeTable.leavesWithin] at hfault
    simp [TypeTable.unfold, Emission.fail] at hfault
  have hleaves : types.leaves (.named root) 0 [.member root] = .forEach l.byOffset fun m =>
      types.leavesWithin depth m.2.type (0 + m.2.offset) [.member root, .member m.1] := by
    rw [TypeTable.leaves, hdepth, TypeTable.leavesWithin]
    exact TypeTable.unfold_struct (.list (.text root) []) (fun h => hne (Atom.text.inj h)) hlayout
  rw [hleaves] at hfault ⊢
  have hkeys : (l.byOffset.map Prod.fst).Nodup :=
    ((List.mergeSort_perm _ _).map _).nodup_iff.mpr l.members.distinct
  have he : (name, m) ∈ l.byOffset := Layout.mem_byOffset.mpr (Table.find?_eq_some_iff.mp hmember)
  rw [Emission.items_forEach hfault, List.filter_flatMap]
  simp only [filter_isWithin]
  rw [flatMap_ite_eq hkeys he, zero_add]

/-! ## Slots -/

/-- The slots of a member that is a grid of scalars: one for each index vector, in row-major order. -/
def gridSlots (root name : String) (offset size : Int) (counts : List Int) : List Slot :=
  (indices counts).map fun is =>
    ⟨pathName ([.member root, .member name] ++ is.map .index), offset + rowMajor counts is * size⟩

/-- The slots of a structure that are in one of its members. -/
def TypeTable.memberSlots (types : TypeTable) (root name : String) : List Slot :=
  ((types.leaves (.named root) 0 [.member root]).items.toList.filter (Leaf.isWithin root name)).map
    Leaf.slot

section Slots

variable {types : TypeTable} {e : TypeExpr} {size : Int} {counts : List Int} {root name : String}

theorem slotsWithin_nest (hscalar : IsScalar types e) (hsize : types.sizeOf e = .ok size)
    (harray : 1 < counts.length → types.find? "array" = none) (depth : Nat) (offset : Int) :
    (types.leavesWithin depth (.nest counts e) offset [.member root, .member name]).map Leaf.slot =
      ⟨(gridSlots root name offset size counts).toArray, none⟩ := by
  obtain ⟨hfault, hitems⟩ : (types.leavesWithin depth (.nest counts e) offset
        [.member root, .member name]).fault = none ∧
      (types.leavesWithin depth (.nest counts e) offset [.member root, .member name]).items.toList =
        (indices counts).map fun is => ⟨[.member root, .member name] ++ is.map .index,
          offset + rowMajor counts is * size, e⟩ := by
    cases depth <;> exact leaves_nest hscalar hsize harray offset _
  refine Emission.ext (Array.toList_inj.mp ?_) hfault
  rw [Emission.toList_items_map, hitems, List.map_map]
  rfl

/-- **A nest of scalars in a structure** has the slots of its grid, whether it is flattened alone or
in the structure, and no others. -/
theorem memberSlots_nest {l : Layout} {offset : Int} (hlayout : types.find? root = some l)
    (hmember : l.members.find? name = some ⟨offset, .nest counts e⟩) (hscalar : IsScalar types e)
    (hsize : types.sizeOf e = .ok size)
    (harray : 1 < counts.length → types.find? "array" = none) :
    types.slots (.nest counts e) offset [.member root, .member name] =
        ⟨(gridSlots root name offset size counts).toArray, none⟩ ∧
      ((types.slotsOf root).fault = none →
        types.memberSlots root name = gridSlots root name offset size counts) := by
  refine ⟨slotsWithin_nest hscalar hsize harray _ offset, fun hfault => ?_⟩
  rw [TypeTable.slotsOf, TypeTable.slots, Emission.fault_map] at hfault
  obtain ⟨depth, hdepth⟩ := leaves_member hlayout hmember hfault
  rw [TypeTable.memberSlots, hdepth, ← Emission.toList_items_map,
    slotsWithin_nest hscalar hsize harray depth offset]

end Slots

end CpuTrace
