import CpuTrace.Layout.SlotTable
import CpuTrace.Proofs.Emission
import Mathlib

/-!
# Shapes of types

Type expressions are open trees, and `TypeTable.unfold` sorts them by many patterns. Only five
things can come out, and every proof about leaves is a case analysis over them:

* a **scalar** is a leaf itself;
* a **structure** is entered, with the layout the table has for its head;
* an **array** repeats the leaves of its element, a stride apart;
* a **bare** array has neither elements nor a type for them, and no leaves;
* anything else is **broken**: flattening fails on it, wherever it stands.

`Shape` is this analysis, an induction principle at the same time, since the shape of an array has
the shape of its element. The equations of `unfold` are stated once for each shape.

A second fact holds for all shapes alike: where a type stands does not matter to what it contains.
Its leaves at any offset under any path are those at the origin, moved there
(`TypeTable.leavesWithin_eq_map`).
-/

namespace CpuTrace

/-- The atom that decides what a type is: the first item of a list, or the first character of a
bare text. -/
inductive TypeExpr.HasHead : TypeExpr → Atom → Prop
  /-- a list is what its first item says -/
  | list (a : Atom) (args : List TypeExpr) : HasHead (.list (.atom a :: args)) a
  /-- a bare text is what its first character says -/
  | text {s : String} {c : Char} {cs : List Char} (h : s.toList = c :: cs) :
    HasHead (.text s) (.text (String.singleton c))

/-- A type has one head. -/
theorem TypeExpr.HasHead.unique {t : TypeExpr} {a b : Atom} (ha : t.HasHead a)
    (hb : t.HasHead b) : a = b := by
  cases ha with
  | list a args => cases hb; rfl
  | text h =>
    cases hb with
    | text h' =>
      obtain ⟨rfl, -⟩ := List.cons.inj (h.symm.trans h')
      rfl

/-- What a type is to a table. -/
inductive Shape (types : TypeTable) : TypeExpr → Prop
  /-- neither an array nor in the table -/
  | scalar {t : TypeExpr} {a : Atom} (head : t.HasHead a) (notArray : a ≠ .text "array")
    (layout : types.layout? a = none) : Shape types t
  /-- not an array, and in the table -/
  | struct {t : TypeExpr} {a : Atom} {l : Layout} (head : t.HasHead a)
    (notArray : a ≠ .text "array") (layout : types.layout? a = some l) : Shape types t
  /-- a number of elements -/
  | array {count : Int} {element : TypeExpr} {args : List TypeExpr}
    (inner : Shape types element) :
    Shape types (.list (.text "array" :: .int count :: element :: args))
  /-- no elements, and no word on what they would be -/
  | bare {count : Int} (empty : ¬ 0 < count) : Shape types (.list [.text "array", .int count])
  /-- no type at all, whatever the table -/
  | broken {t : TypeExpr} (fault : Fault) (notArray : ∀ count element, t ≠ .array count element)
    (fails : ∀ (types : TypeTable) enter offset path,
      types.unfold enter t offset path = .fail fault) : Shape types t

namespace TypeTable

variable {types : TypeTable}

/-- One character does not make the word for an array. -/
theorem singleton_ne_array (c : Char) : Atom.text (String.singleton c) ≠ .text "array" := by
  intro h
  have hlist : [c] = "array".toList := by
    rw [← Atom.text.inj h, String.toList_singleton]
  cases hlist

/-- Every type has a shape. -/
theorem shape (types : TypeTable) (t : TypeExpr) : Shape types t := by
  -- the offset and the path play no part: the induction is that of `unfold`
  induction t, (0 : Int), ([] : List Step) using unfold.induct types with
  | case1 => exact .broken .shortList (by simp) fun _ _ _ _ => by rw [unfold]
  | case2 => exact .broken .shortList (by simp) fun _ _ _ _ => by simp [unfold]
  | case3 _ _ count element args ih => exact .array (ih 0 0)
  | case4 _ _ count h => exact .broken .shortList (by simp) fun _ _ _ _ => by simp [unfold, h]
  | case5 _ _ count h => exact .bare h
  | case6 _ _ head args h =>
    refine .broken .illTyped (fun count element heq => ?_) fun _ _ _ _ => by simp [unfold]
    exact h count (List.cons.inj (List.cons.inj (TypeExpr.list.inj heq)).2).1
  | case7 args _ _ a l hl ha => exact .struct (.list a args) (fun h => ha (by rw [h])) hl
  | case8 args _ _ a hl ha => exact .scalar (.list a args) (fun h => ha (by rw [h])) hl
  | case9 head args _ _ ha h =>
    cases head with
    | atom a => exact (h a rfl).elim
    | list ts => exact .broken .illTyped (by simp) fun _ _ _ _ => by rw [unfold.eq_def]; simp
    | record fs => exact .broken .illTyped (by simp) fun _ _ _ _ => by rw [unfold.eq_def]; simp
  | case10 s _ _ h => exact .broken .shortText (by simp) fun _ _ _ _ => by simp [unfold, h]
  | case11 s _ _ c cs h l hl => exact .struct (.text h) (singleton_ne_array c) hl
  | case12 s _ _ c cs h hl => exact .scalar (.text h) (singleton_ne_array c) hl
  | case13 a _ _ h => exact .broken .illTyped (by simp) fun _ _ _ _ => by simp [unfold]
  | case14 fs _ _ => exact .broken (.missing (.int 0)) (by simp) fun _ _ _ _ => by rw [unfold]

/-! ## The equations of each shape -/

section Equations

variable {enter : Layout → Int → List Step → Emission Fault Leaf} {offset : Int}
  {path : List Step}

theorem unfold_scalar {t : TypeExpr} {a : Atom} (head : t.HasHead a) (notArray : a ≠ .text "array")
    (layout : types.layout? a = none) :
    types.unfold enter t offset path = .one ⟨path, offset, t⟩ := by
  cases head with
  | list a args =>
    have hne : ¬ TypeExpr.atom a = .text "array" := fun h => notArray (TypeExpr.atom.inj h)
    rw [unfold.eq_def]
    simp only [if_neg hne, layout]
  | text h => simp [unfold, h, layout]

theorem unfold_struct {t : TypeExpr} {a : Atom} {l : Layout} (head : t.HasHead a)
    (notArray : a ≠ .text "array") (layout : types.layout? a = some l) :
    types.unfold enter t offset path = enter l offset path := by
  cases head with
  | list a args =>
    have hne : ¬ TypeExpr.atom a = .text "array" := fun h => notArray (TypeExpr.atom.inj h)
    rw [unfold.eq_def]
    simp only [if_neg hne, layout]
  | text h => simp [unfold, h, layout]

theorem unfold_array {count : Int} {element : TypeExpr} {args : List TypeExpr} :
    types.unfold enter (.list (.text "array" :: .int count :: element :: args)) offset path =
      .forEach (List.range count.toNat) fun i =>
        .bindExcept (types.sizeOf element) fun stride =>
          types.unfold enter element (offset + stride * i) (path ++ [.index i]) := by
  rw [← Emission.upTo_eq_forEach]
  simp [unfold]

theorem unfold_bare {count : Int} (empty : ¬ 0 < count) :
    types.unfold enter (.list [.text "array", .int count]) offset path = .nothing := by
  simp [unfold, empty]

end Equations

/-! ## Moving a type -/

end TypeTable

/-- A leaf of something that stands at an offset and is reached by a path. -/
def Leaf.under (offset : Int) (path : List Step) (l : Leaf) : Leaf :=
  ⟨path ++ l.path, offset + l.offset, l.type⟩

theorem Leaf.under_under (offset d : Int) (path steps : List Step) (l : Leaf) :
    (l.under d steps).under offset path = l.under (offset + d) (path ++ steps) := by
  simp only [under, List.append_assoc, Int.add_assoc]

namespace TypeTable

variable {types : TypeTable}

/-- If entering a layout does not depend on where it stands, nor does unfolding a type. -/
theorem unfold_eq_map {enter : Layout → Int → List Step → Emission Fault Leaf}
    (henter : ∀ l offset path, enter l offset path = (enter l 0 []).map (Leaf.under offset path))
    (t : TypeExpr) :
    ∀ (offset : Int) (path : List Step),
      types.unfold enter t offset path =
        (types.unfold enter t 0 []).map (Leaf.under offset path) := by
  induction types.shape t with
  | scalar head notArray layout =>
    intro offset path
    rw [unfold_scalar head notArray layout, unfold_scalar head notArray layout, Emission.map_one]
    simp [Leaf.under]
  | struct head notArray layout =>
    intro offset path
    rw [unfold_struct head notArray layout, unfold_struct head notArray layout, henter]
  | @array count element args inner ih =>
    intro offset path
    rw [unfold_array, unfold_array, Emission.map_forEach]
    refine Emission.forEach_congr fun i _ => ?_
    rw [Emission.map_bindExcept]
    congr 1
    funext stride
    rw [ih, ih (0 + stride * i), Emission.map_map]
    simp only [Leaf.under_under, Int.zero_add, List.nil_append]
  | bare empty =>
    intro offset path
    rw [unfold_bare empty, unfold_bare empty, Emission.map_nothing]
  | broken fault notArray fails =>
    intro offset path
    rw [fails, fails, Emission.map_fail]

/-- If the leaves of the members do not depend on where a layout stands, nor do its own. -/
theorem forEach_members_eq_map {leaves : TypeExpr → Int → List Step → Emission Fault Leaf}
    (h : ∀ t offset path, leaves t offset path = (leaves t 0 []).map (Leaf.under offset path))
    (l : Layout) (offset : Int) (path : List Step) :
    (Emission.forEach l.byOffset fun m =>
        leaves m.2.type (offset + m.2.offset) (path ++ [.member m.1])) =
      (Emission.forEach l.byOffset fun m =>
        leaves m.2.type (0 + m.2.offset) ([] ++ [.member m.1])).map (Leaf.under offset path) := by
  rw [Emission.map_forEach]
  refine Emission.forEach_congr fun m _ => ?_
  rw [h, h m.2.type (0 + m.2.offset), Emission.map_map]
  simp only [Leaf.under_under, Int.zero_add, List.nil_append]

/-- **Leaves move with their type.** The leaves of a type at an offset, under a path, are those at
the origin with the offset added and the path put in front. -/
theorem leavesWithin_eq_map (types : TypeTable) (depth : Nat) :
    ∀ (t : TypeExpr) (offset : Int) (path : List Step),
      types.leavesWithin depth t offset path =
        (types.leavesWithin depth t 0 []).map (Leaf.under offset path) := by
  induction depth with
  | zero =>
    intro t offset path
    exact unfold_eq_map (fun _ _ _ => (Emission.map_fail _ _).symm) t offset path
  | succ depth ih =>
    intro t offset path
    exact unfold_eq_map (forEach_members_eq_map ih) t offset path

/-- The same for all leaves of a type, however deep. -/
theorem leaves_eq_map (types : TypeTable) (t : TypeExpr) (offset : Int) (path : List Step) :
    types.leaves t offset path = (types.leaves t 0 []).map (Leaf.under offset path) :=
  types.leavesWithin_eq_map types.size t offset path

/-- The slots of a type at an offset, under a path, are those of its leaves at the origin, moved
there. -/
theorem slots_eq_map (types : TypeTable) (t : TypeExpr) (offset : Int) (path : List Step) :
    types.slots t offset path =
      ((types.leaves t 0 []).map (Leaf.under offset path)).map Leaf.slot :=
  congrArg (Emission.map Leaf.slot) (types.leaves_eq_map t offset path)

/-- Whether a type can be flattened does not depend on where it stands. -/
theorem fault_slots (types : TypeTable) (t : TypeExpr) (offset : Int) (path : List Step) :
    (types.slots t offset path).fault = (types.leaves t 0 []).fault := by
  rw [slots_eq_map, Emission.fault_map, Emission.fault_map]

end TypeTable

end CpuTrace
