import CpuTrace.Proofs.LeafPaths
import CpuTrace.Proofs.Table
import CpuTrace.Proofs.Unfolding
import Mathlib

/-!
# Types contained by value

A type contains the types of its members and of its elements, and what these contain
(`TypeTable.Contains`). What a pointer points to is not contained, nor is the element of an array
that has none.

Flattening goes through all that a type contains. It goes on at a type that **opens**
(`TypeTable.Opens`): a scalar, a structure of the table, or an array whose elements have a size. If
nothing contains itself, flattening ends, and it ends without a fault exactly if all that the type
contains opens (`TypeTable.fault_leaves_eq_none_iff`). The bound on the depth is enough because each
structure on the way down is one that the types below it no longer contain.
-/

namespace CpuTrace.TypeTable

/-! ## Containing -/

/-- A type is that of a member or of an element of another. -/
def Part (types : TypeTable) (t u : TypeExpr) : Prop := ∃ s, Descends types t s u

/-- A type contains another by value, any number of steps down. -/
abbrev Contains (types : TypeTable) : TypeExpr → TypeExpr → Prop := Relation.ReflTransGen types.Part

/-- Nothing that a type contains contains itself. -/
def IsAcyclic (types : TypeTable) (t : TypeExpr) : Prop :=
  ∀ u, types.Contains t u → ¬ Relation.TransGen types.Part u u

/-- A type at which flattening goes on. -/
inductive Opens (types : TypeTable) : TypeExpr → Prop
  /-- a scalar -/
  | scalar {t : TypeExpr} (h : IsScalar types t) : Opens types t
  /-- a structure of the table -/
  | struct {t : TypeExpr} {a : Atom} {l : Layout} (head : t.HasHead a)
    (notArray : a ≠ .text "array") (layout : types.layout? a = some l) : Opens types t
  /-- an array without elements, or with elements of some size -/
  | array {count : Int} {element : TypeExpr} {args : List TypeExpr}
    (sized : 0 < count → ∃ n, types.sizeOf element = .ok n) :
    Opens types (.list (.text "array" :: .int count :: element :: args))
  /-- an array without elements, and without a word on what they would be -/
  | bare {count : Int} (empty : ¬ 0 < count) : Opens types (.list [.text "array", .int count])

section Containing

variable {types : TypeTable} {t u : TypeExpr}

/-- Elements are parts of an array that has some. -/
theorem part_element {count : Int} {element : TypeExpr} {args : List TypeExpr} (h : 0 < count) :
    types.Part (.list (.text "array" :: .int count :: element :: args)) element :=
  ⟨.index 0, .index (by simpa using h)⟩

/-- Types with one head have the same parts. -/
theorem Part.of_hasHead {a : Atom} {l : Layout} {m : String × Member} (head : t.HasHead a)
    (notArray : a ≠ .text "array") (layout : types.layout? a = some l)
    (mem : m ∈ l.members.entries) : types.Part t m.2.type :=
  ⟨.member m.1, .member head notArray layout mem⟩

/-! ## What goes on without a fault -/

/-- What unfolds without a fault opens. -/
theorem opens_of_fault {enter : Layout → Int → List Step → Emission Fault Leaf} {offset : Int}
    {path : List Step} (h : (types.unfold enter t offset path).fault = none) : types.Opens t := by
  cases types.shape t with
  | scalar head notArray layout => exact .scalar ⟨_, head, notArray, layout⟩
  | struct head notArray layout => exact .struct head notArray layout
  | @array count element args inner =>
    refine .array fun hpos => ?_
    rw [unfold_array, Emission.fault_forEach_eq_none] at h
    have hfirst := h 0 (List.mem_range.mpr (by omega))
    rcases hsize : types.sizeOf element with e | n
    · rw [hsize] at hfirst
      cases hfirst
    · exact ⟨n, rfl⟩
  | bare empty => exact .bare empty
  | broken fault notArray fails =>
    rw [fails] at h
    cases h

/-- The parts of what flattens without a fault do so too. -/
theorem fault_of_part {depth : Nat} {offset : Int} {path : List Step}
    (h : (types.leavesWithin depth t offset path).fault = none) (hpart : types.Part t u) :
    ∃ depth offset path, (types.leavesWithin depth u offset path).fault = none := by
  obtain ⟨s, down⟩ := hpart
  cases down with
  | @member t a l m head notArray layout mem =>
    cases depth with
    | zero =>
      rw [leavesWithin, unfold_struct head notArray layout] at h
      cases h
    | succ depth =>
      rw [leavesWithin, unfold_struct head notArray layout, Emission.fault_forEach_eq_none] at h
      exact ⟨_, _, _, h m (Layout.mem_byOffset.mpr mem)⟩
  | @index count element args i below =>
    have hunfold : ∃ enter, types.leavesWithin depth = types.unfold enter := by
      cases depth <;> exact ⟨_, rfl⟩
    obtain ⟨enter, henter⟩ := hunfold
    rw [henter, unfold_array, Emission.fault_forEach_eq_none] at h
    have hi := h i (List.mem_range.mpr (by omega))
    rcases hsize : types.sizeOf u with e | n
    · rw [hsize] at hi
      cases hi
    · rw [hsize] at hi
      exact ⟨depth, _, _, henter ▸ hi⟩

/-- **All that is contained opens**, if there is no fault. -/
theorem opens_of_contains {depth : Nat} {offset : Int} {path : List Step}
    (h : (types.leavesWithin depth t offset path).fault = none) (hu : types.Contains t u) :
    types.Opens u := by
  have hfault : ∃ depth offset path, (types.leavesWithin depth u offset path).fault = none := by
    induction hu with
    | refl => exact ⟨depth, offset, path, h⟩
    | tail _ hpart ih =>
      obtain ⟨_, _, _, ih⟩ := ih
      exact fault_of_part ih hpart
  obtain ⟨depth, offset, path, hfault⟩ := hfault
  cases depth <;> exact opens_of_fault hfault

/-! ## What ends -/

/-- If all that is contained opens, and entering the structures among it gives no fault, there is no
fault. -/
theorem fault_unfold_eq_none {enter : Layout → Int → List Step → Emission Fault Leaf}
    (hopens : ∀ u, types.Contains t u → types.Opens u)
    (henter : ∀ u a l, types.Contains t u → u.HasHead a → a ≠ .text "array" →
      types.layout? a = some l → ∀ offset path, (enter l offset path).fault = none) :
    ∀ offset path, (types.unfold enter t offset path).fault = none := by
  induction t using TypeExpr.induction with
  | atom a =>
    intro offset path
    cases hopens _ .refl with
    | scalar h =>
      obtain ⟨a, head, notArray, layout⟩ := h
      rw [unfold_scalar head notArray layout]
      rfl
    | struct head notArray layout =>
      rw [unfold_struct head notArray layout]
      exact henter _ _ _ .refl head notArray layout offset path
  | record fs =>
    cases hopens _ .refl with
    | scalar h =>
      obtain ⟨a, head, -⟩ := h
      cases head
    | struct head => cases head
  | list ts ih =>
    intro offset path
    cases hopens _ .refl with
    | scalar h =>
      obtain ⟨a, head, notArray, layout⟩ := h
      rw [unfold_scalar head notArray layout]
      rfl
    | struct head notArray layout =>
      rw [unfold_struct head notArray layout]
      exact henter _ _ _ .refl head notArray layout offset path
    | @array count element args sized =>
      rw [unfold_array, Emission.fault_forEach_eq_none]
      intro i hi
      have hpos : 0 < count := by
        have hlt := List.mem_range.mp hi
        omega
      obtain ⟨n, hn⟩ := sized hpos
      rw [hn]
      have hpart := @part_element types count element args hpos
      exact ih element (by simp) (fun u hu => hopens u (.head hpart hu))
        (fun u a l hu => henter u a l (.head hpart hu)) _ _
    | bare empty =>
      rw [unfold_bare empty]
      rfl

/-! ## Structures on the way down -/

open Classical in
/-- The names of the structures that a type contains. -/
noncomputable def structs (types : TypeTable) (t : TypeExpr) : Finset String :=
  types.keys.toFinset.filter fun k =>
    k ≠ "array" ∧ ∃ u, types.Contains t u ∧ u.HasHead (.text k)

theorem mem_structs {k : String} : k ∈ types.structs t ↔
    k ∈ types.keys ∧ k ≠ "array" ∧ ∃ u, types.Contains t u ∧ u.HasHead (.text k) := by
  simp only [structs, Finset.mem_filter, List.mem_toFinset]

theorem structs_subset (h : types.Contains t u) : types.structs u ⊆ types.structs t := by
  intro k hk
  obtain ⟨hkey, hne, v, hv, head⟩ := mem_structs.mp hk
  exact mem_structs.mpr ⟨hkey, hne, v, h.trans hv, head⟩

theorem card_structs_le_size : (types.structs t).card ≤ types.size := by
  have hsub : types.structs t ⊆ types.keys.toFinset := fun k hk =>
    List.mem_toFinset.mpr (mem_structs.mp hk).1
  calc (types.structs t).card ≤ types.keys.toFinset.card := Finset.card_le_card hsub
    _ ≤ types.keys.length := List.toFinset_card_le _
    _ = types.size := List.length_map _

/-- A type whose head has a layout contains a structure. -/
theorem exists_mem_structs {a : Atom} {l : Layout} (head : t.HasHead a)
    (notArray : a ≠ .text "array") (layout : types.layout? a = some l) :
    ∃ k, a = .text k ∧ k ∈ types.structs t := by
  cases a with
  | text k =>
    have hkey : k ∈ types.keys := Table.mem_keys_of_find? layout
    exact ⟨k, rfl, mem_structs.mpr ⟨hkey, fun h => notArray (h ▸ rfl), t, .refl, head⟩⟩
  | none => cases layout
  | int n => cases layout

/-- **A structure is not below its members.** So they contain fewer structures than it does. -/
theorem card_structs_lt (hacyclic : types.IsAcyclic t) {a : Atom} {l : Layout} {m : String × Member}
    (head : t.HasHead a) (notArray : a ≠ .text "array") (layout : types.layout? a = some l)
    (mem : m ∈ l.members.entries) : (types.structs m.2.type).card < (types.structs t).card := by
  obtain ⟨k, rfl, hk⟩ := exists_mem_structs head notArray layout
  have hpart := Part.of_hasHead head notArray layout mem
  refine Finset.card_lt_card ⟨structs_subset (.single hpart), fun hsub => ?_⟩
  -- a type below with the same head would have the member below it again
  obtain ⟨-, -, u, hu, head'⟩ := mem_structs.mp (hsub hk)
  exact hacyclic m.2.type (.single hpart) (.tail' hu (Part.of_hasHead head' notArray layout mem))

theorem fault_leavesWithin_eq_none (depth : Nat) :
    ∀ {t : TypeExpr}, types.IsAcyclic t → (∀ u, types.Contains t u → types.Opens u) →
      (types.structs t).card ≤ depth →
      ∀ offset path, (types.leavesWithin depth t offset path).fault = none := by
  induction depth with
  | zero =>
    intro t _ hopens hcard
    refine fault_unfold_eq_none hopens fun u a l hu head notArray layout => ?_
    obtain ⟨k, -, hk⟩ := exists_mem_structs head notArray layout
    have hempty := Finset.card_eq_zero.mp (Nat.le_zero.mp hcard)
    exact absurd (structs_subset hu hk) (hempty ▸ Finset.notMem_empty k)
  | succ depth ih =>
    intro t hacyclic hopens hcard
    refine fault_unfold_eq_none hopens fun u a l hu head notArray layout offset path => ?_
    rw [Emission.fault_forEach_eq_none]
    intro m hm
    have mem := Layout.mem_byOffset.mp hm
    have hmember : types.Contains t m.2.type :=
      hu.tail (Part.of_hasHead head notArray layout mem)
    have hacyclic' : ∀ {v}, types.Contains t v → types.IsAcyclic v :=
      fun hv w hw => hacyclic w (hv.trans hw)
    have hlt := card_structs_lt (hacyclic' hu) head notArray layout mem
    have hle := Finset.card_le_card (structs_subset hu)
    exact ih (hacyclic' hmember) (fun v hv => hopens v (hmember.trans hv)) (by omega) _ _

/-- **Flattening ends without a fault exactly if all that is contained opens**, provided that
nothing contains itself. -/
theorem fault_leaves_eq_none_iff (hacyclic : types.IsAcyclic t) (offset : Int) (path : List Step) :
    (types.leaves t offset path).fault = none ↔ ∀ u, types.Contains t u → types.Opens u :=
  ⟨fun h _ hu => opens_of_contains h hu, fun h =>
    fault_leavesWithin_eq_none types.size hacyclic h card_structs_le_size offset path⟩

/-! ## Computing what is contained -/

/-- The types of the members that the table has for a head. -/
def memberTypes (types : TypeTable) (a : Atom) : List TypeExpr :=
  match types.layout? a with
  | some l => l.members.entries.map (·.2.type)
  | none => []

/-- The parts of a type. -/
def parts (types : TypeTable) : TypeExpr → List TypeExpr
  | .list (.atom a :: args) =>
    if a = .text "array" then
      match args with
      | .atom (.int count) :: element :: _ => if 0 < count then [element] else []
      | _ => []
    else types.memberTypes a
  | .atom (.text s) =>
    match s.toList with
    | c :: _ => types.memberTypes (.text (String.singleton c))
    | [] => []
  | _ => []

theorem mem_parts_of_part (h : types.Part t u) : u ∈ types.parts t := by
  obtain ⟨s, down⟩ := h
  cases down with
  | @member _ a l m head notArray layout mem =>
    have hmem : m.2.type ∈ types.memberTypes a := by
      rw [memberTypes, layout]
      exact List.mem_map_of_mem mem
    cases head with
    | list a args =>
      rw [parts.eq_def]
      simpa only [if_neg notArray] using hmem
    | text h => rwa [parts, h]
  | @index count _ _ i below =>
    have hpos : 0 < count := by omega
    simp [parts, hpos]

/-- Types that have all their parts among them contain nothing else. -/
theorem Contains.mem {ts : List TypeExpr} (hparts : ∀ u ∈ ts, ∀ v ∈ types.parts u, v ∈ ts)
    (ht : t ∈ ts) (h : types.Contains t u) : u ∈ ts := by
  induction h with
  | refl => exact ht
  | tail _ hpart ih => exact hparts _ ih _ (mem_parts_of_part hpart)

/-- Types that stand before all their parts do not contain themselves. -/
theorem isAcyclic_of_before {ts : List TypeExpr}
    (hparts : ∀ u ∈ ts, ∀ v ∈ types.parts u, v ∈ ts ∧ ts.idxOf u < ts.idxOf v) (ht : t ∈ ts) :
    types.IsAcyclic t := by
  intro u hu hcycle
  have hmem : ∀ {v}, types.Contains t v → v ∈ ts := Contains.mem (fun u hu v hv => (hparts u hu v hv).1) ht
  have hbefore : ∀ {v}, Relation.TransGen types.Part u v → ts.idxOf u < ts.idxOf v := by
    intro v hv
    induction hv with
    | single hpart => exact (hparts u (hmem hu) _ (mem_parts_of_part hpart)).2
    | tail hv hpart ih =>
      exact ih.trans (hparts _ (hmem (hu.trans hv.to_reflTransGen)) _ (mem_parts_of_part hpart)).2
  exact lt_irrefl _ (hbefore hcycle)

end Containing

end CpuTrace.TypeTable
