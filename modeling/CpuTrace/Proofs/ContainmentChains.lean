import CpuTrace.Proofs.ByValue
import CpuTrace.Proofs.SlotNames
import Mathlib

/-!
# Chains of containment

Flattening follows a table wherever it leads, and keeps no record of where it has been. Whether it ends
is therefore a matter of the table alone. A **chain** goes from a structure to the type of one of its
members, or from an array that has elements to their type. If a chain never ends, flattening does not
either; if every chain ends, it does, and what can still go wrong is that the elements of an array have
no size.

For types of the usual shape (`TypeExpr.isWellShaped`) these are the only two obstacles, and neither
implies the other: `flattens_iff_no_endless_chain`. One half follows chains down (`acc_of_leavesWithin`):
what is flattened within a depth has no chain that goes on for ever. The other half turns the absence of
endless chains into the absence of cycles (`isAcyclic_of_acc`), from which the depth of the table is
enough.
-/

namespace CpuTrace

/-! ## Shapes -/

/-- Whether a type is a list that starts with a name, and an array has a number for its count and an
element of such a shape. -/
def TypeExpr.isWellShaped : TypeExpr → Bool
  | .list (.atom a :: args) =>
    if a = .text "array" then
      match args with
      | .atom (.int _) :: element :: _ => element.isWellShaped
      | _ => false
    else true
  | _ => false

/-- A type of such a shape is an array, or has another name. -/
theorem TypeExpr.isWellShaped_cases {t : TypeExpr} (h : t.isWellShaped = true) :
    (∃ a args, a ≠ .text "array" ∧ t = .list (.atom a :: args)) ∨
      ∃ count element args, t = .list (.text "array" :: .int count :: element :: args) ∧
        element.isWellShaped = true := by
  rw [isWellShaped.eq_def] at h
  split at h
  · next a args =>
    split at h
    · next ha =>
      subst ha
      split at h
      · next count element args => exact .inr ⟨count, element, args, rfl, h⟩
      · cases h
    · next ha => exact .inl ⟨a, args, ha, rfl⟩
  · cases h

namespace TypeTable

/-- All members of the table have types of such a shape. -/
def IsWellShaped (types : TypeTable) : Prop :=
  ∀ e ∈ types.entries, ∀ m ∈ e.2.members.entries, m.2.type.isWellShaped = true

instance (types : TypeTable) : Decidable types.IsWellShaped :=
  inferInstanceAs
    (Decidable (∀ e ∈ types.entries, ∀ m ∈ e.2.members.entries, m.2.type.isWellShaped = true))

variable {types : TypeTable} {t u : TypeExpr}

/-! ## Parts -/

/-- The parts of a type that is no array are those of the members that its head has in the table. -/
theorem part_iff_of_head {a : Atom} (head : t.HasHead a) (notArray : a ≠ .text "array") :
    types.Part t u ↔ ∃ l, types.layout? a = some l ∧ ∃ m ∈ l.members.entries, m.2.type = u := by
  constructor
  · rintro ⟨s, down⟩
    cases down with
    | @member _ b l m head' _ layout mem => exact ⟨l, head.unique head' ▸ layout, m, mem, rfl⟩
    | index _ =>
      cases head
      exact (notArray rfl).elim
  · rintro ⟨l, layout, m, mem, rfl⟩
    exact .of_hasHead head notArray layout mem

/-- The part of an array is its element, if it has any. -/
theorem part_array_iff {count : Int} {element : TypeExpr} {args : List TypeExpr} :
    types.Part (.list (.text "array" :: .int count :: element :: args)) u ↔
      0 < count ∧ u = element := by
  constructor
  · rintro ⟨s, down⟩
    cases down with
    | member head notArray =>
      cases head
      exact (notArray rfl).elim
    | index below => exact ⟨by omega, rfl⟩
  · rintro ⟨hpos, rfl⟩
    exact part_element hpos

/-- Parts have a usual shape if all members do. -/
theorem IsWellShaped.of_part (htypes : types.IsWellShaped) (ht : t.isWellShaped = true)
    (h : types.Part t u) : u.isWellShaped = true := by
  rcases TypeExpr.isWellShaped_cases ht with ⟨a, args, ha, rfl⟩ | ⟨count, element, args, rfl, helement⟩
  · obtain ⟨l, layout, m, mem, rfl⟩ := (part_iff_of_head (.list a args) ha).mp h
    obtain ⟨name, hentry⟩ := mem_of_layout? layout
    exact htypes _ hentry m mem
  · obtain ⟨-, rfl⟩ := part_array_iff.mp h
    exact helement

theorem IsWellShaped.of_contains (htypes : types.IsWellShaped) (ht : t.isWellShaped = true)
    (h : types.Contains t u) : u.isWellShaped = true := by
  induction h with
  | refl => exact ht
  | tail _ hpart ih => exact htypes.of_part ih hpart

/-! ## Chains -/

/-- A chain of containment from a type goes on for ever. -/
def HasEndlessChain (types : TypeTable) (t : TypeExpr) : Prop :=
  ∃ chain : ℕ → TypeExpr, chain 0 = t ∧ ∀ n, types.Part (chain n) (chain (n + 1))

/-- Every array with elements that a type contains has elements of some size. -/
def HasSizedElements (types : TypeTable) (t : TypeExpr) : Prop :=
  ∀ count element args, types.Contains t (.list (.text "array" :: .int count :: element :: args)) →
    0 < count → ∃ n, types.sizeOf element = .ok n

/-- Every chain from a type ends if the type can be reached from below. -/
theorem acc_iff_not_hasEndlessChain :
    Acc (fun u t => types.Part t u) t ↔ ¬ types.HasEndlessChain t :=
  not_iff_comm.mp not_acc_iff_exists_descending_chain |>.symm

/-- If every chain from a type ends, nothing that it contains contains itself. -/
theorem isAcyclic_of_acc (h : Acc (fun u t => types.Part t u) t) : types.IsAcyclic t := by
  -- the parts come first; then a cycle through the type is one through a part
  induction h with
  | intro t _ ih =>
    intro u hu hcycle
    rcases Relation.ReflTransGen.cases_head hu with rfl | ⟨v, hpart, hv⟩
    · obtain ⟨v, hpart, hback⟩ := Relation.TransGen.head'_iff.mp hcycle
      exact ih v hpart v .refl (.tail' hback hpart)
    · exact ih v hpart u hv hcycle

/-- What unfolds without a fault has no endless chain, if the members that are entered have none. -/
theorem acc_of_unfold {enter : Layout → Int → List Step → Emission Fault Leaf}
    (henter : ∀ l offset path, (enter l offset path).fault = none →
      ∀ m ∈ l.members.entries, Acc (fun u t => types.Part t u) m.2.type) (t : TypeExpr) :
    ∀ offset path, (types.unfold enter t offset path).fault = none →
      Acc (fun u t => types.Part t u) t := by
  induction types.shape t with
  | scalar head notArray layout =>
    intro offset path _
    refine .intro _ fun u hpart => ?_
    obtain ⟨l, hl, -⟩ := (part_iff_of_head head notArray).mp hpart
    rw [layout] at hl
    cases hl
  | struct head notArray layout =>
    intro offset path h
    rw [unfold_struct head notArray layout] at h
    refine .intro _ fun u hpart => ?_
    obtain ⟨l, hl, m, mem, rfl⟩ := (part_iff_of_head head notArray).mp hpart
    obtain rfl := Option.some.inj (layout.symm.trans hl)
    exact henter _ offset path h m mem
  | @array count element args inner ih =>
    intro offset path h
    refine .intro _ fun u hpart => ?_
    obtain ⟨hpos, rfl⟩ := part_array_iff.mp hpart
    -- the first element is unfolded somewhere
    rw [unfold_array, Emission.fault_forEach_eq_none] at h
    have hfirst := h 0 (List.mem_range.mpr (by omega))
    rcases hsize : types.sizeOf u with e | n
    · rw [hsize] at hfirst
      cases hfirst
    · rw [hsize] at hfirst
      exact ih _ _ hfirst
  | bare empty =>
    intro offset path _
    refine .intro _ fun u hpart => ?_
    obtain ⟨s, down⟩ := hpart
    cases down with
    | member head notArray =>
      cases head
      exact (notArray rfl).elim
  | broken fault notArray fails =>
    intro offset path h
    rw [fails] at h
    cases h

/-- **What is flattened has no endless chain**: each structure on the way costs a step of depth. -/
theorem acc_of_leavesWithin (depth : Nat) :
    ∀ {t : TypeExpr} {offset : Int} {path : List Step},
      (types.leavesWithin depth t offset path).fault = none →
        Acc (fun u t => types.Part t u) t := by
  induction depth with
  | zero => exact fun h => acc_of_unfold (fun l offset path hfail => by cases hfail) _ _ _ h
  | succ depth ih =>
    refine fun h => acc_of_unfold (fun l offset path hl m hm => ?_) _ _ _ h
    exact ih (Emission.fault_forEach_eq_none.mp hl m (Layout.mem_byOffset.mpr hm))

/-! ## Elements -/

/-- A type of a usual shape opens if its elements have a size. -/
theorem opens_of_isWellShaped (ht : t.isWellShaped = true) (hsized : types.HasSizedElements t) :
    types.Opens t := by
  rcases TypeExpr.isWellShaped_cases ht with ⟨a, args, ha, rfl⟩ | ⟨count, element, args, rfl, -⟩
  · rcases hlayout : types.layout? a with _ | l
    · exact .scalar ⟨a, .list a args, ha, hlayout⟩
    · exact .struct (.list a args) ha hlayout
  · exact .array fun hpos => hsized count element args .refl hpos

/-- The elements of an array that opens have a size. -/
theorem Opens.exists_size {count : Int} {element : TypeExpr} {args : List TypeExpr}
    (h : types.Opens (.list (.text "array" :: .int count :: element :: args))) (hpos : 0 < count) :
    ∃ n, types.sizeOf element = .ok n := by
  cases h with
  | scalar h =>
    obtain ⟨a, head, notArray, -⟩ := h
    cases head
    exact (notArray rfl).elim
  | struct head notArray =>
    cases head
    exact (notArray rfl).elim
  | array sized => exact sized hpos

/-- A list that opens starts with a name. -/
theorem Opens.exists_atom {head : TypeExpr} {args : List TypeExpr}
    (h : types.Opens (.list (head :: args))) : ∃ a, head = .atom a := by
  cases h with
  | scalar h =>
    obtain ⟨a, head, -⟩ := h
    cases head
    exact ⟨a, rfl⟩
  | struct head =>
    cases head
    exact ⟨_, rfl⟩
  | array => exact ⟨_, rfl⟩
  | bare => exact ⟨_, rfl⟩

/-- An array without elements has no slots, whatever they would be. -/
theorem slots_of_empty_array {count : Int} (h : count ≤ 0) (element : TypeExpr)
    (args : List TypeExpr) (offset : Int) (path : List Step) :
    types.slots (.list (.text "array" :: .int count :: element :: args)) offset path = .nothing := by
  have hzero : count.toNat = 0 := by omega
  have hunfold : ∃ enter, types.leavesWithin types.size = types.unfold enter := by
    cases types.size <;> exact ⟨_, rfl⟩
  obtain ⟨enter, henter⟩ := hunfold
  rw [slots, leaves, henter, unfold_array, hzero, List.range_zero, Emission.forEach_nil,
    Emission.map_nothing]

/-! ## What can be flattened -/

/-- **Flattening ends without a fault exactly on finite containment with sizes.** In a table whose members
have types of the usual shape, take any type of that shape, at any offset and under any path. It is
flattened without a fault if and only if no chain of containment goes on from it for ever, and every array
with elements that it contains has elements of some size. A chain goes on from a pointer only to the
members of a structure that is itself named like a pointer, if the table has one. An array without
elements has no slots, nothing goes on from it, and its element needs no size. What a type has to start
with is a name: a list that starts with another list is never flattened. -/
theorem flattens_iff_no_endless_chain (types : TypeTable) (htypes : types.IsWellShaped) (t : TypeExpr)
    (ht : t.isWellShaped = true) (offset : Int) (path : List Step) :
    ((types.slots t offset path).fault = none ↔
      ¬ types.HasEndlessChain t ∧ types.HasSizedElements t) ∧
    (∀ args u, types.Part (.list (.text "pointer" :: args)) u ↔
      ∃ l, types.find? "pointer" = some l ∧ ∃ m ∈ l.members.entries, m.2.type = u) ∧
    (∀ count element args, count ≤ 0 →
      types.slots (.list (.text "array" :: .int count :: element :: args)) offset path = .nothing ∧
        ∀ u, ¬ types.Part (.list (.text "array" :: .int count :: element :: args)) u) ∧
    ∀ items args, (types.slots (.list (.list items :: args)) offset path).fault ≠ none := by
  refine ⟨?_, fun args u => part_iff_of_head (.list _ args) (by decide),
    fun count element args hcount => ⟨slots_of_empty_array hcount element args offset path, ?_⟩,
    fun items args h => ?_⟩
  · rw [fault_slots, ← acc_iff_not_hasEndlessChain]
    constructor
    · intro h
      have hacc := acc_of_leavesWithin types.size h
      exact ⟨hacc, fun count element args hcontains hpos =>
        (opens_of_contains h hcontains).exists_size hpos⟩
    · rintro ⟨hacc, hsized⟩
      rw [fault_leaves_eq_none_iff (isAcyclic_of_acc hacc)]
      intro u hu
      exact opens_of_isWellShaped (htypes.of_contains ht hu)
        fun count element args h => hsized count element args (hu.trans h)
  · intro u hpart
    obtain ⟨hpos, -⟩ := part_array_iff.mp hpart
    omega
  · rw [fault_slots] at h
    obtain ⟨a, ha⟩ := (opens_of_contains h .refl).exists_atom
    cases ha

/-- A list: a node points to the next one. It has an array of no elements of a type without a size. -/
def nodeTypes : TypeTable := .ofList
  [("Node", ⟨24, .ofList [("next", ⟨0, .pointer (.named "Node")⟩),
    ("data", ⟨8, .array 2 (.named "long")⟩), ("rest", ⟨24, .array 0 (.named "double")⟩)]⟩)]

/-- The same list, with a structure that is named like a pointer and holds a node. -/
def loopedTypes : TypeTable :=
  nodeTypes.insert "pointer" ⟨24, .ofList [("target", ⟨0, .named "Node"⟩)]⟩

theorem nodeTypes_flatten_and_loopedTypes_do_not :
    ((nodeTypes.slots (.named "Node") 0 []).fault = none ∧
      ¬ nodeTypes.HasEndlessChain (.named "Node") ∧ nodeTypes.HasSizedElements (.named "Node")) ∧
    loopedTypes.HasEndlessChain (.named "Node") ∧
      (loopedTypes.slots (.named "Node") 0 []).fault ≠ none := by
  have hnodes : (nodeTypes.slots (.named "Node") 0 []).fault = none := by cbv
  have hflat := (flattens_iff_no_endless_chain nodeTypes (by decide) (.named "Node") (by decide) 0 []).1
  obtain ⟨hloop, hpointer, -⟩ :=
    flattens_iff_no_endless_chain loopedTypes (by decide) (.named "Node") (by decide) 0 []
  -- from a node to the pointer in it, and from there to a node again
  have hnext : loopedTypes.Part (.named "Node") (.pointer (.named "Node")) :=
    (part_iff_of_head (.list _ _) (by decide)).mpr
      ⟨_, rfl, ("next", ⟨0, .pointer (.named "Node")⟩), by decide, rfl⟩
  have hback : loopedTypes.Part (.pointer (.named "Node")) (.named "Node") :=
    (hpointer _ _).mpr ⟨_, rfl, ("target", ⟨0, .named "Node"⟩), by decide, rfl⟩
  have hchain : loopedTypes.HasEndlessChain (.named "Node") := by
    refine ⟨fun n => if n % 2 = 0 then .named "Node" else .pointer (.named "Node"), rfl, fun n => ?_⟩
    rcases Nat.mod_two_eq_zero_or_one n with h | h
    · have hsucc : (n + 1) % 2 = 1 := by omega
      simpa [h, hsucc] using hnext
    · have hsucc : (n + 1) % 2 = 0 := by omega
      simpa [h, hsucc] using hback
  exact ⟨⟨hnodes, hflat.mp hnodes⟩, hchain, fun hfault => (hloop.mp hfault).1 hchain⟩

end TypeTable

end CpuTrace
