import CpuTrace.Proofs.Shape
import Mathlib

/-!
# Leaf paths

What flattening lists, said without flattening. A path goes down one step at a time (`Descends`):
from a structure of the table to one of its members, from an array to one of its elements. A leaf
path is one that ends at a scalar (`IsLeafPath`), and the offset of its leaf is the sum of what its
steps add (`LeafAt`). Paths of one type are ordered by their first difference (`PathBefore`):
members by offset, those at one offset as the table has them, elements by index.

The main statement is `slotLines_eq_leafPaths`: a listing without a fault has one line for each
leaf path, in this order, and the line shows the path and the offset.
-/

namespace CpuTrace

/-! ## Paths, offsets, order -/

/-- One step down from a type. -/
inductive Descends (types : TypeTable) : TypeExpr → Step → TypeExpr → Prop
  /-- to a member of a structure -/
  | member {t : TypeExpr} {a : Atom} {l : Layout} {m : String × Member} (head : t.HasHead a)
    (notArray : a ≠ .text "array") (layout : types.layout? a = some l)
    (mem : m ∈ l.members.entries) : Descends types t (.member m.1) m.2.type
  /-- to an element of an array -/
  | index {count : Int} {element : TypeExpr} {args : List TypeExpr} {i : Nat}
    (below : (i : Int) < count) :
    Descends types (.list (.text "array" :: .int count :: element :: args)) (.index i) element

/-- What a step adds to the offset. -/
inductive Displaces (types : TypeTable) : TypeExpr → Step → Int → Prop
  /-- a member stands at its offset -/
  | member {t : TypeExpr} {a : Atom} {l : Layout} {m : String × Member} (head : t.HasHead a)
    (notArray : a ≠ .text "array") (layout : types.layout? a = some l)
    (mem : m ∈ l.members.entries) : Displaces types t (.member m.1) m.2.offset
  /-- before an element stand as many others as its index says -/
  | index {count stride : Int} {element : TypeExpr} {args : List TypeExpr} {i : Nat}
    (size : types.sizeOf element = .ok stride) :
    Displaces types (.list (.text "array" :: .int count :: element :: args)) (.index i)
      (i * stride)

/-- A type that is neither an array nor in the table. -/
def IsScalar (types : TypeTable) (t : TypeExpr) : Prop :=
  ∃ a, t.HasHead a ∧ a ≠ .text "array" ∧ types.layout? a = none

/-- The paths from a type to its scalars. -/
inductive IsLeafPath (types : TypeTable) : TypeExpr → List Step → Prop
  /-- a scalar is where a path ends -/
  | scalar {t : TypeExpr} (h : IsScalar types t) : IsLeafPath types t []
  /-- a step, and a path from where it leads -/
  | step {t u : TypeExpr} {s : Step} {p : List Step} (down : Descends types t s u)
    (rest : IsLeafPath types u p) : IsLeafPath types t (s :: p)

/-- The leaves of a type: path, offset and the scalar itself. -/
inductive LeafAt (types : TypeTable) : TypeExpr → List Step → Int → TypeExpr → Prop
  /-- a scalar is its own leaf -/
  | scalar {t : TypeExpr} (h : IsScalar types t) : LeafAt types t [] 0 t
  /-- a leaf of what a step leads to -/
  | step {t u v : TypeExpr} {s : Step} {p : List Step} {d offset : Int}
    (down : Descends types t s u) (by_ : Displaces types t s d)
    (rest : LeafAt types u p offset v) : LeafAt types t (s :: p) (d + offset) v

/-- Which of two members of a layout comes first: the one at the lower offset, and at one offset
the one that was declared first. -/
def Layout.Precedes (l : Layout) (m n : String × Member) : Prop :=
  (m ∈ l.members.entries ∧ n ∈ l.members.entries ∧ m.2.offset < n.2.offset) ∨
    ([m, n].Sublist l.members.entries ∧ m.2.offset = n.2.offset)

/-- The lexicographic order of the paths of a type. -/
inductive PathBefore (types : TypeTable) : TypeExpr → List Step → List Step → Prop
  /-- through different members -/
  | member {t : TypeExpr} {a : Atom} {l : Layout} {m n : String × Member} {p q : List Step}
    (head : t.HasHead a) (notArray : a ≠ .text "array") (layout : types.layout? a = some l)
    (h : l.Precedes m n) : PathBefore types t (.member m.1 :: p) (.member n.1 :: q)
  /-- through different elements -/
  | index {t : TypeExpr} {i j : Nat} {p q : List Step} (h : i < j) :
    PathBefore types t (.index i :: p) (.index j :: q)
  /-- after a common step -/
  | under {t u : TypeExpr} {s : Step} {p q : List Step} (down : Descends types t s u)
    (rest : PathBefore types u p q) : PathBefore types t (s :: p) (s :: q)

/-! ## The order of members -/

section Order

variable {α : Type}

/-- Of two different items of a list, one comes before the other. -/
theorem pair_sublist_or {l : List α} {a b : α} (ha : a ∈ l) (hb : b ∈ l) (hne : a ≠ b) :
    [a, b].Sublist l ∨ [b, a].Sublist l := by
  obtain ⟨l₁, l₂, rfl⟩ := List.append_of_mem ha
  rcases List.mem_append.mp hb with h | h
  · right
    exact (List.singleton_sublist.mpr h).append (List.singleton_sublist.mpr (List.mem_cons_self ..))
  · left
    have hb₂ : b ∈ l₂ := (List.mem_cons.mp h).resolve_left hne.symm
    exact ((List.singleton_sublist.mpr hb₂).cons_cons a).trans (List.sublist_append_right l₁ _)

/-- In a list without repetitions, two items do not come before each other. -/
theorem not_pair_sublist_of_nodup {l : List α} {a b : α} (hl : l.Nodup)
    (hab : [a, b].Sublist l) : ¬ [b, a].Sublist l := by
  intro hba
  obtain ⟨l₁, l₂, rfl, ha₁, hb₂⟩ := List.cons_sublist_iff.mp hab
  obtain ⟨-, -, hdisj⟩ := List.nodup_append.mp hl
  have hb : b ∈ l₂ := List.singleton_sublist.mp hb₂
  obtain ⟨k₁, k₂, hk, hb₁, ha₂⟩ := List.cons_sublist_iff.mp hba
  have ha : a ∈ k₂ := List.singleton_sublist.mp ha₂
  obtain ⟨-, -, hdisj'⟩ := List.nodup_append.mp (hk ▸ hl)
  -- either cut lies inside the other's first part, and then one item is on both sides
  rcases List.append_eq_append_iff.mp hk with ⟨m, hk₁, hl₂⟩ | ⟨m, hl₁, hk₂⟩
  · exact hdisj' a (hk₁ ▸ List.mem_append_left m ha₁) a ha rfl
  · exact hdisj b (hl₁ ▸ List.mem_append_left m hb₁) b hb rfl

end Order

namespace Layout

variable {l : Layout}

theorem mem_byOffset {m : String × Member} : m ∈ l.byOffset ↔ m ∈ l.members.entries :=
  List.mem_mergeSort

theorem nodup_entries (l : Layout) : l.members.entries.Nodup :=
  List.Nodup.of_map Prod.fst l.members.distinct

theorem startsBy_trans (a b c : String × Member) (hab : startsBy a b = true)
    (hbc : startsBy b c = true) : startsBy a c = true := by
  simp only [startsBy, decide_eq_true_eq] at *
  omega

/-- Any two members can be compared by their offsets. -/
theorem startsBy_total (a b : String × Member) : (startsBy a b || startsBy b a) = true := by
  simp only [startsBy, Bool.or_eq_true, decide_eq_true_eq]
  omega

/-- **Order of members.** Sorting puts the members in the order of their offsets, and keeps those
at one offset in the order of their declaration. -/
theorem pairwise_byOffset (l : Layout) : l.byOffset.Pairwise l.Precedes := by
  rw [List.pairwise_iff_forall_sublist]
  intro m n hmn
  have hle : m.2.offset ≤ n.2.offset := by
    have hsorted := List.pairwise_mergeSort startsBy_trans startsBy_total l.members.entries
    simpa [startsBy] using List.pairwise_iff_forall_sublist.mp hsorted hmn
  have hm : m ∈ l.members.entries := mem_byOffset.mp (hmn.subset (by simp))
  have hn : n ∈ l.members.entries := mem_byOffset.mp (hmn.subset (by simp))
  rcases Int.lt_or_eq_of_le hle with hlt | heq
  · exact Or.inl ⟨hm, hn, hlt⟩
  · have hnodup : l.byOffset.Nodup := (List.mergeSort_perm _ _).nodup_iff.mpr l.nodup_entries
    have hne : m ≠ n := by
      rintro rfl
      exact not_pair_sublist_of_nodup hnodup hmn hmn
    rcases pair_sublist_or hm hn hne with h | h
    · exact Or.inr ⟨h, heq⟩
    · -- declared the other way round they would have been sorted the other way round
      have hback : startsBy n m = true := by simp [startsBy, heq]
      exact (not_pair_sublist_of_nodup hnodup hmn
        (List.pair_sublist_mergeSort startsBy_trans startsBy_total hback h)).elim

/-- Members of one name are the same. -/
theorem eq_of_fst_eq {m n : String × Member} (hm : m ∈ l.members.entries)
    (hn : n ∈ l.members.entries) (h : m.1 = n.1) : m = n :=
  List.inj_on_of_nodup_map l.members.distinct hm hn h

theorem Precedes.fst_ne {m n : String × Member} (h : l.Precedes m n) : m.1 ≠ n.1 := by
  intro heq
  rcases h with ⟨hm, hn, hlt⟩ | ⟨hsub, -⟩
  · rw [eq_of_fst_eq hm hn heq] at hlt
    exact Int.lt_irrefl _ hlt
  · have hm : m ∈ l.members.entries := hsub.subset (by simp)
    have hn : n ∈ l.members.entries := hsub.subset (by simp)
    rw [eq_of_fst_eq hm hn heq] at hsub
    exact not_pair_sublist_of_nodup l.nodup_entries hsub hsub

end Layout

/-- No path comes before itself. -/
theorem PathBefore.ne {types : TypeTable} {t : TypeExpr} {p q : List Step}
    (h : PathBefore types t p q) : p ≠ q := by
  induction h with
  | member head notArray layout h =>
    intro heq
    exact h.fst_ne (Step.member.inj (List.cons.inj heq).1)
  | index h =>
    intro heq
    exact Nat.ne_of_lt h (Step.index.inj (List.cons.inj heq).1)
  | under down rest ih =>
    intro heq
    exact ih (List.cons.inj heq).2

/-! ## What flattening lists -/

/-- A leaf lies at the end of a leaf path. -/
theorem LeafAt.isLeafPath {types : TypeTable} {t v : TypeExpr} {p : List Step} {offset : Int}
    (h : LeafAt types t p offset v) : IsLeafPath types t p := by
  induction h with
  | scalar h => exact .scalar h
  | step down _ _ ih => exact .step down ih

/-- A list has all leaves of a type, each once, in the order of their paths. -/
structure Lists (types : TypeTable) (t : TypeExpr) (ls : List Leaf) : Prop where
  /-- nothing else is listed -/
  sound : ∀ l ∈ ls, LeafAt types t l.path l.offset l.type
  /-- nothing is left out -/
  complete : ∀ p, IsLeafPath types t p → ∃ l ∈ ls, l.path = p
  /-- the order is that of the paths -/
  ordered : ls.Pairwise fun l k => PathBefore types t l.path k.path

namespace Lists

variable {types : TypeTable} {t : TypeExpr}

/-- A scalar is its own only leaf. -/
theorem scalar {a : Atom} (head : t.HasHead a) (notArray : a ≠ .text "array")
    (layout : types.layout? a = none) : Lists types t [⟨[], 0, t⟩] where
  sound := by
    intro l hl
    rw [List.mem_singleton.mp hl]
    exact .scalar ⟨a, head, notArray, layout⟩
  complete := by
    intro p hp
    cases hp with
    | scalar => exact ⟨_, List.mem_singleton_self _, rfl⟩
    | step down rest =>
      cases down with
      | member head' notArray' layout' mem =>
        rw [head.unique head', layout'] at layout
        cases layout
      | index below => cases head; exact (notArray rfl).elim
  ordered := List.pairwise_singleton ..

/-- The leaves of a structure are those of its members, member by member. -/
theorem struct {a : Atom} {l : Layout} {f : String × Member → List Leaf} (head : t.HasHead a)
    (notArray : a ≠ .text "array") (layout : types.layout? a = some l)
    (hf : ∀ m ∈ l.byOffset, Lists types m.2.type (f m)) :
    Lists types t (l.byOffset.flatMap fun m =>
      (f m).map (Leaf.under m.2.offset [.member m.1])) where
  sound := by
    intro k hk
    obtain ⟨m, hm, hkm⟩ := List.mem_flatMap.mp hk
    obtain ⟨j, hj, rfl⟩ := List.mem_map.mp hkm
    have hmem := Layout.mem_byOffset.mp hm
    exact .step (.member head notArray layout hmem) (.member head notArray layout hmem)
      ((hf m hm).sound j hj)
  complete := by
    intro p hp
    cases hp with
    | scalar h =>
      obtain ⟨b, head', -, layout'⟩ := h
      rw [head'.unique head, layout] at layout'
      cases layout'
    | step down rest =>
      cases down with
      | @member _ _ l' m head' notArray' layout' mem =>
        rw [head'.unique head, layout] at layout'
        obtain rfl := Option.some.inj layout'
        have hm := Layout.mem_byOffset.mpr mem
        obtain ⟨k, hk, rfl⟩ := (hf m hm).complete _ rest
        exact ⟨_, List.mem_flatMap.mpr ⟨m, hm, List.mem_map_of_mem hk⟩, rfl⟩
      | index below => cases head; exact (notArray rfl).elim
  ordered := by
    rw [List.pairwise_flatMap]
    constructor
    · intro m hm
      have hmem := Layout.mem_byOffset.mp hm
      rw [List.pairwise_map]
      exact (hf m hm).ordered.imp fun h => .under (.member head notArray layout hmem) h
    · refine l.pairwise_byOffset.imp fun {m n} hmn => ?_
      intro x hx y hy
      obtain ⟨x, -, rfl⟩ := List.mem_map.mp hx
      obtain ⟨y, -, rfl⟩ := List.mem_map.mp hy
      exact .member head notArray layout hmn

/-- The leaves of an array are those of its element, as often as there are elements. -/
theorem array {count stride : Int} {element : TypeExpr} {args : List TypeExpr} {ls : List Leaf}
    (size : types.sizeOf element = .ok stride) (h : Lists types element ls) :
    Lists types (.list (.text "array" :: .int count :: element :: args))
      ((List.range count.toNat).flatMap fun (i : Nat) =>
        ls.map (Leaf.under (stride * i) [.index i])) where
  sound := by
    intro k hk
    obtain ⟨i, hi, hki⟩ := List.mem_flatMap.mp hk
    obtain ⟨j, hj, rfl⟩ := List.mem_map.mp hki
    have hlt : (i : Int) < count := by
      have := List.mem_range.mp hi
      omega
    have hd : Displaces types (.list (.text "array" :: .int count :: element :: args)) (.index i)
        (stride * i) := by
      rw [Int.mul_comm]
      exact .index size
    exact .step (.index hlt) hd (h.sound j hj)
  complete := by
    intro p hp
    cases hp with
    | scalar h =>
      obtain ⟨a, head, notArray, -⟩ := h
      cases head
      exact (notArray rfl).elim
    | step down rest =>
      cases down with
      | member head notArray _ _ => cases head; exact (notArray rfl).elim
      | @index _ _ _ i below =>
        have hi : i ∈ List.range count.toNat := by
          rw [List.mem_range]
          omega
        obtain ⟨k, hk, rfl⟩ := h.complete _ rest
        exact ⟨_, List.mem_flatMap.mpr ⟨i, hi, List.mem_map_of_mem hk⟩, rfl⟩
  ordered := by
    rw [List.pairwise_flatMap]
    constructor
    · intro i hi
      have hlt : (i : Int) < count := by
        have := List.mem_range.mp hi
        omega
      rw [List.pairwise_map]
      exact h.ordered.imp fun h => .under (.index hlt) h
    · refine List.pairwise_lt_range.imp fun {i j} hij => ?_
      intro x hx y hy
      obtain ⟨x, -, rfl⟩ := List.mem_map.mp hx
      obtain ⟨y, -, rfl⟩ := List.mem_map.mp hy
      exact .index hij

/-- An array of no elements has no leaves, whatever it would be an array of. -/
theorem empty {count : Int} {args : List TypeExpr} (h : ¬ 0 < count) :
    Lists types (.list (.text "array" :: .int count :: args)) [] where
  sound := by simp
  complete := by
    intro p hp
    cases hp with
    | scalar h =>
      obtain ⟨a, head, notArray, -⟩ := h
      cases head
      exact (notArray rfl).elim
    | step down rest =>
      cases down with
      | member head notArray _ _ => cases head; exact (notArray rfl).elim
      | index below => omega
  ordered := .nil

end Lists

namespace TypeTable

variable {types : TypeTable}

/-- Unfolding a type lists its leaves, if entering a layout does. -/
theorem lists_unfold {enter : Layout → Int → List Step → Emission Fault Leaf}
    (hmap : ∀ l offset path, enter l offset path = (enter l 0 []).map (Leaf.under offset path))
    (henter : ∀ {t : TypeExpr} {a : Atom} {l : Layout}, t.HasHead a → a ≠ .text "array" →
      types.layout? a = some l → (enter l 0 []).fault = none →
      Lists types t (enter l 0 []).items.toList)
    (t : TypeExpr) (h : (types.unfold enter t 0 []).fault = none) :
    Lists types t (types.unfold enter t 0 []).items.toList := by
  induction types.shape t with
  | scalar head notArray layout =>
    rw [unfold_scalar head notArray layout]
    exact .scalar head notArray layout
  | struct head notArray layout =>
    rw [unfold_struct head notArray layout] at h ⊢
    exact henter head notArray layout h
  | @array count element args inner ih =>
    rw [unfold_array] at h ⊢
    by_cases hpos : 0 < count
    · -- there is a first element, so the element has a size
      have hparts := Emission.fault_forEach_eq_none.mp h
      have hfirst := hparts 0 (List.mem_range.mpr (by omega))
      rcases hsize : types.sizeOf element with e | stride
      · rw [hsize] at hfirst
        cases hfirst
      · have hmoved : ∀ i : Nat, types.unfold enter element (0 + stride * i) ([] ++ [.index i]) =
            (types.unfold enter element 0 []).map (Leaf.under (stride * i) [.index i]) := by
          intro i
          rw [unfold_eq_map hmap, Int.zero_add, List.nil_append]
        rw [hsize] at h hfirst
        simp only [Emission.bindExcept, hmoved] at h hfirst ⊢
        rw [Emission.items_forEach h]
        simp only [Emission.toList_items_map]
        exact .array hsize (ih hfirst)
    · have hzero : count.toNat = 0 := by omega
      rw [hzero]
      exact .empty hpos
  | bare empty =>
    rw [unfold_bare empty]
    exact .empty empty
  | broken fault notArray fails =>
    rw [fails] at h
    cases h

/-- **Flattening lists the leaves.** If it ends without a fault, it gives every leaf of the type
once, in the order of the paths. -/
theorem lists_leavesWithin (types : TypeTable) (depth : Nat) :
    ∀ t : TypeExpr, (types.leavesWithin depth t 0 []).fault = none →
      Lists types t (types.leavesWithin depth t 0 []).items.toList := by
  induction depth with
  | zero =>
    intro t h
    exact lists_unfold (fun _ _ _ => (Emission.map_fail _ _).symm) (fun _ _ _ h => by cases h) t h
  | succ depth ih =>
    intro t h
    refine lists_unfold (forEach_members_eq_map (types.leavesWithin_eq_map depth))
      (fun {t a l} head notArray layout h => ?_) t h
    · have hmoved : ∀ m : String × Member,
          types.leavesWithin depth m.2.type (0 + m.2.offset) ([] ++ [.member m.1]) =
            (types.leavesWithin depth m.2.type 0 []).map
              (Leaf.under m.2.offset [.member m.1]) := by
        intro m
        rw [leavesWithin_eq_map, Int.zero_add, List.nil_append]
      simp only [hmoved] at h ⊢
      have hparts := Emission.fault_forEach_eq_none.mp h
      rw [Emission.items_forEach h]
      simp only [Emission.toList_items_map]
      exact .struct head notArray layout fun m hm => ih m.2.type (hparts m hm)

end TypeTable

/-! ## Lines -/

/-- A text with every dot right before an opening bracket left out, from the left. -/
inductive DotsDropped : List Char → List Char → Prop
  /-- there is none -/
  | done {cs : List Char} (h : ¬ ['.', '['] <:+: cs) : DotsDropped cs cs
  /-- the first one, and those after it -/
  | next {first cs ds : List Char} (h : ¬ ['.', '['] <:+: first) (rest : DotsDropped cs ds) :
    DotsDropped (first ++ '.' :: '[' :: cs) (first ++ '[' :: ds)

/-- A character before a text changes nothing unless it is a dot that has to go. -/
theorem DotsDropped.cons {c : Char} {cs ds : List Char} (h : DotsDropped cs ds)
    (hc : ¬ ['.', '['] <+: c :: cs) : DotsDropped (c :: cs) (c :: ds) := by
  cases h with
  | done h => exact .done fun hi => (List.infix_cons_iff.mp hi).elim hc h
  | @next first cs ds h rest =>
    refine @DotsDropped.next (c :: first) cs ds (fun hi => ?_) rest
    refine (List.infix_cons_iff.mp hi).elim (fun hp => hc ?_) h
    exact hp.trans (List.prefix_append (c :: first) ('.' :: '[' :: cs))

/-- The dots before an index are dropped, and no others. -/
theorem dotsDropped_dropDots (cs : List Char) : DotsDropped cs (dropDots cs) := by
  fun_induction dropDots cs with
  | case1 cs ih => exact @DotsDropped.next [] cs (dropDots cs) (by simp) ih
  | case2 c cs hc ih =>
    refine ih.cons ?_
    rintro ⟨rest, hrest⟩
    obtain ⟨rfl, rfl⟩ := List.cons.inj hrest
    exact hc _ rfl rfl
  | case3 => exact .done (by simp)

/-- A line shows a leaf of something at an offset, reached by a path: the steps joined by dots,
without those before an index, and the byte offset. -/
def Leaf.ShownAs (offset : Int) (path : List Step) (l : Leaf) (line : String) : Prop :=
  ∃ name, DotsDropped (List.intercalate ['.'] ((path ++ l.path).map Step.chars)) name ∧
    line = "'" ++ String.ofList name ++ "': " ++ toString (offset + l.offset) ++ ","

/-- The line of a slot shows the leaf that it comes from. -/
theorem Leaf.shownAs_line (offset : Int) (path : List Step) (l : Leaf) :
    l.ShownAs offset path (l.under offset path).slot.line :=
  ⟨_, dotsDropped_dropDots _, rfl⟩

/-- **Slots are leaf paths.** If flattening a type ends without a fault, its lines are those of the
leaf paths of the type, each once and in their order, and the line of a path shows the path after
the one that was given and the sum of the offsets on the way. -/
theorem slotLines_eq_leafPaths (types : TypeTable) (t : TypeExpr) (offset : Int)
    (path : List Step) (h : ((types.slots t offset path).map Slot.line).fault = none) :
    ∃ ls : List Leaf, Lists types t ls ∧ (ls.map Leaf.path).Nodup ∧
      List.Forall₂ (Leaf.ShownAs offset path) ls
        ((types.slots t offset path).map Slot.line).items.toList := by
  rw [types.slots_eq_map] at h ⊢
  have hlists : Lists types t (types.leaves t 0 []).items.toList :=
    types.lists_leavesWithin types.size t h
  refine ⟨_, hlists, ?_, ?_⟩
  · exact List.pairwise_map.mpr (hlists.ordered.imp PathBefore.ne)
  · simp only [Emission.toList_items_map, List.map_map]
    exact List.forall₂_map_right_iff.mpr
      (List.forall₂_same.mpr fun l _ => l.shownAs_line offset path)

/-- A structure with an array of unions, an array of nothing at the same offset, and a member that
is declared last and comes first. -/
def recordOfUnions : TypeTable := .ofList
  [("Record", ⟨16, .ofList
      [("tail", ⟨8, .array 2 (.named "Word")⟩), ("none", ⟨8, .array 0 (.named "void")⟩),
        ("head", ⟨0, .named "int"⟩)]⟩),
    ("Word", ⟨4, .ofList [("whole", ⟨0, .named "int"⟩), ("low", ⟨0, .named "short"⟩)]⟩)]

theorem slotLines_recordOfUnions :
    ((recordOfUnions.slots (.named "Record") 32 [.member "r"]).map Slot.line).items.toList =
        ["'r.head': 32,", "'r.tail[0].whole': 40,", "'r.tail[0].low': 40,",
          "'r.tail[1].whole': 44,", "'r.tail[1].low': 44,"] ∧
      ((recordOfUnions.slots (.named "Record") 32 [.member "r"]).map Slot.line).fault = none ∧
      ∃ ls : List Leaf, Lists recordOfUnions (.named "Record") ls ∧ (ls.map Leaf.path).Nodup ∧
        List.Forall₂ (Leaf.ShownAs 32 [.member "r"]) ls
          ((recordOfUnions.slots (.named "Record") 32 [.member "r"]).map Slot.line).items.toList :=
  have h : ((recordOfUnions.slots (.named "Record") 32 [.member "r"]).map Slot.line).fault =
      none := by cbv
  ⟨by cbv, h, slotLines_eq_leafPaths recordOfUnions (.named "Record") 32 [.member "r"] h⟩

end CpuTrace
