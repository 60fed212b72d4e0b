import CpuTrace.Proofs.Shape
import CpuTrace.Proofs.Unfolding
import Mathlib

/-!
# The depth of flattening

`TypeTable.leaves` enters at most as many structures inside each other as the table has, and takes
a type that goes deeper for an endless one. This module shows that the bound is no restriction: the
leaves that *some* depth gives without running out of it are the leaves of the type
(`TypeTable.leaves_eq_of_settled`).

The argument is that of references. An emission is **settled** (`Emission.Settled`) unless it ran
out of depth. More depth does not change what is settled (`enterWithin_mono`), and a depth as large
as the table settles every structure that any depth settles, by `stabilizes`.
-/

namespace CpuTrace

/-! ## Settled emissions -/

namespace Emission

variable {α β : Type}

/-- The emission did not run out of depth. -/
def Settled (x : Emission Fault α) : Prop := x.fault ≠ some .endless

theorem not_settled_fail : ¬ (fail .endless : Emission Fault α).Settled := fun h => h rfl

theorem settled_map {γ : Type} {g : α → γ} {x : Emission Fault α} :
    (x.map g).Settled ↔ x.Settled := Iff.rfl

/-- If the parts of a settled run that are settled themselves stay the same, so does the run. -/
theorem forEach_eq_of_settled {bs : List β} {f g : β → Emission Fault α}
    (h : ∀ b ∈ bs, (f b).Settled → g b = f b) (hsettled : (forEach bs f).Settled) :
    forEach bs g = forEach bs f := by
  induction bs with
  | nil => rfl
  | cons b bs ih =>
    obtain ⟨hb, hbs⟩ := List.forall_mem_cons.mp h
    rw [forEach_cons] at hsettled
    rw [forEach_cons, forEach_cons]
    rcases hfault : (f b).fault with _ | e
    · have hfirst : (f b).Settled := fun he => by
        rw [hfault] at he
        cases he
      rw [andThen_of_none hfault] at hsettled
      rw [hb hfirst, ih hbs hsettled]
    · -- the run ends with its first part
      rw [andThen_of_some hfault] at hsettled ⊢
      rw [hb hsettled, andThen_of_some hfault]

end Emission

namespace TypeTable

variable {types : TypeTable}

/-! ## Entering a structure -/

/-- The leaves of the members of a layout, entering at most `depth` structures with this one. -/
def enterWithin (types : TypeTable) : Nat → Layout → Int → List Step → Emission Fault Leaf
  | 0 => fun _ _ _ => .fail .endless
  | depth + 1 => fun l offset path =>
    .forEach l.byOffset fun m =>
      types.leavesWithin depth m.2.type (offset + m.2.offset) (path ++ [.member m.1])

theorem leavesWithin_eq_unfold (types : TypeTable) (depth : Nat) :
    types.leavesWithin depth = types.unfold (types.enterWithin depth) := by
  cases depth <;> rfl

/-- Whether the depth is enough does not depend on where a layout stands. -/
theorem settled_enterWithin {depth : Nat} {l : Layout} {offset : Int} {path : List Step} :
    (types.enterWithin depth l offset path).Settled ↔ (types.enterWithin depth l 0 []).Settled := by
  cases depth with
  | zero => exact Iff.rfl
  | succ depth =>
    have hmoved : types.enterWithin (depth + 1) l offset path =
        (types.enterWithin (depth + 1) l 0 []).map (Leaf.under offset path) :=
      forEach_members_eq_map (types.leavesWithin_eq_map depth) l offset path
    rw [hmoved, Emission.settled_map]

/-- If entering the layouts of the table gives the same wherever it is settled, so does unfolding
a type. -/
theorem unfold_eq_of_settled {enter enter' : Layout → Int → List Step → Emission Fault Leaf}
    (h : ∀ name l, types.find? name = some l → ∀ offset path, (enter l offset path).Settled →
      enter' l offset path = enter l offset path) (t : TypeExpr) :
    ∀ offset path, (types.unfold enter t offset path).Settled →
      types.unfold enter' t offset path = types.unfold enter t offset path := by
  induction types.shape t with
  | scalar head notArray layout =>
    intro offset path _
    rw [unfold_scalar head notArray layout, unfold_scalar head notArray layout]
  | @struct t a l head notArray layout =>
    intro offset path hsettled
    rw [unfold_struct head notArray layout] at hsettled
    rw [unfold_struct head notArray layout, unfold_struct head notArray layout]
    cases a with
    | text name => exact h name l layout offset path hsettled
    | none => cases layout
    | int n => cases layout
  | @array count element args inner ih =>
    intro offset path hsettled
    rw [unfold_array] at hsettled
    rw [unfold_array, unfold_array]
    refine Emission.forEach_eq_of_settled (fun i _ hi => ?_) hsettled
    cases hsize : types.sizeOf element with
    | error e => rfl
    | ok stride =>
      rw [hsize] at hi
      exact ih _ _ hi
  | bare empty =>
    intro offset path _
    rw [unfold_bare empty, unfold_bare empty]
  | broken fault notArray fails =>
    intro offset path _
    rw [fails, fails]

/-! ## More depth -/

/-- One more step of depth does not change what is settled. -/
theorem enterWithin_succ {depth : Nat} :
    ∀ {l : Layout} {offset : Int} {path : List Step},
      (types.enterWithin depth l offset path).Settled →
        types.enterWithin (depth + 1) l offset path = types.enterWithin depth l offset path := by
  induction depth with
  | zero => intro l offset path h; exact (Emission.not_settled_fail h).elim
  | succ depth ih =>
    intro l offset path h
    refine Emission.forEach_eq_of_settled (fun m _ hm => ?_) h
    rw [leavesWithin_eq_unfold] at hm ⊢
    rw [leavesWithin_eq_unfold]
    exact unfold_eq_of_settled (fun _ l _ offset path hl => ih hl) _ _ _ hm

theorem enterWithin_mono {d d' : Nat} (hle : d ≤ d') {l : Layout} {offset : Int} {path : List Step}
    (h : (types.enterWithin d l offset path).Settled) :
    types.enterWithin d' l offset path = types.enterWithin d l offset path := by
  induction hle with
  | refl => rfl
  | step _ ih => rw [enterWithin_succ (by rw [ih]; exact h), ih]

/-- Two depths that are both enough give the same. -/
theorem enterWithin_eq {d d' : Nat} {l : Layout} {offset : Int} {path : List Step}
    (h : (types.enterWithin d l offset path).Settled)
    (h' : (types.enterWithin d' l offset path).Settled) :
    types.enterWithin d' l offset path = types.enterWithin d l offset path := by
  rw [← enterWithin_mono (Nat.le_max_left d d') h, ← enterWithin_mono (Nat.le_max_right d d') h']

/-! ## Enough depth -/

/-- A depth is enough for the structure of a name, if there is one. -/
def Settles (types : TypeTable) (depth : Nat) (name : String) : Prop :=
  ∀ l, types.find? name = some l → (types.enterWithin depth l 0 []).Settled

/-- A depth of as many steps as the table has structures is enough wherever any depth is. -/
theorem settles_size {depth : Nat} {name : String} (hname : name ∈ types.keys)
    (h : types.Settles depth name) : types.Settles types.size name := by
  have hkeys : types.keys.length = types.size := List.length_map ..
  rw [← hkeys]
  refine stabilizes types.keys types.Settles ?_ ?_ name hname depth h
  · intro d name h l hl
    rw [enterWithin_succ (h l hl)]
    exact h l hl
  · -- if a step of depth settles no new structure, its members are settled one step earlier
    intro d hstable name _ h l hl
    have hmembers : types.enterWithin (d + 1) l 0 [] = types.enterWithin (d + 2) l 0 [] := by
      refine Emission.forEach_eq_of_settled (fun m _ hm => ?_) (h l hl)
      rw [leavesWithin_eq_unfold] at hm ⊢
      rw [leavesWithin_eq_unfold]
      refine unfold_eq_of_settled (fun name' l' hl' offset path hsettled => ?_) _ _ _ hm
      have hlater : types.Settles (d + 1) name' := by
        intro l'' hl''
        obtain rfl : l' = l'' := Option.some.inj (hl'.symm.trans hl'')
        exact settled_enterWithin.mp hsettled
      have hearlier := hstable name' (Table.mem_keys_of_find? hl') hlater
      exact enterWithin_eq hsettled (settled_enterWithin.mpr (hearlier l' hl'))
    rw [hmembers]
    exact h l hl

/-- **Enough depth.** The leaves that some depth gives without running out of it are the leaves of
the type. -/
theorem leaves_eq_of_settled {depth : Nat} {t : TypeExpr} {offset : Int} {path : List Step}
    (h : (types.leavesWithin depth t offset path).Settled) :
    types.leaves t offset path = types.leavesWithin depth t offset path := by
  rw [leaves, leavesWithin_eq_unfold, leavesWithin_eq_unfold]
  rw [leavesWithin_eq_unfold] at h
  refine unfold_eq_of_settled (fun name l hl offset path hsettled => ?_) t offset path h
  have hdepth : types.Settles depth name := by
    intro l' hl'
    obtain rfl : l = l' := Option.some.inj (hl.symm.trans hl')
    exact settled_enterWithin.mp hsettled
  have hkey : name ∈ types.keys := Table.mem_keys_of_find? hl
  exact enterWithin_eq hsettled (settled_enterWithin.mpr (settles_size hkey hdepth l hl))

end TypeTable

end CpuTrace
