import CpuTrace.Emission
import Mathlib

/-!
# Laws of emissions

Emissions are run by accumulators (`Emission.forEachAfter`, `Emission.upToAfter`), so that a long
run needs no stack. The proofs want the recursive view: the part of the first element, then the
rest (`forEach_cons`). This module gives that view, and what follows from it:

* **sequencing** is associative, and nothing is its unit (`andThen_assoc`);
* **a run without a fault** consists of parts without faults, and its items are theirs, one part
  after the other (`fault_forEach_eq_none`, `items_forEach`);
* **relabelling** the items commutes with every way of sequencing (`map_forEach`).
-/

namespace CpuTrace.Emission

universe u v w

variable {ε : Type u} {α : Type v} {β : Type w} {γ : Type v}

/-- Emissions are determined by their items and their fault. -/
theorem ext {x y : Emission ε α} (hi : x.items = y.items) (hf : x.fault = y.fault) : x = y := by
  cases x; cases y
  subst hi; subst hf
  rfl

/-! ## Sequencing -/

/-- After a fault nothing is emitted. -/
theorem andThen_of_some {x : Emission ε α} {y : Unit → Emission ε α} {e : ε}
    (h : x.fault = some e) : x.andThen y = x := by
  simp only [andThen, h]

/-- Without one, the items of both are there, and the fault of the second. -/
theorem andThen_of_none {x : Emission ε α} {y : Unit → Emission ε α} (h : x.fault = none) :
    x.andThen y = ⟨x.items ++ (y ()).items, (y ()).fault⟩ := by
  simp only [andThen, h]

@[simp] theorem nothing_andThen (y : Unit → Emission ε α) : nothing.andThen y = y () := by
  rw [andThen_of_none rfl]
  exact ext (by simp [nothing]) rfl

@[simp] theorem andThen_nothing (x : Emission ε α) : x.andThen (fun _ => nothing) = x := by
  rcases h : x.fault with _ | e
  · rw [andThen_of_none h]
    exact ext (by simp [nothing]) h.symm
  · exact andThen_of_some h

/-- Emissions can be regrouped: only the first fault ends them. -/
theorem andThen_assoc (x : Emission ε α) (y z : Unit → Emission ε α) :
    (x.andThen y).andThen z = x.andThen fun _ => (y ()).andThen z := by
  rcases hx : x.fault with _ | e
  · rw [andThen_of_none hx, andThen_of_none hx]
    rcases hy : (y ()).fault with _ | e
    · rw [andThen_of_none (by exact rfl), andThen_of_none hy]
      exact ext (Array.append_assoc ..) rfl
    · rw [andThen_of_some (by exact rfl), andThen_of_some hy, hy]
  · rw [andThen_of_some hx, andThen_of_some hx, andThen_of_some hx]

/-- A sequence has no fault exactly if neither part has one. -/
theorem fault_andThen_eq_none {x : Emission ε α} {y : Unit → Emission ε α} :
    (x.andThen y).fault = none ↔ x.fault = none ∧ (y ()).fault = none := by
  rcases h : x.fault with _ | e
  · rw [andThen_of_none h]
    simp
  · rw [andThen_of_some h, h]
    simp

/-! ## Runs over a list -/

@[simp] theorem forEach_nil (f : β → Emission ε α) : forEach [] f = nothing := rfl

/-- What comes before the accumulator of a run comes before the run. -/
theorem forEachAfter_andThen (f : β → Emission ε α) (bs : List β) :
    ∀ (x : Emission ε α) (y : Unit → Emission ε α),
      forEachAfter (x.andThen y) f bs = x.andThen fun _ => forEachAfter (y ()) f bs := by
  induction bs with
  | nil => intro x y; rfl
  | cons b bs ih =>
    intro x y
    rcases hx : x.fault with _ | e
    · rcases hy : (y ()).fault with _ | e
      · have hxy : (x.andThen y).fault = none := fault_andThen_eq_none.mpr ⟨hx, hy⟩
        simp only [forEachAfter, hxy, hy]
        rw [andThen_assoc, ih]
      · have hxy : (x.andThen y).fault = some e := by rw [andThen_of_none hx, hy]
        simp only [forEachAfter, hxy, hy]
    · rw [andThen_of_some hx, andThen_of_some hx]
      simp only [forEachAfter, hx]

/-- A run gives what its first part gives, and then the rest. -/
@[simp] theorem forEach_cons (b : β) (bs : List β) (f : β → Emission ε α) :
    forEach (b :: bs) f = (f b).andThen fun _ => forEach bs f := by
  have hstep : forEach (b :: bs) f = forEachAfter (f b) f bs :=
    congrArg (fun z => forEachAfter z f bs) (nothing_andThen fun _ => f b)
  rw [hstep, ← andThen_nothing (f b), forEachAfter_andThen, andThen_nothing]
  rfl

/-- A counted run is one over the numbers it counts. -/
theorem upToAfter_eq (f : Nat → Emission ε α) (count : Nat) :
    ∀ (start : Nat) (x : Emission ε α),
      upToAfter f count start x = forEachAfter x f (List.range' start count) := by
  induction count with
  | zero => intro start x; rfl
  | succ count ih =>
    intro start x
    rw [upToAfter, List.range'_succ, forEachAfter]
    rcases h : x.fault with _ | e
    · exact ih _ _
    · rfl

/-- Counting up is a run over a range. -/
theorem upTo_eq_forEach (count : Nat) (f : Nat → Emission ε α) :
    upTo count f = forEach (List.range count) f := by
  rw [upTo, upToAfter_eq, List.range_eq_range']
  rfl

/-- **A run ends without a fault** exactly if every part does. -/
theorem fault_forEach_eq_none {bs : List β} {f : β → Emission ε α} :
    (forEach bs f).fault = none ↔ ∀ b ∈ bs, (f b).fault = none := by
  induction bs with
  | nil => simp [nothing]
  | cons b bs ih => rw [forEach_cons, fault_andThen_eq_none, ih, List.forall_mem_cons]

/-- **Items of a run.** Without a fault, the items are those of the parts, in order. -/
theorem items_forEach {bs : List β} {f : β → Emission ε α} (h : (forEach bs f).fault = none) :
    (forEach bs f).items.toList = bs.flatMap fun b => (f b).items.toList := by
  induction bs with
  | nil => rfl
  | cons b bs ih =>
    rw [forEach_cons] at h ⊢
    obtain ⟨hb, hbs⟩ := fault_andThen_eq_none.mp h
    rw [andThen_of_none hb, Array.toList_append, ih hbs, List.flatMap_cons]

/-- A run whose parts are the same gives the same. -/
theorem forEach_congr {bs : List β} {f g : β → Emission ε α} (h : ∀ b ∈ bs, f b = g b) :
    forEach bs f = forEach bs g := by
  induction bs with
  | nil => rfl
  | cons b bs ih =>
    obtain ⟨hb, hbs⟩ := List.forall_mem_cons.mp h
    rw [forEach_cons, forEach_cons, hb, ih hbs]

/-! ## Relabelling -/

@[simp] theorem fault_map (g : α → γ) (x : Emission ε α) : (x.map g).fault = x.fault := rfl

@[simp] theorem toList_items_map (g : α → γ) (x : Emission ε α) :
    (x.map g).items.toList = x.items.toList.map g := Array.toList_map

@[simp] theorem map_fail (g : α → γ) (e : ε) :
    (fail e : Emission ε α).map g = fail e := ext (by simp [map, fail]) rfl

@[simp] theorem map_nothing (g : α → γ) :
    (nothing : Emission ε α).map g = nothing := ext (by simp [map, nothing]) rfl

@[simp] theorem map_one (g : α → γ) (a : α) : (one a : Emission ε α).map g = one (g a) :=
  ext (by simp [map, one]) rfl

theorem map_map {δ : Type v} (g : α → γ) (k : γ → δ) (x : Emission ε α) :
    (x.map g).map k = x.map fun a => k (g a) :=
  ext (by simp [map, Function.comp_def]) rfl

/-- Changing the items of two emissions changes those of each. -/
theorem map_andThen (g : α → γ) (x : Emission ε α) (y : Unit → Emission ε α) :
    (x.andThen y).map g = (x.map g).andThen fun _ => (y ()).map g := by
  rcases h : x.fault with _ | e
  · rw [andThen_of_none h, andThen_of_none (by exact h)]
    exact ext Array.map_append rfl
  · rw [andThen_of_some h, andThen_of_some (by exact h)]

/-- Changing the items of a run changes those of each part. -/
theorem map_forEach (g : α → γ) (bs : List β) (f : β → Emission ε α) :
    (forEach bs f).map g = forEach bs fun b => (f b).map g := by
  induction bs with
  | nil => simp
  | cons b bs ih => rw [forEach_cons, forEach_cons, map_andThen, ih]

theorem map_bindExcept (g : α → γ) (x : Except ε β) (f : β → Emission ε α) :
    (bindExcept x f).map g = bindExcept x fun b => (f b).map g := by
  cases x with
  | error e => exact map_fail g e
  | ok b => rfl

end CpuTrace.Emission
