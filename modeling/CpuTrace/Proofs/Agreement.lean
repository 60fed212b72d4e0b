import CpuTrace.Proofs.Depth
import Mathlib

/-!
# What flattening asks of a table

Flattening a type asks the table for some names and for no others: `Needs types t name` has them.
It asks for the head of every type it comes by, and for the size of the elements of every array. It
does not look behind pointers, so two types that differ only there are **alike** (`TypeExpr.Alike`).

Two tables that have alike layouts under the names that one of them is asked for give the same
slots (`TypeTable.sameOutcome_slots`), unless the type is endless in both. The rest of a table
plays no part, not even through its size, which bounds the depth.
-/

namespace CpuTrace

/-! ## Alike types -/

/-- The same type, but for what pointers point to. -/
inductive TypeExpr.Alike : TypeExpr → TypeExpr → Prop
  /-- the same type -/
  | refl (t : TypeExpr) : Alike t t
  /-- two pointers -/
  | pointer (s t : TypeExpr) : Alike (.pointer s) (.pointer t)
  /-- as many elements, of alike types -/
  | array (count : Int) {s t : TypeExpr} (element : Alike s t) :
    Alike (.array count s) (.array count t)

/-- The same member, but for what pointers point to. -/
structure Member.Alike (m n : String × Member) : Prop where
  /-- the names -/
  name : m.1 = n.1
  /-- the offsets -/
  offset : m.2.offset = n.2.offset
  /-- the types -/
  type : m.2.type.Alike n.2.type

/-- The same layout, but for what pointers point to. -/
structure Layout.Alike (l l' : Layout) : Prop where
  /-- the sizes -/
  size : l.size = l'.size
  /-- the members, in their order -/
  members : List.Forall₂ Member.Alike l.members.entries l'.members.entries

/-- Alike types have the same head. -/
theorem TypeExpr.Alike.hasHead {t t' : TypeExpr} {a : Atom} (h : t.Alike t') (head : t.HasHead a) :
    t'.HasHead a := by
  cases h with
  | refl => exact head
  | pointer s t =>
    cases head
    exact .list _ _
  | array count element =>
    cases head
    exact .list _ _

/-- What is alike to a list with a head has that head. -/
theorem TypeExpr.Alike.exists_args {a : Atom} {args : List TypeExpr} {t' : TypeExpr}
    (h : (TypeExpr.list (.atom a :: args)).Alike t') : ∃ args', t' = .list (.atom a :: args') := by
  cases h with
  | refl => exact ⟨args, rfl⟩
  | pointer s t => exact ⟨_, rfl⟩
  | array count h => exact ⟨_, rfl⟩

/-- What is alike to an array is an array of alike elements. -/
theorem TypeExpr.Alike.of_array {count element t' : TypeExpr} {args : List TypeExpr}
    (h : (TypeExpr.list (.text "array" :: count :: element :: args)).Alike t') :
    ∃ element', t' = .list (.text "array" :: count :: element' :: args) ∧
      element.Alike element' := by
  generalize ht : TypeExpr.list (.text "array" :: count :: element :: args) = t at h
  cases h with
  | refl => exact ⟨element, ht.symm, .refl _⟩
  | pointer u v => simp at ht
  | array n h =>
    obtain ⟨rfl, rfl, rfl⟩ : count = .int n ∧ element = _ ∧ args = [] := by simpa using ht
    exact ⟨_, rfl, h⟩

/-! ## The order of alike members -/

/-- Sorting keeps a relation between two lists, if related items compare alike. -/
theorem forall₂_mergeSort {α : Type} {R : α → α → Prop} {le : α → α → Bool}
    (hle : ∀ a a' b b', R a a' → R b b' → le a b = le a' b') {xs ys : List α}
    (h : List.Forall₂ R xs ys) : List.Forall₂ R (xs.mergeSort le) (ys.mergeSort le) := by
  -- both lists are sorted as the list of pairs is
  have hlength := h.length_eq
  have hfst : (xs.zip ys).map Prod.fst = xs := List.map_fst_zip hlength.le
  have hsnd : (xs.zip ys).map Prod.snd = ys := List.map_snd_zip hlength.ge
  have hpairs : ∀ p ∈ xs.zip ys, R p.1 p.2 := fun p hp => (List.forall₂_iff_zip.mp h).2 hp
  have hxs : ((xs.zip ys).mergeSort fun p q => le p.1 q.1).map Prod.fst = xs.mergeSort le := by
    rw [List.map_mergeSort (s := le) (f := Prod.fst) fun _ _ _ _ => rfl, hfst]
  have hys : ((xs.zip ys).mergeSort fun p q => le p.1 q.1).map Prod.snd = ys.mergeSort le := by
    rw [List.map_mergeSort (s := le) (f := Prod.snd)
      fun p hp q hq => hle _ _ _ _ (hpairs p hp) (hpairs q hq), hsnd]
  rw [← hxs, ← hys, List.forall₂_map_left_iff, List.forall₂_map_right_iff, List.forall₂_same]
  intro p hp
  exact hpairs p (List.mem_mergeSort.mp hp)

theorem Layout.Alike.byOffset {l l' : Layout} (h : l.Alike l') :
    List.Forall₂ Member.Alike l.byOffset l'.byOffset := by
  refine forall₂_mergeSort (fun a a' b b' ha hb => ?_) h.members
  rw [Layout.startsBy, Layout.startsBy, ha.offset, hb.offset]

namespace TypeTable

/-! ## Names that are asked for -/

/-- **The names that flattening a type asks a table for.** -/
inductive Needs (types : TypeTable) : TypeExpr → String → Prop
  /-- a type by name -/
  | named (name : String) : Needs types (.named name) name
  /-- the head of a type that is no array -/
  | head {t : TypeExpr} {name : String} (head : t.HasHead (.text name)) (notArray : name ≠ "array") :
    Needs types t name
  /-- the head of an element, for its size -/
  | stride {count element : TypeExpr} {args : List TypeExpr} {name : String}
    (head : element.HasHead (.text name)) :
    Needs types (.list (.text "array" :: count :: element :: args)) name
  /-- what an element needs -/
  | element {count element : TypeExpr} {args : List TypeExpr} {name : String}
    (needs : Needs types element name) :
    Needs types (.list (.text "array" :: count :: element :: args)) name
  /-- what a member of a structure needs -/
  | member {t : TypeExpr} {owner name : String} {l : Layout} {m : String × Member}
    (head : t.HasHead (.text owner)) (notArray : owner ≠ "array")
    (layout : types.find? owner = some l) (mem : m ∈ l.members.entries)
    (needs : Needs types m.2.type name) : Needs types t name

/-- What a member of a structure that is needed needs. A layout named like an array does not count:
it is asked for its size only. -/
theorem Needs.trans {types : TypeTable} {t : TypeExpr} {owner name : String} {l : Layout}
    {m : String × Member} (h : types.Needs t owner) (notArray : owner ≠ "array")
    (layout : types.find? owner = some l) (mem : m ∈ l.members.entries)
    (needs : types.Needs m.2.type name) : types.Needs t name := by
  induction h with
  | named owner => exact .member (.list _ _) notArray layout mem needs
  | head head _ => exact .member head notArray layout mem needs
  | stride head => exact .element (.member head notArray layout mem needs)
  | element _ ih => exact .element (ih notArray layout)
  | member head' notArray' layout' mem' _ ih =>
    exact .member head' notArray' layout' mem' (ih notArray layout)

/-- The tables have layouts of one size under a name, or none. The layouts are alike, unless they are
never entered because an array has their name. -/
def Agree (types types' : TypeTable) (name : String) : Prop :=
  Option.Rel (fun l l' => l.size = l'.size ∧ (name ≠ "array" → l.Alike l')) (types.find? name)
    (types'.find? name)

section Agreement

variable {types types' : TypeTable}

theorem Agree.find?_none {name : String} (h : types.Agree types' name)
    (hnone : types.find? name = none) : types'.find? name = none := by
  rw [Agree, hnone] at h
  cases hfind : types'.find? name with
  | none => rfl
  | some l => rw [hfind] at h; cases h

theorem Agree.find?_some {name : String} (h : types.Agree types' name) {l : Layout}
    (hsome : types.find? name = some l) :
    ∃ l', types'.find? name = some l' ∧ l.size = l'.size ∧ (name ≠ "array" → l.Alike l') := by
  rw [Agree, hsome] at h
  cases hfind : types'.find? name with
  | none => rw [hfind] at h; cases h
  | some l' =>
    rw [hfind] at h
    cases h with
    | some h => exact ⟨l', rfl, h⟩

theorem Agree.layout_none {a : Atom} (h : ∀ name, a = .text name → types.Agree types' name)
    (hnone : types.layout? a = none) : types'.layout? a = none := by
  cases a with
  | none => rfl
  | int n => rfl
  | text name => exact (h name rfl).find?_none hnone

theorem Agree.layout_some {a : Atom} (h : ∀ name, a = .text name → types.Agree types' name)
    {l : Layout} (hsome : types.layout? a = some l) :
    ∃ l', types'.layout? a = some l' ∧ l.size = l'.size ∧ (a ≠ .text "array" → l.Alike l') := by
  cases a with
  | none => cases hsome
  | int n => cases hsome
  | text name =>
    obtain ⟨l', hl', hsize, halike⟩ := (h name rfl).find?_some hsome
    exact ⟨l', hl', hsize, fun ha => halike fun hname => ha (congrArg Atom.text hname)⟩

/-! ## Sizes -/

/-- Alike types have the same measure, if the tables agree on the heads on the way. -/
theorem measure_eq_of_agree {t t' : TypeExpr} (ht : t.Alike t')
    (hhead : ∀ name, t.HasHead (.text name) → types.Agree types' name)
    (hneeds : ∀ name, types.Needs t name → types.Agree types' name) :
    types.measure t = types'.measure t' := by
  fun_induction measure types t generalizing t' with
  | case1 => cases ht; rfl
  | case2 => cases ht; rfl
  | case3 => cases ht; rfl
  | case4 a args l hl =>
    -- a layout goes first, also for an array
    obtain ⟨l', hl', hsize, -⟩ :=
      Agree.layout_some (fun name hname => hhead name (hname ▸ .list a args)) hl
    obtain ⟨args', rfl⟩ := ht.exists_args
    rw [measure.eq_def]
    simp only [hl', hsize]
  | case5 count element args e he hl ih =>
    obtain ⟨element', rfl, helement⟩ := ht.of_array
    have hl' := Agree.layout_none (fun name hname => hhead name (hname ▸ .list _ _)) hl
    rw [measure, hl', ← ih helement (fun name h => hneeds name (.stride h))
      (fun name h => hneeds name (.element h)), he]
    rfl
  | case6 count element args n hn hl ih =>
    obtain ⟨element', rfl, helement⟩ := ht.of_array
    have hl' := Agree.layout_none (fun name hname => hhead name (hname ▸ .list _ _)) hl
    rw [measure, hl', ← ih helement (fun name h => hneeds name (.stride h))
      (fun name h => hneeds name (.element h)), hn]
    rfl
  | case7 args hargs hl =>
    have hl' := Agree.layout_none (fun name hname => hhead name (hname ▸ .list _ _)) hl
    generalize hs : TypeExpr.list (.text "array" :: args) = s at ht
    cases ht with
    | refl =>
      rw [← hs, measure.eq_def]
      simp only [hl']
      rfl
    | pointer u v => simp at hs
    | array n h => exact (hargs _ _ _ (List.cons.inj (TypeExpr.list.inj hs)).2).elim
  | case8 a args hl ha =>
    have hl' := Agree.layout_none (fun name hname => hhead name (hname ▸ .list a args)) hl
    obtain ⟨args', rfl⟩ := ht.exists_args
    rw [measure.eq_def]
    simp only [hl', if_neg ha]
  | case9 s hs => cases ht; simp only [measure, hs]
  | case10 s c cs hs l hl =>
    obtain ⟨l', hl', hsize, -⟩ :=
      Agree.layout_some (fun name hname => hhead name (hname ▸ .text hs)) hl
    cases ht
    simp only [measure, hs, hl', hsize]
  | case11 s c cs hs hl =>
    have hl' := Agree.layout_none (fun name hname => hhead name (hname ▸ .text hs)) hl
    cases ht
    simp only [measure, hs, hl']
  | case12 a ha =>
    cases ht
    rw [measure.eq_def]
    cases a with
    | text s => exact (ha s rfl).elim
    | none => rfl
    | int n => rfl
  | case13 => cases ht; rfl

theorem sizeOf_eq_of_agree {t t' : TypeExpr} (ht : t.Alike t')
    (hhead : ∀ name, t.HasHead (.text name) → types.Agree types' name)
    (hneeds : ∀ name, types.Needs t name → types.Agree types' name) :
    types.sizeOf t = types'.sizeOf t' := by
  rw [sizeOf, sizeOf, measure_eq_of_agree ht hhead hneeds]

/-! ## Slots -/

/-- Runs over related lists give the same, if related items do. -/
theorem forEach_eq_of_forall₂ {α β : Type} {R : β → β → Prop} {bs bs' : List β}
    {f g : β → Emission Fault α} (h : List.Forall₂ R bs bs')
    (hfg : ∀ b ∈ bs, ∀ b', R b b' → f b = g b') :
    Emission.forEach bs f = Emission.forEach bs' g := by
  induction h with
  | nil => rfl
  | cons hb _ ih =>
    obtain ⟨hfirst, hrest⟩ := List.forall_mem_cons.mp hfg
    rw [Emission.forEach_cons, Emission.forEach_cons, hfirst _ hb, ih hrest]

/-- If entering alike layouts gives the same slots, so does unfolding alike types. The layouts
entered are those whose members need nothing but what the type needs. -/
theorem slots_unfold_eq {enter enter' : Layout → Int → List Step → Emission Fault Leaf}
    (t : TypeExpr) :
    ∀ t', t.Alike t' → (∀ name, types.Needs t name → types.Agree types' name) →
      (∀ l l' : Layout, l.Alike l' →
        (∀ m ∈ l.members.entries, ∀ name, types.Needs m.2.type name → types.Needs t name) →
        ∀ offset path,
          (enter l offset path).map Leaf.slot = (enter' l' offset path).map Leaf.slot) →
      ∀ offset path, (types.unfold enter t offset path).map Leaf.slot =
        (types'.unfold enter' t' offset path).map Leaf.slot := by
  induction types.shape t with
  | @scalar t a head notArray layout =>
    intro t' ht hneeds _ offset path
    have hagree : ∀ name, a = .text name → types.Agree types' name := by
      rintro name rfl
      exact hneeds name (.head head fun h => notArray (congrArg Atom.text h))
    rw [unfold_scalar head notArray layout,
      unfold_scalar (ht.hasHead head) notArray (Agree.layout_none hagree layout),
      Emission.map_one, Emission.map_one]
    rfl
  | @struct t a l head notArray layout =>
    intro t' ht hneeds henter offset path
    have hagree : ∀ name, a = .text name → types.Agree types' name := by
      rintro name rfl
      exact hneeds name (.head head fun h => notArray (congrArg Atom.text h))
    obtain ⟨l', hl', -, halike⟩ := Agree.layout_some hagree layout
    rw [unfold_struct head notArray layout, unfold_struct (ht.hasHead head) notArray hl']
    refine henter l l' (halike notArray) (fun m hm name hname => ?_) offset path
    cases a with
    | text owner => exact .member head (fun h => notArray (congrArg Atom.text h)) layout hm hname
    | none => cases layout
    | int n => cases layout
  | @array count element args inner ih =>
    intro t' ht hneeds henter offset path
    obtain ⟨element', rfl, helement⟩ := ht.of_array
    have hsize := sizeOf_eq_of_agree helement (fun name h => hneeds name (.stride h))
      fun name h => hneeds name (.element h)
    rw [unfold_array, unfold_array, Emission.map_forEach, Emission.map_forEach]
    refine Emission.forEach_congr fun i _ => ?_
    rw [Emission.map_bindExcept, Emission.map_bindExcept, hsize]
    congr 1
    funext stride
    refine ih element' helement (fun name h => hneeds name (.element h)) ?_ _ _
    intro l l' halike hl
    exact henter l l' halike fun m hm name hname => .element (hl m hm name hname)
  | @bare count empty =>
    intro t' ht _ _ offset path
    generalize hs : TypeExpr.list [.text "array", .int count] = s at ht
    cases ht with
    | refl => rw [← hs, unfold_bare empty, unfold_bare empty]
    | pointer u v => simp at hs
    | array n h => simp at hs
  | @broken t fault notArray fails =>
    intro t' ht hneeds _ offset path
    cases ht with
    | refl => rw [fails, fails]
    | pointer u v =>
      -- a pointer is no broken type: without a table it is a scalar
      have hfails := fails ∅ enter offset path
      rw [unfold_scalar (.list _ _) (by decide) rfl] at hfails
      cases congrArg Emission.fault hfails
    | array n h => exact (notArray n _ rfl).elim

/-- At any depth, alike types give the same slots. -/
theorem slots_leavesWithin_eq (depth : Nat) :
    ∀ {t t' : TypeExpr}, t.Alike t' → (∀ name, types.Needs t name → types.Agree types' name) →
      ∀ offset path, (types.leavesWithin depth t offset path).map Leaf.slot =
        (types'.leavesWithin depth t' offset path).map Leaf.slot := by
  induction depth with
  | zero =>
    intro t t' ht hneeds offset path
    rw [leavesWithin_eq_unfold, leavesWithin_eq_unfold]
    exact slots_unfold_eq t t' ht hneeds (fun _ _ _ _ _ _ => rfl) offset path
  | succ depth ih =>
    intro t t' ht hneeds offset path
    rw [leavesWithin_eq_unfold, leavesWithin_eq_unfold]
    refine slots_unfold_eq t t' ht hneeds (fun l l' halike hl offset path => ?_) offset path
    rw [enterWithin, enterWithin, Emission.map_forEach, Emission.map_forEach]
    refine forEach_eq_of_forall₂ halike.byOffset fun m hm m' hmm' => ?_
    have hmember := ih hmm'.type fun name hname =>
      hneeds name (hl m (List.mem_mergeSort.mp hm) name hname)
    rw [hmm'.offset, hmm'.name]
    exact hmember _ _

end Agreement

end TypeTable

/-- The same items and the same fault, unless both are without end. -/
def SameOutcome {α : Type} (x y : Emission Fault α) : Prop :=
  x = y ∨ x.fault = some .endless ∧ y.fault = some .endless

/-- **Flattening depends on nothing but what it asks for.** If two tables agree on the names that a
type needs of the first, they give the same slots for it. -/
theorem TypeTable.sameOutcome_slots {types types' : TypeTable} {t t' : TypeExpr} (ht : t.Alike t')
    (hneeds : ∀ name, types.Needs t name → types.Agree types' name) (offset : Int)
    (path : List Step) :
    SameOutcome (types.slots t offset path) (types'.slots t' offset path) := by
  have hdepth := fun depth => slots_leavesWithin_eq depth ht hneeds offset path
  by_cases hsettled : (types.leaves t offset path).Settled
  · left
    have hsettled' : (types'.leavesWithin types.size t' offset path).Settled := by
      rw [← Emission.settled_map, ← hdepth, Emission.settled_map]
      exact hsettled
    rw [slots, slots, leaves_eq_of_settled hsettled', ← hdepth, leaves]
  · right
    -- a depth that is enough for the second table would be enough for the first
    have hsettled' : ¬ (types'.leaves t' offset path).Settled := by
      intro h
      have hother : (types.leavesWithin types'.size t offset path).Settled := by
        rw [← Emission.settled_map, hdepth, Emission.settled_map]
        exact h
      rw [leaves_eq_of_settled hother] at hsettled
      exact hsettled hother
    exact ⟨not_not.mp hsettled, not_not.mp hsettled'⟩

end CpuTrace
