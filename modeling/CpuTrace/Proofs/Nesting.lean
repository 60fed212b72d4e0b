import CpuTrace.Proofs.Changes
import CpuTrace.Proofs.Statements
import Mathlib

/-!
# Ancestors

The levels of statements describe a forest in the order in which its nodes are visited, a statement
before those inside it. The stack of open statements is meant to be the path from a root to the last
one. It is: while no statement is more than one level deeper than the one before it (`AreNested`),
the entry at each level is the last statement that was read at that level (`Reader.Follows`), and of
two visits of a forest the parent of the later is the last at the level above (`parent_of_visits`). A
fault makes no difference, since a statement has taken its place before it can fail.

The main statement is `stack_is_path`. Its last part is about lines of any levels: a statement always
finds its place in the stack, so that there is always one to be named.
-/

namespace CpuTrace.Dump

/-! ## Nested statements -/

/-- The level of a statement. -/
def Statement.place (s : Statement) : Nat :=
  match s.depth with
  | .ok n => n.toNat
  | .error _ => 0

/-- **Statements that nest.** -/
structure AreNested (ss : List Statement) : Prop where
  /-- every level is a number, and not negative -/
  levels : ∀ s ∈ ss, s.depth = .ok (s.place : Int)
  /-- the first is a root -/
  first : ∀ s ∈ ss.head?, s.place = 0
  /-- none is more than one level deeper than the one before it -/
  steps : ss.IsChain fun s t => t.place ≤ s.place + 1

/-- The last of some statements at a level. -/
def lastAt (ss : List Statement) (level : Nat) : Option Statement :=
  (ss.filter fun s => s.place == level).getLast?

/-- The last statement of a level is the newest one, if it is of that level. -/
theorem lastAt_concat (ss : List Statement) (s : Statement) (level : Nat) :
    lastAt (ss ++ [s]) level = if s.place = level then some s else lastAt ss level := by
  rw [lastAt, List.filter_append]
  by_cases h : s.place = level
  · simp [h]
  · simp [h, lastAt]

theorem AreNested.of_append {ss ts : List Statement} (h : AreNested (ss ++ ts)) : AreNested ss where
  levels := fun s hs => h.levels s (List.mem_append_left ts hs)
  first := by
    intro s hs
    refine h.first s ?_
    cases ss with
    | nil => cases hs
    | cons t ss => exact hs
  steps := (List.isChain_append.mp h.steps).1

/-! ## The stack after each statement -/

/-- Reads statements one after the other; a fault ends one of them, and not the run. -/
def readAll (r : Reader) (ss : List Statement) : Reader :=
  ss.foldl (fun r s => after (readStatement s) r) r

theorem readAll_concat (r : Reader) (ss : List Statement) (s : Statement) :
    readAll r (ss ++ [s]) = after (readStatement s) (readAll r ss) :=
  List.foldl_concat ..

/-- **The reader follows some statements**: it is at the level of the last, and for each level down to
there the last statement at that level is open. -/
structure Reader.Follows (r : Reader) (ss : List Statement) : Prop where
  /-- there is an open statement for each level -/
  nested : r.IsNested
  /-- the level is that of the last statement -/
  level : r.level = (ss.getLast?.map fun s => (s.place : Int)).getD (-1)
  /-- the open statements -/
  stack : ∀ j < r.stack.length, r.stack[j]? = (lastAt ss j).map Statement.frame

section Follows

variable {r : Reader} {ss : List Statement} {s : Statement}

/-- A reader with a statement open, before it declares anything. -/
def Reader.opened (r : Reader) (s : Statement) : Reader := after (openFrame s.place ⟨s.kind, s.id⟩) r

/-- A statement in order takes its place after those of the levels above it. -/
theorem Reader.IsNested.opened (hr : r.IsNested) (hplace : (s.place : Int) ≤ r.level + 1) :
    r.opened s =
      { r with level := s.place, stack := r.stack.take s.place ++ [⟨s.kind, s.id⟩] } := by
  rw [Reader.opened, after, run_openFrame hr hplace]

/-- A statement opens, and declares something given the one that is open above it. -/
theorem Reader.IsNested.run_readStatement (hr : r.IsNested) (hdepth : s.depth = .ok (s.place : Int))
    (hplace : (s.place : Int) ≤ r.level + 1) :
    (readStatement s).run r = (Dump.declare s (r.opened s).parent?).run (r.opened s) := by
  have hlevel : (ofExcept (Numeral.read .decimal s.level) : ReadM Int).run r =
      .ok (s.place : Int) r :=
    run_ofExcept_eq_ok_iff.mpr ⟨hdepth, rfl⟩
  rw [readStatement, run_bind_of_eq hlevel, run_bind_of_eq (run_openFrame hr hplace _),
    run_bind_of_eq (EStateM.run_get _), hr.opened hplace]

/-- **What a statement leaves open**, with or without a fault. -/
theorem Reader.IsNested.after_readStatement (hr : r.IsNested)
    (hdepth : s.depth = .ok (s.place : Int)) (hplace : (s.place : Int) ≤ r.level + 1)
    (htexts : s.attributes.AreTexts) :
    (after (readStatement s) r).level = s.place ∧
      (after (readStatement s) r).stack = r.stack.take s.place ++ [s.frame] := by
  have hstack : (r.opened s).stack = r.stack.take s.place ++ [⟨s.kind, s.id⟩] := by
    rw [hr.opened hplace]
  have hdeclare : Makes (fun _ => True) { r.opened s with stack := r.stack.take s.place ++ [s.frame] }
      (Dump.declare s (r.opened s).parent?) (r.opened s) := makes_declare htexts trivial hstack _
  have hsame := hdeclare.changes.place
  rw [after, hr.run_readStatement hdepth hplace, ← after]
  rw [hr.opened hplace] at hsame ⊢
  exact hsame

/-- Before any statement nothing is open. -/
theorem follows_default : ({} : Reader).Follows [] where
  nested := rfl
  level := rfl
  stack := fun j hj => absurd hj (Nat.not_lt_zero j)

/-- One more statement. -/
theorem Reader.Follows.readStatement (h : r.Follows ss) (hdepth : s.depth = .ok (s.place : Int))
    (hplace : (s.place : Int) ≤ r.level + 1) (htexts : s.attributes.AreTexts) :
    (after (readStatement s) r).Follows (ss ++ [s]) := by
  obtain ⟨hlevel, hstack⟩ := h.nested.after_readStatement hdepth hplace htexts
  have hlength : (r.stack.take s.place).length = s.place := by
    have := h.nested
    rw [Reader.IsNested] at this
    rw [List.length_take]
    omega
  refine ⟨?_, ?_, fun j hj => ?_⟩
  · rw [Reader.IsNested, hlevel, hstack, List.length_append, hlength]
    simp
  · rw [hlevel, List.getLast?_concat]
    rfl
  · rw [hstack, List.length_append, hlength, List.length_singleton] at hj
    rw [hstack, lastAt_concat]
    by_cases hlast : s.place = j
    · rw [if_pos hlast, List.getElem?_append_right (by omega), hlength, ← hlast, Nat.sub_self]
      rfl
    · have hj' : j < s.place := by omega
      have hjr : j < r.stack.length := by
        rw [List.length_take] at hlength
        omega
      rw [if_neg hlast, List.getElem?_append_left (by omega), List.getElem?_take, if_pos hj',
        h.stack j hjr]

/-- The next statement is at most one level deeper. -/
theorem Reader.Follows.place_le (h : r.Follows ss) (hnested : AreNested (ss ++ [s])) :
    (s.place : Int) ≤ r.level + 1 := by
  rw [h.level]
  rcases hlast : ss.getLast? with _ | t
  · rw [List.getLast?_eq_none_iff] at hlast
    have hzero := hnested.first s (by rw [hlast]; rfl)
    simp [hzero]
  · have hstep := (List.isChain_append.mp hnested.steps).2.2 t hlast s rfl
    simp only [Option.map_some, Option.getD_some]
    omega

/-- **The reader follows every run** of nested statements. -/
theorem follows_readAll (ss : List Statement) (hnested : AreNested ss)
    (htexts : ∀ s ∈ ss, s.attributes.AreTexts) : (readAll {} ss).Follows ss := by
  induction ss using List.reverseRecOn with
  | nil => exact follows_default
  | append_singleton ss s ih =>
    have hss := ih hnested.of_append fun t ht => htexts t (List.mem_append_left [s] ht)
    have hs : s ∈ ss ++ [s] := List.mem_append_right ss (List.mem_singleton_self s)
    rw [readAll_concat]
    exact hss.readStatement (hnested.levels s hs) (hss.place_le hnested) (htexts s hs)

theorem Reader.Follows.exists_lastAt (h : r.Follows ss) {j : Nat} (hj : j < r.stack.length) :
    ∃ t, lastAt ss j = some t := by
  have hentry := h.stack j hj
  rw [List.getElem?_eq_getElem hj] at hentry
  obtain ⟨t, ht, -⟩ := Option.map_eq_some_iff.mp hentry.symm
  exact ⟨t, ht⟩

/-- The statement that is open above the next one. -/
theorem Reader.Follows.parent?_opened (h : r.Follows ss) (hplace : (s.place : Int) ≤ r.level + 1) :
    (r.opened s).parent? =
      if s.place = 0 then none else (lastAt ss (s.place - 1)).map Statement.frame := by
  have hlength := h.nested
  rw [Reader.IsNested] at hlength
  rw [h.nested.opened hplace, Reader.parent?, List.dropLast_concat, List.getLast?_eq_getElem?,
    List.length_take, Nat.min_eq_left (by omega)]
  by_cases hzero : s.place = 0
  · simp [hzero]
  · rw [if_neg hzero, List.getElem?_take, if_pos (by omega), h.stack _ (by omega)]

/-- Only a root has nothing open above it. -/
theorem Reader.Follows.parent?_opened_eq_none_iff (h : r.Follows ss)
    (hplace : (s.place : Int) ≤ r.level + 1) : (r.opened s).parent? = none ↔ s.place = 0 := by
  rw [h.parent?_opened hplace]
  by_cases hzero : s.place = 0
  · simp [hzero]
  · have hlength := h.nested
    rw [Reader.IsNested] at hlength
    have hj : s.place - 1 < r.stack.length := by omega
    obtain ⟨t, ht⟩ := h.exists_lastAt hj
    simp [ht, hzero]

end Follows

/-! ## Forests -/

/-- A forest of statements: a first tree, and those after it. -/
inductive Forest where
  /-- no tree -/
  | nil
  /-- a root, the forest below it and the trees after it -/
  | node (root : Statement) (children siblings : Forest)

/-- A node of a forest as it is visited. -/
structure Visit where
  /-- how far below the roots it is -/
  depth : Nat
  /-- the node -/
  statement : Statement
  /-- the node above it -/
  parent : Option Statement

namespace Forest

/-- The nodes of a forest, each before those below it, given where the forest stands. -/
def visits (parent : Option Statement) (depth : Nat) : Forest → List Visit
  | nil => []
  | node root children siblings =>
    ⟨depth, root, parent⟩ ::
      (children.visits (some root) (depth + 1) ++ siblings.visits parent depth)

/-- **A forest of statements**: they are its nodes in order, each at its level. -/
structure IsOf (f : Forest) (ss : List Statement) : Prop where
  /-- the statements -/
  nodes : (f.visits none 0).map Visit.statement = ss
  /-- their levels -/
  levels : ∀ v ∈ f.visits none 0, v.statement.place = v.depth

theorem le_depth (f : Forest) :
    ∀ {parent : Option Statement} {depth : Nat}, ∀ v ∈ f.visits parent depth, depth ≤ v.depth := by
  induction f with
  | nil => exact fun v hv => absurd hv List.not_mem_nil
  | node root children siblings ihc ihs =>
    intro parent depth v hv
    rcases List.mem_cons.mp hv with rfl | hv
    · exact Nat.le_refl _
    · rcases List.mem_append.mp hv with hv | hv
      · exact Nat.le_of_succ_le (ihc v hv)
      · exact ihs v hv

/-- **The parent of a node** that is no root is visited before it, and what comes between them is not
above the node. -/
theorem parent_of_visits (f : Forest) :
    ∀ {parent : Option Statement} {depth : Nat} {before later : List Visit} {v : Visit},
      f.visits parent depth = before ++ v :: later →
      v.depth = depth ∧ v.parent = parent ∨
        ∃ earlier u between, before = earlier ++ u :: between ∧ u.depth + 1 = v.depth ∧
          v.parent = some u.statement ∧ ∀ w ∈ between, v.depth ≤ w.depth := by
  induction f with
  | nil =>
    intro parent depth before later v h
    exact absurd h (by simp [visits])
  | node root children siblings ihc ihs =>
    intro parent depth before later v h
    rw [visits] at h
    cases before with
    | nil =>
      obtain ⟨rfl, -⟩ := List.cons.inj h
      exact .inl ⟨rfl, rfl⟩
    | cons x before =>
      obtain ⟨rfl, hrest⟩ := List.cons.inj h
      rcases List.append_eq_append_iff.mp hrest with ⟨mid, rfl, hsiblings⟩ | ⟨mid, hchildren, hmid⟩
      · -- the node is among the trees after the first
        refine (ihs hsiblings).imp_right ?_
        rintro ⟨earlier, u, between, rfl, hdepth, hparent, hbetween⟩
        exact ⟨⟨depth, root, parent⟩ :: (children.visits (some root) (depth + 1) ++ earlier), u,
          between, by simp, hdepth, hparent, hbetween⟩
      · cases mid with
        | nil =>
          -- it is the first of them
          have hsiblings : siblings.visits parent depth = [] ++ v :: later := hmid.symm
          rcases ihs hsiblings with hroot | ⟨earlier, u, between, hnil, -⟩
          · exact .inl hroot
          · exact absurd hnil (by simp)
        | cons w mid =>
          -- it is below the first root
          obtain ⟨rfl, -⟩ := List.cons.inj hmid
          right
          rcases ihc hchildren with ⟨hdepth, hparent⟩ | ⟨earlier, u, between, rfl, hu⟩
          · refine ⟨[], ⟨depth, root, parent⟩, before, rfl, hdepth.symm, hparent, fun w hw => ?_⟩
            rw [hdepth]
            exact children.le_depth w (by rw [hchildren]; exact List.mem_append_left _ hw)
          · exact ⟨⟨depth, root, parent⟩ :: earlier, u, between, by simp, hu⟩

/-- In the order of visits, the parent of a node is the last one at the level above. -/
theorem IsOf.parent_eq {f : Forest} {ss : List Statement} (h : f.IsOf ss) {before later : List Visit}
    {v : Visit} (hvisits : f.visits none 0 = before ++ v :: later) :
    v.parent =
      if v.depth = 0 then none else lastAt (before.map Visit.statement) (v.depth - 1) := by
  rcases f.parent_of_visits hvisits with ⟨hdepth, hparent⟩ |
    ⟨earlier, u, between, rfl, hdepth, hparent, hbetween⟩
  · rw [if_pos hdepth, hparent]
  · have hlevels := h.levels
    rw [hvisits] at hlevels
    have hu : u.statement.place = v.depth - 1 := by
      rw [hlevels u (by simp)]
      omega
    have hnone : (between.map Visit.statement).filter (fun s => s.place == v.depth - 1) = [] := by
      rw [List.filter_eq_nil_iff]
      intro s hs
      obtain ⟨w, hw, rfl⟩ := List.mem_map.mp hs
      have hplace := hlevels w (by simp [hw])
      have hdeeper := hbetween w hw
      simp only [beq_iff_eq]
      omega
    rw [if_neg (by omega), hparent, lastAt, List.map_append, List.map_cons, List.filter_append,
      List.filter_cons_of_pos (by simpa using hu), hnone, List.getLast?_append,
      List.getLast?_singleton, Option.some_or]

/-- The visit of a statement. -/
theorem IsOf.exists_visit {f : Forest} {before later : List Statement} {s : Statement}
    (h : f.IsOf (before ++ s :: later)) :
    ∃ visited v rest, f.visits none 0 = visited ++ v :: rest ∧
      visited.map Visit.statement = before ∧ v.statement = s := by
  obtain ⟨visited, others, hvisits, hbefore, hothers⟩ := List.map_eq_append_iff.mp h.nodes
  obtain ⟨v, rest, rfl, hv, -⟩ := List.map_eq_cons_iff.mp hothers
  exact ⟨visited, v, rest, hvisits, hbefore, hv⟩

/-- Nested statements start with a forest at any level that the first does not go beyond, and after it
comes one that is above. -/
theorem exists_visits (length : Nat) : ∀ {ss : List Statement}, ss.length ≤ length →
    ss.IsChain (fun s t => t.place ≤ s.place + 1) → ∀ (parent : Option Statement) (depth : Nat),
      (∀ s ∈ ss.head?, s.place ≤ depth) →
      ∃ (f : Forest) (rest : List Statement),
        ss = (f.visits parent depth).map Visit.statement ++ rest ∧
          (∀ v ∈ f.visits parent depth, v.statement.place = v.depth) ∧
          ∀ s ∈ rest.head?, s.place < depth := by
  induction length with
  | zero =>
    intro ss hlength _ parent depth _
    obtain rfl := List.length_eq_zero_iff.mp (Nat.le_zero.mp hlength)
    exact ⟨nil, [], rfl, fun v hv => absurd hv List.not_mem_nil, by simp⟩
  | succ length ih =>
    intro ss hlength hchain parent depth hhead
    cases ss with
    | nil => exact ⟨nil, [], rfl, fun v hv => absurd hv List.not_mem_nil, by simp⟩
    | cons s ss =>
      by_cases habove : s.place < depth
      · refine ⟨nil, s :: ss, rfl, fun v hv => absurd hv List.not_mem_nil, ?_⟩
        rintro t ⟨⟩
        exact habove
      · have hplace : s.place = depth := Nat.le_antisymm (hhead s rfl) (Nat.le_of_not_lt habove)
        obtain ⟨hstep, hrest⟩ := List.isChain_cons.mp hchain
        have hss : ss.length ≤ length := Nat.le_of_succ_le_succ hlength
        obtain ⟨children, rest, rfl, hchildren, hbelow⟩ := ih hss hrest (some s) (depth + 1)
          fun t ht => hplace ▸ hstep t ht
        have hshorter : rest.length ≤ length := by
          rw [List.length_append] at hss
          omega
        obtain ⟨siblings, rest', rfl, hsiblings, habove'⟩ := ih hshorter
          (List.isChain_append.mp hrest).2.1 parent depth fun t ht => Nat.le_of_lt_succ (hbelow t ht)
        refine ⟨node s children siblings, rest', by simp [visits], fun v hv => ?_, habove'⟩
        rcases List.mem_cons.mp hv with rfl | hv
        · exact hplace
        · exact (List.mem_append.mp hv).elim (hchildren v) (hsiblings v)

end Forest

/-- **Nested statements form a forest.** -/
theorem AreNested.exists_forest {ss : List Statement} (h : AreNested ss) :
    ∃ f : Forest, f.IsOf ss := by
  obtain ⟨f, rest, heq, hlevels, hrest⟩ := Forest.exists_visits ss.length (Nat.le_refl _) h.steps
    none 0 fun s hs => Nat.le_of_eq (h.first s hs)
  have hnil : rest = [] := by
    cases rest with
    | nil => rfl
    | cons s rest => exact absurd (hrest s rfl) (Nat.not_lt_zero _)
  rw [hnil, List.append_nil] at heq
  exact ⟨f, heq.symm, hlevels⟩

/-- **The statement that is open above the next one is its parent** in a forest of the statements. -/
theorem Reader.Follows.parent?_opened_of_forest {r : Reader} {before later : List Statement}
    {s : Statement} (h : r.Follows before) (hplace : (s.place : Int) ≤ r.level + 1) {f : Forest}
    (hf : f.IsOf (before ++ s :: later)) :
    ∃ v, (f.visits none 0)[before.length]? = some v ∧ v.statement = s ∧
      (r.opened s).parent? = v.parent.map Statement.frame := by
  obtain ⟨visited, v, rest, hvisits, hnodes, rfl⟩ := hf.exists_visit
  have hv : v.statement.place = v.depth := hf.levels v (by rw [hvisits]; simp)
  refine ⟨v, ?_, rfl, ?_⟩
  · rw [hvisits, ← hnodes, List.length_map, List.getElem?_append_right (Nat.le_refl _),
      Nat.sub_self]
    rfl
  · rw [h.parent?_opened hplace, hf.parent_eq hvisits, hnodes, hv]
    split <;> rfl

/-! ## Any lines -/

/-- Reads lines one after the other; a fault ends one of them, and not the run. -/
def readOn (r : Reader) (lines : List String) : Reader :=
  lines.foldl (fun r line => after (readLine line) r) r

theorem Reader.IsOpen.after_readLine {r : Reader} (hr : r.IsOpen) (line : String) :
    (after (readLine line) r).IsOpen := by
  obtain ⟨_, _, hopen, hmakes⟩ := hr.makes_readLine (fun _ => True) line fun _ _ => trivial
  exact hmakes.isOpen hopen

/-- Whatever lines are read, a reader that has read a statement has one open. -/
theorem isOpen_readOn (lines : List String) : ∀ {r : Reader}, r.IsOpen → (readOn r lines).IsOpen := by
  induction lines with
  | nil => exact fun hr => hr
  | cons line lines ih => exact fun hr => ih (hr.after_readLine line)

/-! ## The stack is a path -/

/-- **The stack of open statements is the path to the last one.** Let nested statements be read from
the start, whatever faults they give. After each of them the reader is at its level, and the stack has
one entry for each level down to there, the last statement at that level, under its name if it is a
structure, a union or an enumeration and under its id otherwise. The statements form a forest, and
what a statement declares is declared inside its parent in that forest; a root has none.

For lines of any levels: each statement that they show finds its place at the end of the stack, so
that no fault says that there is nothing to name. -/
theorem stack_is_path :
    (∀ (before : List Statement) (s : Statement) (later : List Statement),
      AreNested (before ++ s :: later) →
      (∀ t ∈ before ++ s :: later, t.attributes.AreTexts) →
      (readAll {} (before ++ [s])).level = s.place ∧
      (readAll {} (before ++ [s])).stack.length = s.place + 1 ∧
      (∀ j ≤ s.place,
        (readAll {} (before ++ [s])).stack[j]? = (lastAt (before ++ [s]) j).map Statement.frame) ∧
      (readStatement s).run (readAll {} before) =
        (declare s ((readAll {} before).opened s).parent?).run ((readAll {} before).opened s) ∧
      (((readAll {} before).opened s).parent? = none ↔ s.place = 0) ∧
      (∃ f : Forest, f.IsOf (before ++ s :: later)) ∧
      ∀ f : Forest, f.IsOf (before ++ s :: later) →
        ∃ v, (f.visits none 0)[before.length]? = some v ∧ v.statement = s ∧
          ((readAll {} before).opened s).parent? = v.parent.map Statement.frame) ∧
    ∀ (lines : List String) (line : String),
      (∀ s, statement? line = some s → ∃ (n : Nat) (outer : List Frame) (radix : Radix),
        s.depth = .ok n ∧
        (openFrame n ⟨s.kind, s.id⟩).run (readOn {} lines) =
          .ok () { readOn {} lines with level := n, stack := outer ++ [⟨s.kind, s.id⟩] } ∧
        (readLine line).run (readOn {} lines) = (declare s outer.getLast?).run
          { readOn {} lines with level := n, stack := outer ++ [⟨s.kind, s.id⟩], radix }) ∧
      ∀ e r, (readLine line).run (readOn {} lines) = .error e r → e ≠ .noFrame := by
  refine ⟨fun before s later hnested htexts => ?_,
    fun lines line => ⟨fun s hs => ?_, fun e r h => ?_⟩⟩
  · have hread : AreNested (before ++ [s]) := by
      rw [List.append_cons] at hnested
      exact hnested.of_append
    have hbefore := follows_readAll before hread.of_append fun t ht =>
      htexts t (List.mem_append_left _ ht)
    have hafter := follows_readAll (before ++ [s]) hread fun t ht =>
      htexts t (by rw [List.append_cons]; exact List.mem_append_left _ ht)
    have hplace := hbefore.place_le hread
    have hlevel : (readAll {} (before ++ [s])).level = s.place := by
      rw [hafter.level, List.getLast?_concat]
      rfl
    have hlength : (readAll {} (before ++ [s])).stack.length = s.place + 1 := by
      have := hafter.nested
      rw [Reader.IsNested, hlevel] at this
      omega
    exact ⟨hlevel, hlength, fun j hj => hafter.stack j (by omega),
      hbefore.nested.run_readStatement (hread.levels s (by simp)) hplace,
      hbefore.parent?_opened_eq_none_iff hplace, hnested.exists_forest,
      fun f hf => hbefore.parent?_opened_of_forest hplace hf⟩
  · exact (isOpen_readOn lines isOpen_default).run_readLine hs
  · obtain ⟨_, _, -, hmakes⟩ := (isOpen_readOn lines isOpen_default).makes_readLine
      (fun _ => True) line fun _ _ => trivial
    exact (hmakes.explained e r h).ne_noFrame

/-- A statement with texts for attributes. -/
def Statement.ofTexts (kind level id : String) (attributes : List (String × String)) : Statement :=
  Line.statement ⟨⟨level, id, kind, false⟩, .ofList attributes⟩

/-- A unit, and in it a structure without a size, which is a fault, and a member of it; after them a
pointer. -/
def unsizedPair : Fin 4 → Statement
  | 0 => .ofTexts "DW_TAG_compile_unit" "0" "11" []
  | 1 => .ofTexts "DW_TAG_structure_type" "1" "45" [("DW_AT_name", "\"Pair\"")]
  | 2 => .ofTexts "DW_TAG_member" "2" "56" [("DW_AT_name", "low"), ("DW_AT_type", "<60")]
  | 3 => .ofTexts "DW_TAG_pointer_type" "1" "60" []

/-- The forest of these statements. -/
def unsizedPairForest : Forest :=
  .node (unsizedPair 0) (.node (unsizedPair 1) (.node (unsizedPair 2) .nil .nil)
    (.node (unsizedPair 3) .nil .nil)) .nil

theorem areNested_unsizedPair :
    AreNested ([unsizedPair 0, unsizedPair 1] ++ unsizedPair 2 :: [unsizedPair 3]) where
  levels := by
    simp only [List.cons_append, List.nil_append, List.forall_mem_cons]
    exact ⟨by cbv, by cbv, by cbv, by cbv, by simp⟩
  first := by
    rintro s ⟨⟩
    cbv
  steps := by
    simp only [List.cons_append, List.nil_append, List.isChain_cons_cons, List.isChain_singleton]
    exact ⟨by cbv, by cbv, by cbv, trivial⟩

theorem unsizedPairForest_isOf :
    unsizedPairForest.IsOf ([unsizedPair 0, unsizedPair 1] ++ unsizedPair 2 :: [unsizedPair 3]) where
  nodes := rfl
  levels := by
    simp only [unsizedPairForest, Forest.visits, List.cons_append, List.nil_append, List.append_nil,
      List.forall_mem_cons]
    exact ⟨by cbv, by cbv, by cbv, by cbv, by simp⟩

/-- The structure gives a fault, and its member is declared inside it all the same. -/
theorem stack_of_unsizedPair :
    (readAll {} ([unsizedPair 0, unsizedPair 1] ++ [unsizedPair 2])).stack[1]? =
        some ⟨"DW_TAG_structure_type", "Pair"⟩ ∧
      ((readAll {} [unsizedPair 0, unsizedPair 1]).opened (unsizedPair 2)).parent? =
        some ⟨"DW_TAG_structure_type", "Pair"⟩ ∧
      ∀ e r, (readLine "<3><5><DW_TAG_member>").run (readOn {} ["<7><1><DW_TAG_array_type>"]) =
        .error e r → e ≠ .noFrame := by
  have htexts : ∀ t ∈ [unsizedPair 0, unsizedPair 1] ++ unsizedPair 2 :: [unsizedPair 3],
      t.attributes.AreTexts := by
    simp only [List.cons_append, List.nil_append, List.forall_mem_cons]
    exact ⟨Line.areTexts_values _, Line.areTexts_values _, Line.areTexts_values _,
      Line.areTexts_values _, by simp⟩
  obtain ⟨hnested, hlines⟩ := stack_is_path
  obtain ⟨-, -, hstack, -, -, -, hforest⟩ := hnested [unsizedPair 0, unsizedPair 1] (unsizedPair 2)
    [unsizedPair 3] areNested_unsizedPair htexts
  obtain ⟨v, hv, -, hparent⟩ := hforest unsizedPairForest unsizedPairForest_isOf
  have hframe : (unsizedPair 1).frame = ⟨"DW_TAG_structure_type", "Pair"⟩ := rfl
  refine ⟨(hstack 1 (by cbv)).trans (congrArg some hframe), ?_, (hlines _ _).2⟩
  cases hv
  exact hparent.trans (congrArg some hframe)

end CpuTrace.Dump
