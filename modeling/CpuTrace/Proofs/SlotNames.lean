import CpuTrace.Layout.SlotTable
import CpuTrace.Proofs.LeafPaths
import CpuTrace.Proofs.Numerals
import CpuTrace.Proofs.Table
import Mathlib

/-!
# Names of slots

The name of a slot is made of the steps of its path, joined by dots, and then every dot before an
opening bracket is dropped from the whole text. After a step that is there anyway, each further step
therefore adds a piece of its own (`Step.piece`): a dot and the name of a member, or an index in
brackets (`toList_pathName_append`).

If no name of a member is empty or holds a dot or an opening bracket (`Step.IsPlain`), a piece ends
where the next begins, so the pieces can be told apart again (`eq_of_flatMap_piece_eq`) and different
paths have different names. Only a first step with nothing before it lacks its dot, and there it can be
put back (`dotted_pathName`).
-/

namespace CpuTrace

/-! ## Dropping dots -/

theorem dropDots_of_not_mem {cs : List Char} (h : '.' ∉ cs) : dropDots cs = cs := by
  fun_induction dropDots cs with
  | case1 cs ih => simp at h
  | case2 c cs hne ih => rw [ih fun hc => h (List.mem_cons_of_mem c hc)]
  | case3 => rfl

/-- A dot that does not stand before a bracket stays. -/
theorem dropDots_dot {cs : List Char} (h : cs.head? ≠ some '[') :
    dropDots ('.' :: cs) = '.' :: dropDots cs := by
  cases cs with
  | nil => rfl
  | cons c cs =>
    rw [dropDots.eq_2 _ _ ?_]
    rintro cs' - hcs
    exact h (by rw [hcs, List.head?_cons])

/-- Dots are dropped on both sides of a dot by themselves. -/
theorem dropDots_append (cs ds : List Char) :
    dropDots (cs ++ '.' :: ds) = dropDots cs ++ dropDots ('.' :: ds) := by
  fun_induction dropDots cs with
  | case1 cs ih => simp [dropDots, ih]
  | case2 c cs hne ih =>
    rw [List.cons_append, dropDots.eq_2 _ _ ?_, ih, List.cons_append]
    rintro cs' rfl hcs
    cases cs with
    | nil => exact absurd (List.cons.inj hcs).1 (by decide)
    | cons d cs => exact hne cs rfl (by rw [(List.cons.inj hcs).1])
  | case3 => rfl

/-! ## Pieces -/

/-- What a step adds to a name. -/
def Step.piece : Step → List Char
  | member name => '.' :: name.toList
  | index i => (index i).chars

/-- Steps to be told apart in a name. -/
def Step.IsPlain : Step → Prop
  | member name => name ≠ "" ∧ '.' ∉ name.toList ∧ '[' ∉ name.toList
  | index _ => True

instance (s : Step) : Decidable s.IsPlain :=
  match s with
  | .member name => inferInstanceAs
    (Decidable (name ≠ "" ∧ '.' ∉ name.toList ∧ '[' ∉ name.toList))
  | .index _ => .isTrue trivial

theorem Step.chars_index (i : Nat) : (index i).chars = '[' :: (Nat.toDigits 10 i ++ [']']) := by
  simp [chars]

/-- Digits are neither dots nor brackets. -/
theorem not_mem_toDigits {i : Nat} {c : Char} (hc : ¬ c.isDigit) : c ∉ Nat.toDigits 10 i :=
  fun h => hc (Nat.isDigit_of_mem_toDigits (by decide) (by decide) h)

theorem dropDots_append_step (cs : List Char) {s : Step} (hs : s.IsPlain) :
    dropDots (cs ++ '.' :: s.chars) = dropDots cs ++ s.piece := by
  rw [dropDots_append]
  congr 1
  cases s with
  | member name =>
    obtain ⟨-, hdot, hopen⟩ := hs
    have hhead : name.toList.head? ≠ some '[' := fun h => hopen (List.mem_of_head? h)
    rw [Step.chars, dropDots_dot hhead, dropDots_of_not_mem hdot, Step.piece]
  | index i =>
    have hdot : '.' ∉ Nat.toDigits 10 i ++ [']'] := by
      simpa using not_mem_toDigits (by decide)
    rw [Step.piece, Step.chars_index, dropDots, dropDots_of_not_mem hdot]

theorem intercalate_concat {sep cs : List Char} {xs : List (List Char)} (h : xs ≠ []) :
    sep.intercalate (xs ++ [cs]) = sep.intercalate xs ++ sep ++ cs := by
  induction xs with
  | nil => exact (h rfl).elim
  | cons x xs ih =>
    cases xs with
    | nil => simp [List.intercalate]
    | cons y ys =>
      rw [List.cons_append, List.cons_append, List.intercalate_cons_cons, List.intercalate_cons_cons,
        ← List.cons_append, ih (List.cons_ne_nil y ys)]
      simp only [List.append_assoc]

/-- **The name of a path** is the name of any first part of it and a piece for each step after. -/
theorem toList_pathName_append {steps path : List Step} (hsteps : steps ≠ [])
    (hpath : ∀ s ∈ path, s.IsPlain) :
    (pathName (steps ++ path)).toList = (pathName steps).toList ++ path.flatMap Step.piece := by
  induction path generalizing steps with
  | nil => simp
  | cons s path ih =>
    obtain ⟨hs, hrest⟩ := List.forall_mem_cons.mp hpath
    have hmap : steps.map Step.chars ≠ [] := by simpa using hsteps
    have hfirst : (pathName (steps ++ [s])).toList = (pathName steps).toList ++ s.piece := by
      rw [pathName, pathName, String.toList_ofList, String.toList_ofList, List.map_append,
        List.map_singleton, intercalate_concat hmap, List.append_assoc, List.singleton_append,
        dropDots_append_step _ hs]
    rw [List.append_cons, ih (by simp) hrest, hfirst, List.flatMap_cons, List.append_assoc]

theorem pathName_member {name : String} (h : (Step.member name).IsPlain) :
    pathName [.member name] = name := by
  obtain ⟨-, hdot, -⟩ := h
  refine String.toList_injective ?_
  rw [pathName, String.toList_ofList, List.map_singleton, List.intercalate_singleton, Step.chars,
    dropDots_of_not_mem hdot]

/-- Where a path goes on with a member, its name goes on with a dot and the name of the rest. -/
theorem pathName_append_member {steps path : List Step} {name : String} (hsteps : steps ≠ [])
    (hpath : ∀ s ∈ Step.member name :: path, s.IsPlain) :
    pathName (steps ++ .member name :: path) =
      pathName steps ++ "." ++ pathName (.member name :: path) := by
  obtain ⟨hname, hrest⟩ := List.forall_mem_cons.mp hpath
  refine String.toList_injective ?_
  rw [toList_pathName_append hsteps hpath, String.toList_append, String.toList_append,
    ← List.singleton_append, toList_pathName_append (List.cons_ne_nil _ _) hrest,
    pathName_member hname]
  simp [Step.piece]

/-! ## Telling paths apart -/

/-- Where two texts are cut before the first character of a kind, the parts are the same. -/
theorem eq_of_append_eq {p : Char → Prop} {as bs cs ds : List Char} (h : as ++ bs = cs ++ ds)
    (has : ∀ c ∈ as, ¬ p c) (hbs : ∀ c ∈ bs.head?, p c) (hcs : ∀ c ∈ cs, ¬ p c)
    (hds : ∀ c ∈ ds.head?, p c) : as = cs ∧ bs = ds := by
  induction as generalizing cs with
  | nil =>
    cases cs with
    | nil => exact ⟨rfl, h⟩
    | cons c cs =>
      rw [List.nil_append] at h
      exact absurd (hbs c (by simp [h])) (hcs c (List.mem_cons_self ..))
  | cons a as ih =>
    cases cs with
    | nil =>
      rw [List.nil_append] at h
      exact absurd (hds a (by simp [← h])) (has a (List.mem_cons_self ..))
    | cons c cs =>
      obtain ⟨rfl, hrest⟩ := List.cons.inj h
      obtain ⟨rfl, rfl⟩ := ih hrest (fun c hc => has c (List.mem_cons_of_mem _ hc))
        fun c hc => hcs c (List.mem_cons_of_mem _ hc)
      exact ⟨rfl, rfl⟩

/-- A piece begins with a dot or an opening bracket. -/
theorem head?_flatMap_piece (path : List Step) :
    ∀ c ∈ (path.flatMap Step.piece).head?, c = '.' ∨ c = '[' := by
  intro c hc
  cases path with
  | nil => cases hc
  | cons s path =>
    cases s with
    | member name => exact .inl (Option.some.inj hc).symm
    | index i => exact .inr (Option.some.inj hc).symm

theorem toDigits_injective {i j : Nat} (h : Nat.toDigits 10 i = Nat.toDigits 10 j) : i = j := by
  rw [← Nat.ofDigitChars_ten_toDigits (n := i), h, Nat.ofDigitChars_ten_toDigits]

/-- **Pieces determine their steps.** -/
theorem eq_of_flatMap_piece_eq {p q : List Step} (hp : ∀ s ∈ p, s.IsPlain)
    (hq : ∀ s ∈ q, s.IsPlain) (h : p.flatMap Step.piece = q.flatMap Step.piece) : p = q := by
  induction p generalizing q with
  | nil =>
    cases q with
    | nil => rfl
    | cons s q => cases s <;> simp [Step.piece, Step.chars] at h
  | cons s p ih =>
    obtain ⟨hs, hp'⟩ := List.forall_mem_cons.mp hp
    cases q with
    | nil => cases s <;> simp [Step.piece, Step.chars] at h
    | cons k q =>
      obtain ⟨hk, hq'⟩ := List.forall_mem_cons.mp hq
      rw [List.flatMap_cons, List.flatMap_cons] at h
      cases s with
      | member name =>
        cases k with
        | member name' =>
          -- the name ends where the next piece begins
          have hname : ∀ {n : String}, (Step.member n).IsPlain →
              ∀ c ∈ n.toList, ¬ (c = '.' ∨ c = '[') := by
            rintro n ⟨-, hdot, hopen⟩ c hc (rfl | rfl)
            · exact hdot hc
            · exact hopen hc
          obtain ⟨hnames, hrest⟩ := eq_of_append_eq (List.cons.inj h).2 (hname hs)
            (head?_flatMap_piece p) (hname hk) (head?_flatMap_piece q)
          rw [String.toList_inj.mp hnames, ih hp' hq' hrest]
        | index j => simp [Step.piece, Step.chars] at h
      | index i =>
        cases k with
        | member name' => simp [Step.piece, Step.chars] at h
        | index j =>
          -- the digits end at the closing bracket
          have hdigits : ∀ n : Nat, ∀ c ∈ Nat.toDigits 10 n, ¬ c = ']' := by
            rintro n c hc rfl
            exact not_mem_toDigits (by decide) hc
          simp only [Step.piece, Step.chars_index, List.cons_append, List.append_assoc,
            List.nil_append, List.cons.injEq, true_and] at h
          obtain ⟨hdigits, hrest⟩ := eq_of_append_eq (p := (· = ']')) h (hdigits i) (by simp)
            (hdigits j) (by simp)
          rw [toDigits_injective hdigits, ih hp' hq' (List.cons.inj hrest).2]

/-- The text of a name, with the dot that its first member does not show. -/
def dotted : List Char → List Char
  | [] => []
  | c :: cs => if c = '[' then c :: cs else '.' :: c :: cs

/-- Where nothing stands before a path, its name has all pieces but for the first dot. -/
theorem dotted_pathName {path : List Step} (h : ∀ s ∈ path, s.IsPlain) :
    dotted (pathName path).toList = path.flatMap Step.piece := by
  cases path with
  | nil => rfl
  | cons s path =>
    obtain ⟨hs, hpath⟩ := List.forall_mem_cons.mp h
    have hname : (pathName [s]).toList = dropDots s.chars := by
      simp [pathName, List.intercalate]
    rw [← List.singleton_append, toList_pathName_append (List.cons_ne_nil s []) hpath, hname,
      List.singleton_append, List.flatMap_cons]
    cases s with
    | member name =>
      obtain ⟨hne, hdot, hopen⟩ := hs
      obtain ⟨c, cs, hcs⟩ := List.exists_cons_of_ne_nil (mt String.toList_eq_nil_iff.mp hne)
      have hc : c ≠ '[' := fun hc => hopen (by simp [hcs, hc])
      rw [Step.chars, dropDots_of_not_mem hdot, Step.piece, hcs]
      simp [dotted, hc]
    | index i =>
      have hdot : '.' ∉ (Step.index i).chars := by
        rw [Step.chars_index]
        simpa using not_mem_toDigits (by decide)
      rw [dropDots_of_not_mem hdot, Step.piece, Step.chars_index]
      simp [dotted]

/-- **Names identify paths**, whatever stands before them. -/
theorem eq_of_pathName_eq {steps p q : List Step} (hp : ∀ s ∈ p, s.IsPlain)
    (hq : ∀ s ∈ q, s.IsPlain) (h : pathName (steps ++ p) = pathName (steps ++ q)) : p = q := by
  refine eq_of_flatMap_piece_eq hp hq ?_
  cases steps with
  | nil =>
    rw [List.nil_append, List.nil_append] at h
    rw [← dotted_pathName hp, ← dotted_pathName hq, h]
  | cons s steps =>
    have hchars := congrArg String.toList h
    rw [toList_pathName_append (List.cons_ne_nil s steps) hp,
      toList_pathName_append (List.cons_ne_nil s steps) hq] at hchars
    exact List.append_cancel_left hchars

/-! ## Names of slots -/

/-- No name of a member is empty or holds a dot or an opening bracket. -/
def TypeTable.HasPlainNames (types : TypeTable) : Prop :=
  ∀ e ∈ types.entries, ∀ m ∈ e.2.members.entries, (Step.member m.1).IsPlain

instance (types : TypeTable) : Decidable types.HasPlainNames :=
  inferInstanceAs
    (Decidable (∀ e ∈ types.entries, ∀ m ∈ e.2.members.entries, (Step.member m.1).IsPlain))

variable {types : TypeTable} {t : TypeExpr}

/-- A layout that is found under a head is one of the table. -/
theorem TypeTable.mem_of_layout? {a : Atom} {l : Layout} (h : types.layout? a = some l) :
    ∃ name, (name, l) ∈ types.entries := by
  cases a with
  | text name => exact ⟨name, Table.find?_eq_some_iff.mp h⟩
  | none => cases h
  | int n => cases h

/-- The slots of a type are its leaves, at the offset and under the path that were given. -/
theorem TypeTable.items_slots (t : TypeExpr) (offset : Int) (path : List Step) :
    (types.slots t offset path).items.toList = (types.leaves t 0 []).items.toList.map
      fun l => ⟨pathName (path ++ l.path), offset + l.offset⟩ := by
  rw [slots_eq_map, Emission.map_map, Emission.toList_items_map]
  rfl

/-- What holds of the names of all members holds of the steps of every path. -/
theorem IsLeafPath.forall_steps {P : Step → Prop} {p : List Step} (h : IsLeafPath types t p)
    (hmembers : ∀ e ∈ types.entries, ∀ m ∈ e.2.members.entries, P (.member m.1))
    (hindex : ∀ i, P (.index i)) : ∀ s ∈ p, P s := by
  induction h with
  | scalar h => exact fun s hs => absurd hs List.not_mem_nil
  | step down rest ih =>
    refine List.forall_mem_cons.mpr ⟨?_, ih⟩
    cases down with
    | member head notArray layout mem =>
      obtain ⟨name, hentry⟩ := TypeTable.mem_of_layout? layout
      exact hmembers _ hentry _ mem
    | index below => exact hindex _

theorem IsLeafPath.isPlain {p : List Step} (hplain : types.HasPlainNames) (h : IsLeafPath types t p) :
    ∀ s ∈ p, s.IsPlain :=
  h.forall_steps hplain fun _ => trivial

/-- The leaves of a type have different names under any path. -/
theorem Lists.nodup_names (hplain : types.HasPlainNames) {ls : List Leaf} (h : Lists types t ls)
    (steps : List Step) : (ls.map fun l => pathName (steps ++ l.path)).Nodup := by
  rw [List.Nodup, List.pairwise_map]
  refine h.ordered.imp_of_mem fun {l k} hl hk hlk => ?_
  have hpath : ∀ l ∈ ls, ∀ s ∈ l.path, s.IsPlain := fun l hl =>
    (h.sound l hl).isLeafPath.isPlain hplain
  exact fun heq => hlk.ne (eq_of_pathName_eq (hpath l hl) (hpath k hk) heq)

end CpuTrace
