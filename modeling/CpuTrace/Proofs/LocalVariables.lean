import CpuTrace.Proofs.Changes
import CpuTrace.Proofs.Variables
import Mathlib

/-!
# Local variables

A dump divides into units (`units`), and each unit has the variables that its lines declare, with the
types that their references lead to at the end of the unit (`UnitVariables`). After a dump has been read
and published, the local variables are those of its units in order, but those of every unit except the
last are there twice (`locals_of_read`). The first time they come from publishing, the second time from
the start of the next unit.
-/

namespace CpuTrace.Dump

/-! ## Units of a dump -/

instance (line : String) : Decidable (StartsUnit line) :=
  match h : Line.parse? line with
  | none => isFalse fun ⟨_, hl, _⟩ => nomatch h.symm.trans hl
  | some l => decidable_of_iff (Tag.ofKind l.header.kind = .compileUnit)
    ⟨fun hkind => ⟨l, h, hkind⟩, fun ⟨_, hl, hkind⟩ => Option.some.inj (h.symm.trans hl) ▸ hkind⟩

/-- The units of some lines, of which the first has begun. -/
def unitsFrom (current : List String) : List String → List (List String)
  | [] => [current]
  | line :: lines =>
    if StartsUnit line then current :: unitsFrom [line] lines else unitsFrom (current ++ [line]) lines

/-- The units of a dump: the lines before the first start of a unit, and from each start the lines up
to the next. -/
def units (lines : List String) : List (List String) := unitsFrom [] lines

/-- Units are the lines, in their order. -/
theorem flatten_unitsFrom (current lines : List String) :
    (unitsFrom current lines).flatten = current ++ lines := by
  induction lines generalizing current with
  | nil => simp [unitsFrom]
  | cons line lines ih =>
    rw [unitsFrom]
    split
    · rw [List.flatten_cons, ih, List.singleton_append]
    · rw [ih, List.append_assoc, List.singleton_append]

/-! ## Variables of a unit -/

/-- The variables that lines declare, in order, with their types as they stand in the dump. -/
def variablesFrom (radix : Radix) : List String → List Local
  | [] => []
  | line :: lines =>
    (localOf? (radixAt radix line) line).toList ++ variablesFrom (radixAt radix line) lines

/-- How numbers are read after some lines. -/
def radixAfter (lines : List String) : Radix := lines.foldl radixAt .decimal

/-- What the ids stand for after some lines. -/
def idsAfter (lines : List String) : IdTable := (after (readLines lines) {}).ids

/-- The same variable, with the type that its references lead to. -/
def Local.Resolves (ids : IdTable) (v w : Local) : Prop :=
  ids.Unfolds v.type w.type ∧ w = { v with type := w.type }

/-- **The variables of units** that come after some lines. -/
inductive UnitVariables : List String → List (List String) → List (List Local) → Prop
  /-- no unit is left -/
  | nil (before : List String) : UnitVariables before [] []
  /-- the variables of a unit have the types that their references lead to at its end -/
  | cons {before unit : List String} {vs : List Local} {us : List (List String)}
    {vss : List (List Local)}
    (first : List.Forall₂ (Local.Resolves (idsAfter (before ++ unit)))
      (variablesFrom (radixAfter before) unit) vs)
    (rest : UnitVariables (before ++ unit) us vss) : UnitVariables before (unit :: us) (vs :: vss)

/-- Variables are collected line by line, with the radix so far. -/
theorem variablesFrom_append (radix : Radix) (lines lines' : List String) :
    variablesFrom radix (lines ++ lines') =
      variablesFrom radix lines ++ variablesFrom (lines.foldl radixAt radix) lines' := by
  induction lines generalizing radix with
  | nil => rfl
  | cons line lines ih =>
    rw [List.cons_append, variablesFrom, variablesFrom, ih, List.append_assoc]
    rfl

/-- Resolving takes the references out of every variable. -/
theorem forall₂_of_resolveLocals {ids : IdTable} {vs : List Local} : ∀ {ws : List Local},
    resolveLocals ids vs = .ok ws → List.Forall₂ (Local.Resolves ids) vs ws := by
  induction vs with
  | nil =>
    intro ws h
    cases h
    exact .nil
  | cons v vs ih =>
    intro ws h
    have hcons : resolveLocals ids (v :: vs) = (do
        let w ← (do return { v with type := ← ids.resolve v.type })
        return w :: (← resolveLocals ids vs)) := List.mapM_cons
    rw [hcons] at h
    rcases ht : ids.resolve v.type with e | t
    · rw [ht] at h
      cases h
    rcases hvs : resolveLocals ids vs with e | ws'
    · rw [ht, hvs] at h
      cases h
    rw [ht, hvs] at h
    cases h
    exact .cons ⟨IdTable.resolve_eq_ok_iff.mp ht, rfl⟩ (ih hvs)

/-! ## Reading a dump -/

/-- A reader inside a unit: it has read some lines without a fault, and its variables are those of the
current unit. -/
structure Reader.IsInUnit (r : Reader) (before current : List String) : Prop where
  /-- it has read the lines before the unit and those of the unit -/
  reads : (readLines (before ++ current)).run {} = .ok () r
  /-- it has the variables of the unit -/
  unitLocals : r.unitLocals = variablesFrom (radixAfter before) current
  /-- it reads numbers as the lines say -/
  radix : r.radix = radixAfter (before ++ current)

section Reading

variable {before current lines : List String} {line : String} {r r' : Reader}

theorem isInUnit_default : Reader.IsInUnit {} [] [] := ⟨rfl, rfl, rfl⟩

theorem radixAfter_concat (lines : List String) (line : String) :
    radixAfter (lines ++ [line]) = radixAt (radixAfter lines) line := by
  rw [radixAfter, List.foldl_append]
  rfl

/-- One more line is read after the others. -/
theorem Reader.IsInUnit.run_concat (h : r.IsInUnit before current)
    (hline : (readLine line).run r = .ok () r') :
    (readLines (before ++ current ++ [line])).run {} = .ok () r' := by
  rw [run_readLines_append h.reads, run_readLines_cons hline]
  rfl

/-- The ids at the end of a unit are those of the reader. -/
theorem Reader.IsInUnit.idsAfter (h : r.IsInUnit before current) :
    idsAfter (before ++ current) = r.ids := by
  rw [Dump.idsAfter, after, h.reads]

/-- **A unit starts**: its variables are still to come. -/
theorem Reader.IsInUnit.start (h : r.IsInUnit before current) (hstarts : StartsUnit line)
    (hline : (readLine line).run r = .ok () r') (hnone : r'.unitLocals = [])
    (hradix : r'.radix = radixAt r.radix line) : r'.IsInUnit (before ++ current) [line] := by
  refine ⟨h.run_concat hline, ?_, ?_⟩
  · rw [hnone, variablesFrom, localOf?_of_startsUnit hstarts]
    rfl
  · rw [hradix, h.radix, radixAfter_concat]

/-- **A unit goes on** with what the line declares. -/
theorem Reader.IsInUnit.inside (h : r.IsInUnit before current)
    (hline : (readLine line).run r = .ok () r')
    (hvariables : r'.unitLocals = r.unitLocals ++ (localOf? (radixAt r.radix line) line).toList)
    (hradix : r'.radix = radixAt r.radix line) : r'.IsInUnit before (current ++ [line]) := by
  have hfold : current.foldl radixAt (radixAfter before) = r.radix := by
    rw [h.radix, radixAfter, radixAfter, List.foldl_append]
  refine ⟨?_, ?_, ?_⟩
  · rw [← List.append_assoc]
    exact h.run_concat hline
  · rw [hvariables, h.unitLocals, variablesFrom_append, variablesFrom, variablesFrom, hfold,
      List.append_nil]
  · rw [hradix, h.radix, ← List.append_assoc, radixAfter_concat]

/-- **The variables of a dump**, from any place in it on. -/
theorem exists_unitVariables (lines : List String) : ∀ {before current : List String} {r r' : Reader},
    r.IsInUnit before current → (readLines lines >>= fun _ => publish).run r = .ok () r' →
    ∃ vss vs, UnitVariables before (unitsFrom current lines) (vss ++ [vs]) ∧
      (vss ++ [vs]).flatten.length = r.unitLocals.length + lines.countP declaresLocal ∧
      r'.locals = r.locals ++ vss.flatMap (fun us => us ++ us) ++ vs := by
  induction lines with
  | nil =>
    intro before current r r' hr h
    obtain ⟨vs, hvs, hcollected⟩ := collected_of_run_publish h
    have hfirst := forall₂_of_resolveLocals hvs
    have hlength := hfirst.length_eq
    rw [hr.unitLocals, ← hr.idsAfter] at hfirst
    refine ⟨[], vs, .cons hfirst (.nil _), ?_, ?_⟩
    · simp [hlength]
    · exact (congrArg Collected.locals hcollected).trans (by simp)
  | cons line lines ih =>
    intro before current r r' hr h
    obtain ⟨_, r₂, hlines, hpublish⟩ := run_bind_eq_ok_iff.mp h
    obtain ⟨_, r₁, hline, hlines⟩ := run_bind_eq_ok_iff.mp hlines
    have hrest : (readLines lines >>= fun _ => publish).run r₁ = .ok () r' :=
      run_bind_eq_ok_iff.mpr ⟨_, _, hlines, hpublish⟩
    cases collects_of_run_readLine hline with
    | @start starts us resolves collected =>
      obtain ⟨hlocals, hnone, -, -, hradix⟩ := Collected.mk.inj collected
      obtain ⟨vss, vs, hvariables, hcount, heq⟩ := ih (hr.start starts hline hnone hradix) hrest
      have hfirst := forall₂_of_resolveLocals resolves
      have hlength := hfirst.length_eq
      rw [hr.unitLocals, ← hr.idsAfter] at hfirst
      have hdeclares : declaresLocal line = false := declaresLocal_of_startsUnit starts
      refine ⟨us :: vss, vs, ?_, ?_, ?_⟩
      · rw [unitsFrom, if_pos starts]
        exact .cons hfirst hvariables
      · rw [hnone, List.length_nil, Nat.zero_add] at hcount
        rw [List.cons_append, List.flatten_cons, List.length_append, hcount, hlength,
          List.countP_cons_of_neg (by simp [hdeclares])]
      · rw [heq, hlocals]
        simp only [List.flatMap_cons, List.append_assoc]
    | inside starts single collected =>
      obtain ⟨hlocals, hvariables, -, -, hradix⟩ := Collected.mk.inj collected
      obtain ⟨vss, vs, hunits, hcount, heq⟩ := ih (hr.inside hline hvariables hradix) hrest
      refine ⟨vss, vs, ?_, ?_, ?_⟩
      · rw [unitsFrom, if_neg starts]
        exact hunits
      · rw [hcount, hvariables, List.length_append, List.countP_cons, ← single]
        rcases localOf? (radixAt r.radix line) line with _ | v
        · simp
        · simp only [Option.toList_some, List.length_singleton, Option.isSome_some, if_true]
          omega
      · rw [heq, hlocals]

/-- The notation after some lines that were read. -/
theorem radix_of_run_readLines : ∀ {r : Reader}, (readLines lines).run r = .ok () r' →
    r'.radix = lines.foldl radixAt r.radix := by
  induction lines with
  | nil =>
    intro r h
    cases h
    rfl
  | cons line lines ih =>
    intro r h
    obtain ⟨_, r₁, hline, hlines⟩ := run_bind_eq_ok_iff.mp h
    have hradix : r₁.radix = radixAt r.radix line := by
      cases collects_of_run_readLine hline with
      | start starts resolves collected => exact congrArg Collected.radix collected
      | inside starts single collected => exact congrArg Collected.radix collected
    rw [ih hlines, hradix]
    rfl

/-- A line that has what it takes declares a variable. -/
theorem exists_localOf? {back : List String} (h : (readLines (before ++ line :: back)).run {} = .ok () r)
    (hline : declaresLocal line = true) :
    ∃ v, localOf? (radixAfter (before ++ [line])) line = some v := by
  rw [readLines_append] at h
  obtain ⟨_, r₁, hbefore, hrest⟩ := run_bind_eq_ok_iff.mp h
  obtain ⟨_, r₂, hrun, -⟩ := run_bind_eq_ok_iff.mp hrest
  have hradix := radix_of_run_readLines hbefore
  cases collects_of_run_readLine hrun with
  | start starts resolves collected =>
    rw [declaresLocal_of_startsUnit starts] at hline
    cases hline
  | inside starts single collected =>
    rw [hline, hradix] at single
    rw [radixAfter_concat]
    exact Option.isSome_iff_exists.mp single

end Reading

/-- A line declares a variable in its unit, and its references lead to the type of another. -/
def DeclaresAs (lines : List String) (line : String) (v w : Local) : Prop :=
  ∃ earlier front back later, units lines = earlier ++ (front ++ line :: back) :: later ∧
    localOf? (radixAfter (earlier.flatten ++ front ++ [line])) line = some v ∧
    Local.Resolves (idsAfter (earlier.flatten ++ (front ++ line :: back))) v w

/-- A line that declares a variable adds it, wherever it stands. -/
theorem mem_variablesFrom {radix : Radix} {front back : List String} {line : String} {v : Local}
    (h : localOf? (radixAt (front.foldl radixAt radix) line) line = some v) :
    v ∈ variablesFrom radix (front ++ line :: back) := by
  rw [variablesFrom_append, variablesFrom, h]
  exact List.mem_append_right _ (List.mem_append_left _ (List.mem_singleton_self v))

/-- The variables of a unit are among those of all units. -/
theorem UnitVariables.exists_mem {before : List String} {us : List (List String)}
    {vss : List (List Local)} (h : UnitVariables before us vss) :
    ∀ {earlier later : List (List String)} {unit : List String}, us = earlier ++ unit :: later →
      ∀ v ∈ variablesFrom (radixAfter (before ++ earlier.flatten)) unit,
        ∃ w ∈ vss.flatten, Local.Resolves (idsAfter (before ++ earlier.flatten ++ unit)) v w := by
  induction h with
  | nil before =>
    intro earlier later unit hus
    simp at hus
  | @cons before unit' vs us vss first rest ih =>
    intro earlier later unit hus v hv
    rcases earlier with _ | ⟨u, earlier⟩
    · cases hus
      rw [List.flatten_nil, List.append_nil] at hv ⊢
      obtain ⟨w, hw, hresolves⟩ := exists_mem_of_forall₂ first hv
      exact ⟨w, List.mem_append_left _ hw, hresolves⟩
    · cases hus
      have hbefore : before ++ (unit' :: earlier).flatten = before ++ unit' ++ earlier.flatten := by
        rw [List.flatten_cons, List.append_assoc]
      rw [hbefore] at hv ⊢
      obtain ⟨w, hw, hresolves⟩ := ih rfl v hv
      exact ⟨w, List.mem_append_right _ hw, hresolves⟩

/-- **Every line that has what it takes** gives a local variable of the dump. -/
theorem exists_mem_locals {lines : List String} {r : Reader}
    (h : (readLines lines >>= fun _ => publish).run {} = .ok () r) {line : String}
    (hmem : line ∈ lines) (hline : declaresLocal line = true) :
    ∃ v, ∃ w ∈ r.locals, DeclaresAs lines line v w := by
  obtain ⟨vss, vs, hvariables, -, hlocals⟩ := exists_unitVariables lines isInUnit_default h
  obtain ⟨_, r₁, hread, -⟩ := run_bind_eq_ok_iff.mp h
  have hflatten : (units lines).flatten = lines := flatten_unitsFrom [] lines
  rw [← hflatten] at hmem
  obtain ⟨unit, hunit, hmem⟩ := List.mem_flatten.mp hmem
  obtain ⟨earlier, later, hunits⟩ := List.append_of_mem hunit
  obtain ⟨front, back, rfl⟩ := List.append_of_mem hmem
  have hlines : lines = earlier.flatten ++ front ++ line :: (back ++ later.flatten) := by
    rw [← hflatten, hunits]
    simp
  rw [hlines] at hread
  obtain ⟨v, hv⟩ := exists_localOf? hread hline
  have hv' := hv
  rw [radixAfter_concat, radixAfter, List.foldl_append] at hv'
  obtain ⟨w, hw, hresolves⟩ := hvariables.exists_mem hunits v (mem_variablesFrom hv')
  refine ⟨v, w, ?_, earlier, front, back, later, hunits, hv, hresolves⟩
  rw [List.flatten_append, List.flatten_singleton, List.mem_append] at hw
  rw [hlocals, List.nil_append, List.mem_append]
  refine hw.imp_left fun hw => ?_
  obtain ⟨us, hus, hw⟩ := List.mem_flatten.mp hw
  exact List.mem_flatMap.mpr ⟨us, hus, List.mem_append_left _ hw⟩

/-- What is there twice is there once only if it is nothing. -/
theorem flatMap_twice_eq_flatten_iff {vss : List (List Local)} {vs : List Local} :
    vss.flatMap (fun us => us ++ us) ++ vs = (vss ++ [vs]).flatten ↔ ∀ us ∈ vss, us = [] := by
  have hlength : (vss.flatMap fun us => us ++ us).length = 2 * vss.flatten.length := by
    induction vss with
    | nil => rfl
    | cons us vss ih =>
      rw [List.flatMap_cons, List.flatten_cons]
      simp only [List.length_append, ih]
      omega
  constructor
  · intro h
    have hsame := congrArg List.length h
    rw [List.length_append, List.flatten_append, List.length_append, List.flatten_singleton,
      hlength] at hsame
    have hnone : vss.flatten = [] := List.eq_nil_of_length_eq_zero (by omega)
    exact List.flatten_eq_nil_iff.mp hnone
  · intro h
    have htwice : vss.flatMap (fun us => us ++ us) = [] :=
      List.flatMap_eq_nil_iff.mpr fun us hus => by rw [h us hus]; rfl
    rw [htwice, List.flatten_append, List.flatten_eq_nil_iff.mpr h, List.flatten_singleton]

/-- **Local variables after a dump** that is read and published without a fault. Each unit has one
variable for each of its lines that declare a variable or a parameter with a name, a line and a type, in
order. The variables of all units follow each other, those of every unit but the last twice. So they are
there once each exactly if no unit but the last has any. -/
theorem locals_of_read {lines : List String} {r : Reader}
    (h : (readLines lines >>= fun _ => publish).run {} = .ok () r) :
    ∃ vss vs, UnitVariables [] (units lines) (vss ++ [vs]) ∧
      (vss ++ [vs]).flatten.length = lines.countP declaresLocal ∧
      r.locals = vss.flatMap (fun us => us ++ us) ++ vs ∧
      (r.locals = (vss ++ [vs]).flatten ↔ ∀ us ∈ vss, us = []) := by
  obtain ⟨vss, vs, hvariables, hcount, hlocals⟩ := exists_unitVariables lines isInUnit_default h
  rw [List.length_nil, Nat.zero_add] at hcount
  rw [List.nil_append] at hlocals
  refine ⟨vss, vs, hvariables, hcount, hlocals, ?_⟩
  rw [hlocals]
  exact flatMap_twice_eq_flatten_iff

/-- Two units with a variable each, one of them a parameter. -/
def twoUnits : List String :=
  ["<0><0xb><DW_TAG_compile_unit>",
    "<1><0x10><DW_TAG_base_type> DW_AT_name<int>",
    "<1><0x20><DW_TAG_variable> DW_AT_name<x> DW_AT_decl_line<0x1> " ++
      "DW_AT_decl_file<1 a.c> DW_AT_type<<0x10>>",
    "<0><0x30><DW_TAG_compile_unit>",
    "<1><0x34><DW_TAG_base_type> DW_AT_name<char>",
    "<1><0x38><DW_TAG_formal_parameter> DW_AT_name<y> DW_AT_decl_line<0x2> " ++
      "DW_AT_decl_file<1 b.c> DW_AT_type<<0x34>>"]

theorem run_twoUnits : ∃ r : Reader, (readLines twoUnits >>= fun _ => publish).run {} = .ok () r ∧
    r.locals = [⟨.text "x", 1, "a.c", .named "int"⟩, ⟨.text "x", 1, "a.c", .named "int"⟩,
      ⟨.text "y", 2, "b.c", .named "char"⟩] :=
  exists_of_viewAfter? (by decide +kernel)

theorem locals_of_read_twoUnits : ∃ (r : Reader) (vss : List (List Local)) (vs : List Local),
    (readLines twoUnits >>= fun _ => publish).run {} = .ok () r ∧
      UnitVariables [] (units twoUnits) (vss ++ [vs]) ∧
      (vss ++ [vs]).flatten.length = twoUnits.countP declaresLocal ∧
      r.locals = vss.flatMap (fun us => us ++ us) ++ vs ∧ r.locals.length = 3 := by
  obtain ⟨r, hrun, hlocals⟩ := run_twoUnits
  obtain ⟨vss, vs, hvariables, hcount, htwice, -⟩ := locals_of_read hrun
  refine ⟨r, vss, vs, hrun, hvariables, hcount, htwice, ?_⟩
  rw [hlocals]
  rfl

/-- **Variables are not there once each**: the one of the first unit is there twice. -/
theorem locals_twoUnits : ∃ r : Reader, (readLines twoUnits >>= fun _ => publish).run {} = .ok () r ∧
    twoUnits.countP declaresLocal = 2 ∧
    r.locals = [⟨.text "x", 1, "a.c", .named "int"⟩, ⟨.text "x", 1, "a.c", .named "int"⟩,
      ⟨.text "y", 2, "b.c", .named "char"⟩] := by
  obtain ⟨r, hrun, hlocals⟩ := run_twoUnits
  exact ⟨r, hrun, by decide +kernel, hlocals⟩

end CpuTrace.Dump
