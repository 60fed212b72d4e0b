import CpuTrace.Proofs.OpenStatements
import Mathlib

/-!
# Variables

What the lines of a dump do to the variables that a reader collects. A line that declares a variable or
a parameter adds one to those of the unit, if it has a name, a line and a type (`localOf?`). A line that
starts a unit publishes the variables of the unit before it, and any other line leaves them alone.
`Collects` says this once for one line, and `collects_of_run_readLine` that every line does it which is
read without a fault.

Publishing puts the local variables of the unit after those of all units, and leaves them with the unit
as well (`collected_of_run_publish`). The start of a unit then puts them there again
(`collected_of_run_startUnit`).
-/

namespace CpuTrace.Dump

/-! ## Collected variables -/

/-- The variables that a reader has collected, and how it reads numbers. -/
structure Collected where
  /-- all published local variables -/
  locals : List Local
  /-- the local variables of the current unit -/
  unitLocals : List Local
  /-- all published global variables -/
  globals : Table String Variable
  /-- the global variables of the current unit -/
  unitGlobals : Table String Variable
  /-- how sizes and lines are written -/
  radix : Radix

/-- What a reader has collected. -/
def Reader.collected (r : Reader) : Collected :=
  ⟨r.locals, r.unitLocals, r.globals, r.unitGlobals, r.radix⟩

/-- What a reader has collected, and what its ids stand for. -/
def Reader.collectedWithIds (r : Reader) : Collected × IdTable := (r.collected, r.ids)

theorem collectedWithIds_setUnitLayout (r : Reader) (name : String) (l : Layout) :
    (r.setUnitLayout name l).collectedWithIds = r.collectedWithIds := by
  rw [Reader.setUnitLayout]
  split <;> rfl

theorem fixes_resolveEntry (name : String) : Fixes Reader.collectedWithIds (resolveEntry name) := by
  refine Fixes.get_bind fun r v r' h => ?_
  dsimp only at h
  split at h
  · cases h
    rfl
  · simp only [EStateM.run_bind, EStateM.run_set] at h
    split at h
    · cases h
    · cases h
      exact collectedWithIds_setUnitLayout ..

/-- Resolving the structures of a unit leaves its variables and its ids. -/
theorem fixes_resolveUnit : Fixes Reader.collectedWithIds resolveUnit :=
  Fixes.bind .get fun _ => Fixes.forM fixes_resolveEntry _

section Publish

variable {r r' : Reader}

/-- **Publishing** puts the variables of the unit to those of all units, without their references. -/
theorem collected_of_run_publish (h : publish.run r = .ok () r') : ∃ vs,
    resolveLocals r.ids r.unitLocals = .ok vs ∧
      r'.collected = ⟨r.locals ++ vs, vs, r.joinedGlobals, .ofList r.resolvedGlobals, r.radix⟩ := by
  obtain ⟨_, r₁, hunit, h₁⟩ := run_bind_eq_ok_iff.mp h
  obtain ⟨hcollected, hids⟩ := Prod.mk.inj (fixes_resolveUnit _ _ _ hunit)
  obtain ⟨hlocals, hunitLocals, hglobals, hunitGlobals, hradix⟩ := Collected.mk.inj hcollected
  obtain ⟨_, r₂, htypes, h₂⟩ := run_bind_eq_ok_iff.mp h₁
  cases htypes
  obtain ⟨_, r₃, hrun₃, h₃⟩ := run_bind_eq_ok_iff.mp h₂
  obtain ⟨-, rfl⟩ := run_publishGlobals.mp hrun₃
  obtain ⟨_, r₄, hrun₄, h₄⟩ := run_bind_eq_ok_iff.mp h₃
  obtain ⟨vs, hvs, rfl⟩ := run_publishLocals.mp hrun₄
  obtain ⟨_, r₅, hprune, hmerge⟩ := run_bind_eq_ok_iff.mp h₄
  obtain ⟨-, rfl⟩ := run_prune.mp hprune
  obtain ⟨-, rfl⟩ := run_mergeEnums.mp hmerge
  refine ⟨vs, hids ▸ hunitLocals ▸ hvs, ?_⟩
  simp only [Reader.collected, Reader.withTypes, Reader.publishTypes, Reader.joinedGlobals,
    Reader.resolvedGlobals, hlocals, hglobals, hunitGlobals, hradix, hids]

/-- **The start of a unit** puts the local variables of the unit before it there twice: they are still
with that unit when it has been published. -/
theorem collected_of_run_startUnit (h : startUnit.run r = .ok () r') : ∃ vs,
    resolveLocals r.ids r.unitLocals = .ok vs ∧
      r'.collected = ⟨r.locals ++ vs ++ vs, [], r.joinedGlobals, ∅, r.radix⟩ := by
  obtain ⟨_, r₁, hpublish, hclear⟩ := run_bind_eq_ok_iff.mp h
  obtain ⟨vs, hvs, hcollected⟩ := collected_of_run_publish hpublish
  obtain ⟨hlocals, hunitLocals, hglobals, -, hradix⟩ := Collected.mk.inj hcollected
  cases hclear
  refine ⟨vs, hvs, ?_⟩
  simp only [Reader.collected, hlocals, hunitLocals, hglobals, hradix]

end Publish

/-! ## Statements -/

section Statements

variable {s : Statement}

theorem collected_setUnitLayout (r : Reader) (name : String) (l : Layout) :
    (r.setUnitLayout name l).collected = r.collected :=
  congrArg Prod.fst (collectedWithIds_setUnitLayout r name l)

theorem fixes_openNamed : Fixes Reader.collected (openNamed s) := by
  refine Fixes.bind (.ofExcept _) fun name => ?_
  exact Fixes.bind (.modify fun _ => rfl) fun _ => Fixes.pure name

/-- A named type, and the size that it may have. -/
theorem fixes_openNamed_bind {f : String → Int → Reader → Reader}
    (hf : ∀ name size r, (f name size r).collected = r.collected) :
    Fixes Reader.collected (do
      let name ← openNamed s
      unless s.isAnnouncement do
        let size ← ofExcept (s.attributes.number (← get).radix "DW_AT_byte_size")
        modify (f name size)) := by
  refine Fixes.bind fixes_openNamed fun name => ?_
  split
  · exact Fixes.pure _
  · refine Fixes.bind .get fun _ => Fixes.bind (.ofExcept _) fun size => ?_
    exact Fixes.modify (hf name size)

/-- A bound leaves what has been collected. -/
theorem fixes_declareBound (p : String) : Fixes Reader.collected (declareBound p s) := by
  have helement : ∀ count : Int, Fixes Reader.collected (do
      let element ← ofExcept ((← get).ids.get p)
      modify fun r => r.declare p (.array count element) : ReadM Unit) := fun count =>
    Fixes.bind .get fun _ => Fixes.bind (.ofExcept _) fun _ => Fixes.modify fun _ => rfl
  rw [declareBound]
  split
  · exact Fixes.bind (.ofExcept _) helement
  · exact Fixes.bind (.pure _) helement

/-- **Statements leave the variables alone**, but for the start of a unit and for variables. -/
theorem fixes_declare (hunit : Tag.ofKind s.kind ≠ .compileUnit) (hdatum : Tag.ofKind s.kind ≠ .datum)
    (parent : Option Frame) : Fixes Reader.collected (declare s parent) := by
  rw [declare.eq_def]
  cases htag : Tag.ofKind s.kind <;> dsimp only
  case compileUnit => exact (hunit htag).elim
  case datum => exact (hdatum htag).elim
  case struct | union => exact fixes_openNamed_bind fun _ _ _ => rfl
  case enumeration => exact fixes_openNamed_bind fun _ _ _ => rfl
  case array => exact Fixes.bind (.ofExcept _) fun _ => Fixes.modify fun _ => rfl
  case base =>
    exact Fixes.bind .get fun _ => Fixes.bind (.ofExcept _) fun _ => Fixes.modify fun _ => rfl
  case pointer | qualifier | blank | synonym => exact Fixes.modify fun _ => rfl
  case member =>
    split
    · split
      · exact fixes_declareStructMember collected_setUnitLayout _
      · exact fixes_declareUnionMember collected_setUnitLayout _
      · exact Fixes.pure _
    · exact Fixes.pure _
  case enumerator =>
    split
    · split
      · exact fixes_declareEnumerator (fun _ _ => rfl) _
      · exact Fixes.pure _
    · exact Fixes.pure _
  case bound =>
    split
    · split
      · exact fixes_declareBound _
      · exact Fixes.pure _
    · exact Fixes.pure _
  case other => exact Fixes.pure _

end Statements

/-! ## Lines -/

/-- The local variable that attributes describe, if they give its name, line, file and type. -/
def Attributes.local? (a : Attributes) (radix : Radix) : Option Local := do
  let name ← a.find? "DW_AT_name"
  let line ← (a.number radix "DW_AT_decl_line").toOption
  let file ← (Text.words (← (a.text "DW_AT_decl_file").toOption))[1]?
  let type ← a.find? "DW_AT_type"
  return ⟨name, line, file, type⟩

/-- Whether attributes have a name, a line and a type. -/
def Attributes.isLocal (a : Attributes) : Bool :=
  a.contains "DW_AT_name" && a.contains "DW_AT_decl_line" && a.contains "DW_AT_type"

/-- The variable that a line declares, its type as it stands in the dump. -/
def localOf? (radix : Radix) (line : String) : Option Local :=
  match Line.parse? line with
  | some l => if isLocalKind l.header.kind then l.values.local? radix else none
  | none => none

/-- Whether a line declares a variable or a parameter that has a name, a line and a type. -/
def declaresLocal (line : String) : Bool :=
  match Line.parse? line with
  | some l => isLocalKind l.header.kind && l.values.isLocal
  | none => false

/-- How numbers are read from a line on. -/
def radixAt (radix : Radix) (line : String) : Radix :=
  match Line.parse? line with
  | some l => l.header.radix radix
  | none => radix

section Attributes

variable {a : Attributes} {radix : Radix} {v : Local} {key : String} {t : TypeExpr}

theorem Attributes.expr_eq_ok_iff : a.expr key = .ok t ↔ a.find? key = some t := by
  rw [Attributes.expr]
  rcases a.find? key with _ | u <;> simp

/-- What a variable takes from its attributes. -/
theorem Attributes.local?_eq_some_iff : a.local? radix = some v ↔
    a.find? "DW_AT_name" = some v.name ∧ a.number radix "DW_AT_decl_line" = .ok v.line ∧
      (∃ files, a.text "DW_AT_decl_file" = .ok files ∧ (Text.words files)[1]? = some v.file) ∧
      a.find? "DW_AT_type" = some v.type := by
  have htoOption : ∀ {α : Type} {x : Except Fault α} {b : α}, x.toOption = some b ↔ x = .ok b := by
    intro α x b
    rcases x with e | c <;> simp [Except.toOption]
  simp only [Attributes.local?, Option.bind_eq_bind, Option.bind_eq_some_iff, htoOption]
  constructor
  · rintro ⟨name, hname, line, hline, files, hfiles, file, hfile, type, htype, h⟩
    cases h
    exact ⟨hname, hline, ⟨files, hfiles, hfile⟩, htype⟩
  · rintro ⟨hname, hline, ⟨files, hfiles, hfile⟩, htype⟩
    exact ⟨_, hname, _, hline, _, hfiles, _, hfile, _, htype, rfl⟩

theorem Attributes.isLocal_of_local? (h : a.local? radix = some v) : a.isLocal = true := by
  obtain ⟨hname, hline, -, htype⟩ := Attributes.local?_eq_some_iff.mp h
  have hcontains : a.contains "DW_AT_decl_line" = true := by
    rw [Attributes.number, Attributes.expr] at hline
    rcases hfind : a.find? "DW_AT_decl_line" with _ | u
    · rw [hfind] at hline
      cases hline
    · exact contains_of_find? hfind
  simp only [Attributes.isLocal, contains_of_find? hname, hcontains, contains_of_find? htype,
    Bool.and_self]

end Attributes

section Lines

variable {line : String} {l : Line} {r r' : Reader}

/-- A variable or a parameter is added to those of the unit, if it has what it takes. -/
theorem of_run_declareLocal {a : Attributes} (h : (declareLocal a).run r = .ok () r') :
    r' = { r with unitLocals := r.unitLocals ++ (a.local? r.radix).toList } ∧
      (a.local? r.radix).isSome = a.isLocal := by
  rw [declareLocal, ← Attributes.isLocal] at h
  split at h
  · next hlocal =>
    obtain ⟨name, r₁, hrun₁, h₁⟩ := run_bind_eq_ok_iff.mp h
    obtain ⟨hname, rfl⟩ := run_ofExcept_eq_ok_iff.mp hrun₁
    rw [run_bind_of_eq (EStateM.run_get _)] at h₁
    obtain ⟨line, r₂, hrun₂, h₂⟩ := run_bind_eq_ok_iff.mp h₁
    obtain ⟨hline, rfl⟩ := run_ofExcept_eq_ok_iff.mp hrun₂
    obtain ⟨text, r₃, hrun₃, h₃⟩ := run_bind_eq_ok_iff.mp h₂
    obtain ⟨htext, rfl⟩ := run_ofExcept_eq_ok_iff.mp hrun₃
    dsimp only at h₃
    split at h₃
    · next file hfile =>
      rw [run_bind_of_eq (EStateM.run_pure _ _)] at h₃
      obtain ⟨type, r₄, hrun₄, h₄⟩ := run_bind_eq_ok_iff.mp h₃
      obtain ⟨htype, rfl⟩ := run_ofExcept_eq_ok_iff.mp hrun₄
      cases h₄
      have hsome : a.local? r₄.radix = some ⟨name, line, file, type⟩ :=
        Attributes.local?_eq_some_iff.mpr ⟨Attributes.expr_eq_ok_iff.mp hname, hline,
          ⟨text, htext, hfile⟩, Attributes.expr_eq_ok_iff.mp htype⟩
      rw [hsome, hlocal]
      exact ⟨rfl, rfl⟩
    · cases h₃
  · next hlocal =>
    cases h
    have hnone : a.local? r.radix = none :=
      Option.eq_none_iff_forall_ne_some.mpr fun v hv => hlocal (Attributes.isLocal_of_local? hv)
    rw [hnone, Bool.eq_false_iff.mpr hlocal, Option.toList_none, List.append_nil]
    exact ⟨rfl, rfl⟩

theorem ofKind_of_isLocalKind {kind : String} (h : isLocalKind kind = true) :
    Tag.ofKind kind = .datum ∨ Tag.ofKind kind = .other := by
  rw [isLocalKind, Bool.or_eq_true, beq_iff_eq, beq_iff_eq] at h
  rcases h with rfl | rfl
  · exact .inr rfl
  · exact .inl rfl

/-- What is a variable to the statements is one of those that are collected apart. -/
theorem isLocalKind_of_datum {kind : String} (h : Tag.ofKind kind = .datum) :
    isLocalKind kind = true := by
  rw [Tag.ofKind.eq_def] at h
  split at h
  case h_16 => rfl
  all_goals cases h

/-- **What a line does to the variables.** -/
inductive Collects (line : String) (r r' : Reader) : Prop
  /-- it starts a unit -/
  | start (starts : StartsUnit line) {vs : List Local}
    (resolves : resolveLocals r.ids r.unitLocals = .ok vs)
    (collected : r'.collected = ⟨r.locals ++ vs ++ vs, [], r.joinedGlobals, ∅, radixAt r.radix line⟩)
  /-- it adds what it declares to the unit, one variable if it has what it takes -/
  | inside (starts : ¬ StartsUnit line)
    (single : (localOf? (radixAt r.radix line) line).isSome = declaresLocal line)
    (collected : r'.collected = ⟨r.locals, r.unitLocals ++ (localOf? (radixAt r.radix line) line).toList,
      r.globals, r.unitGlobals, radixAt r.radix line⟩)

/-- A line that starts a unit declares no variable. -/
theorem isLocalKind_of_startsUnit (h : StartsUnit line) (hparse : Line.parse? line = some l) :
    isLocalKind l.header.kind = false := by
  obtain ⟨l', hparse', hkind⟩ := h
  cases hparse.symm.trans hparse'
  refine Bool.eq_false_iff.mpr fun hlocal => ?_
  rcases ofKind_of_isLocalKind hlocal with h | h <;> rw [hkind] at h <;> cases h

theorem localOf?_eq_none (hparse : Line.parse? line = some l)
    (hlocal : isLocalKind l.header.kind = false) (radix : Radix) : localOf? radix line = none := by
  rw [localOf?, hparse]
  exact if_neg (Bool.eq_false_iff.mp hlocal)

/-- So nothing is collected there. -/
theorem localOf?_of_startsUnit (h : StartsUnit line) (radix : Radix) : localOf? radix line = none := by
  obtain ⟨l, hparse, -⟩ := id h
  exact localOf?_eq_none hparse (isLocalKind_of_startsUnit h hparse) radix

theorem declaresLocal_of_startsUnit (h : StartsUnit line) : declaresLocal line = false := by
  obtain ⟨l, hparse, -⟩ := id h
  rw [declaresLocal, hparse]
  exact Bool.and_eq_false_iff.mpr (.inl (isLocalKind_of_startsUnit h hparse))

/-- A statement other than a variable leaves the variables alone, or it starts a unit. -/
theorem collected_of_run_readStatement {s : Statement} (hkind : isLocalKind s.kind = false)
    (h : (readStatement s).run r = .ok () r') :
    (Tag.ofKind s.kind ≠ .compileUnit ∧ r'.collected = r.collected) ∨
      Tag.ofKind s.kind = .compileUnit ∧ ∃ vs, resolveLocals r.ids r.unitLocals = .ok vs ∧
        r'.collected = ⟨r.locals ++ vs ++ vs, [], r.joinedGlobals, ∅, r.radix⟩ := by
  obtain ⟨level, r₁, -, hopen, hdeclare⟩ := of_run_readStatement h
  obtain ⟨outer, -, rfl⟩ := of_run_openFrame hopen
  by_cases hunit : Tag.ofKind s.kind = .compileUnit
  · rw [declare.eq_def, hunit] at hdeclare
    have hstart := collected_of_run_startUnit hdeclare
    exact .inr ⟨hunit, hstart⟩
  · have hdatum : Tag.ofKind s.kind ≠ .datum := fun hdatum => by
      rw [isLocalKind_of_datum hdatum] at hkind
      cases hkind
    have hfixed := fixes_declare hunit hdatum _ _ _ _ hdeclare
    exact .inl ⟨hunit, hfixed⟩

/-- **Every line** does this. -/
theorem collects_of_run_readLine (h : (readLine line).run r = .ok () r') : Collects line r r' := by
  rcases hparse : Line.parse? line with _ | l
  · rw [readLine, hparse] at h
    cases h
    refine .inside ?_ ?_ ?_
    · rintro ⟨l, hl, -⟩
      cases hparse.symm.trans hl
    · rw [localOf?, declaresLocal, hparse]
      rfl
    · rw [localOf?, radixAt, hparse, Option.toList_none, List.append_nil]
      rfl
  have hradix : radixAt r.radix line = l.header.radix r.radix := by
    rw [radixAt, hparse]
  rcases hlocal : isLocalKind l.header.kind
  · -- a statement
    rw [run_readLine_of_parse? hparse hlocal] at h
    rcases collected_of_run_readStatement hlocal h with ⟨hunit, hcollected⟩ | ⟨hunit, vs, hvs, hcollected⟩
    · refine .inside ?_ ?_ ?_
      · rintro ⟨l', hl', hunit'⟩
        cases hparse.symm.trans hl'
        exact hunit hunit'
      · rw [localOf?_eq_none hparse hlocal, declaresLocal, hparse]
        simp only [hlocal, Bool.false_and, Option.isSome_none]
      · rw [hcollected, localOf?_eq_none hparse hlocal, Option.toList_none, List.append_nil, hradix]
        rfl
    · exact .start ⟨l, hparse, hunit⟩ hvs (hradix ▸ hcollected)
  · -- a variable or a parameter
    rw [run_readLine_of_local hparse hlocal] at h
    obtain ⟨rfl, hsingle⟩ := of_run_declareLocal h
    have hvalue : localOf? (radixAt r.radix line) line = l.values.local? (l.header.radix r.radix) := by
      rw [hradix, localOf?, hparse]
      exact if_pos hlocal
    refine .inside ?_ ?_ ?_
    · intro hstarts
      rw [isLocalKind_of_startsUnit hstarts hparse] at hlocal
      cases hlocal
    · rw [hvalue, hsingle, declaresLocal, hparse]
      simp only [hlocal, Bool.true_and]
    · rw [hvalue, hradix]
      rfl

end Lines

end CpuTrace.Dump
