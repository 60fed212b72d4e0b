import CpuTrace.Proofs.LocalVariables
import Mathlib

/-!
# Global variables

A variable of a dump is global if it stands at level one and has an address (`globalOf?`). There is
a statement for global variables, and publishing and listing know them. But lines with variables are not
read as statements: they are collected as local variables, whatever their level and their location. So
no line of a dump gives a global variable, and the list of them is always empty (`globals_of_read`).
-/

namespace CpuTrace.Dump

/-- The name and the address of the global variable that a line declares: one at level one that has a
name, a type, a line, a file, and a location whose second word is the address. -/
def globalOf? (line : String) : Option (String × Int) := do
  let l ← Line.parse? line
  if l.header.kind = "DW_TAG_variable" ∧ l.header.level = "1" ∧ l.values.contains "DW_AT_type" ∧
      l.values.contains "DW_AT_decl_line" ∧ l.values.contains "DW_AT_decl_file" then
    let name ← l.attributes.find? "DW_AT_name"
    let location ← l.attributes.find? "DW_AT_location"
    let address ← (Numeral.read .marked (← (Text.words location)[1]?)).toOption
    return (name, address)
  else none

/-- A reader without global variables. -/
structure Reader.HasNoGlobals (r : Reader) : Prop where
  /-- none are published -/
  globals : r.globals = ∅
  /-- the unit has none -/
  unitGlobals : r.unitGlobals = ∅

section Reading

variable {line name : String} {lines : List String} {address : Int} {r r' : Reader}

theorem hasNoGlobals_default : Reader.HasNoGlobals {} := ⟨rfl, rfl⟩

/-- Publishing no variables gives none. -/
theorem Reader.HasNoGlobals.joinedGlobals (h : r.HasNoGlobals) : r.joinedGlobals = ∅ := by
  rw [Reader.joinedGlobals, Reader.resolvedGlobals, h.globals, h.unitGlobals]
  rfl

/-- **No line** gives a global variable. -/
theorem Reader.HasNoGlobals.readLine (h : r.HasNoGlobals)
    (hline : (readLine line).run r = .ok () r') : r'.HasNoGlobals := by
  cases collects_of_run_readLine hline with
  | start starts resolves collected =>
    obtain ⟨-, -, hglobals, hunitGlobals, -⟩ := Collected.mk.inj collected
    exact ⟨hglobals.trans h.joinedGlobals, hunitGlobals⟩
  | inside starts single collected =>
    obtain ⟨-, -, hglobals, hunitGlobals, -⟩ := Collected.mk.inj collected
    exact ⟨hglobals.trans h.globals, hunitGlobals.trans h.unitGlobals⟩

/-- **No line declares a global variable**: those that could are taken for local ones. -/
theorem Reader.HasNoGlobals.readLines : ∀ {r : Reader}, r.HasNoGlobals →
    (readLines lines).run r = .ok () r' → r'.HasNoGlobals := by
  induction lines with
  | nil =>
    intro r h hlines
    cases hlines
    exact h
  | cons line lines ih =>
    intro r h hlines
    obtain ⟨_, r₁, hline, hlines⟩ := run_bind_eq_ok_iff.mp hlines
    exact ih (h.readLine hline) hlines

/-- So none is published. -/
theorem Reader.HasNoGlobals.publish (h : r.HasNoGlobals) (hpublish : publish.run r = .ok () r') :
    r'.globals = ∅ := by
  obtain ⟨vs, -, hcollected⟩ := collected_of_run_publish hpublish
  exact (congrArg Collected.globals hcollected).trans h.joinedGlobals

/-- A line that declares a global variable has what it takes for a local one. -/
theorem of_globalOf? (h : globalOf? line = some (name, address)) : ∃ l, Line.parse? line = some l ∧
    l.header.kind = "DW_TAG_variable" ∧ l.values.find? "DW_AT_name" = some (.text name) ∧
      l.values.isLocal = true := by
  obtain ⟨l, hparse, h⟩ := Option.bind_eq_some_iff.mp h
  split at h
  · next hl =>
    obtain ⟨hkind, -, htype, hline, -⟩ := hl
    obtain ⟨name', hname, h⟩ := Option.bind_eq_some_iff.mp h
    obtain ⟨location, -, h⟩ := Option.bind_eq_some_iff.mp h
    obtain ⟨word, -, h⟩ := Option.bind_eq_some_iff.mp h
    obtain ⟨address', -, h⟩ := Option.bind_eq_some_iff.mp h
    cases h
    have hname' : l.values.find? "DW_AT_name" = some (.text name) := by
      rw [Line.values, Table.find?_mapValues, hname, Option.map_some]
    refine ⟨l, hparse, hkind, hname', ?_⟩
    simp only [Attributes.isLocal, contains_of_find? hname', htype, hline, Bool.and_self]
  · cases h

/-- A variable with an address is one of those that are taken for local. -/
theorem declaresLocal_of_globalOf? (h : globalOf? line = some (name, address)) :
    declaresLocal line = true := by
  obtain ⟨l, hparse, hkind, -, hlocal⟩ := of_globalOf? h
  rw [declaresLocal, hparse]
  simp only [hkind, hlocal, Bool.and_true]
  rfl

theorem name_of_globalOf? (h : globalOf? line = some (name, address)) {radix : Radix} {v : Local}
    (hv : localOf? radix line = some v) : v.name = .text name := by
  obtain ⟨l, hparse, hkind, hname, -⟩ := of_globalOf? h
  rw [localOf?, hparse] at hv
  dsimp only at hv
  split at hv
  · have hname' := (Attributes.local?_eq_some_iff.mp hv).1
    exact Option.some.inj (hname'.symm.trans hname)
  · cases hv

end Reading

/-- **Global variables after a dump** that is read and published without a fault: there are none, and
the listing shows none. What a line declares as a global variable is a local one instead, with its name
and the type that its references lead to. -/
theorem globals_of_read {lines : List String} {r r' : Reader}
    (hread : (readLines lines).run {} = .ok () r) (hpublish : publish.run r = .ok () r') :
    r'.globals = ∅ ∧
      describe.run r = .ok ("cpu_types = \x7b" :: r'.types.entries.flatMap layoutLines ++
        ["\x7d", "", "linux_gvars = \x7b", "\x7d"]) r' ∧
      ∀ line ∈ lines, ∀ name address, globalOf? line = some (name, address) →
        ∃ v, ∃ w ∈ r'.locals, DeclaresAs lines line v w ∧ w.name = .text name := by
  have hglobals := (hasNoGlobals_default.readLines hread).publish hpublish
  refine ⟨hglobals, ?_, fun line hmem name address hline => ?_⟩
  · have hlisting : describe.run r = .ok r'.listing r' := run_bind_of_eq hpublish
    rw [hlisting, Reader.listing, hglobals]
    simp [Table.entries_empty]
  · have hrun : (readLines lines >>= fun _ => publish).run {} = .ok () r' :=
      (run_bind_of_eq hread).trans hpublish
    obtain ⟨v, w, hw, hdeclares⟩ := exists_mem_locals hrun hmem (declaresLocal_of_globalOf? hline)
    refine ⟨v, w, hw, hdeclares, ?_⟩
    obtain ⟨earlier, front, back, later, -, hv, -, hsame⟩ := hdeclares
    have hname := name_of_globalOf? hline hv
    exact (congrArg Local.name hsame).trans hname

/-- A variable at level one with an address. -/
def addressLine : String :=
  "<1><0x20><DW_TAG_variable> DW_AT_name<g> DW_AT_decl_line<0x1> DW_AT_decl_file<1 a.c> " ++
    "DW_AT_type<<0x10>> DW_AT_location<DW_OP_addr 0x1000>"

/-- A unit with a global variable. -/
def addressUnit : List String :=
  ["<0><0xb><DW_TAG_compile_unit>", "<1><0x10><DW_TAG_base_type> DW_AT_name<int>", addressLine]

theorem globalOf?_addressLine : globalOf? addressLine = some ("g", 0x1000) := by decide +kernel

theorem run_addressUnit : ∃ r r' : Reader, (readLines addressUnit).run {} = .ok () r ∧
    publish.run r = .ok () r' ∧ r'.locals = [⟨.text "g", 1, "a.c", .named "int"⟩] := by
  have hlocals : viewAfter? Reader.locals (readLines addressUnit >>= fun _ => publish) {} =
      some [⟨.text "g", 1, "a.c", .named "int"⟩] := by decide +kernel
  obtain ⟨r', hrun, hlocals⟩ := exists_of_viewAfter? hlocals
  obtain ⟨_, r, hread, hpublish⟩ := run_bind_eq_ok_iff.mp hrun
  exact ⟨r, r', hread, hpublish, hlocals⟩

theorem globals_of_read_addressUnit : ∃ r r' : Reader, (readLines addressUnit).run {} = .ok () r ∧
    publish.run r = .ok () r' ∧ globalOf? addressLine = some ("g", 0x1000) ∧ r'.globals = ∅ ∧
    describe.run r = .ok ("cpu_types = \x7b" :: r'.types.entries.flatMap layoutLines ++
      ["\x7d", "", "linux_gvars = \x7b", "\x7d"]) r' ∧
    ∃ v, ∃ w ∈ r'.locals, DeclaresAs addressUnit addressLine v w ∧ w.name = .text "g" := by
  obtain ⟨r, r', hread, hpublish, -⟩ := run_addressUnit
  obtain ⟨hglobals, hlisting, hlocals⟩ := globals_of_read hread hpublish
  have hmem : addressLine ∈ addressUnit := by simp [addressUnit]
  exact ⟨r, r', hread, hpublish, globalOf?_addressLine, hglobals, hlisting,
    hlocals addressLine hmem "g" 0x1000 globalOf?_addressLine⟩

/-- **A global variable is not among them**: it has become a local one. -/
theorem globals_addressUnit : ∃ r r' : Reader, (readLines addressUnit).run {} = .ok () r ∧
    publish.run r = .ok () r' ∧ addressLine ∈ addressUnit ∧
    globalOf? addressLine = some ("g", 0x1000) ∧ r'.globals.find? "g" = none ∧
    r'.locals = [⟨.text "g", 1, "a.c", .named "int"⟩] := by
  obtain ⟨r, r', hread, hpublish, hlocals⟩ := run_addressUnit
  have hglobals := (hasNoGlobals_default.readLines hread).publish hpublish
  refine ⟨r, r', hread, hpublish, by simp [addressUnit], globalOf?_addressLine, ?_, hlocals⟩
  rw [hglobals]
  rfl

end CpuTrace.Dump
