import CpuTrace.Proofs.Depth
import CpuTrace.Proofs.DisjointMembers
import CpuTrace.Proofs.ListingReading
import CpuTrace.Proofs.SlotNames
import Mathlib

/-!
# Members and slots

A register of the processor is addressed in two ways. By index: the members of `CPUARMState` by
offset, and then a place inside the member. By offset: the slots of `ARMCPU`, listed as a text, read
back as a table and turned round, so that of slots at one offset only the last is left. The state of
the processor is the member `env` of `ARMCPU`, so both should lead to the same place.

The main statement is `slots_of_members`: they do. Every leaf of every member of the state lies at an
offset under which the turned table has a name, and the name has this offset in the table. What makes
it true: no two slots have one name (`Lists.nodup_names`), so the table that is read back has them all
(`readSlots_slotListing`), and turning it round forgets names but no offset
(`exists_slotsByOffset`).
-/

namespace CpuTrace

open Literal
open Dump (isQuotable scan_name scan_lines recordTokens spells_record assigned? assigned?_of_spells
  mapM_map_eq_some textOfLines toList_unlines)

/-! ## Reading a listing of slots -/

/-- A slot: a name with a number. -/
def slot? : Atom × TypeExpr → Option (String × Int)
  | (.text name, .atom (.int offset)) => some (name, offset)
  | _ => none

/-- Reads the listing of the slots of a structure. -/
def readSlots (root text : String) : Option SlotTable := do
  let ts ← tokens? text.toList
  let (fields, ts) ← assigned? (root ++ "_flat") ts
  guard ts.isEmpty
  return .ofList (← fields.mapM slot?)

/-- The tokens of a slot. -/
def slotTokens (s : Slot) : List Token := [.text s.name, .mark ':', .word (toString s.offset)]

/-- The field of a slot. -/
def slotField (s : Slot) : Atom × TypeExpr := (.text s.name, .int s.offset)

theorem scan_slotLine {s : Slot} (h : isQuotable s.name = true) :
    scan (.word []) (s.line.toList ++ ['\n']) = some (slotTokens s ++ [.mark ','], .word []) := by
  have hcolon : scan (.word []) ": ".toList = some ([.mark ':'], .word []) := rfl
  have hcomma := (isNumeral_toString s.offset).scans ',' (by decide)
  have hend : scan (.word []) ['\n'] = some ([], .word []) := rfl
  have hscan := scan_append (scan_append (scan_append (scan_name h) hcolon) hcomma) hend
  have hline : s.line = "'" ++ s.name ++ "': " ++ toString s.offset ++ "," := rfl
  simpa [hline, slotTokens] using hscan

theorem spells_slotTokens (s : Slot) : SpellsField (slotTokens s) (slotField s) :=
  (Spells.atom (isNumeral_toString s.offset).atom?).field (k := .text s.name) rfl

/-- Whether a name can be assigned to. -/
def isWord (name : String) : Bool := name.toList.all isWordChar

/-- The tokens of a listing of slots. -/
def slotListingTokens (root : String) (slots : List Slot) : List Token :=
  .word (root ++ "_flat") :: .mark '=' :: recordTokens (slots.map slotTokens)

/-- The lines of a listing of slots. -/
def slotListingLines (root : String) (slots : List Slot) : List String :=
  (root ++ "_flat = \x7b") :: slots.map Slot.line ++ ["\x7d"]

theorem tokens?_slotListingLines {root : String} (hroot : isWord root = true) {slots : List Slot}
    (hslots : ∀ s ∈ slots, isQuotable s.name = true) :
    tokens? (Text.unlines (slotListingLines root slots)).toList =
      some (slotListingTokens root slots) := by
  have hword : ∀ c ∈ (root ++ "_flat").toList, isWordChar c = true := by
    intro c hc
    rw [String.toList_append, List.mem_append] at hc
    rcases hc with hc | hc
    · exact List.all_eq_true.mp hroot c hc
    · exact List.all_eq_true.mp (by decide : "_flat".toList.all isWordChar = true) c hc
  have hblank : step (.word (root ++ "_flat").toList) ' ' =
      some ([.word (root ++ "_flat")], .word []) := by
    simp [step, isWordChar, isQuote, isMark, marks, isGap, flush]
  have hname := scan_append (scan_word [] hword) (scan_singleton hblank)
  have hopen : scan (.word []) "= \x7b\n".toList =
      some ([.mark '=', .mark '\x7b'], .word []) := rfl
  have hlines := scan_lines slots fun s hs => scan_slotLine (hslots s hs)
  have hlast : scan (.word []) ['\x7d', '\n'] = some ([.mark '\x7d'], .word []) := rfl
  have hscan := scan_append (scan_append (scan_append hname hopen) hlines) hlast
  have hchars : (Text.unlines (slotListingLines root slots)).toList =
      (root ++ "_flat").toList ++ [' '] ++ "= \x7b\n".toList ++
        slots.flatMap (fun s => s.line.toList ++ ['\n']) ++ ['\x7d', '\n'] := by
    rw [toList_unlines, slotListingLines]
    simp [textOfLines, List.flatMap_map]
  rw [tokens?, hchars, hscan]
  simp [slotListingTokens, recordTokens, flush]

/-- **A listing of slots is read as their table**, if their names can be quoted. -/
theorem readSlots_slotListingLines {root : String} (hroot : isWord root = true) {slots : List Slot}
    (hslots : ∀ s ∈ slots, isQuotable s.name = true) :
    readSlots root (Text.unlines (slotListingLines root slots)) = some (.ofSlots slots) := by
  have hrecord := assigned?_of_spells (root ++ "_flat") (spells_record spells_slotTokens slots) []
  have hfields := mapM_map_eq_some (f := slotField) (g := slot?)
    (k := fun s : Slot => (s.name, s.offset)) slots fun _ => rfl
  rw [List.append_nil] at hrecord
  rw [readSlots, tokens?_slotListingLines hroot hslots, slotListingTokens]
  simp only [Option.bind_eq_bind, Option.bind_some, hrecord, hfields]
  rfl

/-- The lines of a listing that has no fault. -/
theorem toList_items_slotListing {types : TypeTable} {root : String}
    (h : (types.slotListing root).fault = none) :
    (types.slotListing root).items.toList =
      slotListingLines root (types.slotsOf root).items.toList := by
  obtain ⟨-, hrest⟩ := Emission.fault_andThen_eq_none.mp h
  obtain ⟨hslots, -⟩ := Emission.fault_andThen_eq_none.mp hrest
  rw [TypeTable.slotListing, Emission.andThen_of_none rfl, Emission.andThen_of_none hslots]
  simp [Emission.one, slotListingLines]

theorem readSlots_slotListing {types : TypeTable} {root : String} (hroot : isWord root = true)
    (hslots : ∀ s ∈ (types.slotsOf root).items.toList, isQuotable s.name = true)
    (h : (types.slotListing root).fault = none) :
    readSlots root (Text.unlines (types.slotListing root).items.toList) =
      some (.ofSlots (types.slotsOf root).items.toList) := by
  rw [toList_items_slotListing h, readSlots_slotListingLines hroot hslots]

/-! ## Slots of a structure -/

/-- A character of a word stands for itself between quotes. -/
theorem quotable_of_isWordChar {c : Char} (h : isWordChar c = true) :
    (c != '\x27' && c != '\\' && !Text.isLineEnd c) = true := by
  have hno : ['\x27', '\\', '\n', '\r'].all (fun c => !isWordChar c) = true := by decide
  have hne : ∀ d ∈ ['\x27', '\\', '\n', '\r'], c ≠ d := by
    rintro d hd rfl
    have := List.all_eq_true.mp hno c hd
    simp [h] at this
  simpa [Text.isLineEnd, and_assoc] using hne

/-- The name of a path can be quoted if the names in it can. -/
theorem isQuotable_pathName {root : String} (hroot : isWord root = true) {path : List Step}
    (hplain : ∀ s ∈ path, s.IsPlain)
    (hpath : ∀ s ∈ path, ∀ name, s = .member name → isQuotable name = true) :
    isQuotable (pathName ([.member root] ++ path)) = true := by
  have hdot : '.' ∉ root.toList := by
    intro hc
    have := List.all_eq_true.mp hroot '.' hc
    revert this
    decide
  have hfirst : (pathName [.member root]).toList = root.toList := by
    simp [pathName, List.intercalate, Step.chars, dropDots_of_not_mem hdot]
  rw [isQuotable, toList_pathName_append (by simp) hplain, hfirst, List.all_append,
    Bool.and_eq_true]
  refine ⟨List.all_eq_true.mpr fun c hc =>
    quotable_of_isWordChar (List.all_eq_true.mp hroot c hc), List.all_eq_true.mpr fun c hc => ?_⟩
  obtain ⟨s, hs, hc⟩ := List.mem_flatMap.mp hc
  cases s with
  | member name =>
    rcases List.mem_cons.mp hc with rfl | hc
    · decide
    · exact List.all_eq_true.mp (hpath _ hs name rfl) c hc
  | index i =>
    rw [Step.piece, Step.chars_index, List.mem_cons, List.mem_append, List.mem_singleton] at hc
    rcases hc with rfl | hc | rfl
    · decide
    · exact quotable_of_isWordChar (isWordChar_toDigits (by decide) (by decide) c hc)
    · decide

section Slots

variable {types : TypeTable}

/-- The slots of a structure are its leaves, each under a name that starts with the structure's. -/
theorem items_slotsOf (root : String) :
    (types.slotsOf root).items.toList = (types.leaves (.named root) 0 []).items.toList.map
      fun l => ⟨pathName ([.member root] ++ l.path), l.offset⟩ := by
  rw [TypeTable.slotsOf, TypeTable.items_slots]
  simp only [Int.zero_add]

/-- A path leads to one offset. -/
theorem LeafAt.offset_unique {t v v' : TypeExpr} {p : List Step} {offset offset' : Int}
    (h : LeafAt types t p offset v) (h' : LeafAt types t p offset' v') : offset = offset' := by
  induction h generalizing offset' with
  | scalar _ => cases h'; rfl
  | step down by_ rest ih =>
    obtain ⟨u, d, rest', down', by_', hrest', rfl⟩ := h'.of_cons
    obtain rfl := down.unique down'
    rw [by_.unique by_', ih hrest']

variable {name : String} {l : Layout} {m : String × Member}

/-- The leaves of a member are leaves of its structure. -/
theorem LeafAt.through_member (hl : types.find? name = some l) (hname : name ≠ "array")
    (hm : m ∈ l.members.entries) {p : List Step} {offset : Int} {v : TypeExpr}
    (h : LeafAt types m.2.type p offset v) :
    LeafAt types (.named name) (.member m.1 :: p) (m.2.offset + offset) v := by
  have hne : Atom.text name ≠ .text "array" := fun h => hname (Atom.text.inj h)
  exact .step (.member (.list _ _) hne hl hm) (.member (.list _ _) hne hl hm) h

/-- If a structure can be flattened, so can its members. -/
theorem TypeTable.fault_leaves_member (hl : types.find? name = some l) (hname : name ≠ "array")
    (hm : m ∈ l.members.entries) (h : (types.leaves (.named name) 0 []).fault = none) :
    (types.leaves m.2.type 0 []).fault = none := by
  have hne : Atom.text name ≠ .text "array" := fun h => hname (Atom.text.inj h)
  rw [leaves, leavesWithin_eq_unfold, unfold_struct (.list _ _) hne hl] at h
  cases hsize : types.size with
  | zero =>
    rw [hsize] at h
    cases h
  | succ depth =>
    -- the member is flattened with one step less, which is enough
    rw [hsize] at h
    have hpart := Emission.fault_forEach_eq_none.mp h m (Layout.mem_byOffset.mpr hm)
    rw [leavesWithin_eq_map, Emission.fault_map] at hpart
    have hsettled : (types.leavesWithin depth m.2.type 0 []).Settled := by
      simp [Emission.Settled, hpart]
    rw [leaves_eq_of_settled hsettled, hpart]

end Slots

/-! ## Turning a table round -/

/-- Of slots with different names, the table turned round has one for each offset, and the table
has its name with this offset. -/
theorem exists_slotsByOffset {slots : List Slot} (hnames : (slots.map Slot.name).Nodup) {s : Slot}
    (hs : s ∈ slots) :
    ∃ name, (slotsByOffset (SlotTable.ofSlots slots).slots)[s.offset]? = some name ∧
      (SlotTable.ofSlots slots).find? name = some s.offset := by
  obtain ⟨name, hname, hmem⟩ := exists_getElem?_slotsByOffset hs
  rw [← slots_ofSlots hnames] at hname hmem
  exact ⟨name, hname, SlotTable.mem_slots.mp hmem⟩

/-! ## Both ways -/

section Views

variable {types : TypeTable} {outer inner field : String} {container content : Layout} {start : Int}

/-- A leaf of a member of a structure that is itself a member has a slot in the outer structure. -/
theorem exists_slot_of_nested (houter : types.find? outer = some container) (hne : outer ≠ "array")
    (hinner : types.find? inner = some content) (hne' : inner ≠ "array")
    (hfield : container.members.find? field = some ⟨start, .named inner⟩)
    (hflat : (types.leaves (.named outer) 0 []).fault = none) {m : String × Member}
    (hm : m ∈ content.members.entries) {l : Leaf} (hl : l ∈ (types.leaves m.2.type 0 []).items.toList)
    (hleaves : (types.leaves m.2.type 0 []).fault = none) :
    ∃ s ∈ (types.slotsOf outer).items.toList, s.offset = start + m.2.offset + l.offset := by
  have hmember := (types.lists_leavesWithin _ _ hleaves).sound l hl
  have hleaf := LeafAt.through_member houter hne (Table.find?_eq_some_iff.mp hfield)
    (LeafAt.through_member hinner hne' hm hmember)
  have hlists := types.lists_leavesWithin _ _ hflat
  obtain ⟨k, hk, hpath⟩ := hlists.complete _ hleaf.isLeafPath
  have hoffset : k.offset = start + (m.2.offset + l.offset) :=
    (hpath ▸ hlists.sound k hk).offset_unique hleaf
  refine ⟨⟨pathName ([.member outer] ++ k.path), k.offset⟩, ?_, by rw [hoffset, Int.add_assoc]⟩
  rw [items_slotsOf]
  exact List.mem_map_of_mem hk

/-- The names of the slots of a structure can be quoted if the names of members can. -/
theorem isQuotable_slotsOf {root : String} (hroot : isWord root = true) (hplain : types.HasPlainNames)
    (hquotable : ∀ e ∈ types.entries, ∀ m ∈ e.2.members.entries, isQuotable m.1 = true)
    (hflat : (types.leaves (.named root) 0 []).fault = none) :
    ∀ s ∈ (types.slotsOf root).items.toList, isQuotable s.name = true := by
  intro s hs
  rw [items_slotsOf] at hs
  obtain ⟨l, hl, rfl⟩ := List.mem_map.mp hs
  have hpath := ((types.lists_leavesWithin _ _ hflat).sound l hl).isLeafPath
  refine isQuotable_pathName hroot (hpath.isPlain hplain) (hpath.forall_steps ?_ ?_)
  · rintro e he m hm name ⟨⟩
    exact hquotable e he m hm
  · rintro i name ⟨⟩

end Views

/-- **Both ways to a register agree.** In a table where `ARMCPU` has the state `CPUARMState` as its
member `env`, and where names of members are plain and can be quoted, let the slots of `ARMCPU` be
listed without a fault and the listing read back. The members of the state by offset are all its
members, those at one offset in the order of the table. Each of them can be flattened by itself, and
each of its slots lies at an offset that the turned table has, under a name that has this offset in
the table. -/
theorem slots_of_members (types : TypeTable) (cpu state : Layout) (start : Int)
    (hcpu : types.find? "ARMCPU" = some cpu) (hstate : types.find? "CPUARMState" = some state)
    (henv : cpu.members.find? "env" = some ⟨start, .named "CPUARMState"⟩)
    (hplain : types.HasPlainNames)
    (hquotable : ∀ e ∈ types.entries, ∀ m ∈ e.2.members.entries, isQuotable m.1 = true)
    (hlisting : (types.slotListing "ARMCPU").fault = none) :
    ∃ (table : SlotTable) (members : List (String × Member)),
      readSlots "ARMCPU" (Text.unlines (types.slotListing "ARMCPU").items.toList) = some table ∧
      types.membersByOffset "CPUARMState" = .ok members ∧
      (∀ m ∈ members, (types.slots m.2.type 0 []).fault = none ∧
        ∀ s ∈ (types.slots m.2.type 0 []).items.toList, ∃ name,
          (slotsByOffset table.slots)[start + m.2.offset + s.offset]? = some name ∧
            table.find? name = some (start + m.2.offset + s.offset)) ∧
      members.Perm state.members.entries ∧ members.Pairwise state.Precedes := by
  obtain ⟨-, hrest⟩ := Emission.fault_andThen_eq_none.mp hlisting
  have hslots : (types.leaves (.named "ARMCPU") 0 [.member "ARMCPU"]).fault = none :=
    (Emission.fault_andThen_eq_none.mp hrest).1
  have hflat : (types.leaves (.named "ARMCPU") 0 []).fault = none := by
    rw [TypeTable.leaves_eq_map, Emission.fault_map] at hslots
    exact hslots
  have hstateFlat : (types.leaves (.named "CPUARMState") 0 []).fault = none :=
    TypeTable.fault_leaves_member hcpu (by decide) (Table.find?_eq_some_iff.mp henv) hflat
  have hnames : ((types.slotsOf "ARMCPU").items.toList.map Slot.name).Nodup := by
    rw [items_slotsOf, List.map_map]
    exact (types.lists_leavesWithin _ _ hflat).nodup_names hplain _
  have hnamed := isQuotable_slotsOf (by decide) hplain hquotable hflat
  refine ⟨_, state.byOffset, readSlots_slotListing (by decide) hnamed hlisting,
    by simp only [TypeTable.membersByOffset, hstate], fun m hm => ?_, List.mergeSort_perm _ _,
    state.pairwise_byOffset⟩
  have hmember := Layout.mem_byOffset.mp hm
  have hleaves := TypeTable.fault_leaves_member hstate (by decide) hmember hstateFlat
  refine ⟨hleaves, fun s hs => ?_⟩
  rw [TypeTable.slots, Emission.toList_items_map] at hs
  obtain ⟨l, hl, rfl⟩ := List.mem_map.mp hs
  obtain ⟨k, hk, hoffset⟩ := exists_slot_of_nested hcpu (by decide) hstate (by decide) henv hflat
    hmember hl hleaves
  have hfound := exists_slotsByOffset hnames hk
  rw [hoffset] at hfound
  exact hfound

/-- A processor state. A bank of two views stands over an array of pairs, and the members are declared
out of order. -/
def bankedState : Layout where
  size := 20
  members := .ofList [("thumb", ⟨16, .named "int"⟩), ("banked", ⟨0, .named "Bank"⟩),
    ("regs", ⟨0, .array 2 (.named "Pair")⟩)]

/-- A processor with a flag before its state. -/
def flaggedProcessor : Layout where
  size := 24
  members := .ofList [("env", ⟨4, .named "CPUARMState"⟩), ("halted", ⟨0, .named "int"⟩)]

/-- The types of a small processor. -/
def processorTypes : TypeTable := .ofList
  [("ARMCPU", flaggedProcessor), ("CPUARMState", bankedState),
    ("Bank", ⟨8, .ofList [("whole", ⟨0, .named "long long int"⟩), ("low", ⟨0, .named "int"⟩)]⟩),
    ("Pair", ⟨8, .ofList [("high", ⟨4, .named "int"⟩), ("low", ⟨0, .named "int"⟩)]⟩)]

/-- In the small processor three slots lie at the start of the state, one name is found for them, and
both ways agree all the same. -/
theorem slots_of_bankedState :
    (processorTypes.slotsOf "ARMCPU").items.toList.map Slot.offset = [0, 4, 4, 4, 8, 12, 16, 20] ∧
    ∃ (table : SlotTable) (members : List (String × Member)),
      readSlots "ARMCPU" (Text.unlines (processorTypes.slotListing "ARMCPU").items.toList) =
        some table ∧
      processorTypes.membersByOffset "CPUARMState" = .ok members ∧
      (∀ m ∈ members, (processorTypes.slots m.2.type 0 []).fault = none ∧
        ∀ s ∈ (processorTypes.slots m.2.type 0 []).items.toList, ∃ name,
          (slotsByOffset table.slots)[4 + m.2.offset + s.offset]? = some name ∧
            table.find? name = some (4 + m.2.offset + s.offset)) ∧
      members.Perm bankedState.members.entries ∧ members.Pairwise bankedState.Precedes :=
  ⟨by cbv, slots_of_members processorTypes flaggedProcessor bankedState 4 (by cbv) (by cbv) (by cbv)
    (by decide) (by decide) (by cbv)⟩

end CpuTrace
