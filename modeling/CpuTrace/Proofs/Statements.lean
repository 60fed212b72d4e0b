import CpuTrace.Dump.Listing
import CpuTrace.Proofs.Publishing
import CpuTrace.Proofs.TypeGraph
import Mathlib

/-!
# Reading the lines of a type graph

What the reader does with the lines of one node: it records what the node's id stands for, and with
a structure, union or enumeration also its layout or its values (`Node.add`). Nothing else changes,
but for the place in the dump (`Reader.placed`). This holds whatever has been read before, so the
lines of a whole graph add its nodes one by one (`run_readLines_nodes`).

The stack of open statements is in step with the level throughout (`Reader.IsNested`). A line that
is at most one level deeper than the last therefore finds its place (`run_openFrame`), and a line at
level two finds the statement at level one that encloses it (`Inside`).
-/

namespace CpuTrace.Dump

/-! ## Runs -/

/-- Lines are read one after the other. -/
theorem run_readLines_cons {line : String} {lines : List String} {r r' : Reader}
    (h : (readLine line).run r = .ok () r') :
    (readLines (line :: lines)).run r = (readLines lines).run r' :=
  run_bind_of_eq h

theorem readLines_append (lines lines' : List String) :
    readLines (lines ++ lines') = readLines lines >>= fun _ => readLines lines' :=
  List.forM_append

/-- What has been read is where the rest starts. -/
theorem run_readLines_append {lines lines' : List String} {r r' : Reader}
    (h : (readLines lines).run r = .ok () r') :
    (readLines (lines ++ lines')).run r = (readLines lines').run r' := by
  rw [readLines_append]
  exact run_bind_of_eq h

/-! ## Places -/

/-- There is an open statement for each level down to the current one. -/
def Reader.IsNested (r : Reader) : Prop := (r.stack.length : Int) = r.level + 1

/-- A reader at another place of a dump that has hexadecimal ids. -/
def Reader.placed (r : Reader) (level : Int) (stack : List Frame) : Reader :=
  { r with radix := .hexadecimal, level, stack }

/-- A statement at most one level deeper closes those at its level and beyond, and opens. -/
theorem run_openFrame {r : Reader} (h : r.IsNested) {level : Nat}
    (hlevel : (level : Int) ≤ r.level + 1) (frame : Frame) :
    (openFrame level frame).run r =
      .ok () { r with level := level, stack := r.stack.take level ++ [frame] } := by
  rw [Reader.IsNested] at h
  simp only [openFrame, EStateM.run_bind, EStateM.run_get]
  by_cases hlt : r.level < level
  · have htake : r.stack.take level = r.stack := List.take_of_length_le (by omega)
    rw [if_pos hlt, EStateM.run_set, htake]
  · have hstack : (if (level : Int) < r.level then keepFirst (level + 1) r.stack else r.stack) =
        r.stack.take (level + 1) := by
      split
      · rw [keepFirst, if_pos (by omega)]
        congr 1
      · exact (List.take_of_length_le (by omega)).symm
    have hne : (r.stack.take (level + 1)).isEmpty = false := by
      rw [List.isEmpty_eq_false_iff, ← List.length_pos_iff, List.length_take]
      omega
    have hlast : (r.stack.take (level + 1)).dropLast = r.stack.take level := by
      rw [List.dropLast_eq_take, List.take_take, List.length_take]
      congr 1
      omega
    rw [if_neg hlt]
    simp only [hstack, hne, Bool.false_eq_true, if_false, hlast, EStateM.run_set]

/-! ## Compile units -/

/-- A reader at the start of a compile unit. -/
def Reader.cleared (r : Reader) : Reader :=
  { r with
    unit := ∅
    unitGlobals := ∅
    locals := r.locals ++ r.unitLocals
    unitLocals := []
    ids := ∅ }

/-- A unit that starts publishes the last one, and clears its tables. -/
theorem run_startUnit {r r' : Reader} (h : publish.run r = .ok () r') :
    startUnit.run r = .ok () r'.cleared := by
  rw [startUnit, run_bind_of_eq h, EStateM.run_modify]
  rfl

/-! ## Texts of ids and levels -/

theorem isRunOf_toDigits (n : Nat) : isRunOf Char.isDigit (Nat.toDigits 10 n) = true := by
  refine isRunOf_iff.mpr ⟨Nat.toDigits_ne_nil, fun c hc => ?_⟩
  exact Nat.isDigit_of_mem_toDigits (by decide) (by decide) hc

theorem mem_hexDigits {n : Nat} {c : Char} (hc : c ∈ Nat.toDigits 16 n) : isHexDigit c = true := by
  have hdigit : ∀ d < 16, isHexDigit (Nat.digitChar d) = true := by decide
  obtain ⟨d, hd, rfl⟩ := Numeral.mem_digits_of_mem_toDigits (by decide) (by decide) hc
  exact hdigit d hd

theorem toList_idText (id : Nat) : (idText id).toList = '0' :: 'x' :: Nat.toDigits 16 id :=
  String.toList_ofList

/-- An id as it is written is a hexadecimal one. -/
theorem isHexId_idText (id : Nat) : isHexId (idText id).toList = true := by
  rw [toList_idText]
  exact isHexId_of_isRunOf (isRunOf_iff.mpr ⟨Nat.toDigits_ne_nil, fun c => mem_hexDigits⟩)

/-- An id contains no character that a numeral cannot contain. -/
theorem mem_idText {id : Nat} {c : Char} (hc : c ∈ (idText id).toList) :
    c ≠ '>' ∧ c ≠ '"' ∧ c ≠ '<' := by
  have hdigit : ∀ d < 16, Nat.digitChar d ≠ '>' ∧ Nat.digitChar d ≠ '"' ∧
      Nat.digitChar d ≠ '<' := by decide
  rw [toList_idText] at hc
  rcases List.mem_cons.mp hc with rfl | hc
  · decide
  rcases List.mem_cons.mp hc with rfl | hc
  · decide
  obtain ⟨d, hd, rfl⟩ := Numeral.mem_digits_of_mem_toDigits (by decide) (by decide) hc
  exact hdigit d hd

/-! ## One line -/

section Line

variable {level id : Nat} {kind line : String} {P : Attributes → Prop} {r : Reader}

/-- The statement of a line. -/
def shownStatement (kind : String) (level id : Nat) (a : Attributes) : Statement :=
  ⟨kind, String.ofList (Nat.toDigits 10 level), idText id, a⟩

/-- A line is read as the statement that it shows. -/
theorem Shows.exists_parse? (h : Shows level id kind P line)
    (hkind : isRunOf isWordChar kind.toList = true) :
    ∃ l, Line.parse? line = some l ∧ P l.values ∧
      l.header = ⟨String.ofList (Nat.toDigits 10 level), idText id, kind, true⟩ := by
  obtain ⟨as, has, hline, hP⟩ := h
  have hparse := Line.parse?_of_written (isRunOf_toDigits level)
    (by rw [isHexId_idText, Bool.or_true]) (fun hc => (mem_idText hc).1 rfl) hkind has hline
  refine ⟨_, hparse, hP, ?_⟩
  rw [isHexId_idText, String.ofList_toList, String.ofList_toList]

/-- A level that is written in decimal is read back. -/
theorem read_toDigits (level : Nat) :
    Numeral.read .decimal (String.ofList (Nat.toDigits 10 level)) = .ok (level : Int) := by
  rw [Numeral.read, Numeral.read?_of_nat String.toList_ofList]

/-- **A line** finds its place and then declares what it shows. -/
theorem run_readLine (h : Shows level id kind P line) (hkind : isRunOf isWordChar kind.toList = true)
    (hlocal : isLocalKind kind = false) (hr : r.IsNested) (hlevel : (level : Int) ≤ r.level + 1) :
    ∃ a, P a ∧ (readLine line).run r =
      (declare (shownStatement kind level id a) (r.stack.take level).getLast?).run
        (r.placed level (r.stack.take level ++ [⟨kind, idText id⟩])) := by
  obtain ⟨l, hparse, hP, hheader⟩ := h.exists_parse? hkind
  refine ⟨_, hP, ?_⟩
  have hopen := @run_openFrame { r with radix := .hexadecimal } hr level hlevel ⟨kind, idText id⟩
  rw [readLine, hparse]
  simp only [hheader, if_true, hlocal, Bool.false_eq_true, if_false, EStateM.run_bind,
    EStateM.run_modify, readStatement, Line.statement, read_toDigits, run_ofExcept_ok, hopen,
    EStateM.run_get, Reader.parent?, List.dropLast_concat]
  rfl

end Line

/-! ## Attributes -/

section Attributes

variable {a : Attributes} {key : String}

theorem Attributes.expr_of_find? {t : TypeExpr} (h : a.find? key = some t) :
    a.expr key = .ok t := by
  rw [expr, h]

theorem Attributes.text_of_find? {s : String} (h : a.find? key = some (.text s)) :
    a.text key = .ok s := by
  rw [text, expr_of_find? h]

theorem contains_of_find? {t : TypeExpr} (h : a.find? key = some t) : a.contains key = true := by
  rw [Table.contains, h]
  rfl

theorem contains_of_find?_none (h : a.find? key = none) : a.contains key = false := by
  rw [Table.contains, h]
  rfl

/-- The name that a statement gives is found without its quotes. -/
theorem nameOr_of_givesName {name : Option String} (id : Nat) (h : GivesName name a)
    (hname : ∀ s, name = some s → '"' ∉ s.toList) : a.nameOr (idText id) = .ok (nameOf id name) := by
  cases name with
  | none =>
    have hstrip : Text.strip '"' (unnamed (idText id)) = unnamed (idText id) := by
      refine Text.strip_of_quotes ⟨0, by simp⟩ ?_
      rw [unnamed, String.toList_append, List.mem_append]
      rintro (hc | hc)
      · revert hc
        decide
      · exact (mem_idText hc).2.1 rfl
    rw [Attributes.nameOr, show a.find? "DW_AT_name" = none from h]
    exact congrArg Except.ok hstrip
  | some s =>
    obtain ⟨v, hv, hquotes⟩ := h
    rw [Attributes.nameOr, hv]
    exact congrArg Except.ok (Text.strip_of_quotes hquotes (hname s rfl))

/-- A size that is written in hexadecimal is read back. -/
theorem number_of_givesSize {size : Nat} (h : GivesSize size a) :
    a.number .hexadecimal "DW_AT_byte_size" = .ok (size : Int) := by
  obtain ⟨v, hv, hsize⟩ := h
  rw [Attributes.number, Attributes.expr_of_find? hv]
  simp only [Numeral.read, Numeral.read?_of_hex hsize]

end Attributes

/-! ## What a node adds -/

/-- A reference, or another expression if there is none. -/
def refOr (t : TypeExpr) (target : Option Ref) : TypeExpr :=
  target.elim t fun r => .text r.text

/-- What an id stands for, with the references of its statement. -/
def Node.expr (n : Node) : TypeExpr :=
  match n.declaration with
  | .base name => .named ((scalarNames.lookup name).getD "")
  | .announced _ name | .layout _ name _ _ | .enumeration name _ _ => .named (nameOf n.id name)
  | .pointer target => .pointer (refOr (.named "void") target)
  | .qualified target => refOr (.named "void") target
  | .synonym target => refOr (.text "void") target
  | .array element bound => .array (bound + 1) (.text element.text)

/-- A member, with the reference to its type. -/
def Field.entry (k : LayoutKind) (f : Field) : String × Member :=
  (f.key, ⟨k.offset f, .text f.type.text⟩)

/-- A layout, with references. -/
def rawLayout (k : LayoutKind) (size : Nat) (fields : List Field) : Layout :=
  ⟨size, .ofList (fields.map (Field.entry k))⟩

/-- A reader with one more layout of the current unit. -/
def Reader.withLayout (r : Reader) (name : String) (l : Layout) : Reader :=
  { r with unit := r.unit.insert name (.own l) }

/-- A reader with one more enumeration. -/
def Reader.withEnum (r : Reader) (name : String) (e : Enumeration) : Reader :=
  { r with enums := r.enums.insert name e }

/-- **What a node adds** to what has been read. -/
def Node.add (n : Node) (r : Reader) : Reader :=
  match n.declaration with
  | .layout k name size fields =>
    (r.declare (idText n.id) n.expr).withLayout (nameOf n.id name) (rawLayout k size fields)
  | .enumeration name size choices =>
    (r.declare (idText n.id) n.expr).withEnum (nameOf n.id name) ⟨size, valuesByName choices⟩
  | _ => r.declare (idText n.id) n.expr

/-! ## Statements at level one -/

/-- A level with its open statements, inside a compile unit. -/
def InUnit (level : Int) (stack : List Frame) : Prop :=
  (stack.length : Int) = level + 1 ∧ 0 ≤ level

/-- A statement that is at most one level deeper than the last keeps the place inside the unit. -/
theorem InUnit.take {level : Int} {stack : List Frame} (h : InUnit level stack) {n : Nat}
    (hn : (n : Int) ≤ level + 1) (frame : Frame) : InUnit n (stack.take n ++ [frame]) := by
  refine ⟨?_, by omega⟩
  have := h.1
  rw [List.length_append, List.length_take, List.length_singleton]
  omega

theorem InUnit.top {level : Int} {stack : List Frame} (h : InUnit level stack) (frame : Frame) :
    InUnit 1 (stack.take 1 ++ [frame]) := by
  have hlevel : ((1 : Nat) : Int) ≤ level + 1 := by have := h.2; omega
  exact h.take hlevel frame

section Top

variable {id : Nat} {kind line : String} {P : Attributes → Prop} {r : Reader}

/-- **A statement at level one** opens after the unit's own, and then declares something. -/
theorem run_readLine_top (h : Shows 1 id kind P line)
    (hkind : isRunOf isWordChar kind.toList = true) (hlocal : isLocalKind kind = false)
    {level : Int} {stack : List Frame} (hplace : InUnit level stack) :
    ∃ a, P a ∧ (readLine line).run (r.placed level stack) =
      (declare (shownStatement kind 1 id a) (stack.take 1).getLast?).run
        (r.placed 1 (stack.take 1 ++ [⟨kind, idText id⟩])) := by
  have hlevel : ((1 : Nat) : Int) ≤ level + 1 := by have := hplace.2; omega
  exact @run_readLine _ _ _ _ _ (r.placed level stack) h hkind hlocal hplace.1 hlevel

/-- A statement at level one that declares nothing but its id. -/
theorem run_readLines_single {t : TypeExpr} (h : Shows 1 id kind P line)
    (hkind : isRunOf isWordChar kind.toList = true) (hlocal : isLocalKind kind = false)
    {level : Int} {stack : List Frame} (hplace : InUnit level stack)
    (hdeclare : ∀ a, P a → ∀ parent r', (declare (shownStatement kind 1 id a) parent).run r' =
      .ok () (r'.declare (idText id) t)) :
    ∃ level' stack', (readLines [line]).run (r.placed level stack) =
      .ok () ((r.declare (idText id) t).placed level' stack') ∧ InUnit level' stack' := by
  obtain ⟨a, ha, hrun⟩ := run_readLine_top h hkind hlocal hplace
  exact ⟨_, _, run_readLines_cons (hrun.trans (hdeclare a ha _ _)), hplace.top _⟩

/-- A type that is given is what the attribute says, and one that is not is the default. -/
theorem getD_of_givesType {target : Option Ref} {a : Attributes} (ha : GivesType target a)
    (t : TypeExpr) : (a.find? "DW_AT_type").getD t = refOr t target := by
  rw [show a.find? "DW_AT_type" = _ from ha]
  cases target <;> rfl

/-- A pointer without a target is one to `void`. -/
theorem run_declare_pointer {target : Option Ref} {a : Attributes} (ha : GivesType target a)
    (parent : Option Frame) (r : Reader) :
    (declare (shownStatement "DW_TAG_pointer_type" 1 id a) parent).run r =
      .ok () (r.declare (idText id) (.pointer (refOr (.named "void") target))) := by
  rw [← getD_of_givesType ha]
  rfl

/-- A qualified type is the type itself. -/
theorem run_declare_qualified {target : Option Ref} {kind : String} {a : Attributes}
    (hkind : kind ∈ ["DW_TAG_const_type", "DW_TAG_volatile_type", "DW_TAG_restrict_type"])
    (ha : GivesType target a) (parent : Option Frame) (r : Reader) :
    (declare (shownStatement kind 1 id a) parent).run r =
      .ok () (r.declare (idText id) (refOr (.named "void") target)) := by
  have htag : ∀ k ∈ ["DW_TAG_const_type", "DW_TAG_volatile_type", "DW_TAG_restrict_type"],
      Tag.ofKind k = .qualifier := by decide
  rw [← getD_of_givesType ha, declare.eq_def, shownStatement, htag kind hkind]
  rfl

/-- A synonym without a target is a bare text, not a name. -/
theorem run_declare_synonym {target : Option Ref} {a : Attributes} (ha : GivesType target a)
    (parent : Option Frame) (r : Reader) :
    (declare (shownStatement "DW_TAG_typedef" 1 id a) parent).run r =
      .ok () (r.declare (idText id) (refOr (.text "void") target)) := by
  rw [← getD_of_givesType ha]
  rfl

/-- An array stands for its element until its bounds are read. -/
theorem run_declare_array {element : Ref} {a : Attributes} (ha : GivesType (some element) a)
    (parent : Option Frame) (r : Reader) :
    (declare (shownStatement "DW_TAG_array_type" 1 id a) parent).run r =
      .ok () (r.declare (idText id) (.text element.text)) := by
  rw [declare.eq_def]
  simp only [shownStatement, show Tag.ofKind "DW_TAG_array_type" = .array from rfl,
    Attributes.expr_of_find? (show a.find? "DW_AT_type" = some (.text element.text) from ha),
    EStateM.run_bind, run_ofExcept_ok, EStateM.run_modify]

/-- A base type with a name that is known. -/
theorem run_declare_base {name scalar : String} {a : Attributes} (ha : GivesName (some name) a)
    (hname : scalarNames.lookup name = some scalar) (hquote : '"' ∉ name.toList)
    (parent : Option Frame) (r : Reader) :
    (declare (shownStatement "DW_TAG_base_type" 1 id a) parent).run r =
      .ok () (r.declare (idText id) (.named scalar)) := by
  obtain ⟨v, hv, hquotes⟩ := ha
  have hscalar : scalarName r.radix a = .ok scalar := by
    rw [scalarName, contains_of_find? hv, if_pos rfl, Attributes.text_of_find? hv]
    simp only [bind, Except.bind, Text.strip_of_quotes hquotes hquote, hname]
    rfl
  rw [declare.eq_def]
  simp only [shownStatement, show Tag.ofKind "DW_TAG_base_type" = .base from rfl, EStateM.run_bind,
    EStateM.run_get, hscalar, run_ofExcept_ok, EStateM.run_modify]

end Top

/-! ## Named types -/

section Named

variable {id : Nat} {name : Option String} {a : Attributes} {r : Reader} {outer : List Frame}
  {frame : Frame}

/-- A named type is opened under its name, and its id stands for the name. -/
theorem run_openNamed {kind : String} (ha : GivesName name a)
    (hname : ∀ s, name = some s → '"' ∉ s.toList) :
    (openNamed (shownStatement kind 1 id a)).run (r.placed 1 (outer ++ [frame])) =
      .ok (nameOf id name) ((r.declare (idText id) (.named (nameOf id name))).placed 1
        (outer ++ [⟨kind, nameOf id name⟩])) := by
  simp only [openNamed, shownStatement, nameOr_of_givesName id ha hname, EStateM.run_bind,
    run_ofExcept_ok, EStateM.run_modify, EStateM.run_pure, Reader.nameLast, Reader.placed,
    Reader.declare, List.dropLast_concat]

theorem declare_layout (k : LayoutKind) (parent : Option Frame) :
    declare (shownStatement k.kind 1 id a) parent =
      declareLayout (shownStatement k.kind 1 id a) := by
  cases k <;> rfl

/-- A structure that is only announced names its id and its place. -/
theorem run_declare_announced (k : LayoutKind) (ha : GivesName name a)
    (hname : ∀ s, name = some s → '"' ∉ s.toList) (hopen : a.find? "DW_AT_declaration" ≠ none)
    (parent : Option Frame) :
    (declare (shownStatement k.kind 1 id a) parent).run (r.placed 1 (outer ++ [frame])) =
      .ok () ((r.declare (idText id) (.named (nameOf id name))).placed 1
        (outer ++ [⟨k.kind, nameOf id name⟩])) := by
  have hannounced : (shownStatement k.kind 1 id a).isAnnouncement = true :=
    Option.isSome_iff_ne_none.mpr hopen
  rw [declare_layout, declareLayout, run_bind_of_eq (run_openNamed ha hname)]
  simp only [hannounced, if_true, EStateM.run_pure]

/-- One that is declared also has a size, and no members so far. -/
theorem run_declare_layout (k : LayoutKind) {size : Nat} (ha : GivesName name a)
    (hname : ∀ s, name = some s → '"' ∉ s.toList) (hopen : a.find? "DW_AT_declaration" = none)
    (hsize : GivesSize size a) (parent : Option Frame) :
    (declare (shownStatement k.kind 1 id a) parent).run (r.placed 1 (outer ++ [frame])) =
      .ok () (((r.declare (idText id) (.named (nameOf id name))).withLayout (nameOf id name)
        (rawLayout k size [])).placed 1 (outer ++ [⟨k.kind, nameOf id name⟩])) := by
  have hannounced : (shownStatement k.kind 1 id a).isAnnouncement = false :=
    contains_of_find?_none hopen
  have hnumber : (shownStatement k.kind 1 id a).attributes.number .hexadecimal "DW_AT_byte_size" =
      .ok (size : Int) := number_of_givesSize hsize
  rw [declare_layout, declareLayout, run_bind_of_eq (run_openNamed ha hname)]
  simp only [hannounced, Bool.false_eq_true, if_false, EStateM.run_bind, EStateM.run_get,
    Reader.placed, hnumber, run_ofExcept_ok, EStateM.run_modify]
  rfl

/-- An enumeration is like a structure, in a table of its own. -/
theorem run_declare_enumeration {size : Nat} (ha : GivesName name a)
    (hname : ∀ s, name = some s → '"' ∉ s.toList) (hopen : a.find? "DW_AT_declaration" = none)
    (hsize : GivesSize size a) (parent : Option Frame) :
    (declare (shownStatement "DW_TAG_enumeration_type" 1 id a) parent).run
        (r.placed 1 (outer ++ [frame])) =
      .ok () (((r.declare (idText id) (.named (nameOf id name))).withEnum (nameOf id name)
        ⟨size, valuesByName []⟩).placed 1
        (outer ++ [⟨"DW_TAG_enumeration_type", nameOf id name⟩])) := by
  have hannounced : (shownStatement "DW_TAG_enumeration_type" 1 id a).isAnnouncement = false :=
    contains_of_find?_none hopen
  have hnumber : (shownStatement "DW_TAG_enumeration_type" 1 id a).attributes.number .hexadecimal
      "DW_AT_byte_size" = .ok (size : Int) := number_of_givesSize hsize
  have hdeclare : declare (shownStatement "DW_TAG_enumeration_type" 1 id a) parent =
      declareEnumeration (shownStatement "DW_TAG_enumeration_type" 1 id a) := rfl
  rw [hdeclare, declareEnumeration, run_bind_of_eq (run_openNamed ha hname)]
  simp only [hannounced, Bool.false_eq_true, if_false, EStateM.run_bind, EStateM.run_get,
    Reader.placed, hnumber, run_ofExcept_ok, EStateM.run_modify]
  rfl

end Named

/-! ## Statements at level two -/

/-- A place under a statement at level one. -/
structure Inside (p : Frame) (level : Int) (stack : List Frame) : Prop where
  /-- there is an open statement for each level -/
  inUnit : InUnit level stack
  /-- the statement at level one is open -/
  deep : 1 ≤ level
  /-- it is this one -/
  parent : stack[1]? = some p

namespace Inside

variable {p frame : Frame} {level : Int} {stack : List Frame}

theorem getLast?_take (h : Inside p level stack) : (stack.take 2).getLast? = some p := by
  have hlength := h.inUnit.1
  have hdeep := h.deep
  rw [List.getLast?_eq_getElem?, List.length_take, List.getElem?_take_of_lt (by omega), ← h.parent]
  congr 1
  omega

theorem child (h : Inside p level stack) (frame : Frame) :
    Inside p 2 (stack.take 2 ++ [frame]) := by
  have hlength := h.inUnit.1
  have hdeep := h.deep
  have hlevel : ((2 : Nat) : Int) ≤ level + 1 := by omega
  refine ⟨h.inUnit.take hlevel frame, by decide, ?_⟩
  rw [List.getElem?_append_left (by rw [List.length_take]; omega),
    List.getElem?_take_of_lt (by omega), h.parent]

/-- A statement at level one encloses what follows it. -/
theorem of_top {outer : List Frame} (h : InUnit 1 (outer ++ [frame])) :
    Inside frame 1 (outer ++ [frame]) := by
  have hlength : outer.length = 1 := by
    have := h.1
    rw [List.length_append, List.length_singleton] at this
    omega
  refine ⟨h, Int.le_refl 1, ?_⟩
  rw [List.getElem?_append_right (by omega), hlength]
  rfl

end Inside

section Inside

variable {id : Nat} {kind line : String} {P : Attributes → Prop} {p : Frame} {r : Reader}

/-- **A line at level two** knows the statement that encloses it. -/
theorem run_readLine_inside (h : Shows 2 id kind P line)
    (hkind : isRunOf isWordChar kind.toList = true) (hlocal : isLocalKind kind = false)
    {level : Int} {stack : List Frame} (hplace : Inside p level stack) :
    ∃ a stack', P a ∧ Inside p 2 stack' ∧ (readLine line).run (r.placed level stack) =
      (declare (shownStatement kind 2 id a) (some p)).run (r.placed 2 stack') := by
  have hlevel : ((2 : Nat) : Int) ≤ level + 1 := by have := hplace.deep; omega
  obtain ⟨a, ha, hrun⟩ :=
    @run_readLine _ _ _ _ _ (r.placed level stack) h hkind hlocal hplace.inUnit.1 hlevel
  rw [show (r.placed level stack).stack = stack from rfl, hplace.getLast?_take] at hrun
  exact ⟨a, _, ha, hplace.child _, hrun⟩

variable {name : String} {level : Int} {stack : List Frame}

/-- A member is added to the layout that was opened last. -/
theorem run_addMember {k : LayoutKind} {size : Nat} {fields : List Field} (f : Field) :
    (addMember name f.key ⟨k.offset f, .text f.type.text⟩).run
        ((r.withLayout name (rawLayout k size fields)).placed level stack) =
      .ok () ((r.withLayout name (rawLayout k size (fields ++ [f]))).placed level stack) := by
  have hmembers : (rawLayout k size (fields ++ [f])).members =
      (rawLayout k size fields).members.insert f.key ⟨k.offset f, .text f.type.text⟩ := by
    rw [rawLayout, List.map_append]
    exact Table.ofList_concat _ _
  have hlayout : rawLayout k size (fields ++ [f]) = { rawLayout k size fields with
      members := (rawLayout k size fields).members.insert f.key ⟨k.offset f, .text f.type.text⟩ } := by
    rw [← hmembers]
    rfl
  simp only [addMember, EStateM.run_bind, EStateM.run_get, Reader.unitLayout?, Reader.setUnitLayout,
    Reader.withLayout, Reader.placed, Table.find?_insert_self, EStateM.run_set,
    Table.insert_insert, hlayout]

/-- A member is added after those that the structure has. -/
theorem run_declare_member {k : LayoutKind} {size : Nat} {fields : List Field} {f : Field}
    {a : Attributes} (ha : GivesField k f a) (hname : ∀ s, f.name = some s → '"' ∉ s.toList) :
    (declare (shownStatement "DW_TAG_member" 2 f.id a) (some ⟨k.kind, name⟩)).run
        ((r.withLayout name (rawLayout k size fields)).placed level stack) =
      .ok () ((r.withLayout name (rawLayout k size (fields ++ [f]))).placed level stack) := by
  obtain ⟨hgives, htype, hplace⟩ := ha
  have hkey : a.nameOr (idText f.id) = .ok f.key := nameOr_of_givesName f.id hgives hname
  have hexpr : a.expr "DW_AT_type" = .ok (.text f.type.text) := Attributes.expr_of_find? htype
  cases k with
  | union =>
    have hdeclare : declare (shownStatement "DW_TAG_member" 2 f.id a)
        (some ⟨LayoutKind.union.kind, name⟩) =
          declareUnionMember name (shownStatement "DW_TAG_member" 2 f.id a) := rfl
    rw [hdeclare, declareUnionMember]
    simp only [shownStatement, hkey, hexpr, EStateM.run_bind, run_ofExcept_ok]
    exact run_addMember f
  | struct =>
    obtain ⟨⟨v, hv, hlocation⟩, hbits⟩ := hplace
    have hoffset : (a.text "DW_AT_data_member_location" >>= memberOffset) = .ok (f.offset : Int) := by
      rw [Attributes.text_of_find? hv]
      exact memberOffset_of_location hlocation
    have hmember : ∀ radix, memberType radix a = .ok (.text f.type.text) := by
      intro radix
      rw [memberType, contains_of_find?_none hbits, Bool.false_and, if_neg Bool.false_ne_true, hexpr]
    have hdeclare : declare (shownStatement "DW_TAG_member" 2 f.id a)
        (some ⟨LayoutKind.struct.kind, name⟩) =
          declareStructMember name (shownStatement "DW_TAG_member" 2 f.id a) := rfl
    rw [hdeclare, declareStructMember]
    simp only [shownStatement, hkey, contains_of_find? hv, if_true, hoffset, hmember,
      EStateM.run_bind, EStateM.run_get, run_ofExcept_ok]
    exact run_addMember f

/-- A value is added to the enumeration that was opened last. -/
theorem run_declare_enumerator {size : Nat} {choices : List Choice} {c : Choice} {a : Attributes}
    (ha : GivesChoice c a) (hname : '"' ∉ c.name.toList) :
    (declare (shownStatement "DW_TAG_enumerator" 2 c.id a)
        (some ⟨"DW_TAG_enumeration_type", name⟩)).run
        ((r.withEnum name ⟨size, valuesByName choices⟩).placed level stack) =
      .ok () ((r.withEnum name ⟨size, valuesByName (choices ++ [c])⟩).placed level stack) := by
  obtain ⟨⟨v, hv, hquotes⟩, hvalue⟩ := ha
  have hread : ∀ radix, a.numberBy (enumeratorValue radix) "DW_AT_const_value" = .ok c.value := by
    intro radix
    rw [Attributes.numberBy, Attributes.expr_of_find? hvalue]
    exact enumeratorValue_toString radix c.value
  have hvalues : valuesByName (choices ++ [c]) = (valuesByName choices).insert c.name c.value := by
    rw [valuesByName, List.map_append]
    exact Table.ofList_concat _ _
  have hdeclare : declare (shownStatement "DW_TAG_enumerator" 2 c.id a)
      (some ⟨"DW_TAG_enumeration_type", name⟩) =
        declareEnumerator name (shownStatement "DW_TAG_enumerator" 2 c.id a) := rfl
  rw [hdeclare, declareEnumerator]
  simp only [shownStatement, Attributes.text_of_find? hv, Text.strip_of_quotes hquotes hname, hread,
    EStateM.run_bind, EStateM.run_get, run_ofExcept_ok, Reader.withEnum, Reader.placed,
    Table.find?_insert_self, EStateM.run_set, Table.insert_insert, hvalues]

/-- A bound makes an array of what the id of the array stood for. -/
theorem run_declare_bound {element : TypeExpr} {bound : Nat} {a : Attributes}
    (ha : a.find? "DW_AT_upper_bound" = some (.text (toString bound))) :
    (declare (shownStatement "DW_TAG_subrange_type" 2 id a)
        (some ⟨"DW_TAG_array_type", name⟩)).run ((r.declare name element).placed level stack) =
      .ok () ((r.declare name (.array (bound + 1) element)).placed level stack) := by
  have hread : (a.numberBy (.ok ∘ boundValue) "DW_AT_upper_bound").map (· + 1) =
      .ok ((bound : Int) + 1) := by
    rw [Attributes.numberBy, Attributes.expr_of_find? ha]
    exact congrArg (fun n : Int => Except.ok (n + 1)) (boundValue_toString bound)
  have hdeclare : declare (shownStatement "DW_TAG_subrange_type" 2 id a)
      (some ⟨"DW_TAG_array_type", name⟩) =
        declareBound name (shownStatement "DW_TAG_subrange_type" 2 id a) := rfl
  rw [hdeclare, declareBound]
  simp only [shownStatement, contains_of_find? ha, if_true, hread, EStateM.run_bind,
    EStateM.run_get, run_ofExcept_ok, Reader.declare, Reader.placed, IdTable.get,
    Table.find?_insert_self, EStateM.run_modify, Table.insert_insert]

/-- The lines of members, one after the other. -/
theorem run_readLines_fields {k : LayoutKind} {size : Nat} {fields : List Field}
    {lines : List String}
    (h : List.Forall₂ (fun f => Shows 2 f.id "DW_TAG_member" (GivesField k f)) fields lines)
    (hname : ∀ f ∈ fields, ∀ s, f.name = some s → '"' ∉ s.toList) (done : List Field) :
    ∀ {level stack}, Inside ⟨k.kind, name⟩ level stack → ∃ level' stack',
      (readLines lines).run ((r.withLayout name (rawLayout k size done)).placed level stack) =
        .ok () ((r.withLayout name (rawLayout k size (done ++ fields))).placed level' stack') ∧
      InUnit level' stack' := by
  induction h generalizing done with
  | nil =>
    intro level stack hplace
    rw [List.append_nil]
    exact ⟨level, stack, rfl, hplace.inUnit⟩
  | @cons f line fields lines hline _ ih =>
    intro level stack hplace
    obtain ⟨hf, hfields⟩ := List.forall_mem_cons.mp hname
    obtain ⟨a, stack', ha, hplace', hrun⟩ :=
      @run_readLine_inside _ _ _ _ _ (r.withLayout name (rawLayout k size done))
        hline (by decide) (by decide) _ _ hplace
    obtain ⟨level'', stack'', hrest, hunit⟩ := ih hfields (done ++ [f]) hplace'
    rw [List.append_assoc] at hrest
    exact ⟨level'', stack'',
      (run_readLines_cons (hrun.trans (run_declare_member ha hf))).trans hrest, hunit⟩

/-- The lines of values, one after the other. -/
theorem run_readLines_choices {size : Nat} {choices : List Choice} {lines : List String}
    (h : List.Forall₂ (fun c => Shows 2 c.id "DW_TAG_enumerator" (GivesChoice c)) choices lines)
    (hname : ∀ c ∈ choices, '"' ∉ c.name.toList) (done : List Choice) :
    ∀ {level stack}, Inside ⟨"DW_TAG_enumeration_type", name⟩ level stack → ∃ level' stack',
      (readLines lines).run ((r.withEnum name ⟨size, valuesByName done⟩).placed level stack) =
        .ok () ((r.withEnum name ⟨size, valuesByName (done ++ choices)⟩).placed level' stack') ∧
      InUnit level' stack' := by
  induction h generalizing done with
  | nil =>
    intro level stack hplace
    rw [List.append_nil]
    exact ⟨level, stack, rfl, hplace.inUnit⟩
  | @cons c line choices lines hline _ ih =>
    intro level stack hplace
    obtain ⟨hc, hchoices⟩ := List.forall_mem_cons.mp hname
    obtain ⟨a, stack', ha, hplace', hrun⟩ :=
      @run_readLine_inside _ _ _ _ _ (r.withEnum name ⟨size, valuesByName done⟩)
        hline (by decide) (by decide) _ _ hplace
    obtain ⟨level'', stack'', hrest, hunit⟩ := ih hchoices (done ++ [c]) hplace'
    rw [List.append_assoc] at hrest
    exact ⟨level'', stack'',
      (run_readLines_cons (hrun.trans (run_declare_enumerator ha hc))).trans hrest, hunit⟩

end Inside

/-! ## Nodes and graphs -/

section Nodes

variable {g : TypeGraph} {r : Reader}

theorem TypeGraph.quote_not_mem {n : Node} (hn : n ∈ g.nodes) {s : String}
    (hs : n.declaration.tag? = some s) : '"' ∉ s.toList :=
  (g.isName_of_tag hn hs).2.1

/-- **The lines of a node** add the node. -/
theorem run_readLines_node {n : Node} {lines : List String} (h : NodeLines n lines)
    (hn : n ∈ g.nodes) {level : Int} {stack : List Frame} (hplace : InUnit level stack) :
    ∃ level' stack', (readLines lines).run (r.placed level stack) =
      .ok () ((n.add r).placed level' stack') ∧ InUnit level' stack' := by
  cases h with
  | @base id name line hline =>
    have hknown : name ∈ scalarNames.map Prod.fst := g.wellFormed _ hn
    have hquote : ∀ s ∈ scalarNames.map Prod.fst, '"' ∉ s.toList := by decide
    obtain ⟨scalar, hscalar⟩ := exists_lookup_of_mem hknown
    have hexpr : Node.expr ⟨id, .base name⟩ = .named scalar := by
      simp only [Node.expr, hscalar, Option.getD_some]
    have hadd : Node.add ⟨id, .base name⟩ r = r.declare (idText id) (.named scalar) := by
      rw [← hexpr]
      rfl
    rw [hadd]
    exact run_readLines_single hline (by decide) (by decide) hplace fun a ha =>
      run_declare_base ha hscalar (hquote name hknown)
  | @announced id k name line hline =>
    have hkind : isRunOf isWordChar k.kind.toList = true ∧ isLocalKind k.kind = false := by
      cases k <;> decide
    obtain ⟨a, ⟨hname, hopen⟩, hrun⟩ := run_readLine_top hline hkind.1 hkind.2 hplace
    rw [run_declare_announced k hname (fun s hs => g.quote_not_mem hn hs) hopen] at hrun
    exact ⟨1, _, run_readLines_cons hrun, hplace.top _⟩
  | @layout id k name size fields line lines hline hlines =>
    have hkind : isRunOf isWordChar k.kind.toList = true ∧ isLocalKind k.kind = false := by
      cases k <;> decide
    obtain ⟨a, ⟨hname, hopen, hsize⟩, hrun⟩ := run_readLine_top hline hkind.1 hkind.2 hplace
    rw [run_declare_layout k hname (fun s hs => g.quote_not_mem hn hs) hopen hsize] at hrun
    obtain ⟨level', stack', hrest, hunit⟩ :=
      run_readLines_fields hlines (g.wellFormed _ hn).2.2 []
        (Inside.of_top (hplace.top _))
    exact ⟨level', stack', (run_readLines_cons hrun).trans hrest, hunit⟩
  | @enumeration id name size choices line lines hline hlines =>
    obtain ⟨a, ⟨hname, hopen, hsize⟩, hrun⟩ :=
      run_readLine_top hline (by decide) (by decide) hplace
    rw [run_declare_enumeration hname (fun s hs => g.quote_not_mem hn hs) hopen hsize] at hrun
    obtain ⟨level', stack', hrest, hunit⟩ :=
      run_readLines_choices hlines (g.wellFormed _ hn).2.2 []
        (Inside.of_top (hplace.top _))
    exact ⟨level', stack', (run_readLines_cons hrun).trans hrest, hunit⟩
  | pointer hline =>
    exact run_readLines_single hline (by decide) (by decide) hplace fun a ha => run_declare_pointer ha
  | qualified hkind hline =>
    have hkinds : ∀ k ∈ ["DW_TAG_const_type", "DW_TAG_volatile_type", "DW_TAG_restrict_type"],
        isRunOf isWordChar k.toList = true ∧ isLocalKind k = false := by decide
    exact run_readLines_single hline (hkinds _ hkind).1 (hkinds _ hkind).2 hplace fun a ha =>
      run_declare_qualified hkind ha
  | synonym hline =>
    exact run_readLines_single hline (by decide) (by decide) hplace fun a ha => run_declare_synonym ha
  | @array id boundId element bound line boundLine hline hbound =>
    obtain ⟨a, ha, hrun⟩ := run_readLine_top hline (by decide) (by decide) hplace
    rw [run_declare_array ha] at hrun
    obtain ⟨a', stack', ha', hplace'', hrun'⟩ :=
      run_readLine_inside hbound (by decide) (by decide)
        (Inside.of_top (hplace.top ⟨"DW_TAG_array_type", idText id⟩))
    exact ⟨2, stack', (run_readLines_cons hrun).trans (run_readLines_cons
      (hrun'.trans (run_declare_bound ha'))), hplace''.inUnit⟩

/-- **The lines of a graph** add its nodes, one after the other. -/
theorem run_readLines_nodes {nodes : List Node} {lines : List (List String)}
    (h : List.Forall₂ NodeLines nodes lines) (hnodes : ∀ n ∈ nodes, n ∈ g.nodes) :
    ∀ {r : Reader} {level : Int} {stack : List Frame}, InUnit level stack → ∃ level' stack',
      (readLines lines.flatten).run (r.placed level stack) =
        .ok () ((nodes.foldl (fun r n => n.add r) r).placed level' stack') := by
  induction h with
  | nil =>
    intro r level stack _
    exact ⟨level, stack, rfl⟩
  | cons hlines _ ih =>
    intro r level stack hplace
    obtain ⟨hn, hnodes⟩ := List.forall_mem_cons.mp hnodes
    obtain ⟨level', stack', hrun, hplace'⟩ := run_readLines_node hlines hn hplace
    obtain ⟨level'', stack'', hrest⟩ := ih hnodes hplace'
    rw [List.flatten_cons]
    exact ⟨level'', stack'', (run_readLines_append hrun).trans hrest⟩

end Nodes

end CpuTrace.Dump
