import CpuTrace.Dump.Listing
import CpuTrace.Proofs.Lines
import Mathlib

/-!
# Reading a written line

What the reader does with a line that was written from its parts. The header is a level, an id and a
kind, and the attributes follow in any number (`lineText`). Two forms of ids compete for the header, and
the attributes are searched for in what is left of the line, each search from where the last one
ended. So a value may look like another attribute, or like another header: up to the bracket that closes
it, nothing in it is seen.

The main statement is `readLine_lineText`: reading the line is the same as handing the reader the parts,
the attributes as a table in which the later of two values counts.
-/

namespace CpuTrace.Dump

/-! ## Ids -/

/-- An id as it is written. -/
inductive WrittenId where
  /-- decimal digits -/
  | decimal (digits : String)
  /-- hexadecimal digits, after their mark -/
  | hexadecimal (digits : String)

namespace WrittenId

/-- The text of an id. -/
def text : WrittenId → String
  | decimal digits => digits
  | hexadecimal digits => "0x" ++ digits

/-- Whether an id is hexadecimal. -/
def isHex : WrittenId → Bool
  | decimal _ => false
  | hexadecimal _ => true

/-- There are digits, and nothing else. -/
def IsWritten : WrittenId → Prop
  | decimal digits => isRunOf Char.isDigit digits.toList = true
  | hexadecimal digits => isRunOf isHexDigit digits.toList = true

instance (id : WrittenId) : Decidable id.IsWritten :=
  match id with
  | decimal digits => inferInstanceAs (Decidable (isRunOf Char.isDigit digits.toList = true))
  | hexadecimal digits => inferInstanceAs (Decidable (isRunOf isHexDigit digits.toList = true))

variable {id : WrittenId}

theorem toList_text_hexadecimal (digits : String) :
    (hexadecimal digits).text.toList = '0' :: 'x' :: digits.toList :=
  String.toList_append

/-- The two forms are told apart: no decimal id has a mark. -/
theorem IsWritten.isHexId_text (h : id.IsWritten) : isHexId id.text.toList = id.isHex := by
  cases id with
  | hexadecimal digits =>
    rw [toList_text_hexadecimal]
    exact isHexId_of_isRunOf h
  | decimal digits =>
    have hx : 'x' ∉ digits.toList := fun hx => by
      have hdigit := (isRunOf_iff.mp h).2 'x' hx
      revert hdigit
      decide
    rw [isHex, text, isHexId.eq_def]
    split
    · next cs hcs => exact (hx (by simp [hcs])).elim
    · rfl

theorem IsWritten.isId_text (h : id.IsWritten) :
    (isDecimalId id.text.toList || isHexId id.text.toList) = true := by
  cases id with
  | hexadecimal digits => rw [h.isHexId_text, isHex, Bool.or_true]
  | decimal digits =>
    obtain ⟨hne, hall⟩ := isRunOf_iff.mp h
    have hdecimal : isDecimalId digits.toList = true :=
      isRunOf_iff.mpr ⟨hne, fun c hc => by rw [hall c hc, Bool.true_or]⟩
    rw [text, hdecimal, Bool.true_or]

/-- No bracket closes an id before its end. -/
theorem IsWritten.close_not_mem_text (h : id.IsWritten) : '>' ∉ id.text.toList := by
  cases id with
  | hexadecimal digits =>
    rw [toList_text_hexadecimal]
    have hdigits : '>' ∉ digits.toList := not_mem_of_isRunOf h (by decide)
    simpa using hdigits
  | decimal digits => exact not_mem_of_isRunOf h (by decide)

end WrittenId

/-! ## Lines -/

/-- The text of a line: the level, the id and the kind in brackets, then the attributes. -/
def lineText (level : Nat) (id : WrittenId) (kind : String) (as : List Attribute) : String :=
  String.ofList (lineChars (toString level).toList id.text.toList kind.toList as)

/-- The attributes that were written, by key. -/
def writtenAttributes (as : List Attribute) : Attributes :=
  .ofList (as.map fun a => (a.key, .text a.value))

/-- Of two values that were written for a key, the later counts. -/
theorem find?_writtenAttributes (as : List Attribute) (key : String) :
    (writtenAttributes as).find? key =
      (as.reverse.find? fun a => a.key = key).map fun a => .text a.value := by
  have hlookup : ∀ bs : List Attribute,
      (bs.map fun a => (a.key, TypeExpr.text a.value)).lookup key =
        (bs.find? fun a => a.key = key).map fun a => .text a.value := by
    intro bs
    induction bs with
    | nil => rfl
    | cons b bs ih =>
      rw [List.map_cons, Table.lookup_cons_eq_ite, ih]
      by_cases hb : key = b.key
      · simp [hb]
      · simp [hb, Ne.symm hb]
  rw [writtenAttributes, Table.find?_ofList, ← List.map_reverse, hlookup]

/-- The values of a line that was written are those that were written. -/
theorem mapValues_entries (as : List Attribute) :
    ((Table.ofList (as.map Attribute.entry)).mapValues fun _ v => TypeExpr.text v) =
      writtenAttributes as := by
  rw [Table.mapValues_ofList, List.map_map]
  rfl

/-- **A line is read as its parts.** Take a level, an id in decimal digits or in marked hexadecimal ones,
a kind that is a word, and attributes with words for keys and any texts without a closing bracket for
values. Reading the line that is written from them does what the parts say: a hexadecimal id makes the
numbers hexadecimal; a variable or a parameter is collected, with the attributes by key; any other
statement is read with just this kind, level and id, and with the attributes by key. Of two values of a
key the later counts. -/
theorem readLine_lineText (level : Nat) (id : WrittenId) (kind : String) (as : List Attribute)
    (hid : id.IsWritten) (hkind : isRunOf isWordChar kind.toList = true)
    (has : ∀ a ∈ as, a.IsWritten) :
    readLine (lineText level id kind as) = (do
      if id.isHex then modify fun r => { r with radix := .hexadecimal }
      if isLocalKind kind then declareLocal (writtenAttributes as)
      else readStatement ⟨kind, toString level, id.text, writtenAttributes as⟩) ∧
    ∀ key, (writtenAttributes as).find? key =
      (as.reverse.find? fun a => a.key = key).map fun a => .text a.value := by
  have hlevel : isRunOf Char.isDigit (toString level).toList = true := by
    rw [Nat.toString_eq_ofList_toDigits, String.toList_ofList]
    refine isRunOf_iff.mpr ⟨Nat.toDigits_ne_nil, fun c hc => ?_⟩
    exact Nat.isDigit_of_mem_toDigits (by decide) (by decide) hc
  have hparse := Line.parse?_of_written hlevel hid.isId_text hid.close_not_mem_text hkind has
    (String.toList_ofList (l := lineChars (toString level).toList id.text.toList kind.toList as))
  refine ⟨?_, find?_writtenAttributes as⟩
  rw [readLine, lineText, hparse]
  simp only [Line.statement, Line.values, mapValues_entries, hid.isHexId_text, String.ofList_toList]

/-- A name that looks like an attribute, a reference, and the name again, which looks like the start of
a line. -/
def misleadingAttributes : List Attribute :=
  [⟨1, "DW_AT_name", "a DW_AT_type<9", false⟩, ⟨0, "DW_AT_type", "<0x2d", true⟩,
    ⟨0, "DW_AT_name", "<1 <2 (<DW_TAG_variable", true⟩]

theorem readLine_misleadingAttributes :
    lineText 2 (.hexadecimal "1f") "DW_TAG_member" misleadingAttributes =
        "<2><0x1f><DW_TAG_member>  DW_AT_name<a DW_AT_type<9> DW_AT_type<<0x2d>>" ++
          " DW_AT_name<<1 <2 (<DW_TAG_variable>>" ∧
      readLine (lineText 2 (.hexadecimal "1f") "DW_TAG_member" misleadingAttributes) = (do
        modify fun r => { r with radix := .hexadecimal }
        readStatement ⟨"DW_TAG_member", "2", "0x1f", writtenAttributes misleadingAttributes⟩) ∧
      (writtenAttributes misleadingAttributes).find? "DW_AT_name" =
        some (.text "<1 <2 (<DW_TAG_variable") := by
  obtain ⟨hread, hfind⟩ := readLine_lineText 2 (.hexadecimal "1f") "DW_TAG_member" misleadingAttributes
    (by decide) (by decide) (by decide)
  exact ⟨by decide, hread, hfind "DW_AT_name"⟩

end CpuTrace.Dump
