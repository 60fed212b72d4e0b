import CpuTrace.Text.Quoted
import CpuTrace.TypeExpr.Printer

/-!
# Faults

What can end the reading of a dump, the sizing or the flattening of a type. A fault is a value that
says what went wrong; `Fault.message` has the wording.
-/

namespace CpuTrace

/-- Why an operation on a dump or a type table stopped. -/
inductive Fault where
  /-- a table was asked for a key it does not have -/
  | missing (key : Atom)
  /-- a text is no numeral of its radix -/
  | notNumeral (radix : Radix) (text : String)
  /-- a list is too short for the item asked of it -/
  | shortList
  /-- a text is too short for the character asked of it -/
  | shortText
  /-- there is no open statement to name -/
  | noFrame
  /-- a bit-field ends where it starts, or before -/
  | emptyBitField
  /-- a value that was to be taken apart as a text is none -/
  | notText
  /-- a value is of a kind that the operation does not take -/
  | illTyped
  /-- a type contains or refers to itself, so that its unfolding has no end -/
  | endless
deriving DecidableEq, Repr

namespace Fault

/-- The longest part of a quoted text that a message shows. -/
def shownLength : Nat := 200

/-- The wording of a fault; empty where the fault's kind says all. -/
def message : Fault → String
  | missing key => key.render
  | notNumeral radix text =>
    let shown := String.ofList ((Text.Quoted.quote text).toList.take shownLength)
    let base := radix.number
    s!"invalid literal for int() with base {base}: {shown}"
  | shortList => "list index out of range"
  | shortText => "string index out of range"
  | noFrame => "list assignment index out of range"
  | emptyBitField => ""
  | notText => ""
  | illTyped => ""
  | endless => ""

/-- A table lacks a name. -/
abbrev missingName (s : String) : Fault := missing (.text s)

end Fault

/-- Reads a numeral, or says that the text is none. -/
def Numeral.read (r : Radix) (s : String) : Except Fault Int :=
  match Numeral.read? r s with
  | some n => .ok n
  | none => .error (.notNumeral r s)

end CpuTrace
