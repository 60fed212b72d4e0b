import CpuTrace.Text.Numeral

/-!
# JSON texts

A JSON value and its text over several lines: two spaces of indentation per level, one item or
field a line, ASCII only.
-/

namespace CpuTrace

/-- A JSON value, without the forms that logs do not use. -/
inductive JsonValue where
  /-- a text -/
  | text (s : String)
  /-- a number -/
  | number (n : Nat)
  /-- an array -/
  | array (items : List JsonValue)
  /-- an object, its fields in order -/
  | object (fields : List (String × JsonValue))

namespace JsonValue

/-- A unit of 16 bits by its number. -/
def unitEscape (n : Nat) : List Char := '\\' :: 'u' :: Numeral.hexDigits 4 n

/-- A character in a JSON text: characters outside printable ASCII are written as units of 16
bits, two of them beyond the first plane. -/
def escape (c : Char) : List Char :=
  let n := c.toNat
  if c = '"' ∨ c = '\\' then ['\\', c]
  else if c = '\n' then ['\\', 'n']
  else if c = '\r' then ['\\', 'r']
  else if c = '\t' then ['\\', 't']
  else if n = 8 then ['\\', 'b']
  else if n = 12 then ['\\', 'f']
  else if 32 ≤ n ∧ n ≤ 126 then [c]
  else if n < 0x10000 then unitEscape n
  else
    unitEscape (0xd800 + (n - 0x10000) / 0x400) ++ unitEscape (0xdc00 + (n - 0x10000) % 0x400)

/-- A text in quotes. -/
def quote (s : String) : String :=
  "\"" ++ String.ofList (s.toList.flatMap escape) ++ "\""

/-- The start of a line at a level. -/
def indent (level : Nat) : String := String.ofList (List.replicate (2 * level) ' ')

/-- Items of an array or an object between its brackets. -/
def block (left right : String) (level : Nat) (items : List String) : String :=
  if items.isEmpty then left ++ right
  else
    left ++ "\n" ++ String.intercalate ",\n" (items.map (indent (level + 1) ++ ·)) ++
      "\n" ++ indent level ++ right

mutual

/-- The text of a value at a level. -/
def renderAt (level : Nat) : JsonValue → String
  | .text s => quote s
  | .number n => toString n
  | .array items => block "[" "]" level (renderItems (level + 1) items)
  | .object fields => block "\x7b" "\x7d" level (renderFields (level + 1) fields)

/-- The texts of items at a level. -/
def renderItems (level : Nat) : List JsonValue → List String
  | [] => []
  | v :: vs => renderAt level v :: renderItems level vs

/-- The texts of fields at a level. -/
def renderFields (level : Nat) : List (String × JsonValue) → List String
  | [] => []
  | (k, v) :: fs => (quote k ++ ": " ++ renderAt level v) :: renderFields level fs

end

/-- The text of a value. -/
def render (v : JsonValue) : String := v.renderAt 0

end JsonValue

end CpuTrace
