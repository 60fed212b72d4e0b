import CpuTrace.Text.Numeral
import CpuTrace.Wire.Message

/-!
# Messages as text

The readable form of a message: one line `name: value` for every value of a field that is set, by
field number. A message inside stands between braces, two spaces further in. Texts are shown byte
by byte, so that they are ASCII whatever they hold. Unknown fields are not shown.
-/

namespace CpuTrace.Wire

/-- A byte of a text: as a letter or in three octal digits where it is not printable. -/
def escapeByte (b : UInt8) : List Char :=
  let n := b.toNat
  if n = 9 then ['\\', 't']
  else if n = 10 then ['\\', 'n']
  else if n = 13 then ['\\', 'r']
  else if n = 34 ∨ n = 39 ∨ n = 92 then ['\\', Char.ofNat n]
  else if 32 ≤ n ∧ n ≤ 126 then [Char.ofNat n]
  else ['\\', Nat.digitChar (n / 64), Nat.digitChar (n / 8 % 8), Nat.digitChar (n % 8)]

/-- A text between double quotes. -/
def quoteBytes (s : String) : String :=
  "\"" ++ String.ofList (s.toByteArray.toList.flatMap escapeByte) ++ "\""

mutual

/-- The lines of a message of a kind. -/
def Message.textLines (k : MessageKind) : Message → List String
  | .mk values _ => fieldLines k.fields values

/-- The lines of some fields. -/
def fieldLines (fs : List Field) : List (List Value) → List String
  | [] => []
  | vs :: vss =>
    match fs with
    | [] => []
    | f :: fs => valuesLines f vs ++ fieldLines fs vss

/-- The lines of the values of a field. -/
def valuesLines (f : Field) : List Value → List String
  | [] => []
  | v :: vs => valueLines f v ++ valuesLines f vs

/-- The lines of a value of a field. -/
def valueLines (f : Field) : Value → List String
  | .uint n => [f.name ++ ": " ++ toString n]
  | .text s => [f.name ++ ": " ++ quoteBytes s]
  | .message m =>
    match f.type with
    | .message k =>
      (f.name ++ " \x7b") :: (Message.textLines k m).map ("  " ++ ·) ++ ["\x7d"]
    | _ => []

end

end CpuTrace.Wire
