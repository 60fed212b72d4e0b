import CpuTrace.Text.Words

/-!
# Integer numerals

Reading and writing integers. A numeral may stand between blanks and may carry one sign. What
digits it has, and whether a mark such as `0x` stands before them, depends on its `Radix`:
`decimal` takes no mark, `hexadecimal` an optional one, and `marked` lets the mark choose the base
and reads unmarked digits as decimal. Unmarked digits that start with a zero are then read only if
all of them are zero.
-/

namespace CpuTrace

/-- How the digits of a numeral are read. -/
inductive Radix where
  /-- ten, without a mark -/
  | decimal
  /-- sixteen, with an optional mark -/
  | hexadecimal
  /-- what the mark says, ten without one -/
  | marked
deriving DecidableEq, Repr

/-- The number by which messages name the radix. -/
def Radix.number : Radix → Nat
  | decimal => 10
  | hexadecimal => 16
  | marked => 0

namespace Numeral

/-! ## Digits -/

/-- The value of a digit below a base. -/
def digit? (base : Nat) (c : Char) : Option Nat :=
  let n := c.toNat
  let d :=
    if 48 ≤ n ∧ n ≤ 57 then n - 48
    else if 97 ≤ n ∧ n ≤ 122 then n - 87
    else if 65 ≤ n ∧ n ≤ 90 then n - 55
    else base
  if d < base then some d else none

/-- The value of a run of digits, continuing a number read so far. -/
def digitsFrom? (base : Nat) (n : Nat) : List Char → Option Nat
  | [] => some n
  | c :: cs =>
    match digit? base c with
    | some d => digitsFrom? base (base * n + d) cs
    | none => none

/-- The value of a non-empty run of digits. -/
def digits? (base : Nat) : List Char → Option Nat
  | [] => none
  | cs => digitsFrom? base 0 cs

/-! ## Reading -/

/-- The base that the letter after a leading zero stands for. -/
def markBase? (c : Char) : Option Nat :=
  if c = 'x' ∨ c = 'X' then some 16
  else if c = 'o' ∨ c = 'O' then some 8
  else if c = 'b' ∨ c = 'B' then some 2
  else none

/-- Reads an unsigned numeral. -/
def unsigned? (r : Radix) (cs : List Char) : Option Nat :=
  match r, cs with
  | .decimal, cs => digits? 10 cs
  | .hexadecimal, '0' :: c :: ds =>
    if markBase? c = some 16 then digits? 16 ds else digits? 16 ('0' :: c :: ds)
  | .hexadecimal, cs => digits? 16 cs
  | .marked, '0' :: c :: ds =>
    match markBase? c with
    | some base => digits? base ds
    | none => (digits? 10 (c :: ds)).filter (· = 0)
  | .marked, cs => digits? 10 cs

/-- Reads a numeral with an optional sign. -/
def signed? (r : Radix) : List Char → Option Int
  | '-' :: cs => (unsigned? r cs).map fun n => -(n : Int)
  | '+' :: cs => (unsigned? r cs).map fun n => (n : Int)
  | cs => (unsigned? r cs).map fun n => (n : Int)

/-- The blanks that may stand around a numeral: those between words, less the separators of
ASCII. -/
def isPadding (c : Char) : Bool :=
  let n := c.toNat
  Text.isBlank c && !(28 ≤ n && n ≤ 31)

/-- Reads a numeral between blanks. -/
def read? (r : Radix) (s : String) : Option Int :=
  signed? r (Text.trim isPadding s.toList)

/-! ## Writing -/

/-- The hexadecimal digits of a natural number, zeros put in front up to a width. -/
def hexDigits (width : Nat) (n : Nat) : List Char :=
  let ds := Nat.toDigits 16 n
  List.replicate (width - ds.length) '0' ++ ds

/-- An integer in hexadecimal: sign, `0x`, digits, with zeros before the digits up to a width in
all. -/
def hex (width : Nat) (n : Int) : String :=
  if n < 0 then "-0x" ++ String.ofList (hexDigits (width - 3) n.natAbs)
  else "0x" ++ String.ofList (hexDigits (width - 2) n.natAbs)

end Numeral

end CpuTrace
