import CpuTrace.Text.Numeral
import CpuTrace.Text.Printable

/-!
# Quoted text

A text stands between single quotes, or between double quotes if it holds a single quote and no
double quote. The quote in use and the backslash are escaped by a backslash, line feed, carriage
return and tab by a letter, and every other character that is not printable by its number.
-/

namespace CpuTrace.Text.Quoted

/-- The quote for a text: the double quote exactly if it saves escaping a single one. -/
def mark (cs : List Char) : Char :=
  if '\x27' ∈ cs ∧ ¬ '"' ∈ cs then '"' else '\x27'

/-- The number of a character in two, four or eight hexadecimal digits, whichever is the first
that fits. -/
def numbered (c : Char) : List Char :=
  let n := c.toNat
  if n < 0x100 then '\\' :: 'x' :: Numeral.hexDigits 2 n
  else if n < 0x10000 then '\\' :: 'u' :: Numeral.hexDigits 4 n
  else '\\' :: 'U' :: Numeral.hexDigits 8 n

/-- One character inside quotes. -/
def escape (quote : Char) (c : Char) : List Char :=
  if c = quote ∨ c = '\\' then ['\\', c]
  else if c = '\n' then ['\\', 'n']
  else if c = '\r' then ['\\', 'r']
  else if c = '\t' then ['\\', 't']
  else if isPrintable c then [c]
  else numbered c

/-- The quoted form of a text, as characters. -/
def encode (cs : List Char) : List Char :=
  mark cs :: cs.flatMap (escape (mark cs)) ++ [mark cs]

/-- The quoted form of a text. -/
def quote (s : String) : String :=
  String.ofList (encode s.toList)

end CpuTrace.Text.Quoted
