/-!
# Blanks, words and lines

Cutting text into pieces, over lists of characters: words between blanks (`words`), lines (`lines`),
and text without a given character at its ends (`strip`). What ends a line is a class of characters:
in a text it is every character that breaks lines (`isLineBreak`), in a file only the two that
editors write (`isLineEnd`).

## Which characters count

The library reads texts by two conventions. What a dump spells out is ASCII: the letters, digits
and underscores of a key or a kind (`Dump.isWordChar`), the digits of a level and of an id
(`Dump.header?`), and the digits of a numeral (`Numeral.digit?`), of which there may be any number
and which no underscore groups. Letters and digits of other scripts stand for nothing there. What
surrounds the words goes by Unicode 14: blanks (`isBlank`), line breaks (`isLineBreak`) and
characters that are shown as they are (`isPrintable`).

Two more rules do not depend on characters. A mark `0x`, `0o` or `0b` chooses a base, a zero in
front of other digits does not (`Radix.marked`). And what is listed from a table is listed in order
of insertion (`Table`).
-/

namespace CpuTrace.Text

/-- Whether a character separates words: the ASCII blanks and separators, and the spaces beyond
ASCII. -/
def isBlank (c : Char) : Bool :=
  let n := c.toNat
  (9 ≤ n && n ≤ 13) || (28 ≤ n && n ≤ 32) || n == 0x85 || n == 0xa0 || n == 0x1680 ||
    (0x2000 ≤ n && n ≤ 0x200a) || n == 0x2028 || n == 0x2029 || n == 0x202f || n == 0x205f ||
    n == 0x3000

/-- Removes the characters of a class from both ends. -/
def trim (p : Char → Bool) (cs : List Char) : List Char :=
  ((cs.dropWhile p).reverse.dropWhile p).reverse

/-- Removes a character from both ends of a text, as often as it stands there. -/
def strip (c : Char) (s : String) : String :=
  String.ofList (trim (· == c) s.toList)

/-- The words of a text, given the word that has been read so far. -/
def wordsFrom (word : List Char) : List Char → List (List Char)
  | [] => if word.isEmpty then [] else [word]
  | c :: cs =>
    if isBlank c then
      if word.isEmpty then wordsFrom [] cs else word :: wordsFrom [] cs
    else wordsFrom (word ++ [c]) cs

/-- The maximal runs of characters that are not blank. -/
def words (s : String) : List String :=
  (wordsFrom [] s.toList).map String.ofList

/-- Whether a character ends a line of a file: line feed and carriage return. -/
def isLineEnd (c : Char) : Bool := c == '\n' || c == '\r'

/-- Whether a character breaks a line of a text: besides the line ends, the other vertical controls,
the ASCII separators of files, groups and records, and the line and paragraph separators beyond
ASCII. -/
def isLineBreak (c : Char) : Bool :=
  let n := c.toNat
  (10 ≤ n && n ≤ 13) || (28 ≤ n && n ≤ 30) || n == 0x85 || n == 0x2028 || n == 0x2029

/-- The lines of a text, given the line that has been read so far, last character first. -/
def linesFrom (ends : Char → Bool) (line : List Char) : List Char → List (List Char)
  | [] => if line.isEmpty then [] else [line.reverse]
  | '\r' :: '\n' :: cs => line.reverse :: linesFrom ends [] cs
  | c :: cs =>
    if ends c then line.reverse :: linesFrom ends [] cs else linesFrom ends (c :: line) cs

/-- The lines of a text, where a class of characters ends them. A carriage return and the line feed
after it end one line; the end of the text ends a line only if something stands on it. -/
def lines (ends : Char → Bool) (s : String) : List String :=
  (linesFrom ends [] s.toList).map String.ofList

/-- The part of a text before the first occurrence of a character; all of it if there is none. -/
def before (c : Char) (s : String) : String :=
  String.ofList (s.toList.takeWhile (· != c))

/-- The lines of a listing as one text, each ended by a line feed. -/
def unlines (ls : List String) : String :=
  String.join (ls.map (· ++ "\n"))

end CpuTrace.Text
