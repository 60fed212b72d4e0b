import CpuTrace.Deflate.Bits

/-!
# Codes

A code gives each symbol a codeword, and is fixed by the lengths of the codewords alone: the
codewords of one length are consecutive numbers, in the order of their symbols, and start where
those of the next shorter length left off. So a symbol is read by comparing the bits seen so far
with the range of codewords of their length.

Lengths can ask for more codewords than there are, or leave some unused. The first is refused, and
the second as well unless no codeword is longer than one bit.
-/

namespace CpuTrace.Deflate

/-- The longest codeword in bits. -/
def maxCodeLength : Nat := 15

/-- A code: for each length from one on, the symbols with codewords of that length. -/
structure Code where
  /-- symbols by length of their codewords -/
  groups : List (Array Nat)

namespace Code

/-- The code for the lengths of the symbols' codewords; a symbol of length zero has none. -/
def ofLengths (lengths : List Nat) : Code :=
  ⟨(List.range maxCodeLength).map fun i =>
    (lengths.zipIdx.filterMap fun e => if e.1 = i + 1 then some e.2 else none).toArray⟩

/-- The codewords left unused, given `left` unused ones of the length before; none if there are not
enough. -/
def unused? (left : Nat) : List (Array Nat) → Option Nat
  | [] => some left
  | g :: gs => if g.size ≤ 2 * left then unused? (2 * left - g.size) gs else none

/-- Whether every run of bits starts with a codeword. -/
def isComplete (c : Code) : Bool := unused? 1 c.groups == some 0

/-- Whether a code may be used: it is complete, or has no codeword longer than one bit. -/
def isUsable (c : Code) : Bool :=
  c.isComplete || ((unused? 1 c.groups).isSome && c.groups.tail.all (·.isEmpty))

/-- Reads a symbol: `word` is what the bits seen so far stand for, `first` the first codeword of
their length that is free. -/
def readFrom? : List (Array Nat) → (word first : Nat) → BitSource → Option (Nat × BitSource)
  | [], _, _, _ => none
  | g :: gs, word, first, s =>
    match s.next? with
    | none => none
    | some (b, s) =>
      let word := 2 * word + b.toNat
      let first := 2 * first
      match g[word - first]? with
      | some symbol => some (symbol, s)
      | none => readFrom? gs word (first + g.size) s

/-- Reads a symbol. -/
def read? (c : Code) (s : BitSource) : Option (Nat × BitSource) :=
  readFrom? c.groups 0 0 s

end Code

end CpuTrace.Deflate
