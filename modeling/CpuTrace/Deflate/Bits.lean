/-!
# Bits of a byte stream

A compressed stream is read bit by bit, the lowest bit of each byte first. A `BitSource` is what is
left of the current byte and the bytes after it; skipping to the next byte drops the former.
-/

namespace CpuTrace.Deflate

/-- What is left of a stream. -/
structure BitSource where
  /-- the bits of the current byte that have not been read -/
  pending : List Bool
  /-- the bytes after it -/
  rest : List UInt8

/-- The bits of a byte, lowest first. -/
def bitsOfByte (b : UInt8) : List Bool :=
  (List.range 8).map fun i => b.toNat.testBit i

namespace BitSource

/-- The source of all bits of some bytes. -/
def ofBytes (bs : List UInt8) : BitSource := ⟨[], bs⟩

/-- The number of bits left. -/
def size (s : BitSource) : Nat := s.pending.length + 8 * s.rest.length

/-- The next bit. -/
def next? (s : BitSource) : Option (Bool × BitSource) :=
  match s.pending, s.rest with
  | b :: pending, rest => some (b, ⟨pending, rest⟩)
  | [], byte :: rest =>
    match bitsOfByte byte with
    | b :: pending => some (b, ⟨pending, rest⟩)
    | [] => none
  | [], [] => none

/-- A number of `n` bits, lowest first. -/
def number? : (n : Nat) → BitSource → Option (Nat × BitSource)
  | 0, s => some (0, s)
  | n + 1, s =>
    match s.next? with
    | none => none
    | some (b, s) =>
      match number? n s with
      | none => none
      | some (m, s) => some (b.toNat + 2 * m, s)

/-- What is left from the next whole byte on. -/
def toByte (s : BitSource) : BitSource := ⟨[], s.rest⟩

end BitSource

end CpuTrace.Deflate
