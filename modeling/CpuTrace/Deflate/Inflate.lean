import CpuTrace.Deflate.Code

/-!
# Inflating

A compressed stream is a sequence of blocks, the last of which is marked. A block is stored as it
is, or is a sequence of symbols in a code for bytes and lengths: a byte stands for itself, a length
is followed by a distance and repeats what was written that far back, and one symbol ends the
block. The codes are fixed ones, or are given at the start of the block by the lengths of their
codewords, which are themselves coded.

Every function gives nothing if the stream is not well-formed or ends early. Loops over symbols and
blocks are bounded by the number of bits left, since each takes at least one.
-/

namespace CpuTrace.Deflate

/-! ## Lengths and distances -/

/-- The least length of each length symbol, and how many bits are added to it. -/
def lengthSymbols : Array (Nat × Nat) :=
  #[(3, 0), (4, 0), (5, 0), (6, 0), (7, 0), (8, 0), (9, 0), (10, 0), (11, 1), (13, 1), (15, 1),
    (17, 1), (19, 2), (23, 2), (27, 2), (31, 2), (35, 3), (43, 3), (51, 3), (59, 3), (67, 4),
    (83, 4), (99, 4), (115, 4), (131, 5), (163, 5), (195, 5), (227, 5), (258, 0)]

/-- The least distance of each distance symbol, and how many bits are added to it. -/
def distanceSymbols : Array (Nat × Nat) :=
  #[(1, 0), (2, 0), (3, 0), (4, 0), (5, 1), (7, 1), (9, 2), (13, 2), (17, 3), (25, 3), (33, 4),
    (49, 4), (65, 5), (97, 5), (129, 6), (193, 6), (257, 7), (385, 7), (513, 8), (769, 8),
    (1025, 9), (1537, 9), (2049, 10), (3073, 10), (4097, 11), (6145, 11), (8193, 12), (12289, 12),
    (16385, 13), (24577, 13)]

/-- The number that a symbol and the bits after it stand for. -/
def readRanged? (table : Array (Nat × Nat)) (symbol : Nat) (s : BitSource) :
    Option (Nat × BitSource) :=
  match table[symbol]? with
  | none => none
  | some (least, extra) =>
    match s.number? extra with
    | none => none
    | some (n, s) => some (least + n, s)

/-- Writes again, byte by byte, what was written `distance` bytes ago. -/
def copyBack (distance : Nat) : (length : Nat) → Array UInt8 → Array UInt8
  | 0, out => out
  | length + 1, out => copyBack distance length (out.push (out.getD (out.size - distance) 0))

/-! ## Blocks -/

/-- The symbol that ends a block. -/
def endOfBlock : Nat := 256

/-- Reads the symbols of a block up to its end. -/
def inflateSymbols (lengths distances : Code) :
    (bound : Nat) → BitSource → Array UInt8 → Option (Array UInt8 × BitSource)
  | 0, _, _ => none
  | bound + 1, s, out =>
    match lengths.read? s with
    | none => none
    | some (symbol, s) =>
      if symbol < endOfBlock then
        inflateSymbols lengths distances bound s (out.push (UInt8.ofNat symbol))
      else if symbol = endOfBlock then some (out, s)
      else
        match readRanged? lengthSymbols (symbol - endOfBlock - 1) s with
        | none => none
        | some (length, s) =>
          match distances.read? s with
          | none => none
          | some (symbol, s) =>
            match readRanged? distanceSymbols symbol s with
            | none => none
            | some (distance, s) =>
              if distance ≤ out.size then
                inflateSymbols lengths distances bound s (copyBack distance length out)
              else none

/-- The fixed code for bytes and lengths. -/
def fixedLengths : Code :=
  .ofLengths (List.replicate 144 8 ++ List.replicate 112 9 ++ List.replicate 24 7 ++
    List.replicate 8 8)

/-- The fixed code for distances. -/
def fixedDistances : Code := .ofLengths (List.replicate 32 5)

/-- The order in which the lengths of the code for lengths are given. -/
def lengthOrder : List Nat := [16, 17, 18, 0, 8, 7, 9, 6, 10, 5, 11, 4, 12, 3, 13, 2, 14, 1, 15]

/-- Reads `n` numbers of three bits. -/
def readTriples? : (n : Nat) → BitSource → Option (List Nat × BitSource)
  | 0, s => some ([], s)
  | n + 1, s =>
    match s.number? 3 with
    | none => none
    | some (m, s) =>
      match readTriples? n s with
      | none => none
      | some (ms, s) => some (m :: ms, s)

/-- Reads codeword lengths until there are `total`, given those read so far, the last first. A
symbol below sixteen is a length; the others repeat the last length, or zero, some times. -/
def readLengths? (code : Code) (total : Nat) :
    (bound : Nat) → BitSource → List Nat → Option (List Nat × BitSource)
  | bound, s, done =>
    if done.length = total then some (done.reverse, s)
    else if total < done.length then none
    else
      match bound with
      | 0 => none
      | bound + 1 =>
        match code.read? s with
        | none => none
        | some (symbol, s) =>
          if symbol < 16 then readLengths? code total bound s (symbol :: done)
          else if symbol = 16 then
            match done, s.number? 2 with
            | last :: _, some (n, s) =>
              readLengths? code total bound s (List.replicate (3 + n) last ++ done)
            | _, _ => none
          else if symbol = 17 then
            match s.number? 3 with
            | some (n, s) => readLengths? code total bound s (List.replicate (3 + n) 0 ++ done)
            | none => none
          else
            match s.number? 7 with
            | some (n, s) => readLengths? code total bound s (List.replicate (11 + n) 0 ++ done)
            | none => none

/-- The codes given at the start of a block, and what follows them. A block has to be able to
end. -/
def readCodes? (s : BitSource) : Option (Code × Code × BitSource) := do
  let (n, s) ← s.number? 5
  let (m, s) ← s.number? 5
  let (k, s) ← s.number? 4
  let lengthCount := n + 257
  let distanceCount := m + 1
  if lengthCount > 286 ∨ distanceCount > 30 then none
  else
    let (triples, s) ← readTriples? (k + 4) s
    let given := lengthOrder.zip triples
    let code := Code.ofLengths ((List.range 19).map fun i => (given.lookup i).getD 0)
    if !code.isComplete then none
    else
      let total := lengthCount + distanceCount
      let (ls, s) ← readLengths? code total total s []
      let lengths := Code.ofLengths (ls.take lengthCount)
      let distances := Code.ofLengths (ls.drop lengthCount)
      if (ls.getD endOfBlock 0) ≠ 0 ∧ lengths.isUsable ∧ distances.isUsable then
        some (lengths, distances, s)
      else none

/-- Reads a stored block: its length, the complement of its length, and its bytes. -/
def inflateStored (s : BitSource) (out : Array UInt8) : Option (Array UInt8 × BitSource) :=
  match s.toByte.rest with
  | a :: b :: c :: d :: bytes =>
    let length := a.toNat + 256 * b.toNat
    if length + (c.toNat + 256 * d.toNat) = 65535 ∧ length ≤ bytes.length then
      some (out ++ (bytes.take length).toArray, .ofBytes (bytes.drop length))
    else none
  | _ => none

/-- Reads the rest of a block whose kind has been read. -/
def inflateBlock (kind : Nat) (s : BitSource) (out : Array UInt8) :
    Option (Array UInt8 × BitSource) :=
  match kind with
  | 0 => inflateStored s out
  | 1 => inflateSymbols fixedLengths fixedDistances (s.size + 1) s out
  | 2 =>
    match readCodes? s with
    | some (lengths, distances, s) => inflateSymbols lengths distances (s.size + 1) s out
    | none => none
  | _ => none

/-- Reads blocks up to the last one. -/
def inflateBlocks : (bound : Nat) → BitSource → Array UInt8 → Option (Array UInt8 × BitSource)
  | 0, _, _ => none
  | bound + 1, s, out =>
    match s.number? 3 with
    | none => none
    | some (head, s) =>
      match inflateBlock (head / 2) s out with
      | none => none
      | some (out, s) => if head % 2 = 1 then some (out, s) else inflateBlocks bound s out

/-- Reads a compressed stream: what it stands for, and what follows it from the next byte on. -/
def inflate (bs : List UInt8) : Option (Array UInt8 × List UInt8) :=
  let s := BitSource.ofBytes bs
  match inflateBlocks (s.size + 1) s #[] with
  | some (out, s) => some (out, s.toByte.rest)
  | none => none

end CpuTrace.Deflate
