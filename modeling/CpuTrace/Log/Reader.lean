import CpuTrace.Deflate.Stream
import CpuTrace.Emission
import CpuTrace.Wire.Parser

/-!
# Execution logs

A log file starts with a header of 24 bytes that holds, among other things, the position of a
directory. The directory gives the number of chunks and, for each, where it starts. A chunk is a
compressed stream that runs up to the start of the next one, the last up to the directory; a last
directory entry that points at the directory itself only marks the end. Decompressed, a chunk is a
sequence of entries, each a length in four bytes and a message.

Numbers are little-endian. Reading past the end of the file gives what is there; where the format
needs more, that is a fault. A chunk that starts after the next one runs to the end of the file. An
entry that is longer than what is left of its chunk is read from what is left.

Positions and lengths are numbers of any size here. Where bytes are counted in 63 bits, moving to a
position of `2 ^ 63` or more, or reading that many bytes at once, is refused. That refusal is not
modelled: such a position lies past the end of the file, and such a length takes the rest of it, like
any other that is too large.
-/

namespace CpuTrace.Log

open Wire (Bytes Message MessageKind)

/-- Why a log could not be read to its end. -/
inductive Fault where
  /-- fewer bytes than the format needs -/
  | shortRecord
  /-- no chunks -/
  | notLog
  /-- a chunk is not a well-formed stream -/
  | badStream
  /-- an entry is not a message -/
  | badEntry (fault : Wire.Fault)
deriving DecidableEq, Repr

/-- The wording of a fault; empty where the fault's kind says all. -/
def Fault.message : Fault → String
  | notLog => "Not a Pandalog"
  | _ => ""

/-! ## Numbers and parts of the file -/

/-- The number that bytes stand for, lowest first. -/
def littleEndian : Bytes → Nat
  | [] => 0
  | b :: bs => b.toNat + 256 * littleEndian bs

/-- Up to `length` bytes from a position on. -/
def slice (file : Bytes) (start length : Nat) : Bytes := (file.drop start).take length

/-- Exactly `width` bytes from a position on, as a number. -/
def numberAt (file : Bytes) (start width : Nat) : Except Fault Nat :=
  let bs := slice file start width
  if bs.length = width then .ok (littleEndian bs) else .error .shortRecord

/-- The length of the header and of a directory entry. -/
def recordLength : Nat := 24

/-- The position of the directory. -/
def directoryStart (file : Bytes) : Except Fault Nat :=
  if file.length < recordLength then .error .shortRecord else numberAt file 8 8

/-- The starts of `count` chunks, from a directory entry on. -/
def chunkStarts (count : Nat) (entries : Bytes) : Except Fault (List Nat) :=
  match count with
  | 0 => .ok []
  | count + 1 =>
    if entries.length < recordLength then .error .shortRecord
    else
      match chunkStarts count (entries.drop recordLength) with
      | .error e => .error e
      | .ok starts => .ok (littleEndian (slice entries 8 8) :: starts)

/-- The positions between which the chunks lie. -/
def chunkBounds (directory : Nat) (starts : List Nat) : List Nat :=
  if starts.getLast? = some directory then starts else starts ++ [directory]

/-- The bytes of a chunk, given where it and the next one start. -/
def chunkBytes (file : Bytes) (start next : Nat) : Bytes :=
  if next < start then file.drop start else slice file start (next - start)

/-! ## Entries -/

/-- The entries of a decompressed chunk. -/
def entries (data : Bytes) : Emission Fault Message :=
  match data with
  | [] => .nothing
  | b :: bs =>
    if (b :: bs).length < 4 then .fail .shortRecord
    else
      let length := littleEndian ((b :: bs).take 4)
      let rest := (b :: bs).drop 4
      match Message.parse .logEntry (rest.take length) with
      | .error e => .fail (.badEntry e)
      | .ok m => (Emission.one m).andThen fun _ => entries (rest.drop length)
termination_by data.length
decreasing_by
  simp only [List.length_drop, List.length_cons]
  omega

/-- The entries of a chunk. -/
def chunkEntries (file : Bytes) (start next : Nat) : Emission Fault Message :=
  match Deflate.decompress (chunkBytes file start next) with
  | none => .fail .badStream
  | some data => entries data

/-! ## Files -/

/-- Where the chunks of a file lie. -/
def bounds (file : Bytes) : Except Fault (List Nat) :=
  match directoryStart file with
  | .error e => .error e
  | .ok directory =>
    match numberAt file directory 4 with
    | .error e => .error e
    | .ok 0 => .error .notLog
    | .ok count =>
      match chunkStarts count (file.drop (directory + 4)) with
      | .error e => .error e
      | .ok starts => .ok (chunkBounds directory starts)

/-- The messages of a log file, chunk by chunk. -/
def read (file : Bytes) : Emission Fault Message :=
  .bindExcept (bounds file) fun bs =>
    .forEach (bs.zip bs.tail) fun b => chunkEntries file b.1 b.2

end CpuTrace.Log
