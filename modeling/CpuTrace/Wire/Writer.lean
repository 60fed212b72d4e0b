import CpuTrace.Wire.Message
import CpuTrace.Wire.Record

/-!
# Writing messages

Fields are written by number, every value of a repeated field as a record of its own, with tags,
numbers and lengths in as few bytes as possible; the unknown fields follow as they came.
-/

namespace CpuTrace.Wire

/-- A length and that many bytes. -/
def encodeBytes (bs : Bytes) : Bytes := Varint.encode bs.length ++ bs

mutual

/-- The bytes of a message of a kind. -/
def Message.encode (k : MessageKind) : Message → Bytes
  | .mk values unknown => encodeFields k.fields values ++ unknown.flatten

/-- The bytes of the values of some fields. -/
def encodeFields (fs : List Field) : List (List Value) → Bytes
  | [] => []
  | vs :: vss =>
    match fs with
    | [] => []
    | f :: fs => encodeValues f vs ++ encodeFields fs vss

/-- The bytes of the values of a field. -/
def encodeValues (f : Field) : List Value → Bytes
  | [] => []
  | v :: vs => encodeValue f v ++ encodeValues f vs

/-- The bytes of a value of a field. -/
def encodeValue (f : Field) : Value → Bytes
  | .uint n => encodeTag f.number .varint ++ Varint.encode n
  | .text s => encodeTag f.number .bytes ++ encodeBytes s.toByteArray.toList
  | .message m =>
    match f.type with
    | .message k => encodeTag f.number .bytes ++ encodeBytes (Message.encode k m)
    | _ => []

end

end CpuTrace.Wire
