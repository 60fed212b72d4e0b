import CpuTrace.Wire.Message
import CpuTrace.Wire.Record

/-!
# Reading messages

A message is read record by record into what has been read before. A record belongs to a field of
the schema if its tag is written in as few bytes as possible and its wire type suits the field;
otherwise it is kept as an unknown field. A later number or text replaces an earlier one, a later
message is read into an earlier one, and values of repeated fields add up. Repeated numbers may
also come packed, one after the other in one record. That a required field is missing is no fault.
-/

namespace CpuTrace.Wire

/-- Whether the value of a record suits a field. -/
def Field.takes (f : Field) (p : Payload) : Bool :=
  match f.type, p with
  | .uint32, .number _ => true
  | .uint64, .number _ => true
  | .uint32, .bytes _ => f.label == .repeated
  | .uint64, .bytes _ => f.label == .repeated
  | .text, .bytes _ => true
  | .message _, .bytes _ => true
  | _, _ => false

/-- The field of the schema that a record belongs to. -/
def MessageKind.fieldOf? (k : MessageKind) (r : Record) : Option Field :=
  if r.tag.isMinimal then k.fields.find? fun f => f.number == r.tag.number && f.takes r.payload
  else none

/-- The numbers in packed bytes. -/
def unpack (bs : Bytes) : Except Fault (List Nat) :=
  match bs with
  | [] => .ok []
  | b :: bs =>
    match _h : Varint.read (b :: bs) with
    | .error e => .error e
    | .ok (n, rest) =>
      match unpack rest with
      | .error e => .error e
      | .ok ns => .ok (n :: ns)
termination_by bs.length
decreasing_by exact Varint.length_lt_of_read _h

/-- A number cut to the width of a field. -/
def FieldType.cut (t : FieldType) (n : Nat) : Nat :=
  match t with
  | .uint32 => n % Nat.pow 2 32
  | _ => n % Nat.pow 2 64

/-- The message that a field holds so far, for one that comes again to be read into. -/
def Message.current (k sub : MessageKind) (f : Field) (m : Message) : Message :=
  if f.label = .repeated then .empty sub
  else
    match m.get k f.number with
    | .message s :: _ => s
    | _ => .empty sub

namespace Message

/-- Reads bytes into a message of a kind. -/
def readInto (k : MessageKind) (m : Message) (bs : Bytes) : Except Fault Message :=
  match bs with
  | [] => .ok m
  | b :: bs =>
    match _h : readRecord (b :: bs) with
    | .error e => .error e
    | .ok (r, rest) =>
      match k.fieldOf? r with
      | none => readInto k (m.addUnknown r.raw) rest
      | some f =>
        match f.type, _hp : r.payload with
        | .message sub, .bytes body =>
          match readInto sub (m.current k sub f) body with
          | .error e => .error e
          | .ok s => readInto k (m.put k f.number (.message s)) rest
        | .text, .bytes body =>
          match String.fromUTF8? body.toByteArray with
          | none => .error .notUtf8
          | some s => readInto k (m.put k f.number (.text s)) rest
        | t, .number n => readInto k (m.put k f.number (.uint (t.cut n))) rest
        | t, .bytes body =>
          match unpack body with
          | .error e => .error e
          | .ok ns =>
            readInto k (ns.foldl (fun m n => m.put k f.number (.uint (t.cut n))) m) rest
        | _, .foreign => readInto k (m.addUnknown r.raw) rest
termination_by bs.length
decreasing_by
  all_goals first
    | exact (length_lt_of_readRecord _h).1
    | exact (length_lt_of_readRecord _h).2 _ _hp

/-- Reads a message of a kind. -/
def parse (k : MessageKind) (bs : Bytes) : Except Fault Message :=
  readInto k (empty k) bs

end Message

end CpuTrace.Wire
