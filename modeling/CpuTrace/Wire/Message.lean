import CpuTrace.Wire.Schema
import CpuTrace.Wire.Varint

/-!
# Messages

A message of a kind has, for every field of that kind, the list of its values: none if the field is
not set, one if it is, any number if it is repeated. So two messages are the same exactly if they
have the same values in the same fields, whatever the order in which the fields came. Fields that
the schema does not know are kept beside them as the bytes they came in.
-/

namespace CpuTrace.Wire

mutual

/-- A message. -/
inductive Message where
  /-- the values of each field, by field number, and the unknown fields in order of appearance -/
  | mk (values : List (List Value)) (unknown : List Bytes)

/-- A value of a field. -/
inductive Value where
  /-- a number of either width -/
  | uint (n : Nat)
  /-- a text -/
  | text (s : String)
  /-- a message -/
  | message (m : Message)

end

namespace Message

instance : Inhabited Message := ⟨.mk [] []⟩

/-- The values of each field. -/
def values : Message → List (List Value)
  | .mk values _ => values

/-- The unknown fields. -/
def unknown : Message → List Bytes
  | .mk _ unknown => unknown

/-- The message of a kind in which no field is set. -/
def empty (k : MessageKind) : Message := .mk (k.fields.map fun _ => []) []

/-- Keeps an unknown field. -/
def addUnknown (m : Message) (raw : Bytes) : Message := .mk m.values (m.unknown ++ [raw])

/-- Adds a value to those of a field: a repeated field has it after the others, any other field has
it alone. -/
def putValue (f : Field) (v : Value) (vs : List Value) : List Value :=
  if f.label = .repeated then vs ++ [v] else [v]

/-- Gives a field of a message a value. -/
def put (k : MessageKind) (number : Nat) (v : Value) (m : Message) : Message :=
  .mk (List.zipWith (fun f vs => if f.number = number then putValue f v vs else vs)
    k.fields m.values) m.unknown

/-- The values of the field of a number. -/
def get (k : MessageKind) (number : Nat) (m : Message) : List Value :=
  match (k.fields.zip m.values).find? fun e => e.1.number == number with
  | some e => e.2
  | none => []

/-- Whether the field of a number is set. -/
def has (k : MessageKind) (number : Nat) (m : Message) : Bool := !(m.get k number).isEmpty

end Message

end CpuTrace.Wire
