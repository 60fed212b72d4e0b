import CpuTrace.JsonValue
import CpuTrace.Wire.Message

/-!
# Messages as JSON

A message becomes an object with the fields that are set, by number. Field names lose their
underscores, and the letter after one is a capital. Numbers of 64 bits become texts, since a JSON
number need not hold them.
-/

namespace CpuTrace.Wire

/-- The characters of a name without underscores; `capital` says that one has just been passed. -/
def camelFrom (capital : Bool) : List Char → List Char
  | [] => []
  | c :: cs =>
    if c = '_' then camelFrom true cs
    else (if capital then c.toUpper else c) :: camelFrom false cs

/-- The name of a field in JSON. -/
def Field.jsonName (f : Field) : String := String.ofList (camelFrom false f.name.toList)

mutual

/-- A message of a kind as JSON. -/
def Message.toJson (k : MessageKind) : Message → JsonValue
  | .mk values _ => .object (jsonFields k.fields values)

/-- The fields that are set, as JSON. -/
def jsonFields (fs : List Field) : List (List Value) → List (String × JsonValue)
  | [] => []
  | vs :: vss =>
    match fs with
    | [] => []
    | f :: fs =>
      match jsonValues f vs with
      | [] => jsonFields fs vss
      | j :: js =>
        (f.jsonName, if f.label = .repeated then .array (j :: js) else j) :: jsonFields fs vss

/-- The values of a field, as JSON. -/
def jsonValues (f : Field) : List Value → List JsonValue
  | [] => []
  | v :: vs => jsonValue f v :: jsonValues f vs

/-- A value of a field, as JSON. -/
def jsonValue (f : Field) : Value → JsonValue
  | .uint n => if f.type = .uint64 then .text (toString n) else .number n
  | .text s => .text s
  | .message m =>
    match f.type with
    | .message k => Message.toJson k m
    | _ => .object []

end

end CpuTrace.Wire
