import CpuTrace.Wire.Message

/-!
# Required fields

Reading accepts a message whose required fields are not all set. Two views tell whether something
is missing: `isComplete` answers yes or no, `missing` gives the paths of the fields that are not
set, first the message's own, then those of the messages in it.
-/

namespace CpuTrace.Wire

/-- Whether a field has to be set and is not. -/
def Field.isMissing (f : Field) (vs : List Value) : Bool := f.label == .required && vs.isEmpty

mutual

/-- Whether all required fields are set, here and in every message inside. -/
def Message.isComplete (k : MessageKind) : Message → Bool
  | .mk values _ => fieldsComplete k.fields values

/-- Whether some fields are set where required, and their messages complete. -/
def fieldsComplete (fs : List Field) : List (List Value) → Bool
  | [] => true
  | vs :: vss =>
    match fs with
    | [] => true
    | f :: fs => !f.isMissing vs && valuesComplete f vs && fieldsComplete fs vss

/-- Whether the messages among the values of a field are complete. -/
def valuesComplete (f : Field) : List Value → Bool
  | [] => true
  | v :: vs => valueComplete f v && valuesComplete f vs

/-- Whether a value is complete. -/
def valueComplete (f : Field) : Value → Bool
  | .message m =>
    match f.type with
    | .message k => Message.isComplete k m
    | _ => true
  | .uint _ => true
  | .text _ => true

end

/-- The path of a value of a field: a repeated one carries its index. -/
def Field.pathOf (f : Field) (i : Nat) : String :=
  if f.label = .repeated then f.name ++ "[" ++ toString i ++ "]" else f.name

/-- The names of the fields that have to be set and are not. -/
def missingOwn (fs : List Field) (values : List (List Value)) : List String :=
  ((fs.zip values).filter fun e => e.1.isMissing e.2).map fun e => e.1.name

mutual

/-- The paths of all required fields that are not set. -/
def Message.missing (k : MessageKind) : Message → List String
  | .mk values _ => missingOwn k.fields values ++ missingInFields k.fields values

/-- The paths below some fields. -/
def missingInFields (fs : List Field) : List (List Value) → List String
  | [] => []
  | vs :: vss =>
    match fs with
    | [] => []
    | f :: fs => missingInValues f 0 vs ++ missingInFields fs vss

/-- The paths below the values of a field, the first of which has index `i`. -/
def missingInValues (f : Field) (i : Nat) : List Value → List String
  | [] => []
  | v :: vs =>
    (missingInValue f v).map (fun path => f.pathOf i ++ "." ++ path) ++
      missingInValues f (i + 1) vs

/-- The paths below a value. -/
def missingInValue (f : Field) : Value → List String
  | .message m =>
    match f.type with
    | .message k => Message.missing k m
    | _ => []
  | .uint _ => []
  | .text _ => []

end

end CpuTrace.Wire
