import CpuTrace.Fault
import CpuTrace.Table

/-!
# References between types

In list position, a text that starts with `<` refers to the type another statement declares; what
follows is that statement's id. Ids in hexadecimal are looked up without leading zeros. `resolve`
replaces every reference by the type it stands for, again without references.

A reference leads back into the table of ids, so following them is bounded by a number
(`resolveWithin`). A chain of references longer than the table has ids follows one of them twice
and never ends; so one more than the number of ids is a bound that only an endless chain exceeds.
-/

namespace CpuTrace.Dump

/-- Types by the id of the statement that declares them. -/
abbrev IdTable := Table String TypeExpr

/-- The id that a reference names, given the text after its bracket. -/
def referredId : List Char → String
  | '0' :: 'x' :: cs => String.ofList ('0' :: 'x' :: cs.dropWhile (· == '0'))
  | cs => String.ofList cs

mutual

/-- Puts for every reference in list position what `follow` gives for its id; the first fault from
the left ends it. -/
def mapReferences (follow : String → Except Fault TypeExpr) : TypeExpr → Except Fault TypeExpr
  | .atom (.text s) =>
    match s.toList with
    | '<' :: cs => follow (referredId cs)
    | _ => .ok (.atom (.text s))
  | .atom a => .ok (.atom a)
  | .record fs => .ok (.record fs)
  | .list ts =>
    match mapReferencesList follow ts with
    | .ok us => .ok (.list us)
    | .error e => .error e

/-- The same for the items of a list. -/
def mapReferencesList (follow : String → Except Fault TypeExpr) :
    List TypeExpr → Except Fault (List TypeExpr)
  | [] => .ok []
  | t :: ts =>
    match mapReferences follow t with
    | .error e => .error e
    | .ok u =>
      match mapReferencesList follow ts with
      | .error e => .error e
      | .ok us => .ok (u :: us)

end

namespace IdTable

/-- The type of an id, or the fault that there is none. -/
def get (ids : IdTable) (id : String) : Except Fault TypeExpr :=
  match ids.find? id with
  | some t => .ok t
  | none => .error (.missingName id)

/-- Replaces references, following at most `depth` of them one after the other. -/
def resolveWithin (ids : IdTable) : Nat → TypeExpr → Except Fault TypeExpr
  | 0 => mapReferences fun _ => .error .endless
  | depth + 1 => mapReferences fun id =>
    match ids.get id with
    | .ok t => resolveWithin ids depth t
    | .error e => .error e

/-- The type without references. -/
def resolve (ids : IdTable) (t : TypeExpr) : Except Fault TypeExpr :=
  ids.resolveWithin (ids.size + 1) t

end IdTable

end CpuTrace.Dump
