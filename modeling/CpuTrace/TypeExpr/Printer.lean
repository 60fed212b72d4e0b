import CpuTrace.Text.Quoted
import CpuTrace.TypeExpr.Basic

/-!
# Printed type expressions

Lists stand in brackets, records in braces as `key: value`, items are separated by a comma and a
space, and texts are quoted.
-/

namespace CpuTrace

/-- The printed form of an atom. -/
def Atom.render : Atom → String
  | .none => "None"
  | .int n => toString n
  | .text s => Text.Quoted.quote s

namespace TypeExpr

mutual

/-- The printed form of a type expression. -/
def render : TypeExpr → String
  | .atom a => a.render
  | .list ts => "[" ++ String.intercalate ", " (renderItems ts) ++ "]"
  | .record fs => "\x7b" ++ String.intercalate ", " (renderFields fs) ++ "\x7d"

/-- The printed items of a list. -/
def renderItems : List TypeExpr → List String
  | [] => []
  | t :: ts => render t :: renderItems ts

/-- The printed fields of a record. -/
def renderFields : List (Atom × TypeExpr) → List String
  | [] => []
  | (k, t) :: fs => (k.render ++ ": " ++ render t) :: renderFields fs

end

/-- How a listing shows the type of a member: a bare text as it is, all else in printed form. -/
def display : TypeExpr → String
  | .atom (.text s) => s
  | t => t.render

end TypeExpr

end CpuTrace
