import CpuTrace.Table
import CpuTrace.TypeExpr.Basic

/-!
# Layouts and type tables

A `Layout` is what a structure or union looks like in memory: its size in bytes and its members,
each at a byte offset. A `TypeTable` has one layout per name.
-/

namespace CpuTrace

/-- A member of a structure or union. -/
structure Member where
  /-- byte offset from the start of the structure -/
  offset : Int
  /-- what stands there -/
  type : TypeExpr
deriving DecidableEq, Repr, Inhabited

/-- The memory layout of a structure or union. -/
structure Layout where
  /-- size in bytes -/
  size : Int
  /-- the members, in order of declaration -/
  members : Table String Member
deriving DecidableEq, Inhabited

/-- Layouts by name. -/
abbrev TypeTable := Table String Layout

namespace Layout

/-- Whether one member does not start after another. -/
def startsBy (a b : String × Member) : Bool := a.2.offset ≤ b.2.offset

/-- The members by offset; those at one offset stay in order of declaration. -/
def byOffset (l : Layout) : List (String × Member) :=
  l.members.entries.mergeSort startsBy

end Layout

end CpuTrace
