import CpuTrace.Dump.Reference
import CpuTrace.Layout.Basic

/-!
# The state of a reader

A reader goes through a dump line by line. It keeps the statements that enclose the current one
(`stack`), what the current compile unit has declared so far, and what earlier units have
published.

A structure declared in the current unit is at first the unit's own (`UnitEntry.own`). Publishing
moves it into the table of all types, and the unit keeps only the fact that it has it
(`UnitEntry.shared`): there is one layout under that name from then on, and a member added to it
is seen in both places. A published structure that is dropped from the table of all types becomes
the unit's own again.

A fault ends one operation but not the reader: what was changed before it stays changed, and
reading goes on with the next line. So operations run in `ReadM`, which keeps the state when it
gives a fault.
-/

namespace CpuTrace.Dump

/-- An open statement. -/
structure Frame where
  /-- what it declares -/
  kind : String
  /-- the name of a structure, union or enumeration, the id of any other statement -/
  name : String
deriving DecidableEq, Repr

/-- A structure of the current unit. -/
inductive UnitEntry where
  /-- not published yet, or dropped again -/
  | own (layout : Layout)
  /-- published; the layout is in the table of all types -/
  | shared
deriving DecidableEq

/-- The named values of an enumeration. -/
structure Enumeration where
  /-- size in bytes -/
  size : Int
  /-- values by name -/
  values : Table String Int
deriving DecidableEq

/-- A global variable. -/
structure Variable where
  /-- where it is -/
  address : Int
  /-- what it holds -/
  type : TypeExpr
deriving DecidableEq

/-- A local variable or a parameter. -/
structure Local where
  /-- its name, as it stands in the dump -/
  name : TypeExpr
  /-- the line that declares it -/
  line : Int
  /-- the file that declares it -/
  file : String
  /-- what it holds -/
  type : TypeExpr
deriving DecidableEq

/-- What has been read of a dump. -/
structure Reader where
  /-- nesting level of the last statement -/
  level : Int := -1
  /-- the open statements, outermost first -/
  stack : List Frame := []
  /-- types by statement id, of the current unit -/
  ids : IdTable := ∅
  /-- all published structures and unions -/
  types : TypeTable := ∅
  /-- the structures and unions of the current unit -/
  unit : Table String UnitEntry := ∅
  /-- all enumerations -/
  enums : Table String Enumeration := ∅
  /-- all published global variables -/
  globals : Table String Variable := ∅
  /-- the global variables of the current unit -/
  unitGlobals : Table String Variable := ∅
  /-- all published local variables -/
  locals : List Local := []
  /-- the local variables of the current unit -/
  unitLocals : List Local := []
  /-- how sizes and lines are written -/
  radix : Radix := .decimal

/-- A step of a reader; a fault keeps the state in which it arose. -/
abbrev ReadM := EStateM Fault Reader

namespace Reader

instance : Inhabited Reader := ⟨{}⟩

/-- The layout of a structure of the current unit. -/
def unitLayout? (r : Reader) (name : String) : Option Layout :=
  match r.unit.find? name with
  | some (.own l) => some l
  | some .shared => r.types.find? name
  | none => none

/-- The structures of the current unit with their layouts. -/
def unitLayouts (r : Reader) : List (String × Layout) :=
  r.unit.entries.filterMap fun e => (r.unitLayout? e.1).map fun l => (e.1, l)

/-- Changes the layout of a structure of the current unit, wherever it is kept. -/
def setUnitLayout (r : Reader) (name : String) (l : Layout) : Reader :=
  match r.unit.find? name with
  | some .shared => { r with types := r.types.insert name l }
  | _ => { r with unit := r.unit.insert name (.own l) }

end Reader

end CpuTrace.Dump
