import CpuTrace.Layout.Leaf
import CpuTrace.Text.Words
import Std.Data.TreeMap

/-!
# Slot tables

A slot is a leaf under its printed name. The slots of a structure make its slot table, from names
to byte offsets; a name that occurs twice keeps its first place and its last offset. The inverse
goes from offsets to names; where slots share an offset, the one that comes last in the table wins.
-/

namespace CpuTrace

/-- A named place in memory. -/
structure Slot where
  /-- the name of the path to it -/
  name : String
  /-- its byte offset -/
  offset : Int
deriving DecidableEq, Repr, Inhabited

/-- The slot of a leaf. -/
def Leaf.slot (l : Leaf) : Slot := ⟨pathName l.path, l.offset⟩

/-- The line of a slot in a listing. -/
def Slot.line (s : Slot) : String :=
  let name := s.name
  let offset := s.offset
  s!"'{name}': {offset},"

/-- Slot offsets by name. -/
abbrev SlotTable := Table String Int

namespace SlotTable

/-- The slot table of a list of slots. -/
def ofSlots (slots : List Slot) : SlotTable :=
  .ofList (slots.map fun s => (s.name, s.offset))

/-- The slots of a table, in its order. -/
def slots (t : SlotTable) : List Slot := t.entries.map fun e => ⟨e.1, e.2⟩

end SlotTable

/-- Slot names by offset: of slots at one offset, the last. -/
def slotsByOffset (slots : List Slot) : Std.TreeMap Int String :=
  slots.foldl (fun m s => m.insert s.offset s.name) ∅

namespace TypeTable

/-- The slots of a type. -/
def slots (types : TypeTable) (t : TypeExpr) (offset : Int) (path : List Step) :
    Emission Fault Slot :=
  (types.leaves t offset path).map Leaf.slot

/-- The slots of a structure, under names that start with its own. -/
def slotsOf (types : TypeTable) (root : String) : Emission Fault Slot :=
  types.slots (.named root) 0 [.member root]

/-- The listing of the slots of a structure. -/
def slotListing (types : TypeTable) (root : String) : Emission Fault String :=
  (Emission.one (root ++ "_flat = \x7b")).andThen fun _ =>
    ((types.slotsOf root).map Slot.line).andThen fun _ => .one "\x7d"

/-- The members of a structure by offset, or the fault that the table does not have it. -/
def membersByOffset (types : TypeTable) (root : String) :
    Except Fault (List (String × Member)) :=
  match types.find? root with
  | some l => .ok l.byOffset
  | none => .error (.missingName root)

end TypeTable

end CpuTrace
