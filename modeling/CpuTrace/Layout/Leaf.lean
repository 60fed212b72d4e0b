import CpuTrace.Emission
import CpuTrace.Layout.Size

/-!
# Leaves of a type

Flattening follows a type down to its scalars: through the members of every structure the table
knows, by offset, and through the elements of every array, by index. Each scalar met is a `Leaf`
with the path to it and its byte offset. An array is recognised before the table is asked, so a
layout named `array` is never entered.

Arrays are unfolded by recursion on the type (`TypeTable.unfold`). Structures lead back into the
table, so entering them is bounded by a number (`TypeTable.leavesWithin`). A chain of structures
longer than the table has names enters one of them twice, and then it never ends; so the number of
layouts is a bound that only an endless type exceeds (`TypeTable.leaves`).
-/

namespace CpuTrace

/-- One step of an access path. -/
inductive Step where
  /-- to the member of a name -/
  | member (name : String)
  /-- to the element at an index -/
  | index (i : Nat)
deriving DecidableEq, Repr

/-- How a path shows a step. -/
def Step.chars : Step → List Char
  | member name => name.toList
  | index i => '[' :: (toString i).toList ++ [']']

/-- A scalar inside a type. -/
structure Leaf where
  /-- how it is reached -/
  path : List Step
  /-- its byte offset -/
  offset : Int
  /-- its own type -/
  type : TypeExpr

/-- Drops every dot that stands right before an opening bracket. -/
def dropDots : List Char → List Char
  | '.' :: '[' :: cs => '[' :: dropDots cs
  | c :: cs => c :: dropDots cs
  | [] => []

/-- The name of a path: its steps joined by dots, with none before an index. -/
def pathName (path : List Step) : String :=
  String.ofList (dropDots (List.intercalate ['.'] (path.map Step.chars)))

namespace TypeTable

/-- The leaves of a type, where `enter` gives those of a structure of the table. A record is refused
as `TypeTable.measure` refuses it, without looking for an entry for zero. -/
def unfold (types : TypeTable) (enter : Layout → Int → List Step → Emission Fault Leaf) :
    TypeExpr → Int → List Step → Emission Fault Leaf
  | .list [], _, _ => .fail .shortList
  | .list (head :: args), offset, path =>
    if head = .text "array" then
      match args with
      | [] => .fail .shortList
      | .atom (.int count) :: args =>
        match args with
        | element :: _ =>
          .upTo count.toNat fun i =>
            .bindExcept (types.sizeOf element) fun stride =>
              unfold types enter element (offset + stride * i) (path ++ [.index i])
        | [] => if 0 < count then .fail .shortList else .nothing
      | _ :: _ => .fail .illTyped
    else
      match head with
      | .atom a =>
        match types.layout? a with
        | some l => enter l offset path
        | none => .one ⟨path, offset, .list (head :: args)⟩
      | _ => .fail .illTyped
  | .atom (.text s), offset, path =>
    match s.toList with
    | [] => .fail .shortText
    | c :: _ =>
      match types.layout? (.text (String.singleton c)) with
      | some l => enter l offset path
      | none => .one ⟨path, offset, .atom (.text s)⟩
  | .atom _, _, _ => .fail .illTyped
  | .record _, _, _ => .fail (.missing (.int 0))

/-- The leaves of a type, entering at most `depth` structures on the way to any of them. -/
def leavesWithin (types : TypeTable) : Nat → TypeExpr → Int → List Step → Emission Fault Leaf
  | 0 => types.unfold fun _ _ _ => .fail .endless
  | depth + 1 => types.unfold fun l offset path =>
    .forEach l.byOffset fun m =>
      leavesWithin types depth m.2.type (offset + m.2.offset) (path ++ [.member m.1])

/-- The leaves of a type that starts at an offset and is reached by a path. -/
def leaves (types : TypeTable) (t : TypeExpr) (offset : Int) (path : List Step) :
    Emission Fault Leaf :=
  types.leavesWithin types.size t offset path

end TypeTable

end CpuTrace
