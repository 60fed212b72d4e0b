import CpuTrace.Fault
import CpuTrace.Layout.Basic

/-!
# Sizes of types

The size of a type in bytes: that of its layout if a table has one for its name, the count times
the size of the element for an array, and a fixed number for the scalars of a 64-bit host. A layout
goes first, also for a structure that is named like an array or a scalar.

Type expressions are open trees, so the count of an array may be something other than a number. A
text or a list is then repeated as often as the element's size says (`TypeExpr.times`), and the
result of measuring is that text or list (`TypeTable.measure`). `TypeTable.sizeOf` asks for a
number; of an array with a number for its count it is the count times the size of the element
(`TypeTable.sizeOf_array`).
-/

namespace CpuTrace

/-- The sizes of the scalars. -/
def scalarSizes : List (String × Int) :=
  [("pointer", 8), ("unsigned long", 8), ("unsigned int", 4), ("unsigned short", 2),
    ("unsigned char", 1), ("signed long", 8), ("signed int", 4), ("signed short", 2),
    ("signed char", 1), ("long", 8), ("int", 4), ("short", 2), ("char", 1)]

/-- The size of a scalar of a given name. -/
def scalarSize (a : Atom) : Except Fault Int :=
  match a with
  | .text s =>
    match scalarSizes.lookup s with
    | some n => .ok n
    | none => .error (.missing a)
  | _ => .error (.missing a)

/-- A count times a size. Two numbers are multiplied; a text or a list is repeated by a number, not
at all if that is negative; nothing else goes together. -/
def TypeExpr.times : TypeExpr → TypeExpr → Except Fault TypeExpr
  | .int k, .int n => .ok (.int (k * n))
  | .text s, .int n => .ok (.text (String.join (List.replicate n.toNat s)))
  | .int k, .text s => .ok (.text (String.join (List.replicate k.toNat s)))
  | .list ts, .int n => .ok (.list (List.replicate n.toNat ts).flatten)
  | .int k, .list ts => .ok (.list (List.replicate k.toNat ts).flatten)
  | _, _ => .error .illTyped

/-- An expression as a number. -/
def TypeExpr.number : TypeExpr → Except Fault Int
  | .int n => .ok n
  | _ => .error .illTyped

namespace TypeTable

/-- The layout a table has for an atom; only names have one. -/
def layout? (types : TypeTable) : Atom → Option Layout
  | .text s => types.find? s
  | _ => none

/-- The measure of a type: its size in bytes, or a repeated text or list if the count of an array
is one. The head of a bare text is its first character. A record has no first part and is refused
as one without an entry for zero; it is not looked into, so one that has such an entry is refused
too. -/
def measure (types : TypeTable) : TypeExpr → Except Fault TypeExpr
  | .list [] => .error .shortList
  | .list (.list _ :: _) => .error .illTyped
  | .list (.record _ :: _) => .error .illTyped
  | .list (.atom a :: args) =>
    match types.layout? a with
    | some l => .ok (.int l.size)
    | none =>
      if a = .text "array" then
        match args with
        | count :: element :: _ =>
          match measure types element with
          | .error e => .error e
          | .ok n => count.times n
        | _ => .error .shortList
      else (scalarSize a).map .int
  | .atom (.text s) =>
    match s.toList with
    | [] => .error .shortText
    | c :: _ =>
      match types.layout? (.text (String.singleton c)) with
      | some l => .ok (.int l.size)
      | none => (scalarSize (.text (String.singleton c))).map .int
  | .atom _ => .error .illTyped
  | .record _ => .error (.missing (.int 0))

/-- The size of a type in bytes. -/
def sizeOf (types : TypeTable) (t : TypeExpr) : Except Fault Int :=
  match types.measure t with
  | .ok n => n.number
  | .error e => .error e

/-- **Arrays.** Unless a layout is named like one, an array takes the size of its element as often
as its count says. -/
theorem sizeOf_array (types : TypeTable) (k : Int) (element : TypeExpr)
    (h : types.find? "array" = none) :
    types.sizeOf (.array k element) = (types.sizeOf element).map (k * ·) := by
  simp only [sizeOf, TypeExpr.array, measure, layout?, h]
  cases types.measure element with
  | error e => rfl
  | ok n =>
    match n with
    | .int n => rfl
    | .text s => rfl
    | .atom .none => rfl
    | .list ts => rfl
    | .record fs => rfl

end TypeTable

end CpuTrace
