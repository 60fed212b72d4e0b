/-!
# Type expressions

Types are written as small trees. A base type is a one-element list with its name, a pointer is
`["pointer", target]`, an array `["array", count, element]`, a bit-field or an enumeration a name
followed by a record. A text that starts with `<` in a list position refers to another statement of
the dump. Tables also hold trees that follow no such shape (a typedef without a target is a bare
text), so the tree itself is kept open: a `TypeExpr` is an atom, a list or a record, and the shapes
are a matter of the operations on it.

The two traversals are `deepest`, which finds the name at the bottom of nested pointers and
arrays, and `replace`, which exchanges every occurrence of a subtree in list position.
-/

namespace CpuTrace

/-- A value without parts; what a table can be asked for. -/
inductive Atom where
  /-- no value -/
  | none
  /-- a number: a count, a size, a bit position, the key of an enumerator -/
  | int (n : Int)
  /-- a name, a keyword or a reference -/
  | text (s : String)
deriving DecidableEq, Repr, Inhabited

/-- A type, or a part of one. -/
inductive TypeExpr where
  /-- a part without parts -/
  | atom (a : Atom)
  /-- the usual form: a head and its arguments -/
  | list (items : List TypeExpr)
  /-- fields by key, in the order in which they are printed -/
  | record (fields : List (Atom × TypeExpr))
deriving Repr, Inhabited

namespace TypeExpr

/-- A number as a type expression. -/
@[match_pattern] abbrev int (n : Int) : TypeExpr := .atom (.int n)

/-- A text as a type expression. -/
@[match_pattern] abbrev text (s : String) : TypeExpr := .atom (.text s)

/-- The type of a given name. -/
abbrev named (s : String) : TypeExpr := .list [.text s]

/-- A pointer to a type. -/
abbrev pointer (target : TypeExpr) : TypeExpr := .list [.text "pointer", target]

/-- An array of a number of elements. -/
abbrev array (count : Int) (element : TypeExpr) : TypeExpr :=
  .list [.text "array", .int count, element]

/-! ## Equality -/

mutual

/-- Decides whether two type expressions are the same. -/
def decEq : (s t : TypeExpr) → Decidable (s = t)
  | .atom a, .atom b =>
    if h : a = b then isTrue (h ▸ rfl) else isFalse fun e => h (TypeExpr.atom.inj e)
  | .list xs, .list ys =>
    match decEqList xs ys with
    | isTrue h => isTrue (h ▸ rfl)
    | isFalse h => isFalse fun e => h (TypeExpr.list.inj e)
  | .record xs, .record ys =>
    match decEqFields xs ys with
    | isTrue h => isTrue (h ▸ rfl)
    | isFalse h => isFalse fun e => h (TypeExpr.record.inj e)
  | .atom _, .list _ => isFalse nofun
  | .atom _, .record _ => isFalse nofun
  | .list _, .atom _ => isFalse nofun
  | .list _, .record _ => isFalse nofun
  | .record _, .atom _ => isFalse nofun
  | .record _, .list _ => isFalse nofun

/-- Decides whether two lists of type expressions are the same. -/
def decEqList : (xs ys : List TypeExpr) → Decidable (xs = ys)
  | [], [] => isTrue rfl
  | [], _ :: _ => isFalse nofun
  | _ :: _, [] => isFalse nofun
  | x :: xs, y :: ys =>
    match decEq x y with
    | isFalse h => isFalse fun e => h (List.cons.inj e).1
    | isTrue h =>
      match decEqList xs ys with
      | isFalse h' => isFalse fun e => h' (List.cons.inj e).2
      | isTrue h' => isTrue (h ▸ h' ▸ rfl)

/-- Decides whether two lists of fields are the same. -/
def decEqFields : (xs ys : List (Atom × TypeExpr)) → Decidable (xs = ys)
  | [], [] => isTrue rfl
  | [], _ :: _ => isFalse nofun
  | _ :: _, [] => isFalse nofun
  | (a, x) :: xs, (b, y) :: ys =>
    if ha : a = b then
      match decEq x y with
      | isFalse h => isFalse fun e => h (Prod.mk.inj (List.cons.inj e).1).2
      | isTrue h =>
        match decEqFields xs ys with
        | isFalse h' => isFalse fun e => h' (List.cons.inj e).2
        | isTrue h' => isTrue (ha ▸ h ▸ h' ▸ rfl)
    else isFalse fun e => ha (Prod.mk.inj (List.cons.inj e).1).1

end

instance : DecidableEq TypeExpr := decEq

/-! ## The name at the bottom -/

/-- Whether an expression says nothing: no value, zero, or an empty text, list or record. -/
def isVoid : TypeExpr → Bool
  | .atom .none => true
  | .atom (.int n) => n == 0
  | .atom (.text s) => s == ""
  | .list xs => xs.isEmpty
  | .record fs => fs.isEmpty

/-- An expression, or another in its place if it says nothing. -/
def orElse (t u : TypeExpr) : TypeExpr := if t.isVoid then u else t

mutual

/-- The only item of the first one-item list that is met in depth-first order; items that say
nothing do not count unless the whole expression is that one-item list. No value if there is
none. -/
def deepest : TypeExpr → TypeExpr
  | .atom _ => .atom .none
  | .record _ => .atom .none
  | .list [] => .atom .none
  | .list [t] => t
  | .list (t :: u :: ts) => deepestOf (t :: u :: ts)

/-- The first answer of `deepest` that says something. -/
def deepestOf : List TypeExpr → TypeExpr
  | [] => .atom .none
  | t :: ts => (deepest t).orElse (deepestOf ts)

end

/-! ## Exchanging a subtree -/

mutual

/-- Exchanges every occurrence of a subtree that is reached through lists. -/
def replace (t search new : TypeExpr) : TypeExpr :=
  match t with
  | .list ts => if TypeExpr.list ts = search then new else .list (replaceList ts search new)
  | .atom a => if TypeExpr.atom a = search then new else .atom a
  | .record fs => if TypeExpr.record fs = search then new else .record fs

/-- Exchanges every occurrence of a subtree in the items of a list. -/
def replaceList (ts : List TypeExpr) (search new : TypeExpr) : List TypeExpr :=
  match ts with
  | [] => []
  | t :: ts => replace t search new :: replaceList ts search new

end

end TypeExpr

end CpuTrace
