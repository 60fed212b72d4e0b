import CpuTrace.Dump.Reader

/-!
# Publishing a compile unit

At the end of a unit its declarations are published, in this order:

* **structures** lose their references (`resolveUnit`) and join the table of all types;
* **global variables** and **local variables** lose theirs and join their own tables;
* **unnamed structures** that no member and no variable names any more are dropped, round by round,
  since dropping one can leave another unnamed (`pruned`);
* **enumerations** are written into the members that have one (`mergeEnums`).

A fault on the way leaves done what was done before it.
-/

namespace CpuTrace.Dump

/-! ## References -/

/-- A member without references. -/
def resolveMember (ids : IdTable) (m : Member) : Member × Option Fault :=
  match ids.resolve m.type with
  | .ok t => ({ m with type := t }, none)
  | .error e => (m, some e)

/-- Removes the references from a layout's members, up to the first fault. -/
def resolveLayout (ids : IdTable) (l : Layout) : Layout × Option Fault :=
  let swept := l.members.sweep fun _ m => resolveMember ids m
  ({ l with members := swept.1 }, swept.2)

/-- Removes the references from a structure of the current unit. -/
def resolveEntry (name : String) : ReadM Unit := do
  let r ← get
  match r.unitLayout? name with
  | none => pure ()
  | some l =>
    let (l, fault) := resolveLayout r.ids l
    set (r.setUnitLayout name l)
    match fault with
    | some e => throw e
    | none => pure ()

/-- Removes the references from all structures of the current unit, in order. -/
def resolveUnit : ReadM Unit := do
  (← get).unit.keys.forM resolveEntry

/-- Moves the unit's structures into the table of all types. -/
def Reader.publishTypes (r : Reader) : Reader :=
  { r with
    types := r.unitLayouts.foldl (fun t e => t.insert e.1 e.2) r.types
    unit := r.unit.mapValues fun _ _ => .shared }

/-- Global variables without references. -/
def resolveGlobals (ids : IdTable) : List (String × Variable) →
    Except Fault (List (String × Variable))
  | [] => .ok []
  | (name, v) :: rest => do
    let t ← ids.resolve v.type
    let rest ← resolveGlobals ids rest
    return (name, { v with type := t }) :: rest

/-- Local variables without references. -/
def resolveLocals (ids : IdTable) (vs : List Local) : Except Fault (List Local) :=
  vs.mapM fun v => do return { v with type := ← ids.resolve v.type }

/-- Publishes the unit's global variables. -/
def publishGlobals : ReadM Unit := do
  let r ← get
  let vs ← ofExcept (resolveGlobals r.ids r.unitGlobals.entries)
  let vs := Table.ofList vs
  set { r with unitGlobals := vs, globals := r.globals.update vs }

/-- Publishes the unit's local variables; they stay with the unit as well. -/
def publishLocals : ReadM Unit := do
  let r ← get
  let vs ← ofExcept (resolveLocals r.ids r.unitLocals)
  set { r with unitLocals := vs, locals := r.locals ++ vs }

/-! ## Unnamed structures -/

/-- How the reader names what the dump leaves unnamed. -/
def unnamed (id : String) : String := "__unnamed_" ++ id

/-- Whether a name is one that the reader made. -/
def isUnnamed (name : String) : Bool :=
  "__unnamed_".toList.isPrefixOf name.toList

/-- The name at the bottom of a member's type; no value if it is empty. -/
def memberName (m : Member) : TypeExpr :=
  (TypeExpr.list [.int m.offset, m.type]).deepest

/-- What the members of all types and the global variables name. -/
def usedNames (types : TypeTable) (globals : Table String Variable) : List TypeExpr :=
  types.values.flatMap (fun l => l.members.values.map memberName) ++
    globals.values.map fun v => v.type.deepest

/-- Whether an expression is an atom. -/
def isAtom : TypeExpr → Bool
  | .atom _ => true
  | _ => false

/-- Drops the unnamed structures that are not among the names in use. -/
def dropUnused (used : List TypeExpr) (types : TypeTable) : TypeTable :=
  types.filter fun name _ => !isUnnamed name || used.contains (.text name)

/-- One round: drops the unnamed structures that nothing in the tables names. -/
def pruneOnce (types : TypeTable) (globals : Table String Variable) : TypeTable :=
  dropUnused (usedNames types globals) types

theorem size_pruneOnce_le (types : TypeTable) (globals : Table String Variable) :
    (pruneOnce types globals).size ≤ types.size :=
  List.length_filter_le _ _

/-- Drops unnamed structures until all that are left are in use. -/
def pruned (types : TypeTable) (globals : Table String Variable) : TypeTable :=
  let next := pruneOnce types globals
  if _h : next.size = types.size then types else pruned next globals
termination_by types.size
decreasing_by
  exact Nat.lt_of_le_of_ne (size_pruneOnce_le types globals) _h

/-- Takes over a smaller table of all types: what it has lost goes back to the unit. -/
def Reader.withTypes (r : Reader) (types : TypeTable) : Reader :=
  { r with
    types
    unit := r.unit.mapValues fun name e =>
      match e, types.contains name, r.types.find? name with
      | .shared, false, some l => .own l
      | e, _, _ => e }

/-- Drops the unnamed structures that are not in use. What is in use has to be a name. -/
def prune : ReadM Unit := do
  let r ← get
  if (usedNames r.types r.globals).all isAtom then
    set (r.withTypes (pruned r.types r.globals))
  else throw .illTyped

/-! ## Enumerations -/

/-- The integer type of a size. -/
def integerOfSize (size : Int) : Except Fault String :=
  if size = 8 then .ok "long long"
  else if size = 4 then .ok "int"
  else if size = 2 then .ok "short"
  else if size = 1 then .ok "char"
  else .error (.missing (.int size))

/-- An enumeration as a type: the integer type that holds it, and its names by value. Of names
with one value, the last counts. -/
def Enumeration.expr (e : Enumeration) : Except Fault TypeExpr :=
  match integerOfSize e.size with
  | .error f => .error f
  | .ok target =>
    let choices : Table Int String := .ofList (e.values.entries.map fun v => (v.2, v.1))
    .ok (.list [.text "Enumeration", .record
      [(.text "target", .text target),
        (.text "choices", .record (choices.entries.map fun c => (.int c.1, .text c.2)))]])

/-- Writes the enumeration that a member has, if any, into its type. -/
def mergeMember (enums : Table String Enumeration) (m : Member) : Member × Option Fault :=
  match memberName m with
  | .atom (.text name) =>
    match enums.find? name with
    | none => (m, none)
    | some e =>
      match e.expr with
      | .ok t => ({ m with type := m.type.replace (.named name) t }, none)
      | .error f => (m, some f)
  | _ => (m, none)

/-- Writes enumerations into the members of a layout. -/
def mergeLayout (enums : Table String Enumeration) (l : Layout) : Layout × Option Fault :=
  let swept := l.members.sweep fun _ m => mergeMember enums m
  ({ l with members := swept.1 }, swept.2)

/-- Writes enumerations into the members of all types. -/
def mergeEnums : ReadM Unit := do
  let r ← get
  let (types, fault) := r.types.sweep fun _ l => mergeLayout r.enums l
  set { r with types }
  match fault with
  | some e => throw e
  | none => pure ()

/-! ## All of it -/

/-- Publishes what the current unit has declared. -/
def publish : ReadM Unit := do
  resolveUnit
  modify Reader.publishTypes
  publishGlobals
  publishLocals
  prune
  mergeEnums

end CpuTrace.Dump
