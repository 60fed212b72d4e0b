import CpuTrace.Dump.Publish
import CpuTrace.Text.Words

/-!
# Statements

What a statement does to the reader: it takes its place in the stack of open statements
(`openFrame`), and then declares something (`declare`). What it declares depends on its kind
(`Tag`) and, for members, enumerators and array bounds, on the statement that encloses it.
-/

namespace CpuTrace.Dump

/-- The kinds of statements, as far as the reader tells them apart. -/
inductive Tag where
  /-- the start of a compile unit -/
  | compileUnit
  /-- a structure -/
  | struct
  /-- a union -/
  | union
  /-- an array, its bounds following as statements inside it -/
  | array
  /-- an enumeration, its values following as statements inside it -/
  | enumeration
  /-- a pointer or a reference of the described language -/
  | pointer
  /-- a type of the described language itself -/
  | base
  /-- another type under a qualifier -/
  | qualifier
  /-- a type that is not followed further -/
  | blank
  /-- another type under a name -/
  | synonym
  /-- a variable -/
  | datum
  /-- a member of a structure or union -/
  | member
  /-- a value of an enumeration -/
  | enumerator
  /-- a bound of an array -/
  | bound
  /-- anything else -/
  | other
deriving DecidableEq, Repr

/-- The tag of a kind as it is written. -/
def Tag.ofKind (kind : String) : Tag :=
  match kind with
  | "DW_TAG_compile_unit" => compileUnit
  | "DW_TAG_structure_type" => struct
  | "DW_TAG_union_type" => union
  | "DW_TAG_array_type" => array
  | "DW_TAG_enumeration_type" => enumeration
  | "DW_TAG_pointer_type" => pointer
  | "DW_TAG_reference_type" => pointer
  | "DW_TAG_rvalue_reference_type" => pointer
  | "DW_TAG_base_type" => base
  | "DW_TAG_volatile_type" => qualifier
  | "DW_TAG_restrict_type" => qualifier
  | "DW_TAG_const_type" => qualifier
  | "DW_TAG_class_type" => blank
  | "DW_TAG_subroutine_type" => blank
  | "DW_TAG_typedef" => synonym
  | "DW_TAG_variable" => datum
  | "DW_TAG_member" => member
  | "DW_TAG_enumerator" => enumerator
  | "DW_TAG_subrange_type" => bound
  | _ => other

/-! ## Attributes -/

/-- The attributes of a statement by key. Values are texts; a type may also be given in full. -/
abbrev Attributes := Table String TypeExpr

namespace Attributes

/-- The attribute of a key, or the fault that there is none. -/
def expr (a : Attributes) (key : String) : Except Fault TypeExpr :=
  match a.find? key with
  | some t => .ok t
  | none => .error (.missingName key)

/-- The text of an attribute. -/
def text (a : Attributes) (key : String) : Except Fault String :=
  match a.expr key with
  | .ok (.text s) => .ok s
  | .ok _ => .error .notText
  | .error e => .error e

/-- The number of an attribute, given how one is read from a text. -/
def numberBy (a : Attributes) (read : String → Except Fault Int) (key : String) :
    Except Fault Int :=
  match a.expr key with
  | .ok (.text s) => read s
  | .ok (.int n) => .ok n
  | .ok _ => .error .illTyped
  | .error e => .error e

/-- A numeral that an attribute holds. -/
def number (a : Attributes) (r : Radix) (key : String) : Except Fault Int :=
  match a.expr key with
  | .ok (.text s) => Numeral.read r s
  | .ok _ => .error .illTyped
  | .error e => .error e

/-- The name under which an attribute puts something into a table. -/
def tableKey (a : Attributes) (key : String) : Except Fault String :=
  match a.expr key with
  | .ok (.text s) => .ok s
  | .ok _ => .error .illTyped
  | .error e => .error e

/-- The type that a statement is about; nothing in particular if it does not say. -/
def typeOrVoid (a : Attributes) : TypeExpr :=
  (a.find? "DW_AT_type").getD (.named "void")

/-- The name of what a statement declares, without quotes; one made from the id if it has none. -/
def nameOr (a : Attributes) (id : String) : Except Fault String :=
  match a.find? "DW_AT_name" with
  | none => .ok (Text.strip '"' (unnamed id))
  | some (.text s) => .ok (Text.strip '"' s)
  | some _ => .error .notText

end Attributes

/-- A statement of a dump. -/
structure Statement where
  /-- what it declares -/
  kind : String
  /-- its nesting level, as it is written -/
  level : String
  /-- its id -/
  id : String
  /-- its attributes -/
  attributes : Attributes

/-! ## Open statements -/

/-- The first items of a list; a negative number says how many to leave out at the end. -/
def keepFirst {α : Type} (n : Int) (xs : List α) : List α :=
  if 0 ≤ n then xs.take n.toNat else xs.take (xs.length - n.natAbs)

/-- Opens a statement. A deeper level adds one entry to the stack, however much deeper it is; a
level that is less deep closes the statements beyond it; then the last entry is the statement. -/
def openFrame (level : Int) (frame : Frame) : ReadM Unit := do
  let r ← get
  if r.level < level then
    set { r with level, stack := r.stack ++ [frame] }
  else
    let stack := if level < r.level then keepFirst (level + 1) r.stack else r.stack
    if stack.isEmpty then
      set { r with level, stack }
      throw .noFrame
    else
      set { r with level, stack := stack.dropLast ++ [frame] }

/-- The statement that encloses the last one. -/
def Reader.parent? (r : Reader) : Option Frame := r.stack.dropLast.getLast?

/-- Gives the last open statement its name. -/
def Reader.nameLast (r : Reader) (kind name : String) : Reader :=
  { r with stack := r.stack.dropLast ++ [⟨kind, name⟩] }

/-- Records the type that a statement declares. -/
def Reader.declare (r : Reader) (id : String) (t : TypeExpr) : Reader :=
  { r with ids := r.ids.insert id t }

/-! ## Base types -/

/-- The names of base types, and the scalars they stand for. -/
def scalarNames : List (String × String) :=
  [("bool", "unsigned char"), ("_Bool", "unsigned char"), ("char", "char"), ("wchar_t", "short"),
    ("char16_t", "short"), ("char32_t", "int"), ("float", "float"), ("double", "double"),
    ("long double", "double"), ("int", "int"), ("long int", "long"),
    ("long long int", "long long"), ("long long unsigned int", "unsigned long long"),
    ("long unsigned int", "unsigned long"), ("short int", "short"),
    ("short unsigned int", "unsigned short"), ("signed char", "signed char"),
    ("unsigned char", "unsigned char"), ("unsigned int", "unsigned int"),
    ("sizetype", "unsigned long"), ("__int128", "int128_t"), ("__int128 unsigned", "uint128_t"),
    ("ssizetype", "long")]

/-- The scalar that a base type stands for: by its name, or by size and sign if it has none. -/
def scalarName (radix : Radix) (a : Attributes) : Except Fault String := do
  if a.contains "DW_AT_name" then
    let name := Text.strip '"' (← a.text "DW_AT_name")
    match scalarNames.lookup name with
    | some s => return s
    | none => throw (.missingName name)
  else
    let size ← a.number radix "DW_AT_byte_size"
    let encoding ← a.expr "DW_AT_encoding"
    let name ← integerOfSize size
    return if encoding = .text "DW_ATE_unsigned" then "unsigned " ++ name else name

/-! ## Structures, unions, enumerations -/

/-- Opens a named type: its name goes into the stack and its id stands for that name. -/
def openNamed (s : Statement) : ReadM String := do
  let name ← ofExcept (s.attributes.nameOr s.id)
  modify fun r => (r.nameLast s.kind name).declare s.id (.named name)
  return name

/-- Whether a statement only announces a type. -/
def Statement.isAnnouncement (s : Statement) : Bool := s.attributes.contains "DW_AT_declaration"

/-- Declares a structure or union; its members follow. An announced one has no size yet. -/
def declareLayout (s : Statement) : ReadM Unit := do
  let name ← openNamed s
  unless s.isAnnouncement do
    let size ← ofExcept (s.attributes.number (← get).radix "DW_AT_byte_size")
    modify fun r => { r with unit := r.unit.insert name (.own ⟨size, ∅⟩) }

/-- Declares an enumeration; its values follow. -/
def declareEnumeration (s : Statement) : ReadM Unit := do
  let name ← openNamed s
  unless s.isAnnouncement do
    let size ← ofExcept (s.attributes.number (← get).radix "DW_AT_byte_size")
    modify fun r => { r with enums := r.enums.insert name ⟨size, ∅⟩ }

/-! ## Members -/

/-- The offset of a member: the second word of its location, if that is a number, else the text
before a parenthesis. -/
def memberOffset (location : String) : Except Fault Int :=
  match (Text.words location)[1]?.bind (Numeral.read? .decimal) with
  | some n => .ok n
  | none => Numeral.read .decimal (Text.before '(' location)

/-- A bit-field as a type. Its bits are counted from the other end of its storage unit, so its
first bit is the storage's size less the end of the field. -/
def bitField (radix : Radix) (a : Attributes) : Except Fault TypeExpr := do
  let bits := (← a.number radix "DW_AT_byte_size") * 8
  let first ← a.number radix "DW_AT_bit_offset"
  let width ← a.number radix "DW_AT_bit_size"
  if bits - (first + width) < bits - first then
    return .list [.text "BitField", .record
      [(.text "start_bit", .int (bits - (first + width))), (.text "end_bit", .int (bits - first))]]
  else throw .emptyBitField

/-- Adds a member to a structure or union of the current unit. -/
def addMember (parent name : String) (m : Member) : ReadM Unit := do
  let r ← get
  match r.unitLayout? parent with
  | some l => set (r.setUnitLayout parent { l with members := l.members.insert name m })
  | none => throw (.missingName parent)

/-- The type of a member of a structure: a bit-field if its bits are given. -/
def memberType (radix : Radix) (a : Attributes) : Except Fault TypeExpr :=
  if a.contains "DW_AT_bit_size" && a.contains "DW_AT_bit_offset" then bitField radix a
  else a.expr "DW_AT_type"

/-- Declares a member of a structure. Without a location it is not part of the layout. -/
def declareStructMember (parent : String) (s : Statement) : ReadM Unit := do
  let name ← ofExcept (s.attributes.nameOr s.id)
  if s.attributes.contains "DW_AT_data_member_location" then
    let offset ← ofExcept (s.attributes.text "DW_AT_data_member_location" >>= memberOffset)
    let type ← ofExcept (memberType (← get).radix s.attributes)
    addMember parent name ⟨offset, type⟩

/-- Declares a member of a union, which starts where the union does. -/
def declareUnionMember (parent : String) (s : Statement) : ReadM Unit := do
  let name ← ofExcept (s.attributes.nameOr s.id)
  let type ← ofExcept (s.attributes.expr "DW_AT_type")
  addMember parent name ⟨0, type⟩

/-! ## Values of enumerations, bounds of arrays, variables -/

/-- The value of an enumerator: a decimal number, or what stands before a parenthesis. -/
def enumeratorValue (radix : Radix) (text : String) : Except Fault Int :=
  match Numeral.read? .decimal text with
  | some n => .ok n
  | none => Numeral.read radix (Text.before '(' text)

/-- Declares a value of an enumeration. -/
def declareEnumerator (parent : String) (s : Statement) : ReadM Unit := do
  let name := Text.strip '"' (← ofExcept (s.attributes.text "DW_AT_name"))
  let value ← ofExcept (s.attributes.numberBy (enumeratorValue (← get).radix) "DW_AT_const_value")
  let r ← get
  match r.enums.find? parent with
  | some e =>
    let e := { e with values := e.values.insert name value }
    set { r with enums := r.enums.insert parent e }
  | none => throw (.missingName parent)

/-- The bound that a text gives: a decimal number, or what stands before a parenthesis; zero if it
cannot be read. -/
def boundValue (text : String) : Int :=
  match Numeral.read? .decimal text with
  | some n => n
  | none => (Numeral.read? .decimal (Text.before '(' text)).getD 0

/-- Declares a bound of an array: what the array's id stood for is now the element. There is one
element more than the bound says, and none without a bound. -/
def declareBound (parent : String) (s : Statement) : ReadM Unit := do
  let count ←
    if s.attributes.contains "DW_AT_upper_bound" then
      ofExcept ((s.attributes.numberBy (.ok ∘ boundValue) "DW_AT_upper_bound").map (· + 1))
    else pure 0
  let element ← ofExcept ((← get).ids.get parent)
  modify fun r => r.declare parent (.array count element)

/-- Declares a global variable, if its location has an address as its second word. -/
def declareGlobal (s : Statement) : ReadM Unit := do
  if s.attributes.contains "DW_AT_location" then
    let location ← ofExcept (s.attributes.text "DW_AT_location")
    match (Text.words location)[1]? with
    | none => pure ()
    | some word =>
      let address ← ofExcept (Numeral.read .marked word)
      let type ← ofExcept (s.attributes.expr "DW_AT_type")
      let name ← ofExcept (s.attributes.tableKey "DW_AT_name")
      modify fun r => { r with unitGlobals := r.unitGlobals.insert name ⟨address, type⟩ }

/-- Declares a local variable or a parameter, if it has a name, a line and a type. -/
def declareLocal (a : Attributes) : ReadM Unit := do
  if a.contains "DW_AT_name" && a.contains "DW_AT_decl_line" && a.contains "DW_AT_type" then
    let name ← ofExcept (a.expr "DW_AT_name")
    let line ← ofExcept (a.number (← get).radix "DW_AT_decl_line")
    let words := Text.words (← ofExcept (a.text "DW_AT_decl_file"))
    let file ← match words[1]? with
      | some file => pure file
      | none => throw .shortList
    let type ← ofExcept (a.expr "DW_AT_type")
    modify fun r => { r with unitLocals := r.unitLocals ++ [⟨name, line, file, type⟩] }

/-! ## Statements -/

/-- Starts a compile unit: what the last one declared is published, and ids mean nothing any
more. -/
def startUnit : ReadM Unit := do
  publish
  modify fun r => { r with
    unit := ∅
    unitGlobals := ∅
    locals := r.locals ++ r.unitLocals
    unitLocals := []
    ids := ∅ }

/-- Carries out what a statement declares, given the one that encloses it. -/
def declare (s : Statement) (parent : Option Frame) : ReadM Unit := do
  match Tag.ofKind s.kind with
  | .compileUnit => startUnit
  | .struct | .union => declareLayout s
  | .array =>
    let type ← ofExcept (s.attributes.expr "DW_AT_type")
    modify fun r => r.declare s.id type
  | .enumeration => declareEnumeration s
  | .pointer => modify fun r => r.declare s.id (.pointer s.attributes.typeOrVoid)
  | .base =>
    let name ← ofExcept (scalarName (← get).radix s.attributes)
    modify fun r => r.declare s.id (.named name)
  | .qualifier => modify fun r => r.declare s.id s.attributes.typeOrVoid
  | .blank => modify fun r => r.declare s.id (.named "void")
  | .synonym =>
    modify fun r => r.declare s.id ((s.attributes.find? "DW_AT_type").getD (.text "void"))
  | .datum => if s.level = "1" then declareGlobal s
  | .member =>
    match parent with
    | some p =>
      match Tag.ofKind p.kind with
      | .struct => declareStructMember p.name s
      | .union => declareUnionMember p.name s
      | _ => pure ()
    | none => pure ()
  | .enumerator =>
    match parent with
    | some p => if Tag.ofKind p.kind = .enumeration then declareEnumerator p.name s
    | none => pure ()
  | .bound =>
    match parent with
    | some p => if Tag.ofKind p.kind = .array then declareBound p.name s
    | none => pure ()
  | .other => pure ()

/-- Reads a statement. -/
def readStatement (s : Statement) : ReadM Unit := do
  let level ← ofExcept (Numeral.read .decimal s.level)
  openFrame level ⟨s.kind, s.id⟩
  declare s (← get).parent?

end CpuTrace.Dump
