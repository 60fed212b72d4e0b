import CpuTrace.Table

/-!
# Lines of a dump

A line of a debug-information dump describes one statement:

`<2><1442><DW_TAG_member> DW_AT_name<fs> DW_AT_type<<90>>`

Its header gives the nesting level, the statement's id and its kind, each in angle brackets. An id
is a run of decimal digits and plus signs, or a hexadecimal numeral with `0x`, or two of them joined
by a plus sign. After the header come attributes: a word directly followed by a value in angle
brackets. The value ends at the first closing bracket, so a reference keeps its opening one
(`<90`). Whatever else stands between attributes is passed over. Lines without a header describe
nothing.
-/

namespace CpuTrace.Dump

/-- Whether a character can be part of a word. Keys and kinds are ASCII. -/
def isWordChar (c : Char) : Bool := c.isAlphanum || c == '_'

/-- Whether a character is a hexadecimal digit. -/
def isHexDigit (c : Char) : Bool :=
  c.isDigit || ('a' ≤ c && c ≤ 'f') || ('A' ≤ c && c ≤ 'F')

/-- Whether characters are given and all of one class. -/
def isRunOf (p : Char → Bool) (cs : List Char) : Bool := !cs.isEmpty && cs.all p

/-! ## Headers -/

/-- The three fields before the attributes. -/
structure Header where
  /-- nesting level, in decimal digits -/
  level : String
  /-- the statement's id -/
  id : String
  /-- what the statement declares -/
  kind : String
  /-- whether the id is hexadecimal -/
  isHex : Bool
deriving DecidableEq, Repr

/-- The text between an opening bracket and the first closing one, and what follows. -/
def bracketed? : List Char → Option (List Char × List Char)
  | '<' :: cs =>
    match cs.dropWhile (· != '>') with
    | [] => none
    | _ :: rest => some (cs.takeWhile (· != '>'), rest)
  | _ => none

/-- Whether a text is a decimal id. -/
def isDecimalId (cs : List Char) : Bool :=
  isRunOf (fun c => c.isDigit || c == '+') cs

/-- Whether a text is a hexadecimal id: one marked numeral, or two joined by a plus sign. -/
def isHexId : List Char → Bool
  | '0' :: 'x' :: cs =>
    let digits := cs.takeWhile isHexDigit
    !digits.isEmpty &&
      match cs.dropWhile isHexDigit with
      | [] => true
      | '+' :: '0' :: 'x' :: ds => isRunOf isHexDigit ds
      | _ => false
  | _ => false

/-- The header of a line, and what follows it. -/
def header? (cs : List Char) : Option (Header × List Char) := do
  let (level, cs) ← bracketed? cs
  let (id, cs) ← bracketed? cs
  let (kind, cs) ← bracketed? cs
  if isRunOf Char.isDigit level && isRunOf isWordChar kind && (isDecimalId id || isHexId id) then
    some (⟨String.ofList level, String.ofList id, String.ofList kind, isHexId id⟩, cs)
  else none

/-! ## Attributes -/

/-- The attributes in the rest of a line, first to last. A value without a closing bracket ends
the search: no later one could be closed either. -/
def attributes (cs : List Char) : List (String × String) :=
  match cs with
  | [] => []
  | c :: rest =>
    if isWordChar c then
      match _h : rest.dropWhile isWordChar with
      | [] => []
      | d :: after =>
        if d = '<' then
          match _h' : after.dropWhile (· != '>') with
          | [] => []
          | _ :: rest' =>
            (String.ofList (c :: rest.takeWhile isWordChar),
              String.ofList (after.takeWhile (· != '>'))) :: attributes rest'
        else attributes after
    else attributes rest
termination_by cs.length
decreasing_by
  · have h1 := (List.dropWhile_sublist isWordChar (l := rest)).length_le
    have h2 := (List.dropWhile_sublist (· != '>') (l := after)).length_le
    simp only [_h, _h', List.length_cons] at h1 h2 ⊢
    omega
  · have h1 := (List.dropWhile_sublist isWordChar (l := rest)).length_le
    simp only [_h, List.length_cons] at h1 ⊢
    omega
  · simp

/-- A line that describes a statement. -/
structure Line where
  /-- level, id and kind -/
  header : Header
  /-- the attributes; of two with one key, the later -/
  attributes : Table String String

/-- Reads a line, if it has a header. -/
def Line.parse? (s : String) : Option Line :=
  match header? s.toList with
  | some (header, rest) => some ⟨header, .ofList (Dump.attributes rest)⟩
  | none => none

end CpuTrace.Dump
