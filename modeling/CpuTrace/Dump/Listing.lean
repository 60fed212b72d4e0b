import CpuTrace.Dump.Line
import CpuTrace.Dump.Statement

/-!
# Reading and listing a dump

A dump is read line by line (`readLine`, `readLines`), from a text or from a file. Once a
hexadecimal id has been seen, sizes and lines are hexadecimal for good. Variables and parameters are
collected apart from the other statements. The listing (`describe`) shows the table of all types,
the members of each by offset, and the global variables by address.
-/

namespace CpuTrace.Dump

/-- Whether a statement declares a variable or a parameter. -/
def isLocalKind (kind : String) : Bool :=
  kind == "DW_TAG_formal_parameter" || kind == "DW_TAG_variable"

/-- The attributes of a line, with every value as a text. -/
def Line.values (l : Line) : Attributes := l.attributes.mapValues fun _ v => .text v

/-- The statement of a line. -/
def Line.statement (l : Line) : Statement :=
  ⟨l.header.kind, l.header.level, l.header.id, l.values⟩

/-- Reads a line. -/
def readLine (s : String) : ReadM Unit :=
  match Line.parse? s with
  | none => pure ()
  | some line => do
    if line.header.isHex then modify fun r => { r with radix := .hexadecimal }
    if isLocalKind line.header.kind then declareLocal line.values
    else readStatement line.statement

/-- Reads lines one after the other. -/
def readLines (lines : List String) : ReadM Unit := lines.forM readLine

/-- Reads the content of a file. -/
def readFile (content : String) : ReadM Unit := readLines (Text.lines Text.isLineEnd content)

/-- A reader that has read a text, or the first fault in it. -/
def Reader.ofText (text : String) : Except Fault Reader :=
  match (readLines (Text.lines Text.isLineBreak text)).run {} with
  | .ok _ r => .ok r
  | .error e _ => .error e

/-! ## The listing -/

/-- The line of a member. -/
def memberLine (m : String × Member) : String :=
  "    '" ++ m.1 ++ "': [" ++ Numeral.hex 0 m.2.offset ++ ", " ++ m.2.type.display ++ "],"

/-- The lines of a structure or union. -/
def layoutLines (e : String × Layout) : List String :=
  ("  '" ++ e.1 ++ "': [ " ++ Numeral.hex 0 e.2.size ++ ", \x7b") ::
    e.2.byOffset.map memberLine ++ ["\x7d],"]

/-- The line of a global variable. -/
def globalLine (v : String × Variable) : String :=
  "  '" ++ v.1 ++ "': [" ++ Numeral.hex 10 v.2.address ++ ", " ++ v.2.type.display ++ "],"

/-- Whether one variable is not placed after another. -/
def placedBy (a b : String × Variable) : Bool := a.2.address ≤ b.2.address

/-- The listing of what has been published. -/
def Reader.listing (r : Reader) : List String :=
  "cpu_types = \x7b" :: r.types.entries.flatMap layoutLines ++
    ["\x7d", "", "linux_gvars = \x7b"] ++
    (r.globals.entries.mergeSort placedBy).map globalLine ++ ["\x7d"]

/-- Publishes the current unit and lists everything. -/
def describe : ReadM (List String) := do
  publish
  return (← get).listing

/-- The listing of a file's content, or the first fault in it. -/
def describeFile (content : String) : Except Fault (List String) :=
  match (do readFile content; describe : ReadM (List String)).run {} with
  | .ok ls _ => .ok ls
  | .error e _ => .error e

end CpuTrace.Dump
