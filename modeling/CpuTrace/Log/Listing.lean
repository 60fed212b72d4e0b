import CpuTrace.Log.Reader
import CpuTrace.Wire.Json

/-!
# Listing a log

The messages of a log as JSON, with a comma on a line of its own between them. A message that
records an instruction of the intermediate code is announced by a line.
-/

namespace CpuTrace.Log

open Wire (Message)

/-- The number of the field that records an instruction of the intermediate code. -/
def llvmEntryNumber : Nat := 30

/-- The line before a message that records an instruction of the intermediate code. -/
def announcement : String := "naseweis"

/-- What is printed for a message. -/
def messageLines (m : Message) : List String :=
  (if m.has .logEntry llvmEntryNumber then [announcement] else []) ++
    [(m.toJson .logEntry).render]

/-- What is printed for messages. -/
def listingLines : List Message → List String
  | [] => []
  | m :: ms => messageLines m ++ ms.flatMap fun m => "," :: messageLines m

/-- The listing of a log file, as far as it can be read, and the fault that ended it. -/
def listing (file : Wire.Bytes) : Emission Fault String :=
  let messages := read file
  ⟨(listingLines messages.items.toList).toArray, messages.fault⟩

end CpuTrace.Log
