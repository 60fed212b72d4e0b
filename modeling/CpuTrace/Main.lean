import CpuTrace.Cpu.SlotIndex
import CpuTrace.Dump.Listing
import CpuTrace.Log.Listing

/-!
# Command line

* `types FILE` lists the types and global variables of a debug-information dump;
* `slots FILE ROOT` lists the slots of one structure of a dump;
* `cpu NAME` lists the slots of an emulated processor;
* `log FILE` lists the messages of an execution log.

A fault goes to the error output, after what was listed before it.
-/

namespace CpuTrace

/-- Prints the lines of an emission, then the wording of its fault, if any. -/
def report {ε : Type} (wording : ε → String) (e : Emission ε String) : IO UInt32 := do
  for line in e.items do
    IO.println line
  match e.fault with
  | none => return 0
  | some f =>
    IO.eprintln (wording f)
    return 1

/-- The lines of a computation as an emission. -/
def emitLines (x : Except Fault (List String)) : Emission Fault String :=
  .bindExcept x fun ls => ⟨ls.toArray, none⟩

/-- The slots of one structure of a dump. -/
def dumpSlots (content root : String) : Emission Fault String :=
  let run : Dump.ReadM Unit := do Dump.readFile content; Dump.publish
  match run.run {} with
  | .ok _ r => r.types.slotListing root
  | .error e _ => .fail e

end CpuTrace

open CpuTrace in
/-- Runs one of the commands. -/
def main (args : List String) : IO UInt32 := do
  match args with
  | ["types", file] =>
    report Fault.message (emitLines (Dump.describeFile (← IO.FS.readFile file)))
  | ["slots", file, root] => report Fault.message (dumpSlots (← IO.FS.readFile file) root)
  | ["cpu", name] =>
    match Cpu.Architecture.ofName? name with
    | some a => report Fault.message (a.types.slotListing a.root)
    | none =>
      IO.eprintln "the processors are i386, x86_64 and ppc"
      return 2
  | ["log", file] =>
    report Log.Fault.message (Log.listing (← IO.FS.readBinFile file).toList)
  | _ =>
    IO.eprintln "usage: types FILE | slots FILE ROOT | cpu NAME | log FILE"
    return 2
