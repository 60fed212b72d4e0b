import CpuTrace.Cpu.PowerPc
import CpuTrace.Cpu.X86
import CpuTrace.Layout.SlotTable
import Std.Data.HashMap

/-!
# Slot tables of the emulated processors

The slots of a processor are the leaves of the structure that holds its state. A `SlotIndex` has
them in order and finds them by name, by offset and by place.
-/

namespace CpuTrace

/-- Slots that can be looked up. -/
structure SlotIndex where
  /-- the slots in order -/
  slots : Array Slot
  /-- offsets by name -/
  byName : Std.HashMap String Int
  /-- names by offset; of slots at one offset, the last -/
  byOffset : Std.TreeMap Int String
  /-- the same, smallest offset first -/
  inverse : Array (Int × String)

namespace SlotIndex

/-- The index of some slots. -/
def ofSlots (slots : Array Slot) : SlotIndex :=
  let byOffset := slotsByOffset slots.toList
  ⟨slots, slots.foldl (fun m s => m.insert s.name s.offset) ∅, byOffset, byOffset.toArray⟩

/-- The offset of a slot, or the fault that there is none of that name. -/
def offsetOf (x : SlotIndex) (name : String) : Except Fault Int :=
  match x.byName[name]? with
  | some n => .ok n
  | none => .error (.missingName name)

/-- The name of the slot at an offset. -/
def nameAt? (x : SlotIndex) (offset : Int) : Option String := x.byOffset[offset]?

end SlotIndex

namespace Cpu

/-- The emulated processors. -/
inductive Architecture where
  /-- x86 with registers of 32 bits -/
  | i386
  /-- x86 with registers of 64 bits -/
  | x8664
  /-- PowerPC -/
  | powerPc
deriving DecidableEq, Repr

namespace Architecture

/-- The processor of a name. -/
def ofName? : String → Option Architecture
  | "i386" => some i386
  | "x86_64" => some x8664
  | "ppc" => some powerPc
  | _ => none

/-- The structures of a processor. -/
def types : Architecture → TypeTable
  | i386 => .ofList (commonLayouts ++ x86Layouts ++ i386Layouts)
  | x8664 => .ofList (commonLayouts ++ x86Layouts ++ x8664Layouts)
  | powerPc => .ofList (commonLayouts ++ powerPcLayouts)

/-- The structure that holds the state of a processor. -/
def root : Architecture → String
  | i386 => "X86CPU"
  | x8664 => "X86CPU"
  | powerPc => "PowerPCCPU"

/-- The slots of a processor, in order. -/
def slots (a : Architecture) : Array Slot := (a.types.slotsOf a.root).items

end Architecture

/-- The slots of the x86 processor with registers of 32 bits. -/
def i386Index : SlotIndex := .ofSlots Architecture.i386.slots

/-- The slots of the x86 processor with registers of 64 bits. -/
def x8664Index : SlotIndex := .ofSlots Architecture.x8664.slots

/-- The slots of the PowerPC processor. -/
def powerPcIndex : SlotIndex := .ofSlots Architecture.powerPc.slots

/-- The slots of a processor. -/
def Architecture.index : Architecture → SlotIndex
  | i386 => i386Index
  | x8664 => x8664Index
  | powerPc => powerPcIndex

end Cpu

end CpuTrace
