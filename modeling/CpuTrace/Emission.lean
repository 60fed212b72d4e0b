/-!
# Emissions

Flattening a type and reading a log give their results one by one and may stop at a fault after
some of them. An `Emission` keeps both: what was given, and the fault that ended it, if any. The
combinators run the next part only if no fault has come yet, so the items are exactly those that
come before the first fault.
-/

namespace CpuTrace

universe u v w

/-- Items given one after the other, and the fault after the last of them, if any. -/
structure Emission (ε : Type u) (α : Type v) where
  /-- what was given, first to last -/
  items : Array α
  /-- what ended the run early -/
  fault : Option ε

namespace Emission

variable {ε : Type u} {α : Type v} {β : Type w}

/-- Nothing, without a fault. -/
def nothing : Emission ε α := ⟨#[], none⟩

instance : Inhabited (Emission ε α) := ⟨nothing⟩

/-- One item. -/
def one (a : α) : Emission ε α := ⟨#[a], none⟩

/-- A fault, before any item. -/
def fail (e : ε) : Emission ε α := ⟨#[], some e⟩

/-- Runs a second part after the first, unless the first ended in a fault. -/
def andThen (x : Emission ε α) (y : Unit → Emission ε α) : Emission ε α :=
  match x.fault with
  | some _ => x
  | none =>
    let r := y ()
    ⟨x.items ++ r.items, r.fault⟩

/-- Continues with the value of a computation, or with its fault. -/
def bindExcept (x : Except ε β) (f : β → Emission ε α) : Emission ε α :=
  match x with
  | .ok b => f b
  | .error e => fail e

/-- After a first part, runs one part for each element of a list, up to the first fault. -/
def forEachAfter (x : Emission ε α) (f : β → Emission ε α) : List β → Emission ε α
  | [] => x
  | b :: bs =>
    match x.fault with
    | some _ => x
    | none => forEachAfter (x.andThen fun _ => f b) f bs

/-- Runs one part for each element of a list, up to the first fault. -/
def forEach (bs : List β) (f : β → Emission ε α) : Emission ε α :=
  forEachAfter nothing f bs

/-- After a first part, runs one part for each of `count` numbers from `start` on, up to the first
fault. -/
def upToAfter (f : Nat → Emission ε α) : (count start : Nat) → Emission ε α → Emission ε α
  | 0, _, x => x
  | count + 1, start, x =>
    match x.fault with
    | some _ => x
    | none => upToAfter f count (start + 1) (x.andThen fun _ => f start)

/-- Runs one part for each number below `count`, up to the first fault. -/
def upTo (count : Nat) (f : Nat → Emission ε α) : Emission ε α :=
  upToAfter f count 0 nothing

/-- Changes every item. -/
def map (f : α → β) (x : Emission ε α) : Emission ε β := ⟨x.items.map f, x.fault⟩

end Emission

end CpuTrace
