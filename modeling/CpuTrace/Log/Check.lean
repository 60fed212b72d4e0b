import CpuTrace.Emission
import CpuTrace.Log.LlvmKind
import CpuTrace.Wire.TextForm

/-!
# Checking recorded instructions

Replaying a log expects its entries to come in step with the code. `check` compares the kind that
an entry records with the expected one, and reports what it sees on the way.
-/

namespace CpuTrace.Log

open Wire (Message)

/-- The number of the field that holds the kind of an instruction. -/
def kindNumber : Nat := 1

/-- The number of the kind that an entry records; zero if it records none. -/
def recordedKind (entry : Message) : Nat :=
  match entry.get .llvmEntry kindNumber with
  | .uint n :: _ => n
  | _ => 0

/-- The report of an entry that is of the expected kind. -/
def alignedLine (recorded expected : LlvmKind) : String :=
  "('DEBUG:', " ++ recorded.display ++ ", '==', " ++ expected.display ++ ")"

/-- The report of an entry that is of another kind. -/
def misalignedLine (recorded expected : LlvmKind) : String :=
  "('ERROR: misaligned log. Have', " ++ recorded.display ++ ", 'expected', " ++
    expected.display ++ ")"

/-- Compares the kind that an entry records with the expected one. -/
def check (entry : Message) (expected : LlvmKind) : Emission KindFault String :=
  let code := recordedKind entry
  (Emission.one (toString code)).andThen fun _ =>
  (Emission.one (toString expected.code)).andThen fun _ =>
  .bindExcept (LlvmKind.ofCode code) fun kind =>
    if code = expected.code then .one (alignedLine kind expected)
    else
      ⟨(misalignedLine kind expected :: "Log entry:" ::
        entry.textLines .llvmEntry ++ [""]).toArray, some .misaligned⟩

end CpuTrace.Log
