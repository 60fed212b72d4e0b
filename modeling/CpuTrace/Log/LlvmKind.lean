import CpuTrace.Text.Quoted

/-!
# Kinds of recorded instructions

A log entry can record an instruction of the intermediate code, with a number for its kind. The
kinds have labels of their own; some numbers are not in use.
-/

namespace CpuTrace.Log

/-- The kinds of recorded instructions. -/
inductive LlvmKind where
  | declareBlocks
  | instBinop
  | instCast
  | instGep
  | instSelect
  | instExtractelt
  | instInsertelt
  | instShufflevec
  | instCmp
  | instRet
  | instBr
  | instSwitch
  | instInvoke
  | instUnreachable
  | instPhi
  | instAlloca
  | instLoad
  | instVaarg
  | instStore
  | instExtractval
  | instInsertval
  | instCmp2
  | instVselect
  | instInboundsGep
  | instIndirectbr
  | debugLocAgain
  | instCall
  | debugLoc
  | instFence
  | instCmpxchg
  | instAtomicrmw
  | instResume
  | instLandingpad
  | instLoadatomic
  | instStoreatomic
  | basicBlock
  | function
  | exception
deriving DecidableEq, Repr

namespace LlvmKind

/-- All kinds, by number. -/
def all : List LlvmKind :=
  [declareBlocks, instBinop, instCast, instGep, instSelect, instExtractelt, instInsertelt,
    instShufflevec, instCmp, instRet, instBr, instSwitch, instInvoke, instUnreachable, instPhi,
    instAlloca, instLoad, instVaarg, instStore, instExtractval, instInsertval, instCmp2,
    instVselect, instInboundsGep, instIndirectbr, debugLocAgain, instCall, debugLoc, instFence,
    instCmpxchg, instAtomicrmw, instResume, instLandingpad, instLoadatomic, instStoreatomic,
    basicBlock, function, exception]

/-- The number of a kind. -/
def code : LlvmKind → Nat
  | declareBlocks => 1
  | instBinop => 2
  | instCast => 3
  | instGep => 4
  | instSelect => 5
  | instExtractelt => 6
  | instInsertelt => 7
  | instShufflevec => 8
  | instCmp => 9
  | instRet => 10
  | instBr => 11
  | instSwitch => 12
  | instInvoke => 13
  | instUnreachable => 15
  | instPhi => 16
  | instAlloca => 19
  | instLoad => 20
  | instVaarg => 23
  | instStore => 24
  | instExtractval => 26
  | instInsertval => 27
  | instCmp2 => 28
  | instVselect => 29
  | instInboundsGep => 30
  | instIndirectbr => 31
  | debugLocAgain => 33
  | instCall => 34
  | debugLoc => 35
  | instFence => 36
  | instCmpxchg => 37
  | instAtomicrmw => 38
  | instResume => 39
  | instLandingpad => 40
  | instLoadatomic => 41
  | instStoreatomic => 42
  | basicBlock => 43
  | function => 44
  | exception => 45

/-- The label of a kind. -/
def label : LlvmKind → String
  | declareBlocks => "FUNC_CODE_DECLAREBLOCKS"
  | instBinop => "FUNC_CODE_INST_BINOP"
  | instCast => "FUNC_CODE_INST_CAST"
  | instGep => "FUNC_CODE_INST_GEP"
  | instSelect => "FUNC_CODE_INST_SELECT"
  | instExtractelt => "FUNC_CODE_INST_EXTRACTELT"
  | instInsertelt => "FUNC_CODE_INST_INSERTELT"
  | instShufflevec => "FUNC_CODE_INST_SHUFFLEVEC"
  | instCmp => "FUNC_CODE_INST_CMP"
  | instRet => "FUNC_CODE_INST_RET"
  | instBr => "FUNC_CODE_INST_BR"
  | instSwitch => "FUNC_CODE_INST_SWITCH"
  | instInvoke => "FUNC_CODE_INST_INVOKE"
  | instUnreachable => "FUNC_CODE_INST_UNREACHABLE"
  | instPhi => "FUNC_CODE_INST_PHI"
  | instAlloca => "FUNC_CODE_INST_ALLOCA"
  | instLoad => "FUNC_CODE_INST_LOAD"
  | instVaarg => "FUNC_CODE_INST_VAARG"
  | instStore => "FUNC_CODE_INST_STORE"
  | instExtractval => "FUNC_CODE_INST_EXTRACTVAL"
  | instInsertval => "FUNC_CODE_INST_INSERTVAL"
  | instCmp2 => "FUNC_CODE_INST_CMP2"
  | instVselect => "FUNC_CODE_INST_VSELECT"
  | instInboundsGep => "FUNC_CODE_INST_INBOUNDS_GEP"
  | instIndirectbr => "FUNC_CODE_INST_INDIRECTBR"
  | debugLocAgain => "FUNC_CODE_DEBUG_LOC_AGAIN"
  | instCall => "FUNC_CODE_INST_CALL"
  | debugLoc => "FUNC_CODE_DEBUG_LOC"
  | instFence => "FUNC_CODE_INST_FENCE"
  | instCmpxchg => "FUNC_CODE_INST_CMPXCHG"
  | instAtomicrmw => "FUNC_CODE_INST_ATOMICRMW"
  | instResume => "FUNC_CODE_INST_RESUME"
  | instLandingpad => "FUNC_CODE_INST_LANDINGPAD"
  | instLoadatomic => "FUNC_CODE_INST_LOADATOMIC"
  | instStoreatomic => "FUNC_CODE_INST_STOREATOMIC"
  | basicBlock => "BB"
  | function => "LLVM_FN"
  | exception => "LLVM_EXCEPTION"

end LlvmKind

/-- What can be wrong with a kind. -/
inductive KindFault where
  /-- no kind has the number -/
  | unknownCode (code : Int)
  /-- no kind has the label -/
  | unknownLabel (label : String)
  /-- the kind is not the expected one -/
  | misaligned
deriving DecidableEq, Repr

/-- The wording of a fault. -/
def KindFault.message : KindFault → String
  | unknownCode code => toString code ++ " is not a valid LLVMType"
  | unknownLabel label => Text.Quoted.quote label
  | misaligned => "entry.type != expected.value"

namespace LlvmKind

/-- The kind of a number. -/
def ofCode (code : Int) : Except KindFault LlvmKind :=
  match all.find? fun k => (k.code : Int) == code with
  | some k => .ok k
  | none => .error (.unknownCode code)

/-- The kind of a label. -/
def ofLabel (label : String) : Except KindFault LlvmKind :=
  match all.find? fun k => k.label == label with
  | some k => .ok k
  | none => .error (.unknownLabel label)

/-- How a kind is shown. -/
def display (k : LlvmKind) : String :=
  "<LLVMType." ++ k.label ++ ": " ++ toString k.code ++ ">"

end LlvmKind

end CpuTrace.Log
