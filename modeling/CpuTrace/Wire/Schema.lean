/-!
# The messages of a log

The schema of the messages that a log can hold: for each kind of message its fields, by number.
A log is a sequence of `logEntry` messages; the other kinds occur inside it.
-/

namespace CpuTrace.Wire

/-- The kinds of messages. -/
inductive MessageKind where
  | callStack
  | dwarfCall
  | srcInfoPri
  | attackPointPri
  | taintQueryPri
  | taintQueryUniqueLabelSet
  | srcInfo
  | taintQuery
  | attackPoint
  | taintQueryHypercall
  | taintedBranch
  | taintedBranchSummary
  | taintedInstr
  | taintedInstrSummary
  | llvmEntry
  | logEntry
deriving DecidableEq, Repr

/-- What a field holds. -/
inductive FieldType where
  /-- a number of 32 bits -/
  | uint32
  /-- a number of 64 bits -/
  | uint64
  /-- a text -/
  | text
  /-- a message -/
  | message (kind : MessageKind)
deriving DecidableEq, Repr

/-- How often a field occurs. -/
inductive Label where
  /-- once -/
  | required
  /-- at most once -/
  | optional
  /-- any number of times -/
  | repeated
deriving DecidableEq, Repr

/-- A field of a message. -/
structure Field where
  /-- how often it occurs -/
  label : Label
  /-- what it holds -/
  type : FieldType
  /-- its name -/
  name : String
  /-- its number -/
  number : Nat
deriving DecidableEq, Repr

namespace MessageKind

/-- The name of a kind in the schema. -/
def name : MessageKind → String
  | callStack => "CallStack"
  | dwarfCall => "DwarfCall"
  | srcInfoPri => "SrcInfoPri"
  | attackPointPri => "AttackPointPri"
  | taintQueryPri => "TaintQueryPri"
  | taintQueryUniqueLabelSet => "TaintQueryUniqueLabelSet"
  | srcInfo => "SrcInfo"
  | taintQuery => "TaintQuery"
  | attackPoint => "AttackPoint"
  | taintQueryHypercall => "TaintQueryHypercall"
  | taintedBranch => "TaintedBranch"
  | taintedBranchSummary => "TaintedBranchSummary"
  | taintedInstr => "TaintedInstr"
  | taintedInstrSummary => "TaintedInstrSummary"
  | llvmEntry => "LLVMEntry"
  | logEntry => "LogEntry"

/-- All kinds. -/
def all : List MessageKind :=
  [callStack, dwarfCall, srcInfoPri, attackPointPri, taintQueryPri, taintQueryUniqueLabelSet,
    srcInfo, taintQuery, attackPoint, taintQueryHypercall, taintedBranch, taintedBranchSummary,
    taintedInstr, taintedInstrSummary, llvmEntry, logEntry]

/-- The kind of a name. -/
def ofName? (s : String) : Option MessageKind := all.find? fun k => k.name == s

/-- The fields of a kind, by number. -/
def fields : MessageKind → List Field
  | callStack => [⟨.repeated, .uint64, "addr", 1⟩]
  | dwarfCall =>
    [⟨.required, .text, "file_callee", 1⟩,
      ⟨.required, .text, "function_name_callee", 2⟩,
      ⟨.required, .uint64, "line_number_callee", 3⟩,
      ⟨.required, .text, "file_caller", 4⟩,
      ⟨.required, .uint64, "line_number_caller", 5⟩]
  | srcInfoPri =>
    [⟨.required, .text, "filename", 1⟩,
      ⟨.required, .uint32, "linenum", 2⟩,
      ⟨.required, .text, "astnodename", 3⟩,
      ⟨.optional, .uint32, "insertionpoint", 4⟩,
      ⟨.optional, .uint32, "ast_loc_id", 5⟩]
  | attackPointPri =>
    [⟨.required, .uint32, "info", 1⟩,
      ⟨.required, .message callStack, "call_stack", 2⟩,
      ⟨.required, .message srcInfoPri, "src_info", 3⟩]
  | taintQueryPri =>
    [⟨.required, .uint64, "buf", 1⟩,
      ⟨.required, .uint32, "len", 2⟩,
      ⟨.repeated, .uint32, "data", 3⟩,
      ⟨.required, .uint32, "num_tainted", 4⟩,
      ⟨.required, .message callStack, "call_stack", 5⟩,
      ⟨.required, .message srcInfoPri, "src_info", 6⟩,
      ⟨.repeated, .message taintQuery, "taint_query", 7⟩]
  | taintQueryUniqueLabelSet =>
    [⟨.required, .uint64, "ptr", 1⟩,
      ⟨.repeated, .uint32, "label", 2⟩]
  | srcInfo =>
    [⟨.required, .uint32, "filename", 1⟩,
      ⟨.required, .uint32, "linenum", 2⟩,
      ⟨.required, .uint32, "astnodename", 3⟩,
      ⟨.optional, .uint32, "insertionpoint", 4⟩,
      ⟨.optional, .uint32, "ast_loc_id", 5⟩]
  | taintQuery =>
    [⟨.required, .uint64, "ptr", 1⟩,
      ⟨.required, .uint32, "tcn", 2⟩,
      ⟨.required, .uint32, "offset", 3⟩,
      ⟨.optional, .message taintQueryUniqueLabelSet, "unique_label_set", 4⟩]
  | attackPoint =>
    [⟨.required, .uint32, "info", 1⟩,
      ⟨.required, .message callStack, "call_stack", 2⟩,
      ⟨.required, .message srcInfo, "src_info", 3⟩]
  | taintQueryHypercall =>
    [⟨.required, .uint64, "buf", 1⟩,
      ⟨.required, .uint32, "len", 2⟩,
      ⟨.repeated, .uint32, "data", 3⟩,
      ⟨.required, .uint32, "num_tainted", 4⟩,
      ⟨.required, .message callStack, "call_stack", 5⟩,
      ⟨.required, .message srcInfo, "src_info", 6⟩,
      ⟨.repeated, .message taintQuery, "taint_query", 7⟩]
  | taintedBranch =>
    [⟨.required, .message callStack, "call_stack", 1⟩,
      ⟨.repeated, .message taintQuery, "taint_query", 2⟩]
  | taintedBranchSummary =>
    [⟨.required, .uint64, "asid", 1⟩,
      ⟨.required, .uint64, "pc", 2⟩]
  | taintedInstr =>
    [⟨.required, .message callStack, "call_stack", 1⟩,
      ⟨.repeated, .message taintQuery, "taint_query", 2⟩]
  | taintedInstrSummary =>
    [⟨.required, .uint64, "asid", 1⟩,
      ⟨.required, .uint64, "pc", 2⟩]
  | llvmEntry =>
    [⟨.optional, .uint64, "type", 1⟩,
      ⟨.optional, .uint64, "address", 2⟩,
      ⟨.optional, .uint64, "value", 3⟩,
      ⟨.optional, .uint64, "num_bytes", 4⟩,
      ⟨.optional, .uint64, "tb_num", 5⟩,
      ⟨.optional, .uint32, "addr_type", 6⟩,
      ⟨.optional, .uint32, "cpustate_offset", 7⟩,
      ⟨.optional, .uint32, "condition", 8⟩,
      ⟨.optional, .uint32, "phi_index", 9⟩,
      ⟨.optional, .uint32, "flags", 10⟩,
      ⟨.optional, .text, "vma_name", 11⟩,
      ⟨.optional, .uint64, "pc", 12⟩]
  | logEntry =>
    [⟨.required, .uint64, "pc", 1⟩,
      ⟨.required, .uint64, "instr", 2⟩,
      ⟨.optional, .uint64, "asid", 3⟩,
      ⟨.optional, .text, "process_name", 4⟩,
      ⟨.optional, .uint32, "process_id", 5⟩,
      ⟨.optional, .uint64, "taint_label_virtual_addr", 6⟩,
      ⟨.optional, .uint64, "taint_label_physical_addr", 7⟩,
      ⟨.optional, .uint32, "taint_label_number", 8⟩,
      ⟨.optional, .message callStack, "call_stack", 10⟩,
      ⟨.optional, .message llvmEntry, "llvmEntry", 30⟩,
      ⟨.optional, .message taintedBranch, "tainted_branch", 36⟩,
      ⟨.optional, .message taintedInstr, "tainted_instr", 37⟩,
      ⟨.optional, .message taintQueryHypercall, "taint_query_hypercall", 38⟩,
      ⟨.optional, .message attackPoint, "attack_point", 39⟩,
      ⟨.optional, .message taintedInstrSummary, "tainted_instr_summary", 56⟩,
      ⟨.optional, .uint64, "total_instr", 65⟩,
      ⟨.optional, .message dwarfCall, "dwarf_call", 66⟩,
      ⟨.optional, .message dwarfCall, "dwarf_ret", 67⟩,
      ⟨.optional, .message taintQueryPri, "taint_query_pri", 68⟩,
      ⟨.optional, .message attackPointPri, "attack_point_pri", 69⟩,
      ⟨.optional, .message srcInfoPri, "pri_trace_src_info", 70⟩,
      ⟨.optional, .message taintedBranchSummary, "tainted_branch_summary", 72⟩]

end MessageKind

end CpuTrace.Wire
