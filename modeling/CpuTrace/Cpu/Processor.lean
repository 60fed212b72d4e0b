import CpuTrace.Layout.Basic

/-!
# Structures of every emulated processor

The state of an emulated processor is one structure that starts with what all processors have in
common. Here are the words in which such structures are written down, and the common ones. Types
are given as far as their layout goes: a pointer is a pointer to anything, and an enumeration is
its integer type.
-/

namespace CpuTrace.Cpu

/-! ## Types -/

/-- An unsigned byte. -/
def u8 : TypeExpr := .named "unsigned char"

/-- Two unsigned bytes. -/
def u16 : TypeExpr := .named "unsigned short"

/-- Four unsigned bytes. -/
def u32 : TypeExpr := .named "unsigned int"

/-- Eight unsigned bytes. -/
def u64 : TypeExpr := .named "unsigned long"

/-- Sixteen unsigned bytes. -/
def u128 : TypeExpr := .named "uint128_t"

/-- A signed byte. -/
def i8 : TypeExpr := .named "signed char"

/-- Two signed bytes. -/
def i16 : TypeExpr := .named "short"

/-- Four signed bytes. -/
def i32 : TypeExpr := .named "int"

/-- Eight signed bytes. -/
def i64 : TypeExpr := .named "long"

/-- Sixteen signed bytes. -/
def i128 : TypeExpr := .named "int128_t"

/-- A character. -/
def char : TypeExpr := .named "char"

/-- A pointer. -/
def ptr : TypeExpr := .pointer (.named "void")

/-- An array of `n` elements. -/
def arr (n : Int) (t : TypeExpr) : TypeExpr := .array n t

/-- Some bits of a number. -/
def bits (first last : Int) : TypeExpr :=
  .list [.text "BitField", .record [(.text "start_bit", .int first), (.text "end_bit", .int last)]]

/-- A structure of a size with members, each a name, an offset and a type. -/
def layout (size : Int) (members : List (String × Int × TypeExpr)) : Layout :=
  ⟨size, .ofList (members.map fun m => (m.1, ⟨m.2.1, m.2.2⟩))⟩

/-! ## Structures -/

/-- The structures that the state of every processor is made of. -/
def commonLayouts : List (String × Layout) :=
  [("Object", layout 40 [
     ("klass", 0, ptr), ("free", 8, ptr), ("properties", 16, ptr), ("ref", 24, u32),
     ("parent", 32, ptr)]),
   ("list_head", layout 8 [
     ("lh_first", 0, ptr)]),
   ("DeviceState", layout 112 [
     ("parent_obj", 0, .named "Object"), ("id", 40, ptr), ("realized", 48, u8),
     ("pending_deleted_event", 49, u8), ("opts", 56, ptr), ("hotplugged", 64, i32),
     ("parent_bus", 72, ptr), ("gpios", 80, .named "list_head"),
     ("child_bus", 88, .named "list_head"), ("num_child_bus", 96, i32),
     ("instance_id_alias", 100, i32), ("alias_required_for_version", 104, i32)]),
   ("mutex_link", layout 16 [
     ("__prev", 0, ptr), ("__next", 8, ptr)]),
   ("mutex_data", layout 40 [
     ("__lock", 0, i32), ("__count", 4, u32), ("__owner", 8, i32), ("__nusers", 12, u32),
     ("__kind", 16, i32), ("__spins", 20, i16), ("__elision", 22, i16),
     ("__list", 24, .named "mutex_link")]),
   ("mutex", layout 40 [
     ("__align", 0, i64), ("__size", 0, arr 40 char), ("__data", 0, .named "mutex_data")]),
   ("mutex_box", layout 40 [
     ("lock", 0, .named "mutex")]),
   ("signal_set", layout 128 [
     ("__val", 0, arr 16 u64)]),
   ("jump_buffer", layout 200 [
     ("__jmpbuf", 0, arr 8 i64), ("__mask_was_saved", 64, i32),
     ("__saved_mask", 72, .named "signal_set")]),
   ("queue_entry", layout 16 [
     ("tqe_next", 0, ptr), ("tqe_prev", 8, ptr)]),
   ("queue_head", layout 16 [
     ("tqh_first", 0, ptr), ("tqh_last", 8, ptr)]),
   ("icount_decr_u16", layout 4 [
     ("low", 0, u16), ("high", 2, u16)]),
   ("icount_decr", layout 4 [
     ("u32", 0, u32), ("u16", 0, .named "icount_decr_u16")]),
   ("MemTxAttrs", layout 4 [
     ("requester_id", 0, bits 3 19), ("secure", 0, bits 1 2), ("unspecified", 0, bits 0 1),
     ("user", 0, bits 2 3)]),
   ("CPUIOTLBEntry", layout 16 [
     ("addr", 0, u64), ("attrs", 8, .named "MemTxAttrs")]),
   ("float_status", layout 8 [
     ("float_detect_tininess", 0, i8), ("float_rounding_mode", 1, i8),
     ("float_exception_flags", 2, u8), ("floatx80_rounding_precision", 3, i8),
     ("flush_to_zero", 4, u8), ("flush_inputs_to_zero", 5, u8), ("default_nan_mode", 6, u8),
     ("snan_bit_is_one", 7, u8)]),
   ("CPUState", layout 33440 [
     ("parent_obj", 0, .named "DeviceState"), ("nr_cores", 112, i32), ("nr_threads", 116, i32),
     ("numa_node", 120, i32), ("thread", 128, ptr), ("thread_id", 136, i32),
     ("host_tid", 140, u32), ("running", 144, u8), ("has_waiter", 145, u8),
     ("halt_cond", 152, ptr), ("thread_kicked", 160, u8), ("created", 161, u8), ("stop", 162, u8),
     ("stopped", 163, u8), ("unplug", 164, u8), ("crash_occurred", 165, u8),
     ("exit_request", 166, u8), ("interrupt_request", 168, u32), ("singlestep_enabled", 172, i32),
     ("icount_extra", 176, i64), ("jmp_env", 184, arr 1 (.named "jump_buffer")),
     ("work_mutex", 384, .named "mutex_box"), ("queued_work_first", 424, ptr),
     ("queued_work_last", 432, ptr), ("cpu_ases", 440, ptr), ("num_ases", 448, i32),
     ("as", 456, ptr), ("memory", 464, ptr), ("env_ptr", 472, ptr),
     ("tb_jmp_cache", 480, arr 4096 ptr), ("gdb_regs", 33248, ptr), ("gdb_num_regs", 33256, i32),
     ("gdb_num_g_regs", 33260, i32), ("node", 33264, .named "queue_entry"),
     ("breakpoints", 33280, .named "queue_head"), ("watchpoints", 33296, .named "queue_head"),
     ("watchpoint_hit", 33312, ptr), ("opaque", 33320, ptr), ("mem_io_pc", 33328, u64),
     ("mem_io_vaddr", 33336, u64), ("kvm_fd", 33344, i32), ("kvm_vcpu_dirty", 33348, u8),
     ("kvm_state", 33352, ptr), ("kvm_run", 33360, ptr), ("trace_dstate", 33368, ptr),
     ("cpu_index", 33376, i32), ("halted", 33380, u32),
     ("icount_decr", 33384, .named "icount_decr"), ("can_do_io", 33388, u32),
     ("exception_index", 33392, i32), ("rr_guest_instr_count", 33400, u64),
     ("panda_guest_pc", 33408, u64), ("throttle_thread_scheduled", 33416, u8),
     ("tcg_exit_req", 33420, u32), ("hax_vcpu_dirty", 33424, u8), ("hax_vcpu", 33432, ptr)])]

end CpuTrace.Cpu
