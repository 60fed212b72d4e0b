import CpuTrace.Cpu.Processor

/-!
# The PowerPC processor

The structures of the PowerPC processor.
-/

namespace CpuTrace.Cpu

/-- The structures that only this processor has. -/
def powerPcLayouts : List (String × Layout) :=
  [("CPUTLBEntry", layout 32 [
     ("__unnamed_0x13dd", 0, i32)]),
   ("ppc_tlb_t", layout 8 [
     ("tlbe", 0, ptr), ("tlb6", 0, ptr), ("tlbm", 0, ptr)]),
   ("ppc_spr_t", layout 64 [
     ("uea_read", 0, ptr), ("uea_write", 8, ptr), ("oea_read", 16, ptr), ("oea_write", 24, ptr),
     ("hea_read", 32, ptr), ("hea_write", 40, ptr), ("name", 48, ptr), ("default_value", 56, u32)]),
   ("ppc_avr_t", layout 16 [
     ("u64", 0, arr 2 u64), ("s16", 0, arr 8 i16), ("s32", 0, arr 4 i32), ("u128", 0, u128),
     ("s128", 0, i128), ("s8", 0, arr 16 i8), ("u8", 0, arr 16 u8), ("f", 0, arr 4 u32),
     ("u32", 0, arr 4 u32), ("s64", 0, arr 2 i64), ("u16", 0, arr 8 u16)]),
   ("CPUPPCState", layout 175104 [
     ("gpr", 0, arr 32 u32), ("gprh", 128, arr 32 u32), ("lr", 256, u32), ("ctr", 260, u32),
     ("crf", 264, arr 8 u32), ("xer", 296, u32), ("so", 300, u32), ("ov", 304, u32),
     ("ca", 308, u32), ("reserve_addr", 312, u32), ("reserve_val", 316, u32),
     ("reserve_val2", 320, u32), ("reserve_ea", 324, u32), ("reserve_info", 328, u32),
     ("msr", 332, u32), ("tgpr", 336, arr 4 u32), ("fp_status", 352, .named "float_status"),
     ("fpr", 360, arr 32 u64), ("fpscr", 616, u32), ("nip", 620, u32), ("access_type", 624, i32),
     ("tlb_table", 632, arr 256 (arr 8 (.named "CPUTLBEntry"))),
     ("tlb_v_table", 66168, arr 8 (arr 8 (.named "CPUTLBEntry"))),
     ("iotlb", 68216, arr 256 (arr 8 (.named "CPUIOTLBEntry"))),
     ("iotlb_v", 100984, arr 8 (arr 8 (.named "CPUIOTLBEntry"))), ("tlb_flush_addr", 102008, u32),
     ("tlb_flush_mask", 102012, u32), ("vtlb_index", 102016, u32), ("htab_base", 102024, u64),
     ("htab_mask", 102032, u64), ("sr", 102040, arr 32 u32), ("external_htab", 102168, ptr),
     ("nb_BATs", 102176, u32), ("DBAT", 102180, arr 8 (arr 2 u32)),
     ("IBAT", 102244, arr 8 (arr 2 u32)), ("nb_tlb", 102308, i32), ("tlb_per_way", 102312, i32),
     ("nb_ways", 102316, i32), ("last_way", 102320, i32), ("id_tlbs", 102324, i32),
     ("nb_pids", 102328, i32), ("tlb_type", 102332, i32), ("tlb", 102336, .named "ppc_tlb_t"),
     ("pb", 102344, arr 4 u32), ("tlb_dirty", 102360, u8), ("kvm_sw_tlb", 102361, u8),
     ("tlb_need_flush", 102364, u32), ("spr", 102368, arr 1024 u32),
     ("spr_cb", 106464, arr 1024 (.named "ppc_spr_t")),
     ("avr", 172000, arr 32 (.named "ppc_avr_t")), ("vscr", 172512, u32),
     ("vsr", 172520, arr 32 u64), ("spe_acc", 172776, u64), ("spe_fscr", 172784, u32),
     ("vec_status", 172788, .named "float_status"), ("tb_env", 172800, ptr),
     ("dcr_env", 172808, ptr), ("dcache_line_size", 172816, i32),
     ("icache_line_size", 172820, i32), ("msr_mask", 172824, u32), ("mmu_model", 172828, i32),
     ("excp_model", 172832, i32), ("bus_model", 172836, i32), ("bfd_mach", 172840, i32),
     ("flags", 172844, u32), ("insns_flags", 172848, u64), ("insns_flags2", 172856, u64),
     ("error_code", 172864, i32), ("pending_interrupts", 172868, u32),
     ("irq_input_state", 172872, u32), ("irq_inputs", 172880, ptr),
     ("excp_vectors", 172888, arr 99 u32), ("excp_prefix", 173284, u32),
     ("ivor_mask", 173288, u32), ("ivpr_mask", 173292, u32), ("hreset_vector", 173296, u32),
     ("mpic_iack", 173304, u64), ("mpic_proxy", 173312, u8), ("has_hv_mode", 173313, u8),
     ("in_pm_state", 173314, u8), ("opcodes", 173320, arr 64 ptr), ("hflags", 173832, u32),
     ("hflags_nmsr", 173836, u32), ("immu_idx", 173840, i32), ("dmmu_idx", 173844, i32),
     ("check_pow", 173848, ptr), ("load_info", 173856, ptr), ("fit_period", 173864, arr 4 u8),
     ("wdt_period", 173868, arr 4 u8), ("tm_gpr", 173872, arr 32 u32),
     ("tm_vsr", 174000, arr 64 (.named "ppc_avr_t")), ("tm_cr", 175024, u64),
     ("tm_lr", 175032, u64), ("tm_ctr", 175040, u64), ("tm_fpscr", 175048, u64),
     ("tm_amr", 175056, u64), ("tm_ppr", 175064, u64), ("tm_vrsave", 175072, u64),
     ("tm_vscr", 175080, u32), ("tm_dscr", 175088, u64), ("tm_tar", 175096, u64)]),
   ("PowerPCCPU", layout 208608 [
     ("parent_obj", 0, .named "CPUState"), ("env", 33440, .named "CPUPPCState"),
     ("cpu_dt_id", 208544, i32), ("max_compat", 208548, u32), ("compat_pvr", 208552, u32),
     ("vhyp", 208560, ptr), ("pre_2_8_migration", 208568, u8), ("mig_msr_mask", 208572, u32),
     ("mig_insns_flags", 208576, u64), ("mig_insns_flags2", 208584, u64),
     ("mig_nb_BATs", 208592, u32)])]

end CpuTrace.Cpu
