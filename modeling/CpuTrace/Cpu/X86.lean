import CpuTrace.Cpu.Processor

/-!
# The x86 processors

The structures of the x86 processor, with registers of 32 bits (`i386Layouts`) and of 64 bits
(`x8664Layouts`). Most of them are shared.
-/

namespace CpuTrace.Cpu

/-- The structures that both forms of the processor have. -/
def x86Layouts : List (String × Layout) :=
  [("CPUTLBEntry", layout 32 [
     ("__unnamed_0x1d3d", 0, i32)]),
   ("list_entry", layout 16 [
     ("le_next", 0, ptr), ("le_prev", 8, ptr)]),
   ("Notifier", layout 24 [
     ("notify", 0, ptr), ("node", 8, .named "list_entry")]),
   ("BNDReg", layout 16 [
     ("lb", 0, u64), ("ub", 8, u64)]),
   ("BNDCSReg", layout 16 [
     ("cfgu", 0, u64), ("sts", 8, u64)]),
   ("MMXReg", layout 8 [
     ("_w_MMXReg", 0, arr 4 u16), ("_q_MMXReg", 0, arr 1 u64), ("_d_MMXReg", 0, arr 1 u64),
     ("_b_MMXReg", 0, arr 8 u8), ("_s_MMXReg", 0, arr 2 u32), ("_l_MMXReg", 0, arr 2 u32)]),
   ("ZMMReg", layout 64 [
     ("_b_ZMMReg", 0, arr 64 u8), ("_d_ZMMReg", 0, arr 8 u64), ("_q_ZMMReg", 0, arr 8 u64),
     ("_w_ZMMReg", 0, arr 32 u16), ("_s_ZMMReg", 0, arr 16 u32), ("_l_ZMMReg", 0, arr 16 u32)]),
   ("fp_register", layout 16 [
     ("d", 0, .named "queue_entry"), ("mmx", 0, .named "MMXReg")]),
   ("marker", layout 0 []),
   ("access_size", layout 12 [
     ("min_access_size", 0, u32), ("max_access_size", 4, u32), ("unaligned", 8, u8)])]

/-- The structures of the processor with registers of 32 bits. -/
def i386Layouts : List (String × Layout) :=
  [("SegmentCache", layout 16 [
     ("selector", 0, u32), ("base", 4, u32), ("limit", 8, u32), ("flags", 12, u32)]),
   ("CPUX86State", layout 40992 [
     ("regs", 0, arr 8 u32), ("eip", 32, u32), ("eflags", 36, u32), ("cc_dst", 40, u32),
     ("cc_src", 44, u32), ("cc_src2", 48, u32), ("cc_op", 52, u32), ("df", 56, i32),
     ("hflags", 60, u32), ("hflags2", 64, u32), ("segs", 68, arr 6 (.named "SegmentCache")),
     ("ldt", 164, .named "SegmentCache"), ("tr", 180, .named "SegmentCache"),
     ("gdt", 196, .named "SegmentCache"), ("idt", 212, .named "SegmentCache"),
     ("cr", 228, arr 5 u32), ("a20_mask", 248, i32), ("bnd_regs", 256, arr 4 (.named "BNDReg")),
     ("bndcs_regs", 320, .named "BNDCSReg"), ("msr_bndcfgs", 336, u64), ("efer", 344, u64),
     ("start_init_save", 352, i32), ("fpstt", 352, u32), ("fpus", 356, u16), ("fpuc", 358, u16),
     ("fptags", 360, arr 8 u8), ("fpregs", 368, arr 8 (.named "fp_register")), ("fpop", 496, u16),
     ("fpip", 504, u64), ("fpdp", 512, u64), ("fp_status", 520, .named "float_status"),
     ("ft0", 528, .named "queue_entry"), ("mmx_status", 544, .named "float_status"),
     ("sse_status", 552, .named "float_status"), ("mxcsr", 560, u32),
     ("xmm_regs", 568, arr 8 (.named "ZMMReg")), ("xmm_t0", 1080, .named "ZMMReg"),
     ("mmx_t0", 1144, .named "MMXReg"), ("opmask_regs", 1152, arr 8 u64),
     ("sysenter_cs", 1216, u32), ("sysenter_esp", 1220, u32), ("sysenter_eip", 1224, u32),
     ("star", 1232, u64), ("vm_hsave", 1240, u64), ("tsc", 1248, u64), ("tsc_adjust", 1256, u64),
     ("tsc_deadline", 1264, u64), ("tsc_aux", 1272, u64), ("xcr0", 1280, u64),
     ("mcg_status", 1288, u64), ("msr_ia32_misc_enable", 1296, u64),
     ("msr_ia32_feature_control", 1304, u64), ("msr_fixed_ctr_ctrl", 1312, u64),
     ("msr_global_ctrl", 1320, u64), ("msr_global_status", 1328, u64),
     ("msr_global_ovf_ctrl", 1336, u64), ("msr_fixed_counters", 1344, arr 3 u64),
     ("msr_gp_counters", 1368, arr 18 u64), ("msr_gp_evtsel", 1512, arr 18 u64),
     ("pat", 1656, u64), ("smbase", 1664, u32), ("pkru", 1668, u32),
     ("end_init_save", 1672, .named "marker"), ("system_time_msr", 1672, u64),
     ("wall_clock_msr", 1680, u64), ("steal_time_msr", 1688, u64), ("async_pf_en_msr", 1696, u64),
     ("pv_eoi_en_msr", 1704, u64), ("msr_hv_hypercall", 1712, u64),
     ("msr_hv_guest_os_id", 1720, u64), ("msr_hv_vapic", 1728, u64), ("msr_hv_tsc", 1736, u64),
     ("msr_hv_crash_params", 1744, arr 5 u64), ("msr_hv_runtime", 1784, u64),
     ("msr_hv_synic_control", 1792, u64), ("msr_hv_synic_version", 1800, u64),
     ("msr_hv_synic_evt_page", 1808, u64), ("msr_hv_synic_msg_page", 1816, u64),
     ("msr_hv_synic_sint", 1824, arr 16 u64), ("msr_hv_stimer_config", 1952, arr 4 u64),
     ("msr_hv_stimer_count", 1984, arr 4 u64), ("error_code", 2016, i32),
     ("exception_is_int", 2020, i32), ("exception_next_eip", 2024, u32), ("dr", 2028, arr 8 u32),
     ("__unnamed_0x2569", 2064, .named "queue_entry"), ("old_exception", 2096, i32),
     ("vm_vmcb", 2104, u64), ("tsc_offset", 2112, u64), ("intercept", 2120, u64),
     ("intercept_cr_read", 2128, u16), ("intercept_cr_write", 2130, u16),
     ("intercept_dr_read", 2132, u16), ("intercept_dr_write", 2134, u16),
     ("intercept_exceptions", 2136, u32), ("v_tpr", 2140, u8), ("nmi_injected", 2141, u8),
     ("nmi_pending", 2142, u8), ("end_reset_fields", 2143, .named "access_size"),
     ("tlb_table", 2144, arr 256 (arr 3 (.named "CPUTLBEntry"))),
     ("tlb_v_table", 26720, arr 8 (arr 3 (.named "CPUTLBEntry"))),
     ("iotlb", 27488, arr 256 (arr 3 (.named "CPUIOTLBEntry"))),
     ("iotlb_v", 39776, arr 8 (arr 3 (.named "CPUIOTLBEntry"))), ("tlb_flush_addr", 40160, u32),
     ("tlb_flush_mask", 40164, u32), ("vtlb_index", 40168, u32), ("cpuid_min_level", 40172, u32),
     ("cpuid_min_xlevel", 40176, u32), ("cpuid_min_xlevel2", 40180, u32),
     ("cpuid_max_level", 40184, u32), ("cpuid_max_xlevel", 40188, u32),
     ("cpuid_max_xlevel2", 40192, u32), ("cpuid_level", 40196, u32), ("cpuid_xlevel", 40200, u32),
     ("cpuid_xlevel2", 40204, u32), ("cpuid_vendor1", 40208, u32), ("cpuid_vendor2", 40212, u32),
     ("cpuid_vendor3", 40216, u32), ("cpuid_version", 40220, u32), ("features", 40224, arr 18 u32),
     ("cpuid_model", 40296, arr 12 u32), ("mtrr_fixed", 40344, arr 11 u64),
     ("mtrr_deftype", 40432, u64), ("mtrr_var", 40440, arr 8 (.named "queue_entry")),
     ("mp_state", 40568, u32), ("exception_injected", 40572, i32),
     ("interrupt_injected", 40576, i32), ("soft_interrupt", 40580, u8),
     ("has_error_code", 40581, u8), ("sipi_vector", 40584, u32), ("tsc_valid", 40588, u8),
     ("tsc_khz", 40592, i64), ("user_tsc_khz", 40600, i64), ("kvm_xsave_buf", 40608, ptr),
     ("mcg_cap", 40616, u64), ("mcg_ctl", 40624, u64), ("mcg_ext_ctl", 40632, u64),
     ("mce_banks", 40640, arr 40 u64), ("xstate_bv", 40960, u64), ("fpus_vmstate", 40968, u16),
     ("fptag_vmstate", 40970, u16), ("fpregs_format_vmstate", 40972, u16), ("xss", 40976, u64),
     ("tpr_access_type", 40984, i32)]),
   ("X86CPU", layout 74640 [
     ("parent_obj", 0, .named "CPUState"), ("env", 33440, .named "CPUX86State"),
     ("hyperv_vapic", 74432, u8), ("hyperv_relaxed_timing", 74433, u8),
     ("hyperv_spinlock_attempts", 74436, i32), ("hyperv_vendor_id", 74440, ptr),
     ("hyperv_time", 74448, u8), ("hyperv_crash", 74449, u8), ("hyperv_reset", 74450, u8),
     ("hyperv_vpindex", 74451, u8), ("hyperv_runtime", 74452, u8), ("hyperv_synic", 74453, u8),
     ("hyperv_stimer", 74454, u8), ("check_cpuid", 74455, u8), ("enforce_cpuid", 74456, u8),
     ("expose_kvm", 74457, u8), ("migratable", 74458, u8), ("host_features", 74459, u8),
     ("apic_id", 74460, u32), ("vmware_cpuid_freq", 74464, u8),
     ("cache_info_passthrough", 74465, u8), ("filtered_features", 74468, arr 18 u32),
     ("enable_pmu", 74540, u8), ("enable_lmce", 74541, u8), ("enable_l3_cache", 74542, u8),
     ("enable_cpuid_0xb", 74543, u8), ("full_cpuid_auto_level", 74544, u8),
     ("fill_mtrr_mask", 74545, u8), ("host_phys_bits", 74546, u8), ("phys_bits", 74548, u32),
     ("apic_state", 74552, ptr), ("cpu_as_root", 74560, ptr), ("cpu_as_mem", 74568, ptr),
     ("smram", 74576, ptr), ("machine_done", 74584, .named "Notifier"),
     ("kvm_msr_buf", 74608, ptr), ("socket_id", 74616, i32), ("core_id", 74620, i32),
     ("thread_id", 74624, i32)])]

/-- The structures of the processor with registers of 64 bits. -/
def x8664Layouts : List (String × Layout) :=
  [("SegmentCache", layout 24 [
     ("selector", 0, u32), ("base", 8, u64), ("limit", 16, u32), ("flags", 20, u32)]),
   ("CPUX86State", layout 42848 [
     ("regs", 0, arr 16 u64), ("eip", 128, u64), ("eflags", 136, u64), ("cc_dst", 144, u64),
     ("cc_src", 152, u64), ("cc_src2", 160, u64), ("cc_op", 168, u32), ("df", 172, i32),
     ("hflags", 176, u32), ("hflags2", 180, u32), ("segs", 184, arr 6 (.named "SegmentCache")),
     ("ldt", 328, .named "SegmentCache"), ("tr", 352, .named "SegmentCache"),
     ("gdt", 376, .named "SegmentCache"), ("idt", 400, .named "SegmentCache"),
     ("cr", 424, arr 5 u64), ("a20_mask", 464, i32), ("bnd_regs", 472, arr 4 (.named "BNDReg")),
     ("bndcs_regs", 536, .named "BNDCSReg"), ("msr_bndcfgs", 552, u64), ("efer", 560, u64),
     ("start_init_save", 568, i32), ("fpstt", 568, u32), ("fpus", 572, u16), ("fpuc", 574, u16),
     ("fptags", 576, arr 8 u8), ("fpregs", 592, arr 8 (.named "fp_register")), ("fpop", 720, u16),
     ("fpip", 728, u64), ("fpdp", 736, u64), ("fp_status", 744, .named "float_status"),
     ("ft0", 752, .named "queue_entry"), ("mmx_status", 768, .named "float_status"),
     ("sse_status", 776, .named "float_status"), ("mxcsr", 784, u32),
     ("xmm_regs", 792, arr 32 (.named "ZMMReg")), ("xmm_t0", 2840, .named "ZMMReg"),
     ("mmx_t0", 2904, .named "MMXReg"), ("opmask_regs", 2912, arr 8 u64),
     ("sysenter_cs", 2976, u32), ("sysenter_esp", 2984, u64), ("sysenter_eip", 2992, u64),
     ("star", 3000, u64), ("vm_hsave", 3008, u64), ("lstar", 3016, u64), ("cstar", 3024, u64),
     ("fmask", 3032, u64), ("kernelgsbase", 3040, u64), ("tsc", 3048, u64),
     ("tsc_adjust", 3056, u64), ("tsc_deadline", 3064, u64), ("tsc_aux", 3072, u64),
     ("xcr0", 3080, u64), ("mcg_status", 3088, u64), ("msr_ia32_misc_enable", 3096, u64),
     ("msr_ia32_feature_control", 3104, u64), ("msr_fixed_ctr_ctrl", 3112, u64),
     ("msr_global_ctrl", 3120, u64), ("msr_global_status", 3128, u64),
     ("msr_global_ovf_ctrl", 3136, u64), ("msr_fixed_counters", 3144, arr 3 u64),
     ("msr_gp_counters", 3168, arr 18 u64), ("msr_gp_evtsel", 3312, arr 18 u64),
     ("pat", 3456, u64), ("smbase", 3464, u32), ("pkru", 3468, u32),
     ("end_init_save", 3472, .named "marker"), ("system_time_msr", 3472, u64),
     ("wall_clock_msr", 3480, u64), ("steal_time_msr", 3488, u64), ("async_pf_en_msr", 3496, u64),
     ("pv_eoi_en_msr", 3504, u64), ("msr_hv_hypercall", 3512, u64),
     ("msr_hv_guest_os_id", 3520, u64), ("msr_hv_vapic", 3528, u64), ("msr_hv_tsc", 3536, u64),
     ("msr_hv_crash_params", 3544, arr 5 u64), ("msr_hv_runtime", 3584, u64),
     ("msr_hv_synic_control", 3592, u64), ("msr_hv_synic_version", 3600, u64),
     ("msr_hv_synic_evt_page", 3608, u64), ("msr_hv_synic_msg_page", 3616, u64),
     ("msr_hv_synic_sint", 3624, arr 16 u64), ("msr_hv_stimer_config", 3752, arr 4 u64),
     ("msr_hv_stimer_count", 3784, arr 4 u64), ("error_code", 3816, i32),
     ("exception_is_int", 3820, i32), ("exception_next_eip", 3824, u64), ("dr", 3832, arr 8 u64),
     ("__unnamed_0x25a7", 3896, .named "queue_entry"), ("old_exception", 3928, i32),
     ("vm_vmcb", 3936, u64), ("tsc_offset", 3944, u64), ("intercept", 3952, u64),
     ("intercept_cr_read", 3960, u16), ("intercept_cr_write", 3962, u16),
     ("intercept_dr_read", 3964, u16), ("intercept_dr_write", 3966, u16),
     ("intercept_exceptions", 3968, u32), ("v_tpr", 3972, u8), ("nmi_injected", 3973, u8),
     ("nmi_pending", 3974, u8), ("end_reset_fields", 3975, .named "access_size"),
     ("tlb_table", 3976, arr 256 (arr 3 (.named "CPUTLBEntry"))),
     ("tlb_v_table", 28552, arr 8 (arr 3 (.named "CPUTLBEntry"))),
     ("iotlb", 29320, arr 256 (arr 3 (.named "CPUIOTLBEntry"))),
     ("iotlb_v", 41608, arr 8 (arr 3 (.named "CPUIOTLBEntry"))), ("tlb_flush_addr", 41992, u64),
     ("tlb_flush_mask", 42000, u64), ("vtlb_index", 42008, u64), ("cpuid_min_level", 42016, u32),
     ("cpuid_min_xlevel", 42020, u32), ("cpuid_min_xlevel2", 42024, u32),
     ("cpuid_max_level", 42028, u32), ("cpuid_max_xlevel", 42032, u32),
     ("cpuid_max_xlevel2", 42036, u32), ("cpuid_level", 42040, u32), ("cpuid_xlevel", 42044, u32),
     ("cpuid_xlevel2", 42048, u32), ("cpuid_vendor1", 42052, u32), ("cpuid_vendor2", 42056, u32),
     ("cpuid_vendor3", 42060, u32), ("cpuid_version", 42064, u32), ("features", 42068, arr 18 u32),
     ("cpuid_model", 42140, arr 12 u32), ("mtrr_fixed", 42192, arr 11 u64),
     ("mtrr_deftype", 42280, u64), ("mtrr_var", 42288, arr 8 (.named "queue_entry")),
     ("mp_state", 42416, u32), ("exception_injected", 42420, i32),
     ("interrupt_injected", 42424, i32), ("soft_interrupt", 42428, u8),
     ("has_error_code", 42429, u8), ("sipi_vector", 42432, u32), ("tsc_valid", 42436, u8),
     ("tsc_khz", 42440, i64), ("user_tsc_khz", 42448, i64), ("kvm_xsave_buf", 42456, ptr),
     ("mcg_cap", 42464, u64), ("mcg_ctl", 42472, u64), ("mcg_ext_ctl", 42480, u64),
     ("mce_banks", 42488, arr 40 u64), ("xstate_bv", 42808, u64), ("fpus_vmstate", 42816, u16),
     ("fptag_vmstate", 42818, u16), ("fpregs_format_vmstate", 42820, u16), ("xss", 42824, u64),
     ("tpr_access_type", 42832, i32)]),
   ("X86CPU", layout 76496 [
     ("parent_obj", 0, .named "CPUState"), ("env", 33440, .named "CPUX86State"),
     ("hyperv_vapic", 76288, u8), ("hyperv_relaxed_timing", 76289, u8),
     ("hyperv_spinlock_attempts", 76292, i32), ("hyperv_vendor_id", 76296, ptr),
     ("hyperv_time", 76304, u8), ("hyperv_crash", 76305, u8), ("hyperv_reset", 76306, u8),
     ("hyperv_vpindex", 76307, u8), ("hyperv_runtime", 76308, u8), ("hyperv_synic", 76309, u8),
     ("hyperv_stimer", 76310, u8), ("check_cpuid", 76311, u8), ("enforce_cpuid", 76312, u8),
     ("expose_kvm", 76313, u8), ("migratable", 76314, u8), ("host_features", 76315, u8),
     ("apic_id", 76316, u32), ("vmware_cpuid_freq", 76320, u8),
     ("cache_info_passthrough", 76321, u8), ("filtered_features", 76324, arr 18 u32),
     ("enable_pmu", 76396, u8), ("enable_lmce", 76397, u8), ("enable_l3_cache", 76398, u8),
     ("enable_cpuid_0xb", 76399, u8), ("full_cpuid_auto_level", 76400, u8),
     ("fill_mtrr_mask", 76401, u8), ("host_phys_bits", 76402, u8), ("phys_bits", 76404, u32),
     ("apic_state", 76408, ptr), ("cpu_as_root", 76416, ptr), ("cpu_as_mem", 76424, ptr),
     ("smram", 76432, ptr), ("machine_done", 76440, .named "Notifier"),
     ("kvm_msr_buf", 76464, ptr), ("socket_id", 76472, i32), ("core_id", 76476, i32),
     ("thread_id", 76480, i32)])]

end CpuTrace.Cpu
