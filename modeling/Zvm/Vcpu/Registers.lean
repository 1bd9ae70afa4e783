import Mathlib.Data.BitVec

/-!
# vCPU registers and where they are kept

A vCPU's registers are saved and loaded in three places, each with a list of its own:
the general registers on every exit from and entry to the guest, the EL1 system
registers when the host switches threads, and the registers of the GIC's virtual CPU
interface together with the latter, as far as the hardware's numbers of list and
active-priority registers are cases of the two `switch` statements.

The host runs at EL2 with the virtualization host extensions.  `HwRegs.sys` is the
register a guest access reaches; the host reaches it by its `_EL12` name, or by its
own name where the architecture has no such alias (`TPIDR_EL0`, `TPIDRRO_EL0`,
`TPIDR_EL1`, `CSSELR_EL1`, `ACTLR_EL1`, `PAR_EL1`, `MDSCR_EL1`, `SP_EL1`), and for
`MIDR_EL1` and `MPIDR_EL1` through `VPIDR_EL2` and `VMPIDR_EL2`.
-/

namespace Zvm.Vcpu

abbrev Word := BitVec 64

/-- The `VCPU_*` enumeration. -/
inductive SysReg where
  | elrEl1
  | spsrEl1
  | midrEl1
  | mpidrEl1
  | csselrEl1
  | sctlrEl1
  | actlrEl1
  | cpacrEl1
  | ttbr0El1
  | ttbr1El1
  | tcrEl1
  | esrEl1
  | afsr0El1
  | afsr1El1
  | farEl1
  | mairEl1
  | vbarEl1
  | contextidrEl1
  | tpidrEl0
  | tpidrroEl0
  | tpidrEl1
  | amairEl1
  | cntkctlEl1
  | parEl1
  | mdscrEl1
  | disrEl1
  | vpidr
  | spEl1
  deriving DecidableEq

/-- The registers of one physical CPU that guests and context switches touch. -/
structure HwRegs where
  x : Nat → Word
  spEl0 : Word
  elrEl2 : Word
  spsrEl2 : Word
  sys : SysReg → Word
  cntvCtl : Word
  cntvCval : Word
  cntvoff : Word
  lr : Nat → Word
  ap0r : Nat → Word
  ap1r : Nat → Word
  iccSre : Word
  ichVmcr : Word
  ichHcr : Word
  vtcrEl2 : Word
  vttbrEl2 : Word
  deriving Inhabited

/-- `struct arch_commom_regs`. -/
structure CommonRegs where
  x : Nat → Word
  spEl0 : Word
  spElx : Word
  pc : Word
  pstate : Word
  deriving Inhabited

/-- `struct zvm_vcpu_context`. -/
structure VcpuContext where
  regs : CommonRegs
  sysRegs : SysReg → Word
  deriving Inhabited

/-- `struct virt_timer_context`, the virtual timer. -/
structure TimerContext where
  cntvCtl : Word
  cntvCval : Word
  timerOffset : Word
  deriving Inhabited

/-- `struct gicv3_vcpuif_ctxt`. -/
structure GicContext where
  lr : Nat → Word
  ap0r : Nat → Word
  ap1r : Nat → Word
  iccSre : Word
  ichVmcr : Word
  ichHcr : Word
  deriving Inhabited

/-- `struct vcpu_arch`. -/
structure VcpuArch where
  ctxt : VcpuContext
  hostCtxt : VcpuContext
  vtimer : TimerContext
  virqData : GicContext
  isFirstRun : Bool
  deriving Inhabited

/-- `struct vm_arch`. -/
structure VmArch where
  vmPgdBase : Word
  vtcrEl2 : Word
  vttbr : Word

/-- What `ICH_VTR_EL2` says: the numbers of list registers and of priority bits. -/
structure GicConfig where
  lrNum : Nat
  prioNum : Nat

/-! ## Thread switches -/

/-- `dst` with the registers of `rs` taken from `src`. -/
def copyRegs (rs : List SysReg) (src dst : SysReg → Word) : SysReg → Word :=
  fun r => if r ∈ rs then src r else dst r

/-- The registers `vcpu_sysreg_save` reads. -/
def savedRegs : List SysReg :=
  [.midrEl1, .mpidrEl1, .csselrEl1, .actlrEl1, .sctlrEl1, .cpacrEl1, .ttbr0El1, .ttbr1El1,
    .esrEl1, .tcrEl1, .afsr0El1, .afsr1El1, .farEl1, .mairEl1, .vbarEl1, .contextidrEl1,
    .tpidrEl0, .amairEl1, .cntkctlEl1, .parEl1, .tpidrEl1, .elrEl1, .spsrEl1]

/-- The registers `vcpu_sysreg_load` writes. -/
def loadedRegs : List SysReg :=
  [.csselrEl1, .midrEl1, .mpidrEl1, .actlrEl1, .sctlrEl1, .tcrEl1, .cpacrEl1, .ttbr0El1,
    .ttbr1El1, .esrEl1, .afsr0El1, .afsr1El1, .farEl1, .mairEl1, .vbarEl1, .contextidrEl1,
    .tpidrEl0, .amairEl1, .cntkctlEl1, .parEl1, .tpidrEl1, .spEl1, .elrEl1, .spsrEl1]

/-- `vcpu_sysreg_save`. -/
def vcpuSysregSave (v : VcpuArch) (h : HwRegs) : VcpuArch :=
  { v with ctxt := { v.ctxt with sysRegs := copyRegs savedRegs h.sys v.ctxt.sysRegs } }

/-- `vcpu_sysreg_load`. -/
def vcpuSysregLoad (v : VcpuArch) (h : HwRegs) : HwRegs :=
  { h with sys := copyRegs loadedRegs v.ctxt.sysRegs h.sys }

/-- `vcpu_vtimer_save`. -/
def vcpuVtimerSave (v : VcpuArch) (h : HwRegs) : VcpuArch × HwRegs :=
  ({ v with vtimer := ⟨h.cntvCtl, h.cntvCval, h.cntvoff⟩ }, { h with cntvCtl := 0#64 })

/-- `vcpu_vtimer_load`; `firstOffset` is what a first run takes as its offset, the offset
of the VM's first vCPU or, on that one, the counter. -/
def vcpuVtimerLoad (v : VcpuArch) (h : HwRegs) (firstOffset : Word) : VcpuArch × HwRegs :=
  let offset := if v.isFirstRun then firstOffset else v.vtimer.timerOffset
  ({ v with isFirstRun := false, vtimer := { v.vtimer with timerOffset := offset } },
    { h with cntvoff := offset, cntvCval := v.vtimer.cntvCval, cntvCtl := v.vtimer.cntvCtl })

/-- How many list registers `vgicv3_lrs_load` and `vgicv3_lrs_save` go through: the
cases 8 to 1 fall through to the lower ones, and there is no other case. -/
def lrCases (lrNum : Nat) : Nat := if lrNum ≤ 8 then lrNum else 0

/-- How many registers of each group `vgicv3_prios_load` and `vgicv3_prios_save` go
through: the cases are 7, 6 and 5. -/
def prioCases (prioNum : Nat) : Nat := if 5 ≤ prioNum ∧ prioNum ≤ 7 then prioNum - 4 else 0

/-- The first `n` registers taken from `src`. -/
def copyFirst (n : Nat) (src dst : Nat → Word) : Nat → Word :=
  fun i => if i < n then src i else dst i

/-- `vgicv3_state_save`: list registers, active priorities, controls. -/
def vgicv3StateSave (g : GicConfig) (v : VcpuArch) (h : HwRegs) : VcpuArch :=
  { v with
    virqData :=
      { lr := copyFirst (lrCases g.lrNum) h.lr v.virqData.lr
        ap0r := copyFirst (prioCases g.prioNum) h.ap0r v.virqData.ap0r
        ap1r := copyFirst (prioCases g.prioNum) h.ap1r v.virqData.ap1r
        iccSre := h.iccSre
        ichVmcr := h.ichVmcr
        ichHcr := h.ichHcr } }

/-- `vgicv3_state_load`. -/
def vgicv3StateLoad (g : GicConfig) (v : VcpuArch) (h : HwRegs) : HwRegs :=
  { h with
    lr := copyFirst (lrCases g.lrNum) v.virqData.lr h.lr
    ap0r := copyFirst (prioCases g.prioNum) v.virqData.ap0r h.ap0r
    ap1r := copyFirst (prioCases g.prioNum) v.virqData.ap1r h.ap1r
    iccSre := v.virqData.iccSre
    ichVmcr := v.virqData.ichVmcr
    ichHcr := v.virqData.ichHcr }

/-- The writes `vgicv3_write_lr` makes for collecting and injecting interrupts; it
has the cases 0 to 7. -/
def writeLrs (writes : List (Nat × Word)) (lr : Nat → Word) : Nat → Word :=
  writes.foldl (fun lr w => fun i => if i = w.1 ∧ w.1 < 8 then w.2 else lr i) lr

/-- `arch_vcpu_context_save`: collect interrupts, save the GIC, the timer, the system
registers. -/
def archVcpuContextSave (g : GicConfig) (v : VcpuArch) (h : HwRegs)
    (collected : List (Nat × Word)) : VcpuArch × HwRegs :=
  let h := { h with lr := writeLrs collected h.lr }
  let v := vgicv3StateSave g v h
  let (v, h) := vcpuVtimerSave v h
  (vcpuSysregSave v h, h)

/-- `arch_vcpu_context_load`: load the system registers, the timer, the GIC, inject
interrupts. -/
def archVcpuContextLoad (g : GicConfig) (v : VcpuArch) (h : HwRegs) (firstOffset : Word)
    (injected : List (Nat × Word)) : VcpuArch × HwRegs :=
  let h := vcpuSysregLoad v h
  let (v, h) := vcpuVtimerLoad v h firstOffset
  let h := vgicv3StateLoad g v h
  (v, { h with lr := writeLrs injected h.lr })

/-! ## Entry and exit -/

/-- `switch_to_guest_sysreg`.  At EL2 `SPSR_EL1` names `SPSR_EL2`. -/
def switchToGuestSysreg (vm : VmArch) (v : VcpuArch) (h : HwRegs) : VcpuArch × HwRegs :=
  let host := v.hostCtxt.sysRegs
  let saved : SysReg → Word := fun r =>
    match r with
    | .spsrEl1 => h.spsrEl2
    | .mdscrEl1 => h.sys .mdscrEl1
    | .tpidrroEl0 => h.sys .tpidrroEl0
    | r => host r
  ({ v with hostCtxt := { v.hostCtxt with sysRegs := saved } },
    { h with
      vtcrEl2 := vm.vtcrEl2
      vttbrEl2 := vm.vttbr
      sys := copyRegs [.tpidrroEl0, .tpidrEl1, .mpidrEl1] v.ctxt.sysRegs h.sys
      elrEl2 := v.ctxt.regs.pc
      spsrEl2 := v.ctxt.regs.pstate })

/-- `save_registers_context`; `pc` and `pstate` are not among the registers it stores. -/
def saveRegistersContext (regs : CommonRegs) (h : HwRegs) : CommonRegs :=
  { regs with x := h.x, spEl0 := h.spEl0, spElx := h.sys .spEl1 }

/-- `load_registers_context`. -/
def loadRegistersContext (regs : CommonRegs) (h : HwRegs) : HwRegs :=
  { h with
    x := regs.x
    spEl0 := regs.spEl0
    sys := fun r => if r = .spEl1 then regs.spElx else h.sys r }

/-- `guest_vm_entry`: store the host's registers, load the guest's. -/
def guestVmEntry (v : VcpuArch) (h : HwRegs) : VcpuArch × HwRegs :=
  ({ v with hostCtxt := { v.hostCtxt with regs := saveRegistersContext v.hostCtxt.regs h } },
    loadRegistersContext v.ctxt.regs h)

/-- `guest_vm_exit_sync` and `guest_vm_exit_irq`: store the guest's registers, load the
host's. -/
def guestVmExit (v : VcpuArch) (h : HwRegs) : VcpuArch × HwRegs :=
  ({ v with ctxt := { v.ctxt with regs := saveRegistersContext v.ctxt.regs h } },
    loadRegistersContext v.hostCtxt.regs h)

/-- `switch_to_host_sysreg`. -/
def switchToHostSysreg (vm : VmArch) (v : VcpuArch) (h : HwRegs) : VmArch × VcpuArch × HwRegs :=
  let host := v.hostCtxt.sysRegs
  ({ vm with vtcrEl2 := h.vtcrEl2, vttbr := h.vttbrEl2 },
    { v with
      ctxt :=
        { regs := { v.ctxt.regs with pc := h.elrEl2, pstate := h.spsrEl2 }
          sysRegs := copyRegs [.tpidrroEl0, .tpidrEl1] h.sys v.ctxt.sysRegs } },
    { h with
      sys := copyRegs [.mdscrEl1, .tpidrroEl0] host h.sys
      spsrEl2 := host .spsrEl1 })

end Zvm.Vcpu
