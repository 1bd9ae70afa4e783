import Mathlib.Data.BitVec
import Zvm.Verified.FunArray

/-!
# The virtual interrupts of a vCPU

A virtual interrupt of a vCPU is in three places: in the pending, enable and active bits
of the vCPU's redistributor (up to 31) and of the distributor, in its descriptor, and in
a list register of the CPU interface.  `virt_irq_flush_vgic` moves pending interrupts
from the bits to list registers, `virt_irq_sync_vgic` collects the list registers the
guest has finished with.

Every bit bank has a part for each vCPU and every descriptor belongs to one vCPU, so the
state below is that of one vCPU.  Its list registers are in the hardware while it runs
and in its saved context otherwise.

`vgicv3_get_idle_lr` returns a `uint8_t`, 255 where no list register is idle, and its
caller tests for a negative number; `vgicv3_read_lr` and `vgicv3_write_lr` have cases for
the registers 0 to 7 only.
-/

namespace Zvm.Vgic

open Zvm.Verified

/-- The two bits of an interrupt's state. -/
structure IrqState where
  pending : Bool
  active : Bool
  deriving DecidableEq, Inhabited

/-- `VIRQ_STATE_INVALID`. -/
def IrqState.invalid : IrqState := ⟨false, false⟩

/-- `struct gicv3_list_reg`. -/
structure ListReg where
  vINTID : Nat
  pINTID : Nat
  priority : Nat
  group : Bool
  hw : Bool
  state : IrqState
  deriving DecidableEq, Inhabited

def ListReg.zero : ListReg := ⟨0, 0, 0, false, false, .invalid⟩

/-- `struct virt_irq_desc`; `level` is `level_triggered`, and the descriptor's position
is its `virq_num`. -/
structure VirqDesc where
  id : Nat
  prio : Nat
  virqStates : IrqState
  srcCpu : BitVec 32
  pirqNum : Nat
  level : Bool
  deriving DecidableEq, Inhabited

/-- The hardware's number of list registers and the constants of the build. -/
structure VgicConfig where
  lrNum : Nat
  virqNr : Nat
  vcpuNum : Nat
  vserialVirq : Nat
  zshmVirq : Nat
  lrNum_pos : 0 < lrNum
  local_le : 32 ≤ virqNr

/-- `VM_INVALID_DESC_ID`. -/
def invalidDescId : Nat := 0xFF

/-- `VM_INVALID_PIRQ_NUM`. -/
def invalidPirqNum : Nat := 0xFFFF

/-- `VM_LOCAL_VIRQ_NR`. -/
def localVirqNr : Nat := 32

/-- The interrupts of a vCPU; `edge` is its bit of `virq_edge_trigger`. -/
structure VcpuIrqs where
  pending : Nat → Bool
  enabled : Nat → Bool
  active : Nat → Bool
  edge : Nat → Bool
  desc : Nat → VirqDesc
  listRegsMap : BitVec 64
  lr : Nat → ListReg

/-- `init_vcpu_virt_irq_desc`. -/
def initDesc (virq : Nat) : VirqDesc where
  id := invalidDescId
  prio := 0
  virqStates := .invalid
  srcCpu := 0#32
  pirqNum := if virq < 32 then virq else invalidPirqNum
  level := false

/-- A new vCPU. -/
def bootIrqs : VcpuIrqs where
  pending := fun _ => false
  enabled := fun _ => false
  active := fun _ => false
  edge := fun _ => true
  desc := initDesc
  listRegsMap := 0#64
  lr := fun _ => .zero

/-! ## List registers -/

/-- `1 << id`, an `int` whose shift the hardware takes modulo 32, widened to 64 bits. -/
def lrMask (id : Nat) : BitVec 64 := (1#32 <<< (id % 32)).signExtend 64

/-- `VGIC_LIST_REGS_TEST`. -/
def listRegsTest (st : VcpuIrqs) (id : Nat) : Bool := st.listRegsMap &&& lrMask id != 0#64

/-- `VGIC_LIST_REGS_SET`. -/
def listRegsSet (st : VcpuIrqs) (id : Nat) : VcpuIrqs :=
  { st with listRegsMap := st.listRegsMap ||| lrMask id }

/-- `VGIC_LIST_REGS_UNSET`. -/
def listRegsUnset (st : VcpuIrqs) (id : Nat) : VcpuIrqs :=
  { st with listRegsMap := st.listRegsMap &&& ~~~(lrMask id) }

/-- `vgicv3_read_lr`. -/
def vgicv3ReadLr (st : VcpuIrqs) (id : Nat) : ListReg := if id < 8 then st.lr id else .zero

/-- `vgicv3_write_lr`. -/
def vgicv3WriteLr (st : VcpuIrqs) (id : Nat) (value : ListReg) : VcpuIrqs :=
  if id < 8 then { st with lr := FunArray.set st.lr id value } else st

/-- `vgicv3_pre_set_lr`. -/
def vgicv3PreSetLr (virq : Nat) (d : VirqDesc) (lr : ListReg) : ListReg where
  vINTID := virq
  priority := d.prio
  state :=
    { pending := lr.state.pending || d.virqStates.pending
      active := lr.state.active || d.virqStates.active }
  pINTID := if d.pirqNum ≠ invalidPirqNum then d.pirqNum else 0
  hw := d.pirqNum ≠ invalidPirqNum
  group := true

/-- `vgicv3_get_idle_lr`; the `-1` of a full set is returned as a `uint8_t`. -/
def vgicv3GetIdleLr (c : VgicConfig) (st : VcpuIrqs) : Nat :=
  (FunArray.firstIdx c.lrNum fun i => !listRegsTest st i).getD 255

/-- `desc` of `virq` replaced. -/
def setDesc (st : VcpuIrqs) (virq : Nat) (d : VirqDesc) : VcpuIrqs :=
  { st with desc := FunArray.set st.desc virq d }

/-- `VGIC_SET_PENDING` and `VGIC_UNSET_PENDING` for this vCPU. -/
def setPending (st : VcpuIrqs) (virq : Nat) (on : Bool) : VcpuIrqs :=
  { st with pending := FunArray.set st.pending virq on }

/-- `VGIC_SET_ACTIVE` and `VGIC_UNSET_ACTIVE` for this vCPU. -/
def setActive (st : VcpuIrqs) (virq : Nat) (on : Bool) : VcpuIrqs :=
  { st with active := FunArray.set st.active virq on }

/-- `vgic_inject_virq_vcpuif`: the new state and the return value. -/
def vgicInjectVirqVcpuif (c : VgicConfig) (st : VcpuIrqs) (virq : Nat) : VcpuIrqs × Int :=
  let d := st.desc virq
  let value := if listRegsTest st d.id then vgicv3ReadLr st d.id else .zero
  if listRegsTest st d.id && value.vINTID == virq then
    let d := { d with virqStates := { d.virqStates with pending := true } }
    let low := virq == c.zshmVirq
    (vgicv3WriteLr (setDesc st virq { d with level := d.level && !low }) d.id
      (vgicv3PreSetLr virq d value), 1)
  else
    let regId : Int := vgicv3GetIdleLr c st
    if regId < 0 then (st, -28)
    else
      let id := regId.toNat
      let d := { d with id := id, virqStates := ⟨true, false⟩ }
      let low := virq == c.vserialVirq || virq == c.zshmVirq
      -- a list register that was read and is another interrupt's leaves its bits in `value`
      (vgicv3WriteLr (listRegsSet (setDesc st virq { d with level := d.level && !low }) id) id
        (vgicv3PreSetLr virq d value), 0)

/-! ## Flush -/

/-- The loop over the senders of a software-generated interrupt. -/
def injectSources (c : VgicConfig) (virq : Nat) :
    List Nat → VcpuIrqs → BitVec 32 → VcpuIrqs × BitVec 32
  | [], st, src => (st, src)
  | i :: is, st, src =>
    if src.getLsbD i then
      let (st, ret) := vgicInjectVirqVcpuif c st virq
      injectSources c virq is st (if 0 ≤ ret then src &&& ~~~(1#32 <<< i) else src)
    else injectSources c virq is st src

/-- The body of the first loop of `virt_irq_flush_vgic`; the flag says whether the loop
goes on. -/
def flushLocalIrq (c : VgicConfig) (st : VcpuIrqs) (irq : Nat) : VcpuIrqs × Bool :=
  let src := (st.desc irq).srcCpu
  if src = 0#32 then
    let (st, ret) := vgicInjectVirqVcpuif c st irq
    if 0 ≤ ret then (setPending st irq false, true) else (st, false)
  else
    let (st, src) := injectSources c irq (List.range c.vcpuNum) st src
    let st := setDesc st irq { st.desc irq with srcCpu := src }
    if src = 0#32 then (setPending st irq false, true) else (st, false)

/-- The body of the second loop. -/
def flushSpiIrq (c : VgicConfig) (st : VcpuIrqs) (irq : Nat) : VcpuIrqs × Bool :=
  let (st, ret) := vgicInjectVirqVcpuif c st irq
  if 0 ≤ ret then
    let st := setPending st irq false
    (if st.edge irq then st else setActive st irq true, true)
  else (st, false)

def flushIrq (c : VgicConfig) (st : VcpuIrqs) (irq : Nat) : VcpuIrqs × Bool :=
  if irq < localVirqNr then flushLocalIrq c st irq else flushSpiIrq c st irq

def flushIrqs (c : VgicConfig) : List Nat → VcpuIrqs → VcpuIrqs × Bool
  | [], st => (st, true)
  | irq :: irqs, st =>
    match flushIrq c st irq with
    | (st, true) => flushIrqs c irqs st
    | (st, false) => (st, false)

/-- The interrupts of bank `b` that are pending and enabled. -/
def bankMask (st : VcpuIrqs) (b : Nat) : List Nat :=
  ((List.range 32).map (32 * b + ·)).filter fun irq => st.pending irq && st.enabled irq

/-- The banks in order; the mask of each is read when its turn comes. -/
def flushBanks (c : VgicConfig) : List Nat → VcpuIrqs → VcpuIrqs
  | [], st => st
  | b :: bs, st =>
    match flushIrqs c (bankMask st b) st with
    | (st, true) => flushBanks c bs st
    | (st, false) => st

/-- `virt_irq_flush_vgic`. -/
def virtIrqFlushVgic (c : VgicConfig) (st : VcpuIrqs) : VcpuIrqs :=
  flushBanks c (List.range (c.virqNr / 32)) st

/-! ## Sync -/

/-- `ICH_ELRSR_EL2`; `ICH_EISR_EL2` has no bit set, as no list register asks for a
maintenance interrupt. -/
def emptyLr (st : VcpuIrqs) (i : Nat) : Bool := decide ((st.lr i).state = .invalid)

/-- One round of the loop of `virt_irq_sync_vgic`, for a list register that is done. -/
def syncLr (c : VgicConfig) (st : VcpuIrqs) (i : Nat) : VcpuIrqs :=
  let irq := (vgicv3ReadLr st i).vINTID
  let st := vgicv3WriteLr st i .zero
  if c.virqNr ≤ irq then st
  else
    let d := st.desc irq
    let st :=
      if st.edge irq then st else setPending (setActive st irq false) irq d.level
    setDesc (listRegsUnset st i) irq { d with id := invalidDescId }

/-- `virt_irq_sync_vgic`; which list registers are done is read before the loop. -/
def virtIrqSyncVgic (c : VgicConfig) (st : VcpuIrqs) : VcpuIrqs :=
  if st.listRegsMap = 0#64 then st
  else
    ((List.range c.lrNum).filter fun i => emptyLr st i && st.listRegsMap.getLsbD i).foldl
      (syncLr c) st

/-! ## Injection -/

/-- `vgic_is_virq_enabled` for the vCPUs that `vgic_set_virq_to_vcpu` asks for: this one,
and all of the VM when the level of a shared interrupt goes down (`others` says that
another vCPU has it enabled). -/
def isVirqEnabled (c : VgicConfig) (st : VcpuIrqs) (virq : Nat) (level others : Bool) : Bool :=
  let own := decide (virq < localVirqNr) || virq == c.zshmVirq || level
  st.enabled virq || (!own && others)

/-- The middle part of `vgic_set_virq_to_vcpu`: a private interrupt becomes pending, a
shared one when its level goes up. -/
def latchVirq (st : VcpuIrqs) (virq : Nat) (level : Bool) : VcpuIrqs :=
  let d := st.desc virq
  if virq < localVirqNr then setPending st virq true
  else if d.level ≠ level then
    let st := setDesc st virq { d with level := level }
    if level then setPending st virq true else st
  else st

/-- `vgic_set_virq_to_vcpu`.  `cur` says that this is the vCPU of the calling context;
any other vCPU gets an inter-processor interrupt. -/
def vgicSetVirqToVcpu (c : VgicConfig) (st : VcpuIrqs) (virq : Nat) (level cur others : Bool) :
    VcpuIrqs :=
  if c.virqNr ≤ virq then st
  else if !isVirqEnabled c st virq level others then st
  else
    let st := latchVirq st virq level
    if cur then virtIrqFlushVgic c (virtIrqSyncVgic c st) else st

/-- `desc->src_cpu |= BIT(vcpu->vcpu_id)`. -/
def recordSender (st : VcpuIrqs) (sgi sender : Nat) : VcpuIrqs :=
  setDesc st sgi { st.desc sgi with srcCpu := (st.desc sgi).srcCpu ||| 1#32 <<< sender }

/-- What `vgicv3_raise_sgi2vcpu` does for one target. -/
def raiseSgi (c : VgicConfig) (st : VcpuIrqs) (sgi sender : Nat) (cur : Bool) : VcpuIrqs :=
  vgicSetVirqToVcpu c (recordSender st sgi sender) sgi true cur false

end Zvm.Vgic
