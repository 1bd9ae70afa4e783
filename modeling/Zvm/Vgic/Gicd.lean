import Zvm.Verified.FunArray
import Zvm.Verified.Run
import Mathlib.Data.BitVec

/-!
# The guest's accesses to the interrupt controller

The registers that a guest reads and writes: `vgic_vdev_mem_read` and `vgic_vdev_mem_write`
find the frame of an address, the distributor's or one of a redistributor, and the functions
for the frames decode the offset.

The distributor's bit banks are arrays inside of one structure, and so are they here, as one
array of words.  That matters for bank 0: the functions that set bits take the structure of
the distributor for that of a redistributor then, and the fields they write are words of the
first arrays.

The number of interrupts that the guest finds in `GICD_TYPER` is one bank larger than the
number there is.  An access behind the end is ignored, except for the three registers that set
bits, for which it is an error, and an error ends the vCPU.
-/

namespace Zvm.Vgic

open Zvm.Verified.FunArray

/-- The boards whose affinity values are not just the number of the CPU. -/
inductive Soc where
  | d3000
  | rk35xx
  | qemuMax
  | other
  deriving DecidableEq

/-- The build and the regions of the devicetree. -/
structure GicBuild where
  soc : Soc
  /-- `VM_GLOBAL_VIRQ_NR` -/
  virqNr : Nat
  /-- `CONFIG_MAX_VCPU_PER_VM` -/
  maxVcpu : Nat
  vcpuNum : Nat
  gicdBase : Nat
  gicdSize : Nat
  gicrBase : Nat
  gicrSize : Nat
  virqNr_ge : 32 ≤ virqNr
  vcpuNum_le : vcpuNum ≤ maxVcpu
  gicdSize_ge : 0x10000 ≤ gicdSize
  gicr_after : gicdBase + gicdSize ≤ gicrBase
  gicr_end : gicrBase + gicrSize < 2 ^ 32

/-- `struct virt_gic_gicd`; `banks` has `virq_enabled`, `virq_pending`, `virq_active` and
`virq_edge_trigger`, one behind the other. -/
structure Gicd where
  gicdBase : Nat
  gicdSize : Nat
  ctlr : BitVec 32
  typer : BitVec 32
  pidr2 : BitVec 32
  banks : Nat → BitVec 32

/-- `struct virt_gic_gicr`. -/
structure Gicr where
  rdBase : Nat
  rdSize : Nat
  sgiBase : Nat
  sgiSize : Nat
  rdCtlr : BitVec 32
  rdPidr2 : BitVec 32
  rdTyper : BitVec 64
  sgiTyper : BitVec 64
  virqEnabled : BitVec 32
  virqPending : BitVec 32
  virqActive : BitVec 32

/-- `struct vgicv3_dev`, and the priority and type in the descriptors, by vCPU and interrupt. -/
structure Gic where
  gicd : Gicd
  gicr : Nat → Gicr
  prio : Nat → Nat → BitVec 8
  type : Nat → Nat → BitVec 8

/-! ## Initialisation -/

/-- `VGIC_RD_BASE_SIZE`, `VGIC_SGI_BASE_SIZE` and `VGIC_RD_SGI_SIZE`. -/
def rdBaseSize : Nat := 0x10000
def sgiBaseSize : Nat := 0x10000
def rdSgiSize : Nat := rdBaseSize + sgiBaseSize

/-- `MIN(VGIC_RDIST_SIZE/VGIC_RD_SGI_SIZE, vm->vcpu_num)`. -/
def GicBuild.rdNum (b : GicBuild) : Nat := min (b.gicrSize / rdSgiSize) b.vcpuNum

/-- `spi_num`. -/
def GicBuild.spiNum (b : GicBuild) : Nat := (b.virqNr + 32) / 32 - 1

/-- The value of `GICD_TYPER`. -/
def GicBuild.gicdTyper (b : GicBuild) : BitVec 32 :=
  BitVec.ofNat 32 b.vcpuNum <<< 5 ||| 9#32 <<< 19 ||| BitVec.ofNat 32 b.spiNum

/-- The value of `GICR_TYPER` of redistributor `i`. -/
def GicBuild.gicrTyper (b : GicBuild) (i : Nat) : BitVec 64 :=
  (match b.soc with
    | .d3000 =>
      BitVec.ofNat 64 (i % 4) <<< 40 ||| BitVec.ofNat 64 (i / 4) <<< 48 |||
        BitVec.ofNat 64 i <<< 8 ||| 0x21#64
    | .rk35xx =>
      1#64 <<< 24 ||| BitVec.ofNat 64 i <<< 8 ||| (BitVec.ofNat 64 i <<< 8) <<< 32
    | _ => 1#64 <<< 24 ||| BitVec.ofNat 64 i <<< 8 ||| BitVec.ofNat 64 i <<< 32) |||
  (if b.vcpuNum - 1 ≤ i then 1#64 <<< 4 else 0#64)

/-- `VGIC_V3_REV << VGIC_ARCH_REV_SHIFT`. -/
def archRev : BitVec 32 := 0x30

/-- The banks of one array. -/
def GicBuild.bankNum (b : GicBuild) : Nat := b.virqNr / 32

/-- Where `virq_edge_trigger` begins. -/
def GicBuild.edgeStart (b : GicBuild) : Nat := 3 * (b.maxVcpu * b.bankNum)

/-- `vdev_gicv3_init`. -/
def vdevGicv3Init (b : GicBuild) : Gic where
  gicd :=
    { gicdBase := b.gicdBase
      gicdSize := b.gicdSize
      ctlr := 0
      typer := b.gicdTyper
      pidr2 := archRev
      banks := fun k =>
        if b.edgeStart ≤ k ∧ k < b.edgeStart + b.virqNr then 0xFFFFFFFF else 0 }
  gicr := fun i =>
    { rdBase := b.gicrBase + rdSgiSize * i
      rdSize := rdBaseSize
      sgiBase := b.gicrBase + rdSgiSize * i + rdBaseSize
      sgiSize := sgiBaseSize
      rdCtlr := 0
      rdPidr2 := archRev
      rdTyper := b.gicrTyper i
      sgiTyper := b.gicrTyper i
      virqEnabled := 0
      virqPending := 0
      virqActive := 0 }
  prio := fun _ _ => 0
  type := fun _ _ => 0

/-! ## The bits -/

/-- The three kinds of bits. -/
inductive BitKind where
  | enable
  | pending
  | active
  deriving DecidableEq

/-- The word of bank `bank` of a vCPU. -/
def BitKind.word (b : GicBuild) (vcpu bank : Nat) : BitKind → Nat
  | .enable => vcpu * b.bankNum + bank
  | .pending => b.maxVcpu * b.bankNum + (vcpu * b.bankNum + bank)
  | .active => 2 * (b.maxVcpu * b.bankNum) + (vcpu * b.bankNum + bank)

/-- The word of a distributor that is at the place of the redistributor's field. -/
def BitKind.confusedWord : BitKind → Nat
  | .enable => 7
  | .pending => 8
  | .active => 9

def Gicr.bits (r : Gicr) : BitKind → BitVec 32
  | .enable => r.virqEnabled
  | .pending => r.virqPending
  | .active => r.virqActive

def Gicr.setBits (r : Gicr) (kind : BitKind) (w : BitVec 32) : Gicr :=
  match kind with
  | .enable => { r with virqEnabled := w }
  | .pending => { r with virqPending := w }
  | .active => { r with virqActive := w }

/-- The loop of the functions that set bits, over the bits `bits`; a bit behind the last
interrupt ends it, except in bank 0. -/
def writeBits (virqNr base : Nat) (value : BitVec 32) (setFlag : Bool) :
    List Nat → BitVec 32 → BitVec 32
  | [], w => w
  | bit :: bits, w =>
    if value.getLsbD bit then
      if setFlag then
        if base ≠ 0 ∧ virqNr < base + bit then w
        else writeBits virqNr base value setFlag bits (w ||| 1#32 <<< bit)
      else writeBits virqNr base value setFlag bits (w &&& ~~~(1#32 <<< bit))
    else writeBits virqNr base value setFlag bits w

/-- `__vgic_test_and_set_enable_bit`, `…_pending_bit` and `…_active_bit` with the
distributor. -/
def testAndSetGicdBit (b : GicBuild) (kind : BitKind) (base : Nat) (value : BitVec 32)
    (setFlag : Bool) (d : Gicd) (vcpu : Nat) : Gicd :=
  let word := if base = 0 then kind.confusedWord else kind.word b vcpu (base / 32)
  { d with
    banks := set d.banks word (writeBits b.virqNr base value setFlag (List.range 32) (d.banks word)) }

/-- The same with a redistributor. -/
def testAndSetGicrBit (b : GicBuild) (kind : BitKind) (value : BitVec 32) (setFlag : Bool)
    (r : Gicr) : Gicr :=
  r.setBits kind (writeBits b.virqNr 0 value setFlag (List.range 32) (r.bits kind))

/-- One bit of one vCPU. -/
def Gic.bit (b : GicBuild) (g : Gic) (kind : BitKind) (vcpu irq : Nat) : Bool :=
  if irq < 32 then ((g.gicr vcpu).bits kind).getLsbD (irq % 32)
  else (g.gicd.banks (kind.word b vcpu (irq / 32))).getLsbD (irq % 32)

/-- `vgic_is_virq_enabled`, `…_pending` and `…_active`, for the vCPUs of `mask`. -/
def isVirq (b : GicBuild) (g : Gic) (kind : BitKind) (mask : Nat → Bool) (irq : Nat) : Bool :=
  (List.range b.vcpuNum).any fun i => mask i && g.bit b kind i irq

/-! ## The distributor -/

/-- A read of a bank. -/
def bankRead (b : GicBuild) (g : Gic) (kind : BitKind) (mask : Nat → Bool) (irqBase : Nat) :
    BitVec 32 :=
  if b.virqNr ≤ irqBase then 0
  else
    (List.range 32).foldl (fun value i =>
      if irqBase + i < b.virqNr ∧ isVirq b g kind mask (irqBase + i) = true then
        value ||| 1#32 <<< i
      else value) 0

/-- The bytes of `__vgic_set_and_get_priority_bit`, up to the first one without an
interrupt. -/
def prioIrqs (b : GicBuild) (irqBase : Nat) : List Nat :=
  (List.range 4).takeWhile fun k => decide (irqBase + k < b.virqNr)

/-- What the offset in the distributor's frame stands for. -/
inductive GicdReg where
  | ctlr
  | typer
  | bank (kind : BitKind) (setFlag : Bool) (irqBase : Nat)
  | priority (irqBase : Nat)
  | config (irq : Nat)
  | pidr2
  | none

/-- The cases of the two functions for the distributor; the one for writing ends the
priorities earlier. -/
def decodeGicd (prioEnd offset : Nat) : GicdReg :=
  if offset = 0 then .ctlr
  else if offset = 4 then .typer
  else if 0x100 ≤ offset ∧ offset < 0x180 then .bank .enable true ((offset - 0x100) / 4 * 32)
  else if 0x180 ≤ offset ∧ offset < 0x200 then .bank .enable false ((offset - 0x180) / 4 * 32)
  else if 0x200 ≤ offset ∧ offset < 0x280 then .bank .pending true ((offset - 0x200) / 4 * 32)
  else if 0x280 ≤ offset ∧ offset < 0x300 then .bank .pending false ((offset - 0x280) / 4 * 32)
  else if 0x300 ≤ offset ∧ offset < 0x380 then .bank .active true ((offset - 0x300) / 4 * 32)
  else if 0x380 ≤ offset ∧ offset < 0x400 then .bank .active false ((offset - 0x380) / 4 * 32)
  else if 0x400 ≤ offset ∧ offset < prioEnd then .priority ((offset - 0x400) / 4 * 4)
  else if 0xc00 ≤ offset ∧ offset < 0xcfc then .config (16 * ((offset - 0xc00) / 4))
  else if offset = 0xffe8 then .pidr2
  else .none

/-- The vCPUs whose bits a read shows: its own, or all for the active bits of shared
interrupts in `GICD_ISACTIVER`. -/
def readMask (vcpu : Nat) (kind : BitKind) (setFlag : Bool) (irqBase i : Nat) : Bool :=
  i == vcpu || (decide (kind = .active) && setFlag && irqBase != 0)

/-- The bytes of the priorities. -/
def prioRead (b : GicBuild) (g : Gic) (vcpu irqBase : Nat) : BitVec 32 :=
  if b.virqNr ≤ irqBase then 0
  else
    (prioIrqs b irqBase).foldl (fun value k =>
      value ||| (g.prio vcpu (irqBase + k)).setWidth 32 <<< (8 * k)) 0

/-- `virt_irq_get_type`. -/
def virtIrqGetType (b : GicBuild) (g : Gic) (vcpu irq : Nat) : BitVec 32 :=
  (List.range 16).foldl (fun value i =>
    if irq + i < b.virqNr then value ||| (g.type vcpu (irq + i)).setWidth 32 <<< (2 * i)
    else value) 0

/-- `vgic_gicd_mem_read`; it returns 0. -/
def vgicGicdMemRead (b : GicBuild) (g : Gic) (vcpu offset : Nat) : BitVec 32 :=
  match decodeGicd 0xc00 offset with
  | .ctlr => g.gicd.ctlr &&& ~~~(1#32 <<< 31)
  | .typer => g.gicd.typer
  | .bank kind setFlag irqBase => bankRead b g kind (readMask vcpu kind setFlag irqBase) irqBase
  | .priority irqBase => prioRead b g vcpu irqBase
  | .config irq => virtIrqGetType b g vcpu irq
  | .pidr2 => g.gicd.pidr2
  | .none => 0

/-- A write of a bank, for all vCPUs; behind the last interrupt, setting bits is `-EINVAL`. -/
def bankWrite (b : GicBuild) (g : Gic) (kind : BitKind) (setFlag : Bool) (irqBase : Nat)
    (value : BitVec 32) : Gic × Int :=
  if b.virqNr ≤ irqBase then (g, if setFlag then -22 else 0)
  else
    ({ g with
        gicd := (List.range b.vcpuNum).foldl
          (testAndSetGicdBit b kind irqBase value setFlag) g.gicd }, 0)

/-- The priorities of four interrupts are set for all vCPUs. -/
def prioWrite (b : GicBuild) (g : Gic) (irqBase : Nat) (value : BitVec 32) : Gic :=
  if b.virqNr ≤ irqBase then g
  else
    { g with
      prio := fun v =>
        if v < b.vcpuNum then
          (prioIrqs b irqBase).foldl (fun prio k =>
            set prio (irqBase + k) ((value >>> (8 * k)).setWidth 8)) (g.prio v)
        else g.prio v }

/-- `virt_irq_set_type`, up to the first interrupt without a descriptor; its result is not
used. -/
def virtIrqSetType (b : GicBuild) (g : Gic) (vcpu irq : Nat) (value : BitVec 32) : Gic :=
  { g with
    type := set g.type vcpu
      (((List.range 16).takeWhile fun i => decide (irq + i < b.virqNr)).foldl (fun type i =>
        set type (irq + i) ((value >>> (2 * i)).setWidth 8 &&& 3#8)) (g.type vcpu)) }

/-- `vgic_gicd_mem_write`. -/
def vgicGicdMemWrite (b : GicBuild) (g : Gic) (vcpu offset : Nat) (value : BitVec 32) : Gic × Int :=
  match decodeGicd 0x7f8 offset with
  | .ctlr => ({ g with gicd := { g.gicd with ctlr := value } }, 0)
  | .bank kind setFlag irqBase => bankWrite b g kind setFlag irqBase value
  | .priority irqBase => (prioWrite b g irqBase value, 0)
  | .config irq => (virtIrqSetType b g vcpu irq value, 0)
  | .typer => (g, 0)
  | .pidr2 => (g, 0)
  | .none => (g, 0)

/-! ## The redistributors -/

/-- `vgic_gicrrd_mem_read`; it returns 0. -/
def vgicGicrrdMemRead (r : Gicr) (offset : Nat) : BitVec 64 :=
  if offset = 0 then r.rdCtlr.setWidth 64
  else if offset = 8 then r.rdTyper
  else if offset = 0xffe8 then r.rdPidr2.setWidth 64
  else 0

/-- `vgic_gicrrd_mem_write`; it returns 0. -/
def vgicGicrrdMemWrite (r : Gicr) (offset : Nat) (value : BitVec 64) : Gicr :=
  if offset = 0 then { r with rdCtlr := value.setWidth 32 }
  else if offset = 8 then { r with rdTyper := value }
  else r

/-- `vgic_gicrsgi_mem_read`; it returns 0. -/
def vgicGicrsgiMemRead (r : Gicr) (offset : Nat) : BitVec 32 :=
  if offset = 0x100 ∨ offset = 0x180 then r.virqEnabled
  else if offset = 0x200 ∨ offset = 0x280 then r.virqPending
  else if offset = 0x300 ∨ offset = 0x380 then r.virqActive
  else if offset = 0xffe8 then 0x30
  else 0

/-- `vgic_gicrsgi_mem_write`, with what it leaves in the operand; it returns 0. -/
def vgicGicrsgiMemWrite (b : GicBuild) (r : Gicr) (offset : Nat) (value : BitVec 64) :
    Gicr × BitVec 64 :=
  if offset = 0x100 then (testAndSetGicrBit b .enable (value.setWidth 32) true r, value)
  else if offset = 0x180 then (testAndSetGicrBit b .enable (value.setWidth 32) false r, value)
  else if offset = 0x200 then (testAndSetGicrBit b .pending (value.setWidth 32) true r, value)
  else if offset = 0x280 then (testAndSetGicrBit b .pending (value.setWidth 32) false r, value)
  else if offset = 0x300 then (testAndSetGicrBit b .active (value.setWidth 32) true r, value)
  else if offset = 0x380 then (testAndSetGicrBit b .active (value.setWidth 32) false r, value)
  -- the low word of the operand is cleared
  else (r, value &&& ~~~0xFFFFFFFF#64)

/-! ## Addresses -/

/-- The frames of the controller. -/
inductive GicFrame where
  | gicd
  | rd (i : Nat)
  | sgi (i : Nat)

/-- The frame of redistributor `i` that has the address, with the offset in it. -/
def Gicr.frame (r : Gicr) (addr i : Nat) : Option (GicFrame × Nat) :=
  if r.sgiBase ≤ addr ∧ addr < r.sgiBase + r.sgiSize then some (.sgi i, addr - r.sgiBase)
  else if r.rdBase ≤ addr ∧ addr < r.rdBase + r.rdSize then some (.rd i, addr - r.rdBase)
  else none

/-- `get_vcpu_gicr_type`; the address is a `uint32_t`. -/
def getVcpuGicrType (b : GicBuild) (g : Gic) (addr : Nat) : Option (GicFrame × Nat) :=
  (List.range b.rdNum).findSome? fun i => (g.gicr i).frame (addr % 2 ^ 32) i

/-- The frame of an address. -/
def frameOf (b : GicBuild) (g : Gic) (addr : Nat) : Option (GicFrame × Nat) :=
  if g.gicd.gicdBase ≤ addr ∧ addr < g.gicd.gicdBase + g.gicd.gicdSize then
    some (.gicd, addr - g.gicd.gicdBase)
  else getVcpuGicrType b g addr

/-- `vgic_vdev_mem_read`: the value and the result, which is `-EINVAL` for an address in no
frame. -/
def vgicVdevMemRead (b : GicBuild) (g : Gic) (vcpu addr : Nat) : BitVec 64 × Int :=
  match frameOf b g addr with
  | none => (0, -22)
  | some (.gicd, offset) => ((vgicGicdMemRead b g vcpu offset).setWidth 64, 0)
  | some (.rd i, offset) => (vgicGicrrdMemRead (g.gicr i) offset, 0)
  | some (.sgi i, offset) => ((vgicGicrsgiMemRead (g.gicr i) offset).setWidth 64, 0)

/-- What a write leaves: the controller, the operand and the result. -/
structure GicWritten where
  gic : Gic
  value : BitVec 64
  ret : Int

/-- `vgic_vdev_mem_write`. -/
def vgicVdevMemWrite (b : GicBuild) (g : Gic) (vcpu addr : Nat) (value : BitVec 64) : GicWritten :=
  match frameOf b g addr with
  | none => ⟨g, value, -22⟩
  | some (.gicd, offset) =>
    ⟨(vgicGicdMemWrite b g vcpu offset (value.setWidth 32)).1, value,
      (vgicGicdMemWrite b g vcpu offset (value.setWidth 32)).2⟩
  | some (.rd i, offset) =>
    ⟨{ g with gicr := set g.gicr i (vgicGicrrdMemWrite (g.gicr i) offset value) }, value, 0⟩
  | some (.sgi i, offset) =>
    ⟨{ g with gicr := set g.gicr i (vgicGicrsgiMemWrite b (g.gicr i) offset value).1 },
      (vgicGicrsgiMemWrite b (g.gicr i) offset value).2, 0⟩

end Zvm.Vgic
