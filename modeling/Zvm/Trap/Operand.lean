import Zvm.Vgic.Advertised

/-!
# The operand of a trapped instruction

A guest's load or store to a device, and its accesses to some system registers, trap.  The
handlers find the saved register that the instruction names, Rt, and emulate the access with a
pointer to it.  Rt = 31 is no register: it reads as zero, and what is loaded into it is
discarded.  `find_index_reg` has no pointer for it, and each caller does something else about
that.

A pointer is a value here, and to go through one that is NULL or was never assigned ends the
handler with `none`.
-/

namespace Zvm.Trap

abbrev Word := BitVec 64

/-! ## Saved registers and pointers to them -/

/-- A word of `callee_saved_regs`, from x19 on, or of `esf_handle_regs`, from x0 on. -/
inductive Slot where
  | callee (k : Nat)
  | esf (k : Nat)
  deriving DecidableEq

/-- Where the exit from the guest saves register `r`: lr is behind x18. -/
def savedSlot (r : Nat) : Slot :=
  if r < 19 then .esf r else if r < 30 then .callee (r - 19) else .esf 19

inductive Ptr where
  | null
  | unassigned
  | slot (k : Slot)
  | wzr
  deriving DecidableEq

/-- `find_index_reg`. -/
def findIndexReg (index : Nat) : Ptr :=
  if index = 31 then .null
  else if 18 < index ∧ index < 30 then .slot (.callee (index - 19))
  else if index = 30 then .slot (.esf 19)
  else .slot (.esf index)

/-- The part of `struct virt_timer_context` that the emulation uses. -/
structure VirtTimer where
  cntpCtl : BitVec 32
  cntpTval : BitVec 32
  cntpCval : Word
  timerOffset : Word

/-- The vCPU that has trapped, `wzr_reg`, and everything else in `env`. -/
structure Host (δ : Type) where
  regs : Slot → Word
  pc : Word
  wzrReg : Word
  timer : VirtTimer
  env : δ

variable {δ : Type}

/-- `*p`. -/
def Host.load (s : Host δ) : Ptr → Option Word
  | .null | .unassigned => none
  | .slot k => some (s.regs k)
  | .wzr => some s.wzrReg

/-- `*p = v`. -/
def Host.store (s : Host δ) (v : Word) : Ptr → Option (Host δ)
  | .null | .unassigned => none
  | .slot k => some { s with regs := Function.update s.regs k v }
  | .wzr => some { s with wzrReg := v }

/-! ## Devices, and what else the handlers call -/

/-- A function of a device's interface: address, size and the operand, and what it leaves in
the operand. -/
abbrev Handler (δ : Type) := δ → Nat → Nat → Word → δ × Word × Int

/-- `struct z_virt_dev` with the functions of its instance. -/
structure Vdev (δ : Type) where
  shareable : Bool
  hasInstance : Bool
  /-- `VM_DEVICE_PRE_KERNEL_1` in `vdevice_type` -/
  preKernel1 : Bool
  zshm : Bool
  paddr : Nat
  vaddr : Nat
  size : Nat
  virtDeviceRead : Handler δ
  virtDeviceWrite : Handler δ
  notify : δ → Nat → Word → δ × Word × Int

inductive TimerReg where
  | tval
  | ctl
  | cval
  deriving DecidableEq

/-- The functions that the handlers call, and the hardware. -/
structure Board (δ : Type) where
  vdevs : δ → List (Vdev δ)
  handleVmDeviceEmulate : δ → Nat → δ × Int
  vmMemDomainPartitionsAdd : δ → δ × Int
  vgicv3RaiseSgi2vcpu : δ → Word → δ
  /-- `CONFIG_HAS_ARM_VHE` -/
  vhe : Bool
  readEl02 : δ → TimerReg → Word
  writeEl02 : δ → TimerReg → Word → δ
  armArchTimerCount : δ → Word
  zAddTimeout : δ → Word → δ
  hostCycPerTick : Word
  /-- The addresses of the loader that are ignored on one family of boards. -/
  isRkld : Nat → Bool
  emulate_le : ∀ d addr, (handleVmDeviceEmulate d addr).2 ≤ 0

/-- What a handler leaves.  `operand` is the value it has taken from the operand, and
`emulated` the one that the access reads. -/
structure Outcome (δ : Type) where
  host : Host δ
  ret : Int
  operand : Option Word
  emulated : Option Word

/-- Nothing is done with the operand. -/
def Outcome.idle (s : Host δ) (ret : Int) : Outcome δ := ⟨s, ret, none, none⟩

/-! ## Data aborts -/

/-- `struct esr_dabt_area`. -/
structure DabtArea where
  dfsc : BitVec 6
  wnr : Bool
  srt : BitVec 5
  sas : BitVec 2
  isv : Bool
  il : Bool

def dabtArea (esr : Word) : DabtArea where
  dfsc := esr.extractLsb' 0 6
  wnr := esr.getLsbD 6
  srt := esr.extractLsb' 16 5
  sas := esr.extractLsb' 22 2
  isv := esr.getLsbD 24
  il := esr.getLsbD 25

/-- The function that `vdev_mmio_abort` finds in a device for an access. -/
inductive Call (δ : Type) where
  | handler (h : Word → δ × Word × Int)
  | notAllowed

/-- The test of one device in the loop of `vdev_mmio_abort`. -/
def Vdev.call (v : Vdev δ) (d : δ) (write : Bool) (addr size : Nat) : Option (Call δ) :=
  if v.shareable then none
  else if v.hasInstance && !v.zshm then
    if v.preKernel1 && decide (v.paddr ≤ addr) && decide (addr < v.paddr + v.size) then
      some (.handler ((if write then v.virtDeviceWrite else v.virtDeviceRead) d addr size))
    else none
  else if v.zshm then
    if v.vaddr ≤ addr ∧ addr < v.vaddr + v.size then
      some (if write then .handler (v.notify d addr) else .notAllowed)
    else none
  else none

/-- The device of an access. -/
def findCall (b : Board δ) (d : δ) (write : Bool) (addr size : Nat) : Option (Call δ) :=
  (b.vdevs d).findSome? fun v => v.call d write addr size

/-- A device's function is called with the pointer. -/
def callHandler (s : Host δ) (write : Bool) (p : Ptr) (h : Word → δ × Word × Int) :
    Option (Outcome δ) := do
  let v ← s.load p
  let s' ← Host.store { s with env := (h v).1 } (h v).2.1 p
  return ⟨s', (h v).2.2, if write then some v else none, if write then none else some (h v).2.1⟩

/-- `vdev_mmio_abort`. -/
def vdevMmioAbort (b : Board δ) (s : Host δ) (write : Bool) (addr : Nat) (p : Ptr) (size : Nat) :
    Option (Outcome δ) :=
  match findCall b s.env write addr size with
  | none => some (.idle s (-19))
  | some .notAllowed => some (.idle s (-1))
  | some (.handler h) => callHandler s write p h

/-- The value that is left for an address without a device. -/
def unhandled : Word := 0xfefefefefefefefe

/-- `handle_ftrans_desc`. -/
def handleFtransDesc (b : Board δ) (s : Host δ) (addr : Nat) (dabt : DabtArea) :
    Option (Outcome δ) :=
  let e := b.handleVmDeviceEmulate s.env addr
  if 0 < e.2 then some (.idle { s with env := e.1 } 0)
  else if e.2 < 0 then do
    let s' ← Host.store { s with env := e.1 } unhandled (findIndexReg dabt.srt.toNat)
    return ⟨s', e.2, none, some unhandled⟩
  else
    let p := b.vmMemDomainPartitionsAdd e.1
    some (.idle { s with env := p.1, pc := s.pc - if dabt.il then 4 else 2 } p.2)

/-- The size of an access. -/
def sasSize (sas : BitVec 2) : Nat := 2 ^ sas.toNat

/-- The pointer of `handle_faccess_desc`. -/
def operandPtr (srt : Nat) : Ptr := if findIndexReg srt = .null then .wzr else findIndexReg srt

/-- `handle_faccess_desc`. -/
def handleFaccessDesc (b : Board δ) (s : Host δ) (addr : Nat) (dabt : DabtArea) :
    Option (Outcome δ) :=
  if !dabt.isv then some (.idle s (if b.isRkld addr then 0 else -14))
  else do
    let o ← vdevMmioAbort b s dabt.wnr addr (operandPtr dabt.srt.toNat) (sasSize dabt.sas)
    return { o with ret := if o.ret < 0 then -19 else o.ret }

/-- `iss_dfsc`, the fault without its level. -/
def DabtArea.issDfsc (dabt : DabtArea) : BitVec 6 := dabt.dfsc &&& ~~~3

/-- `cpu_data_abort_low_sync`. -/
def cpuDataAbortLowSync (b : Board δ) (s : Host δ) (esr : Word) (addr : Nat) :
    Option (Outcome δ) :=
  if (dabtArea esr).issDfsc = 0x04 then handleFtransDesc b s addr (dabtArea esr)
  else if (dabtArea esr).issDfsc = 0x08 then handleFaccessDesc b s addr (dabtArea esr)
  else some (.idle s (-19))

/-! ## System registers -/

/-- `ESR_SYSINS`. -/
def esrSysins (op0 op1 crn crm op2 : BitVec 32) : BitVec 32 :=
  op0 <<< 20 ||| op1 <<< 14 ||| crn <<< 10 ||| crm <<< 1 ||| op2 <<< 17

inductive Emulated where
  | sgi
  | timer (r : TimerReg)
  deriving DecidableEq

/-- The cases of `cpu_system_msr_mrs_sync`. -/
def decodeSysins (name : BitVec 32) : Option Emulated :=
  if name = esrSysins 3 2 12 11 7 ∨ name = esrSysins 3 0 12 11 5 ∨ name = esrSysins 3 1 12 11 6 then
    some .sgi
  else if name = esrSysins 3 3 14 0 0 ∨ name = esrSysins 3 3 14 2 0 then some (.timer .tval)
  else if name = esrSysins 3 3 14 2 1 then some (.timer .ctl)
  else if name = esrSysins 3 3 14 2 2 then some (.timer .cval)
  else none

/-- `ESR_SYSINS_REGS_MASK`. -/
def sysinsRegsMask : BitVec 32 := 0x003ffc1e

/-- `struct esr_sysreg_area`; `dire` is set for a read. -/
structure SysregArea where
  dire : Bool
  rt : BitVec 5
  name : BitVec 32

def sysregArea (esr : Word) : SysregArea where
  dire := esr.getLsbD 0
  rt := esr.extractLsb' 5 5
  name := esr.setWidth 32 &&& sysinsRegsMask

/-- What a read of the timer register gives. -/
def timerValue (b : Board δ) (s : Host δ) : TimerReg → Word
  | .tval =>
    if b.vhe then b.readEl02 s.env .tval
    else (s.timer.cntpTval.setWidth 64 - (b.armArchTimerCount s.env - s.timer.timerOffset) -
      s.timer.timerOffset) &&& 0xffffffff
  | .cval => if b.vhe then b.readEl02 s.env .cval else s.timer.cntpCval
  | .ctl => if b.vhe then b.readEl02 s.env .ctl else s.timer.cntpCtl.setWidth 64

/-- `CNTV_CTL_ENABLE_BIT` and `CNTV_CTL_ISTAT_BIT`. -/
def ctlEnableBit : BitVec 32 := 1
def ctlIstatBit : BitVec 32 := 4

/-- The timeout that `simulate_timer_cntp_cval` and `simulate_timer_cntp_ctl` set. -/
def addPtimerTimeout (b : Board δ) (s : Host δ) : Host δ :=
  { s with
    env := b.zAddTimeout s.env ((s.timer.cntpCval + s.timer.timerOffset) / b.hostCycPerTick) }

/-- What a write of the timer register does. -/
def timerWrite (b : Board δ) (s : Host δ) (v : Word) : TimerReg → Host δ
  | .tval =>
    if b.vhe then { s with env := b.writeEl02 s.env .tval v }
    else { s with timer := { s.timer with cntpCval := b.armArchTimerCount s.env + v } }
  | .cval =>
    if b.vhe then
      { s with
        env := b.writeEl02 s.env .cval v
        timer := { s.timer with cntpCval := b.readEl02 (b.writeEl02 s.env .cval v) .cval } }
    else
      let t := { s.timer with cntpCval := v + s.timer.timerOffset }
      if t.cntpCtl &&& ctlEnableBit ≠ 0 then
        addPtimerTimeout b { s with timer := { t with cntpCtl := t.cntpCtl &&& ~~~ctlIstatBit } }
      else { s with timer := t }
  | .ctl =>
    if b.vhe then
      { s with
        env := b.writeEl02 s.env .ctl v
        timer := { s.timer with
          cntpCtl := (b.readEl02 (b.writeEl02 s.env .ctl v) .ctl).setWidth 32 } }
    else
      let reg := v.setWidth 32 &&& ~~~ctlIstatBit
      let ctl := if reg &&& ctlEnableBit ≠ 0 then reg ||| (s.timer.cntpCtl &&& ctlIstatBit) else reg
      let s := { s with timer := { s.timer with cntpCtl := ctl } }
      if ctl &&& ctlEnableBit ≠ 0 ∧ s.timer.cntpCval ≠ 0 then addPtimerTimeout b s else s

/-- `simulate_timer_cntp_tval`, `simulate_timer_cntp_cval` and `simulate_timer_cntp_ctl`; the
last one goes through the pointer before it looks at the direction. -/
def simulateTimer (b : Board δ) (s : Host δ) (r : TimerReg) (read : Bool) (p : Ptr) :
    Option (Outcome δ) :=
  if read then do
    if r = .ctl then let _ ← s.load p
    let s' ← s.store (timerValue b s r) p
    return ⟨s', 0, none, some (timerValue b s r)⟩
  else do
    let v ← s.load p
    return ⟨timerWrite b s v r, 0, some v, none⟩

/-- `cpu_system_msr_mrs_sync`: `reg_value` is assigned for a write only. -/
def cpuSystemMsrMrsSync (b : Board δ) (s : Host δ) (esr : Word) : Option (Outcome δ) :=
  let area := sysregArea esr
  let p := if area.dire then .unassigned else findIndexReg area.rt.toNat
  match decodeSysins area.name with
  | none => some (.idle s (-19))
  | some .sgi =>
    if area.dire then some (.idle s 0)
    else do
      let v ← s.load p
      return ⟨{ s with env := b.vgicv3RaiseSgi2vcpu s.env v }, 0, some v, none⟩
  | some (.timer r) => simulateTimer b s r area.dire p

/-! ## What the emulation should do -/

/-- An access that traps. -/
inductive Access where
  | dataAbort (esr : Word) (addr : Nat)
  | sysReg (esr : Word)

def handleTrap (b : Board δ) (s : Host δ) : Access → Option (Outcome δ)
  | .dataAbort esr addr => cpuDataAbortLowSync b s esr addr
  | .sysReg esr => cpuSystemMsrMrsSync b s esr

/-- The register that the instruction names. -/
def Access.rt : Access → Nat
  | .dataAbort esr _ => (dabtArea esr).srt.toNat
  | .sysReg esr => (sysregArea esr).rt.toNat

/-- The instruction reads its register. -/
def Access.isWrite : Access → Bool
  | .dataAbort esr _ => (dabtArea esr).wnr
  | .sysReg esr => !(sysregArea esr).dire

/-- The value of register `rt`; 31 is zero. -/
def source (s : Host δ) (rt : Nat) : Word := if rt = 31 then 0 else s.regs (savedSlot rt)

/-- The registers after a load of `v` into `rt`; 31 discards it. -/
def loaded (regs : Slot → Word) (rt : Nat) (v : Word) : Slot → Word :=
  if rt = 31 then regs else Function.update regs (savedSlot rt) v

/-- A write takes the value of the register and changes no register; a read changes no other
register and leaves the emulated value there. -/
structure UsesOperand (s : Host δ) (t : Access) (o : Outcome δ) : Prop where
  operand : ∀ v, o.operand = some v → v = source s t.rt
  write : t.isWrite = true → o.host.regs = s.regs
  read : t.isWrite = false → o.host.regs =
    match o.emulated with
    | none => s.regs
    | some v => loaded s.regs t.rt v

/-- The handler comes to its end without a bad pointer, and uses the operand as it should. -/
def TrapOk (b : Board δ) (s : Host δ) (t : Access) : Prop :=
  ∃ o, handleTrap b s t = some o ∧ UsesOperand s t o

/-- Rt is not 31 where the register is written, and a timer register is not read. -/
def SysRegSafe (area : SysregArea) : Prop :=
  match decodeSysins area.name with
  | none => True
  | some .sgi => area.dire = false → area.rt.toNat ≠ 31
  | some (.timer _) => area.dire = false ∧ area.rt.toNat ≠ 31

/-- An address that is not mapped is that of a device that can be given to the VM, or Rt is not
31 and either loaded or already what such a load gives. -/
def FtransSafe (b : Board δ) (s : Host δ) (addr : Nat) (dabt : DabtArea) : Prop :=
  (b.handleVmDeviceEmulate s.env addr).2 < 0 → dabt.srt.toNat ≠ 31 ∧
    (dabt.wnr = true → s.regs (savedSlot dabt.srt.toNat) = unhandled)

/-- A store to an emulated device finds zero in `wzr_reg` if Rt is 31, and the device leaves
its operand alone otherwise. -/
def FaccessSafe (b : Board δ) (s : Host δ) (addr : Nat) (dabt : DabtArea) : Prop :=
  dabt.isv = true → dabt.wnr = true → ∀ h,
    findCall b s.env true addr (sasSize dabt.sas) = some (.handler h) →
    if dabt.srt.toNat = 31 then s.wzrReg = 0
    else (h (source s dabt.srt.toNat)).2.1 = source s dabt.srt.toNat

def TrapSafe (b : Board δ) (s : Host δ) : Access → Prop
  | .sysReg esr => SysRegSafe (sysregArea esr)
  | .dataAbort esr addr =>
    if (dabtArea esr).issDfsc = 0x04 then FtransSafe b s addr (dabtArea esr)
    else if (dabtArea esr).issDfsc = 0x08 then FaccessSafe b s addr (dabtArea esr)
    else True

/-! ## The pointers -/

theorem findIndexReg_eq {r : Nat} (hr : r < 31) : findIndexReg r = .slot (savedSlot r) := by
  unfold findIndexReg savedSlot
  rcases (by omega : r < 19 ∨ (18 < r ∧ r < 30) ∨ r = 30) with hLow | hMid | hLr
  · rw [if_neg (by omega), if_neg (by omega), if_neg (by omega), if_pos hLow]
  · rw [if_neg (by omega), if_pos hMid, if_neg (by omega), if_pos hMid.2]
  · subst hLr
    rfl

theorem operandPtr_eq {r : Nat} (hr : r < 31) : operandPtr r = .slot (savedSlot r) := by
  rw [operandPtr, findIndexReg_eq hr, if_neg (by simp)]

/-- The pointer of a system register access or of an unhandled address is good exactly if Rt
is a register. -/
theorem load_findIndexReg {s : Host δ} {r : Nat} (hr : r < 32) :
    s.load (findIndexReg r) = if r = 31 then none else some (source s r) := by
  by_cases h31 : r = 31
  · subst h31
    rfl
  · rw [findIndexReg_eq (by omega), if_neg h31, source, if_neg h31]
    rfl

theorem store_findIndexReg {s : Host δ} {v : Word} {r : Nat} (hr : r < 32) :
    s.store v (findIndexReg r) =
      if r = 31 then none else some { s with regs := loaded s.regs r v } := by
  by_cases h31 : r = 31
  · subst h31
    rfl
  · rw [findIndexReg_eq (by omega), if_neg h31, loaded, if_neg h31]
    rfl

theorem loaded_eq_self_iff {regs : Slot → Word} {rt : Nat} {v : Word} (h31 : rt ≠ 31) :
    loaded regs rt v = regs ↔ regs (savedSlot rt) = v := by
  rw [loaded, if_neg h31]
  constructor
  · intro hSame
    rw [← hSame]
    exact Function.update_self _ _ _
  · rintro rfl
    exact Function.update_eq_self _ _

section Handlers

variable {b : Board δ} {s : Host δ}

theorem UsesOperand.idle {t : Access} {s' : Host δ} (ret : Int) (hRegs : s'.regs = s.regs) :
    UsesOperand s t (.idle s' ret) where
  operand := fun _ hSome => by cases hSome
  write := fun _ => hRegs
  read := fun _ => hRegs

theorem trapOk_idle {t : Access} {s' : Host δ} {ret : Int}
    (hHandle : handleTrap b s t = some (.idle s' ret)) (hRegs : s'.regs = s.regs) :
    TrapOk b s t := ⟨_, hHandle, .idle ret hRegs⟩

theorem not_trapOk_of_none {t : Access} (hHandle : handleTrap b s t = none) : ¬ TrapOk b s t := by
  rintro ⟨o, hSome, _⟩
  rw [hHandle] at hSome
  cases hSome

/-! ## System registers -/

theorem timerWrite_regs (v : Word) (r : TimerReg) : (timerWrite b s v r).regs = s.regs := by
  cases r with
  | tval =>
    simp only [timerWrite]
    split <;> rfl
  | cval =>
    simp only [timerWrite]
    split
    · rfl
    · split <;> rfl
  | ctl =>
    simp only [timerWrite]
    split
    · rfl
    · split <;> split <;> rfl

/-- A write of a system register takes its operand through the pointer. -/
theorem trapOk_sysReg_write {esr : Word} (hDire : (sysregArea esr).dire = false)
    {f : Word → Host δ}
    (hHandle : handleTrap b s (.sysReg esr) =
      (s.load (findIndexReg (sysregArea esr).rt.toNat)).bind fun v =>
        some ⟨f v, 0, some v, none⟩)
    (hRegs : ∀ v, (f v).regs = s.regs) :
    TrapOk b s (.sysReg esr) ↔ (sysregArea esr).rt.toNat ≠ 31 := by
  rw [load_findIndexReg (sysregArea esr).rt.isLt] at hHandle
  by_cases h31 : (sysregArea esr).rt.toNat = 31
  · rw [if_pos h31] at hHandle
    exact iff_of_false (not_trapOk_of_none hHandle) (by simpa using h31)
  · rw [if_neg h31] at hHandle
    refine iff_of_true ⟨_, hHandle, ?_⟩ h31
    refine ⟨?_, fun _ => hRegs _, fun hRead => ?_⟩
    · intro v hSome
      exact (Option.some.inj hSome).symm
    · simp [Access.isWrite, hDire] at hRead

theorem trapOk_sysReg_iff (esr : Word) :
    TrapOk b s (.sysReg esr) ↔ SysRegSafe (sysregArea esr) := by
  unfold SysRegSafe
  cases hName : decodeSysins (sysregArea esr).name with
  | none =>
    have hHandle : handleTrap b s (.sysReg esr) = some (.idle s (-19)) := by
      simp only [handleTrap, cpuSystemMsrMrsSync, hName]
    exact iff_of_true (trapOk_idle hHandle rfl) trivial
  | some reg =>
    cases hDire : (sysregArea esr).dire with
    | true =>
      cases reg with
      | sgi =>
        have hHandle : handleTrap b s (.sysReg esr) = some (.idle s 0) := by
          simp only [handleTrap, cpuSystemMsrMrsSync, hName, hDire, if_true]
        exact iff_of_true (trapOk_idle hHandle rfl) (by simp)
      | timer r =>
        -- the pointer was never assigned
        have hHandle : handleTrap b s (.sysReg esr) = none := by
          simp only [handleTrap, cpuSystemMsrMrsSync, hName, hDire, if_true, simulateTimer]
          cases r <;> rfl
        exact iff_of_false (not_trapOk_of_none hHandle) (by simp)
    | false =>
      cases reg with
      | sgi =>
        have hHandle : handleTrap b s (.sysReg esr) =
            (s.load (findIndexReg (sysregArea esr).rt.toNat)).bind fun v =>
              some ⟨{ s with env := b.vgicv3RaiseSgi2vcpu s.env v }, 0, some v, none⟩ := by
          simp only [handleTrap, cpuSystemMsrMrsSync, hName, hDire, Bool.false_eq_true,
            if_false]
          rfl
        simpa using trapOk_sysReg_write hDire hHandle (fun _ => rfl)
      | timer r =>
        have hHandle : handleTrap b s (.sysReg esr) =
            (s.load (findIndexReg (sysregArea esr).rt.toNat)).bind fun v =>
              some ⟨timerWrite b s v r, 0, some v, none⟩ := by
          simp only [handleTrap, cpuSystemMsrMrsSync, hName, hDire, Bool.false_eq_true,
            if_false, simulateTimer]
          rfl
        simpa using trapOk_sysReg_write hDire hHandle (fun v => timerWrite_regs v r)

/-! ## Data aborts -/

theorem trapOk_ftrans_iff {esr : Word} {addr : Nat} (hDfsc : (dabtArea esr).issDfsc = 0x04) :
    TrapOk b s (.dataAbort esr addr) ↔ FtransSafe b s addr (dabtArea esr) := by
  have hDispatch : handleTrap b s (.dataAbort esr addr) =
      handleFtransDesc b s addr (dabtArea esr) := by
    simp only [handleTrap, cpuDataAbortLowSync, hDfsc, if_true]
  have hLe := b.emulate_le s.env addr
  have hPos : ¬ 0 < (b.handleVmDeviceEmulate s.env addr).2 := by omega
  unfold FtransSafe
  by_cases hNeg : (b.handleVmDeviceEmulate s.env addr).2 < 0
  case neg =>
    -- the memory is mapped and the instruction executed again
    refine iff_of_true ?_ (fun hLt => absurd hLt hNeg)
    simp only [handleFtransDesc, if_neg hPos, if_neg hNeg] at hDispatch
    exact trapOk_idle hDispatch rfl
  case pos =>
    simp only [handleFtransDesc, if_neg hPos, if_pos hNeg,
      store_findIndexReg (dabtArea esr).srt.isLt] at hDispatch
    by_cases h31 : (dabtArea esr).srt.toNat = 31
    · rw [if_pos h31] at hDispatch
      exact iff_of_false (not_trapOk_of_none hDispatch) fun hSafe => (hSafe hNeg).1 h31
    · rw [if_neg h31] at hDispatch
      constructor
      · rintro ⟨o, hSome, hUses⟩ _
        rw [hDispatch] at hSome
        obtain rfl := Option.some.inj hSome
        exact ⟨h31, fun hWrite => (loaded_eq_self_iff h31).mp (hUses.write hWrite)⟩
      · intro hSafe
        refine ⟨_, hDispatch, ?_, ?_, fun _ => rfl⟩
        · intro v hSome
          cases hSome
        · intro hWrite
          exact (loaded_eq_self_iff h31).mpr ((hSafe hNeg).2 hWrite)

/-- What a device's function does with the pointer of `handle_faccess_desc`. -/
theorem callHandler_operandPtr {r : Nat} (hr : r < 32) (write : Bool) (h : Word → δ × Word × Int) :
    callHandler s write (operandPtr r) h =
      some (if r = 31 then
        ⟨{ s with env := (h s.wzrReg).1, wzrReg := (h s.wzrReg).2.1 }, (h s.wzrReg).2.2,
          if write then some s.wzrReg else none, if write then none else some (h s.wzrReg).2.1⟩
      else
        ⟨{ s with env := (h (source s r)).1, regs := loaded s.regs r (h (source s r)).2.1 },
          (h (source s r)).2.2, if write then some (source s r) else none,
          if write then none else some (h (source s r)).2.1⟩) := by
  by_cases h31 : r = 31
  · subst h31
    rfl
  · rw [operandPtr_eq (by omega), if_neg h31]
    simp only [source, loaded, if_neg h31]
    rfl

/-- The result of the handler does not matter for the operand. -/
theorem UsesOperand.ret_iff {t : Access} {o : Outcome δ} (ret : Int) :
    UsesOperand s t { o with ret := ret } ↔ UsesOperand s t o :=
  ⟨fun h => ⟨h.operand, h.write, h.read⟩, fun h => ⟨h.operand, h.write, h.read⟩⟩

/-- A device's function that is called for an access. -/
theorem usesOperand_handler_iff {esr : Word} {addr : Nat} {h : Word → δ × Word × Int}
    {o : Outcome δ}
    (hCall : callHandler s (dabtArea esr).wnr (operandPtr (dabtArea esr).srt.toNat) h = some o) :
    UsesOperand s (.dataAbort esr addr) o ↔
      ((dabtArea esr).wnr = true →
        if (dabtArea esr).srt.toNat = 31 then s.wzrReg = 0
        else (h (source s (dabtArea esr).srt.toNat)).2.1 = source s (dabtArea esr).srt.toNat) := by
  rw [callHandler_operandPtr (dabtArea esr).srt.isLt] at hCall
  obtain rfl := Option.some.inj hCall
  by_cases h31 : (dabtArea esr).srt.toNat = 31
  · simp only [if_pos h31]
    cases hWrite : (dabtArea esr).wnr with
    | false =>
      refine iff_of_true ⟨(fun v hSome => by cases hSome), fun hIs => ?_, fun _ => ?_⟩ (by simp)
      · simp [Access.isWrite, hWrite] at hIs
      · simp [Access.rt, loaded, h31]
    | true =>
      constructor
      · intro hUses _
        have hZero := hUses.operand s.wzrReg rfl
        simpa [Access.rt, source, h31] using hZero
      · intro hZero
        refine ⟨?_, fun _ => rfl, fun hIs => ?_⟩
        · intro v hSome
          rw [← Option.some.inj hSome, hZero rfl]
          simp [Access.rt, source, h31]
        · simp [Access.isWrite, hWrite] at hIs
  · simp only [if_neg h31]
    cases hWrite : (dabtArea esr).wnr with
    | false =>
      refine iff_of_true ⟨(fun v hSome => by cases hSome), fun hIs => ?_, fun _ => rfl⟩ (by simp)
      simp [Access.isWrite, hWrite] at hIs
    | true =>
      have hSource : source s (dabtArea esr).srt.toNat =
          s.regs (savedSlot (dabtArea esr).srt.toNat) := if_neg h31
      constructor
      · intro hUses _
        have hSame := (loaded_eq_self_iff h31).mp (hUses.write hWrite)
        exact hSame.symm.trans hSource.symm
      · intro hLeaves
        refine ⟨fun v hSome => (Option.some.inj hSome).symm, fun _ => ?_, fun hIs => ?_⟩
        · exact (loaded_eq_self_iff h31).mpr (hSource.symm.trans (hLeaves rfl).symm)
        · simp [Access.isWrite, hWrite] at hIs

theorem trapOk_faccess_iff {esr : Word} {addr : Nat} (hDfsc : (dabtArea esr).issDfsc = 0x08) :
    TrapOk b s (.dataAbort esr addr) ↔ FaccessSafe b s addr (dabtArea esr) := by
  have hDispatch : handleTrap b s (.dataAbort esr addr) =
      handleFaccessDesc b s addr (dabtArea esr) := by
    simp only [handleTrap, cpuDataAbortLowSync, hDfsc]
    rfl
  unfold FaccessSafe
  cases hIsv : (dabtArea esr).isv with
  | false =>
    refine iff_of_true ?_ (by simp)
    simp only [handleFaccessDesc, hIsv, Bool.not_false, if_true] at hDispatch
    exact trapOk_idle hDispatch rfl
  | true =>
    simp only [handleFaccessDesc, hIsv, Bool.not_true, Bool.false_eq_true, if_false,
      vdevMmioAbort] at hDispatch
    cases hCall : findCall b s.env (dabtArea esr).wnr addr (sasSize (dabtArea esr).sas) with
    | none =>
      rw [hCall] at hDispatch
      refine iff_of_true (trapOk_idle hDispatch rfl) ?_
      intro _ hWrite h hSome
      rw [hWrite, hSome] at hCall
      cases hCall
    | some call =>
      rw [hCall] at hDispatch
      cases call with
      | notAllowed =>
        refine iff_of_true (trapOk_idle hDispatch rfl) ?_
        intro _ hWrite h hSome
        rw [hWrite, hSome] at hCall
        cases hCall
      | handler h =>
        obtain ⟨o, hOut⟩ : ∃ o, callHandler s (dabtArea esr).wnr
            (operandPtr (dabtArea esr).srt.toNat) h = some o :=
          ⟨_, callHandler_operandPtr (dabtArea esr).srt.isLt _ h⟩
        have hRule := @usesOperand_handler_iff _ s esr addr _ _ hOut
        simp only [hOut] at hDispatch
        constructor
        · rintro ⟨o', hSome, hUses⟩ _ hWrite h' hFound
          rw [hDispatch] at hSome
          obtain rfl := Option.some.inj hSome
          rw [hWrite, hFound] at hCall
          obtain rfl : h' = h := by simpa using hCall
          exact hRule.mp ((UsesOperand.ret_iff _).mp hUses) hWrite
        · intro hSafe
          refine ⟨_, hDispatch, (UsesOperand.ret_iff _).mpr (hRule.mpr ?_)⟩
          intro hWrite
          rw [hWrite] at hCall
          exact hSafe rfl hWrite h hCall

end Handlers

/-- A board with the devices; no physical device is left for the VM. -/
def sampleBoard (vdevs : List (Vdev δ)) : Board δ where
  vdevs := fun _ => vdevs
  handleVmDeviceEmulate := fun d _ => (d, -19)
  vmMemDomainPartitionsAdd := fun d => (d, 0)
  vgicv3RaiseSgi2vcpu := fun d _ => d
  vhe := true
  readEl02 := fun _ _ => 0
  writeEl02 := fun d _ _ => d
  armArchTimerCount := fun _ => 0
  zAddTimeout := fun d _ => d
  hostCycPerTick := 1
  isRkld := fun _ => false
  emulate_le := fun _ _ => (by decide : (-19 : Int) ≤ 0)

/-- A device with one register. -/
def registerVdev : Vdev Word where
  shareable := false
  hasInstance := true
  preKernel1 := true
  zshm := false
  paddr := 0x9000000
  vaddr := 0x9000000
  size := 0x1000
  virtDeviceRead := fun d _ _ _ => (d, d, 0)
  virtDeviceWrite := fun _ _ _ v => (v, v, 0)
  notify := fun d _ v => (d, v, 0)

/-- The interrupt controller as a device of a vCPU. -/
def vgicVdev (g : Vgic.GicBuild) (vcpu : Nat) : Vdev Vgic.Gic where
  shareable := false
  hasInstance := true
  preKernel1 := true
  zshm := false
  paddr := g.gicdBase
  vaddr := g.gicdBase
  size := g.gicrBase + g.gicrSize - g.gicdBase
  virtDeviceRead := fun d addr _ _ =>
    let r := Vgic.vgicVdevMemRead g d vcpu addr
    (d, r.1, r.2)
  virtDeviceWrite := fun d addr _ v =>
    let r := Vgic.vgicVdevMemWrite g d vcpu addr v
    (r.gic, r.value, r.ret)
  notify := fun d _ v => (d, v, 0)

/-- A vCPU whose registers all have the value. -/
def sampleHost (v : Word) (d : δ) : Host δ where
  regs := fun _ => v
  pc := 0
  wzrReg := 0
  timer := ⟨0, 0, 0, 0⟩
  env := d

/-- The syndrome of a data abort of a 32-bit access. -/
def dabtEsr (dfsc : Word) (write : Bool) (rt : Word) : Word :=
  dfsc ||| (if write then 1 <<< 6 else 0) ||| rt <<< 16 ||| 2 <<< 22 ||| 1 <<< 24

end Zvm.Trap
