import Zvm.Vcpu.Registers
import Zvm.Verified.Run

/-!
# Switching vCPUs

Physical CPUs run host threads and vCPU threads; a vCPU thread enters the guest and
leaves it, and the host switches threads while no guest runs on the CPU.  For each
vCPU the model remembers what its guest left behind (`left`), which changes only when
the guest leaves again, and when an instruction is emulated or an interrupt is
collected or injected for it.

A guest finds at its next entry what it left, as long as no step changes a register
that no switch carries: `MDSCR_EL1` and `DISR_EL1`, which are in the enumeration but
saved nowhere, the active-priority registers beyond those the `switch` statements
have cases for, and all list registers where the hardware has more than eight.
-/

namespace Zvm.Vcpu

open Zvm.Verified.Run

/-- A vCPU: its VM and its number there. -/
structure VcpuRef where
  vm : Nat
  vcpuId : Nat
  deriving DecidableEq

/-- The registers a guest sees. -/
structure GuestView where
  x : Nat → Word
  spEl0 : Word
  pc : Word
  pstate : Word
  sys : SysReg → Word
  cntvCtl : Word
  cntvCval : Word
  lr : Nat → Word
  ap0r : Nat → Word
  ap1r : Nat → Word

/-- What a guest sees when it starts to run with these registers. -/
def viewOf (h : HwRegs) : GuestView where
  x := h.x
  spEl0 := h.spEl0
  pc := h.elrEl2
  pstate := h.spsrEl2
  sys := h.sys
  cntvCtl := h.cntvCtl
  cntvCval := h.cntvCval
  lr := h.lr
  ap0r := h.ap0r
  ap1r := h.ap1r

/-- The listed registers a guest can write without a trap: all but the identification
registers, which it reads from EL2 registers. -/
def guestWritable (r : SysReg) : Bool :=
  match r with
  | .midrEl1 | .mpidrEl1 | .vpidr => false
  | _ => true

/-- The number of active-priority registers of each group. -/
def apNum (prioNum : Nat) : Nat := if prioNum = 7 then 4 else prioNum - 4

/-- The two views agree on every register of the hardware that a guest can write. -/
structure SameView (g : GicConfig) (a b : GuestView) : Prop where
  x : ∀ i, a.x i = b.x i
  spEl0 : a.spEl0 = b.spEl0
  pc : a.pc = b.pc
  pstate : a.pstate = b.pstate
  sys : ∀ r, guestWritable r = true → a.sys r = b.sys r
  cntvCtl : a.cntvCtl = b.cntvCtl
  cntvCval : a.cntvCval = b.cntvCval
  lr : ∀ i < g.lrNum, a.lr i = b.lr i
  ap0r : ∀ i < apNum g.prioNum, a.ap0r i = b.ap0r i
  ap1r : ∀ i < apNum g.prioNum, a.ap1r i = b.ap1r i

/-- Physical CPUs, VMs and vCPUs.  `current` is the vCPU of a CPU's current thread and
`runningOn` the scheduler's record of where a vCPU's thread is current. -/
structure Machine where
  hw : Nat → HwRegs
  vm : Nat → VmArch
  vcpu : VcpuRef → VcpuArch
  current : Nat → Option VcpuRef
  runningOn : VcpuRef → Option Nat
  inGuest : Nat → Bool
  left : VcpuRef → GuestView

/-- What happens on a physical CPU `p`. -/
inductive Op where
  | enter (p : Nat)
  | guest (p : Nat) (w : GuestView)
  | exit (p : Nat)
  | host (p : Nat) (w : GuestView)
  | emulate (p : Nat) (x : Nat → Word) (pc pstate : Word)
  | inject (p : Nat) (writes : List (Nat × Word))
  | timerIrq (p : Nat) (ctl : Word)
  | swap (p : Nat) (new : Option VcpuRef) (firstOffset : Word)
      (collected injected : List (Nat × Word))

/-- A guest may write everything it sees. -/
def guestWrites (g : GicConfig) (h : HwRegs) (w : GuestView) : HwRegs :=
  { h with
    x := w.x
    spEl0 := w.spEl0
    elrEl2 := w.pc
    spsrEl2 := w.pstate
    sys := fun r => if guestWritable r then w.sys r else h.sys r
    cntvCtl := w.cntvCtl
    cntvCval := w.cntvCval
    lr := copyFirst g.lrNum w.lr h.lr
    ap0r := copyFirst (apNum g.prioNum) w.ap0r h.ap0r
    ap1r := copyFirst (apNum g.prioNum) w.ap1r h.ap1r }

/-- The registers that host code uses for itself. -/
def hostRegs : List SysReg := [.tpidrroEl0, .mdscrEl1, .spEl1]

/-- Host code may write its own registers. -/
def hostWrites (h : HwRegs) (w : GuestView) : HwRegs :=
  { h with
    x := w.x
    spEl0 := w.spEl0
    elrEl2 := w.pc
    spsrEl2 := w.pstate
    sys := copyRegs hostRegs w.sys h.sys }

/-- New registers and records for `v`, current on `p`. -/
def Machine.put (s : Machine) (p : Nat) (v : VcpuRef) (h : HwRegs) (a : VcpuArch) (guest : Bool)
    (l : GuestView) : Machine :=
  { s with
    hw := Function.update s.hw p h
    vcpu := Function.update s.vcpu v a
    inGuest := Function.update s.inGuest p guest
    left := Function.update s.left v l }

/-- The view with the writes of interrupt collection or injection. -/
def GuestView.withLrs (l : GuestView) (writes : List (Nat × Word)) : GuestView :=
  { l with lr := writeLrs writes l.lr }

/-- The first half of `vcpu_context_switch`: save the old thread's vCPU. -/
def switchOut (g : GicConfig) (s : Machine) (p : Nat) (collected : List (Nat × Word)) : Machine :=
  match s.current p with
  | none => s
  | some v =>
    let (a, h) := archVcpuContextSave g (s.vcpu v) (s.hw p) collected
    { s.put p v h a false ((s.left v).withLrs collected) with
      current := Function.update s.current p none
      runningOn := Function.update s.runningOn v none }

/-- The second half: load the new thread's vCPU. -/
def switchIn (g : GicConfig) (s : Machine) (p : Nat) (new : Option VcpuRef) (firstOffset : Word)
    (injected : List (Nat × Word)) : Machine :=
  match new with
  | none => s
  | some v =>
    let (a, h) := archVcpuContextLoad g (s.vcpu v) (s.hw p) firstOffset injected
    { s.put p v h a false ((s.left v).withLrs injected) with
      current := Function.update s.current p (some v)
      runningOn := Function.update s.runningOn v (some p) }

/-- Entry of the guest of `v` on `p`: `switch_to_guest_sysreg` and `guest_vm_entry`. -/
def enterGuest (s : Machine) (p : Nat) (v : VcpuRef) : Machine :=
  let (a, h) := switchToGuestSysreg (s.vm v.vm) (s.vcpu v) (s.hw p)
  let (a, h) := guestVmEntry a h
  s.put p v h a true (s.left v)

/-- Exit: `guest_vm_exit_sync` or `guest_vm_exit_irq`, and `switch_to_host_sysreg`. -/
def exitGuest (s : Machine) (p : Nat) (v : VcpuRef) : Machine :=
  let (a, h) := guestVmExit (s.vcpu v) (s.hw p)
  let (vm, a, h) := switchToHostSysreg (s.vm v.vm) a h
  { s.put p v h a false (viewOf (s.hw p)) with vm := Function.update s.vm v.vm vm }

/-- An exit handler changes general registers, the program counter and the state. -/
def emulateInstr (s : Machine) (p : Nat) (v : VcpuRef) (x : Nat → Word) (pc pstate : Word) :
    Machine :=
  let a := s.vcpu v
  let regs := { a.ctxt.regs with x := x, pc := pc, pstate := pstate }
  s.put p v (s.hw p) { a with ctxt := { a.ctxt with regs := regs } } false
    { s.left v with x := x, pc := pc, pstate := pstate }

/-- The interrupt of the virtual timer writes its control register and keeps the value. -/
def timerInterrupt (s : Machine) (p : Nat) (v : VcpuRef) (ctl : Word) : Machine :=
  let a := s.vcpu v
  s.put p v { s.hw p with cntvCtl := ctl } { a with vtimer := { a.vtimer with cntvCtl := ctl } }
    false { s.left v with cntvCtl := ctl }

/-- Interrupts are collected and injected for the current vCPU. -/
def injectLrs (s : Machine) (p : Nat) (v : VcpuRef) (writes : List (Nat × Word)) : Machine :=
  s.put p v { s.hw p with lr := writeLrs writes (s.hw p).lr } (s.vcpu v) false
    ((s.left v).withLrs writes)

/-- What is done for the vCPU of a CPU that is in host mode. -/
def inHost (s : Machine) (p : Nat) (f : VcpuRef → Machine) : Machine :=
  match s.current p, s.inGuest p with
  | some v, false => f v
  | _, _ => s

/-- An operation that is not possible does nothing: threads switch in host mode only,
and a thread is current on one CPU at most. -/
def step (g : GicConfig) (s : Machine) : Op → Machine
  | .enter p => inHost s p (enterGuest s p)
  | .guest p w =>
    if s.inGuest p then { s with hw := Function.update s.hw p (guestWrites g (s.hw p) w) } else s
  | .exit p =>
    match s.current p, s.inGuest p with
    | some v, true => exitGuest s p v
    | _, _ => s
  | .host p w =>
    if s.inGuest p then s else { s with hw := Function.update s.hw p (hostWrites (s.hw p) w) }
  | .emulate p x pc pstate => inHost s p fun v => emulateInstr s p v x pc pstate
  | .inject p writes => inHost s p fun v => injectLrs s p v writes
  | .timerIrq p ctl => inHost s p fun v => timerInterrupt s p v ctl
  | .swap p new firstOffset collected injected =>
    if !s.inGuest p && new.all (fun v => (s.runningOn v).isNone) then
      switchIn g (switchOut g s p collected) p new firstOffset injected
    else s

/-! ## Registers that no switch carries -/

/-- The two views agree on the registers that no switch saves or loads. -/
structure SameUnswitched (g : GicConfig) (a b : GuestView) : Prop where
  mdscr : a.sys .mdscrEl1 = b.sys .mdscrEl1
  disr : a.sys .disrEl1 = b.sys .disrEl1
  lr : ∀ i, lrCases g.lrNum ≤ i → i < g.lrNum → a.lr i = b.lr i
  ap0r : ∀ i, prioCases g.prioNum ≤ i → i < apNum g.prioNum → a.ap0r i = b.ap0r i
  ap1r : ∀ i, prioCases g.prioNum ≤ i → i < apNum g.prioNum → a.ap1r i = b.ap1r i

/-- The list registers are switched, or there is nothing to write to them. -/
def LrsSwitched (g : GicConfig) (writes : List (Nat × Word)) : Prop :=
  g.lrNum ≤ 8 ∨ writes = []

/-- The operation leaves the registers alone that no switch carries. -/
def LeavesUnswitched (g : GicConfig) (s : Machine) : Op → Prop
  | .guest p w => SameUnswitched g w (viewOf (s.hw p))
  | .host p w => w.sys .mdscrEl1 = (s.hw p).sys .mdscrEl1
  | .inject _ writes => LrsSwitched g writes
  | .swap _ _ _ collected injected => LrsSwitched g collected ∧ LrsSwitched g injected
  | _ => True

/-- What a vCPU's records say its guest will see; `u` has the registers nobody saves. -/
def savedView (g : GicConfig) (a : VcpuArch) (u : GuestView) : GuestView where
  x := a.ctxt.regs.x
  spEl0 := a.ctxt.regs.spEl0
  pc := a.ctxt.regs.pc
  pstate := a.ctxt.regs.pstate
  sys := fun r =>
    match r with
    | .spEl1 => a.ctxt.regs.spElx
    | .mdscrEl1 => u.sys .mdscrEl1
    | .disrEl1 => u.sys .disrEl1
    | r => a.ctxt.sysRegs r
  cntvCtl := a.vtimer.cntvCtl
  cntvCval := a.vtimer.cntvCval
  lr := copyFirst (lrCases g.lrNum) a.virqData.lr u.lr
  ap0r := copyFirst (prioCases g.prioNum) a.virqData.ap0r u.ap0r
  ap1r := copyFirst (prioCases g.prioNum) a.virqData.ap1r u.ap1r

/-- The same for a vCPU that is current but not in its guest: part of it is in the
hardware. -/
def residentView (a : VcpuArch) (h : HwRegs) : GuestView where
  x := a.ctxt.regs.x
  spEl0 := a.ctxt.regs.spEl0
  pc := a.ctxt.regs.pc
  pstate := a.ctxt.regs.pstate
  sys := fun r =>
    match r with
    | .spEl1 => a.ctxt.regs.spElx
    | .tpidrroEl0 => a.ctxt.sysRegs .tpidrroEl0
    | r => h.sys r
  cntvCtl := h.cntvCtl
  cntvCval := h.cntvCval
  lr := h.lr
  ap0r := h.ap0r
  ap1r := h.ap1r

/-- A current vCPU outside its guest; `TPIDR_EL1` is in both places. -/
structure Resident (g : GicConfig) (a : VcpuArch) (h : HwRegs) (l : GuestView) : Prop where
  same : SameView g (residentView a h) l
  tpidr : a.ctxt.sysRegs .tpidrEl1 = h.sys .tpidrEl1

variable {n i : Nat} {g : GicConfig} {writes collected : List (Nat × Word)}

theorem copyFirst_of_lt (src dst : Nat → Word) (hLt : i < n) : copyFirst n src dst i = src i := by
  simp [copyFirst, hLt]

theorem copyFirst_of_le (src dst : Nat → Word) (hLe : n ≤ i) : copyFirst n src dst i = dst i := by
  simp [copyFirst, Nat.not_lt.mpr hLe]

/-- Copying the first `n` registers over others that agree from `n` on. -/
theorem copyFirst_eq {m : Nat} {src dst : Nat → Word} (hRest : ∀ i, n ≤ i → i < m → src i = dst i)
    (hi : i < m) : copyFirst n src dst i = src i := by
  rcases Nat.lt_or_ge i n with hLt | hGe
  · exact copyFirst_of_lt src dst hLt
  · rw [copyFirst_of_le src dst hGe, hRest i hGe hi]

theorem copyFirst_copyFirst (n : Nat) (src old dst : Nat → Word) :
    copyFirst n (copyFirst n src old) dst = copyFirst n src dst := by
  funext i
  by_cases hi : i < n <;> simp [copyFirst, hi]

theorem copyFirst_congr {m : Nat} {src dst dst' : Nat → Word}
    (hRest : ∀ i, n ≤ i → i < m → dst i = dst' i) (hi : i < m) :
    copyFirst n src dst i = copyFirst n src dst' i := by
  rcases Nat.lt_or_ge i n with hLt | hGe
  · rw [copyFirst_of_lt src dst hLt, copyFirst_of_lt src dst' hLt]
  · rw [copyFirst_of_le src dst hGe, copyFirst_of_le src dst' hGe, hRest i hGe hi]

/-- Register `i` after the writes depends on register `i` before them only. -/
theorem writeLrs_congr (writes : List (Nat × Word)) :
    ∀ {lr lr' : Nat → Word}, lr i = lr' i → writeLrs writes lr i = writeLrs writes lr' i := by
  induction writes with
  | nil =>
    intro lr lr' h
    exact h
  | cons w writes ih =>
    intro lr lr' h
    simp only [writeLrs, List.foldl_cons]
    apply ih
    simp only [h]

theorem lrCases_of_le (h : n ≤ 8) : lrCases n = n := if_pos h

/-- Writes that are switched leave the other list registers alone. -/
theorem LrsSwitched.unswitched (h : LrsSwitched g writes) (lr : Nat → Word)
    (hLe : lrCases g.lrNum ≤ i) (hi : i < g.lrNum) : writeLrs writes lr i = lr i := by
  rcases h with hFew | hNone
  · rw [lrCases_of_le hFew] at hLe
    omega
  · rw [hNone]
    rfl

section Registers

variable {g : GicConfig} {a : VcpuArch} {h : HwRegs} {l u : GuestView}

/-- Entry puts the whole view into the hardware. -/
theorem Resident.enter (hRes : Resident g a h l) (vm : VmArch) :
    SameView g (viewOf (guestVmEntry (switchToGuestSysreg vm a h).1
      (switchToGuestSysreg vm a h).2).2) l := by
  have hSame := hRes.same
  refine { hSame with sys := ?_ }
  intro r hr
  rw [← hSame.sys r hr]
  have hTpidr := hRes.tpidr
  cases r <;>
    first
    | rfl
    | exact hTpidr
    | simp [guestWritable] at hr

/-- Exit takes the view the guest had. -/
theorem resident_exit (vm : VmArch) (hSteady : SameUnswitched g (viewOf h) u)
    (hHost : a.hostCtxt.sysRegs .mdscrEl1 = u.sys .mdscrEl1) :
    Resident g (switchToHostSysreg vm (guestVmExit a h).1 (guestVmExit a h).2).2.1
      (switchToHostSysreg vm (guestVmExit a h).1 (guestVmExit a h).2).2.2 (viewOf h) := by
  have hMdscr : a.hostCtxt.sysRegs .mdscrEl1 = h.sys .mdscrEl1 := hHost.trans hSteady.mdscr.symm
  refine ⟨⟨fun _ => rfl, rfl, rfl, rfl, ?_, rfl, rfl, fun _ _ => rfl, fun _ _ => rfl,
    fun _ _ => rfl⟩, rfl⟩
  intro r _
  cases r <;>
    first
    | rfl
    | exact hMdscr

/-- A thread switch saves what is in the hardware. -/
theorem Resident.save (hRes : Resident g a h l) (hSteady : SameUnswitched g (viewOf h) u)
    (hLrs : LrsSwitched g collected) :
    SameView g (savedView g (archVcpuContextSave g a h collected).1 u)
      (l.withLrs collected) := by
  have hSame := hRes.same
  refine { hSame with sys := ?_, lr := ?_, ap0r := ?_, ap1r := ?_ }
  · intro r hr
    have hView : _ = l.sys r := hSame.sys r hr
    refine Eq.trans ?_ hView
    cases r <;>
      first
      | rfl
      | exact hSteady.mdscr.symm
      | exact hSteady.disr.symm
      | simp [guestWritable] at hr
  · intro i hi
    have hRest : ∀ j, lrCases g.lrNum ≤ j → j < g.lrNum → writeLrs collected h.lr j = u.lr j := by
      intro j hLe hj
      rw [hLrs.unswitched h.lr hLe hj]
      exact hSteady.lr j hLe hj
    calc (savedView g (archVcpuContextSave g a h collected).1 u).lr i
        = copyFirst (lrCases g.lrNum) (writeLrs collected h.lr) u.lr i :=
          congrFun (copyFirst_copyFirst _ _ _ _) i
      _ = writeLrs collected h.lr i := copyFirst_eq hRest hi
      _ = writeLrs collected l.lr i := writeLrs_congr collected (hSame.lr i hi)
  · intro i hi
    refine (congrFun (copyFirst_copyFirst _ _ _ _) i).trans ?_
    exact (copyFirst_eq hSteady.ap0r hi).trans (hSame.ap0r i hi)
  · intro i hi
    refine (congrFun (copyFirst_copyFirst _ _ _ _) i).trans ?_
    exact (copyFirst_eq hSteady.ap1r hi).trans (hSame.ap1r i hi)

/-- A thread switch loads what was saved. -/
theorem resident_load (hSaved : SameView g (savedView g a u) l)
    (hSteady : SameUnswitched g (viewOf h) u) (firstOffset : Word) (injected : List (Nat × Word)) :
    Resident g (archVcpuContextLoad g a h firstOffset injected).1
      (archVcpuContextLoad g a h firstOffset injected).2 (l.withLrs injected) := by
  refine ⟨{ hSaved with sys := ?_, lr := ?_, ap0r := ?_, ap1r := ?_ }, rfl⟩
  · intro r hr
    refine Eq.trans ?_ (hSaved.sys r hr)
    cases r <;>
      first
      | rfl
      | exact hSteady.mdscr
      | exact hSteady.disr
      | simp [guestWritable] at hr
  · intro i hi
    apply writeLrs_congr
    exact (copyFirst_congr hSteady.lr hi).trans (hSaved.lr i hi)
  · intro i hi
    exact (copyFirst_congr hSteady.ap0r hi).trans (hSaved.ap0r i hi)
  · intro i hi
    exact (copyFirst_congr hSteady.ap1r hi).trans (hSaved.ap1r i hi)

/-- After the guest's writes the registers that no switch carries are as before, if it
does not write them. -/
theorem steady_guestWrites {w : GuestView} (hSteady : SameUnswitched g (viewOf h) u)
    (hKeep : SameUnswitched g w (viewOf h)) : SameUnswitched g (viewOf (guestWrites g h w)) u := by
  refine ⟨hKeep.mdscr.trans hSteady.mdscr, hKeep.disr.trans hSteady.disr, ?_, ?_, ?_⟩
  · intro i hLe hi
    exact (copyFirst_of_lt _ _ hi).trans ((hKeep.lr i hLe hi).trans (hSteady.lr i hLe hi))
  · intro i hLe hi
    exact (copyFirst_of_lt _ _ hi).trans ((hKeep.ap0r i hLe hi).trans (hSteady.ap0r i hLe hi))
  · intro i hLe hi
    exact (copyFirst_of_lt _ _ hi).trans ((hKeep.ap1r i hLe hi).trans (hSteady.ap1r i hLe hi))

/-- Injected and collected interrupts do not reach them either. -/
theorem steady_writeLrs (hSteady : SameUnswitched g (viewOf h) u) (hLrs : LrsSwitched g writes) :
    SameUnswitched g (viewOf { h with lr := writeLrs writes h.lr }) u where
  mdscr := hSteady.mdscr
  disr := hSteady.disr
  lr := fun i hLe hi => (hLrs.unswitched h.lr hLe hi).trans (hSteady.lr i hLe hi)
  ap0r := hSteady.ap0r
  ap1r := hSteady.ap1r

/-- A load does not touch them. -/
theorem steady_load {injected : List (Nat × Word)} (hSteady : SameUnswitched g (viewOf h) u)
    (hLrs : LrsSwitched g injected) (firstOffset : Word) :
    SameUnswitched g (viewOf (archVcpuContextLoad g a h firstOffset injected).2) u where
  mdscr := hSteady.mdscr
  disr := hSteady.disr
  lr := fun i hLe hi =>
    (hLrs.unswitched _ hLe hi).trans ((copyFirst_of_le _ _ hLe).trans (hSteady.lr i hLe hi))
  ap0r := fun i hLe hi => (copyFirst_of_le _ _ hLe).trans (hSteady.ap0r i hLe hi)
  ap1r := fun i hLe hi => (copyFirst_of_le _ _ hLe).trans (hSteady.ap1r i hLe hi)

/-- What the host does to its own registers does not reach a vCPU outside its guest. -/
theorem Resident.hostWrites (hRes : Resident g a h l) {w : GuestView}
    (hKeep : w.sys .mdscrEl1 = h.sys .mdscrEl1) : Resident g a (hostWrites h w) l := by
  have hSame := hRes.same
  refine ⟨{ hSame with sys := ?_ }, hRes.tpidr⟩
  intro r hr
  refine Eq.trans ?_ (hSame.sys r hr)
  cases r <;>
    first
    | rfl
    | exact hKeep

end Registers

/-! ## What every run keeps -/

/-- Every vCPU's view is in its records, in the hardware of the CPU it is current on, or
being used by its guest; the registers that no switch carries are the same everywhere. -/
structure Consistent (g : GicConfig) (u : GuestView) (s : Machine) : Prop where
  running : ∀ p v, s.current p = some v ↔ s.runningOn v = some p
  guest : ∀ p, s.inGuest p = true → s.current p ≠ none
  steady : ∀ p, SameUnswitched g (viewOf (s.hw p)) u
  saved : ∀ v, s.runningOn v = none → SameView g (savedView g (s.vcpu v) u) (s.left v)
  resident : ∀ p v, s.current p = some v → s.inGuest p = false →
    Resident g (s.vcpu v) (s.hw p) (s.left v)
  host : ∀ p v, s.current p = some v → s.inGuest p = true →
    (s.vcpu v).hostCtxt.sysRegs .mdscrEl1 = u.sys .mdscrEl1

section Steps

variable {g : GicConfig} {u : GuestView} {s : Machine} {p : Nat} {v : VcpuRef}

section

variable (hCons : Consistent g u s)
include hCons

/-- `v` becomes current on `p`, or stops being so.  No other vCPU is on `p` and `v` is on no other
CPU, so that only they change. -/
theorem Consistent.assign (on guest : Bool) {h : HwRegs} {a : VcpuArch} {l : GuestView}
    (hHere : ∀ q w, s.current q = some w → (q = p ↔ w = v)) (hGuest : guest = true → on = true)
    (hSteady : SameUnswitched g (viewOf h) u)
    (hSaved : on = false → SameView g (savedView g a u) l)
    (hRes : on = true → guest = false → Resident g a h l)
    (hHost : guest = true → a.hostCtxt.sysRegs .mdscrEl1 = u.sys .mdscrEl1) :
    Consistent g u { s.put p v h a guest l with
      current := Function.update s.current p (if on then some v else none)
      runningOn := Function.update s.runningOn v (if on then some p else none) } := by
  have hOther : ∀ {q w}, q ≠ p → Function.update s.current p (if on then some v else none) q =
      some w → s.current q = some w ∧ w ≠ v := by
    intro q w hq hw
    rw [Function.update_of_ne hq] at hw
    exact ⟨hw, fun hEq => hq ((hHere q w hw).mpr hEq)⟩
  refine ⟨fun q w => ?_, fun q hq => ?_, fun q => ?_, fun w hw => ?_, fun q w hq hMode => ?_,
    fun q w hq hMode => ?_⟩
  · have hOld := hHere q w
    have hIff := hCons.running q w
    by_cases hq : q = p <;> by_cases hw : w = v <;> cases on <;> simp_all [eq_comm]
  · by_cases hEq : q = p
    · subst hEq
      simp [hGuest (by simpa [Machine.put] using hq)]
    · simpa [hEq] using hCons.guest q (by simpa [Machine.put, hEq] using hq)
  · by_cases hEq : q = p
    · simpa [Machine.put, hEq] using hSteady
    · simpa [Machine.put, hEq] using hCons.steady q
  · by_cases hEq : w = v
    · subst hEq
      simpa [Machine.put] using hSaved (by simpa using hw)
    · simpa [Machine.put, hEq] using hCons.saved w (by simpa [hEq] using hw)
  · by_cases hEq : q = p
    · subst hEq
      obtain ⟨hOn, rfl⟩ : on = true ∧ v = w := by simpa using hq
      simpa [Machine.put] using hRes hOn (by simpa [Machine.put] using hMode)
    · obtain ⟨hqw, hw⟩ := hOther hEq hq
      simpa [Machine.put, hEq, hw] using
        hCons.resident q w hqw (by simpa [Machine.put, hEq] using hMode)
  · by_cases hEq : q = p
    · subst hEq
      obtain ⟨-, rfl⟩ : on = true ∧ v = w := by simpa using hq
      simpa [Machine.put] using hHost (by simpa [Machine.put] using hMode)
    · obtain ⟨hqw, hw⟩ := hOther hEq hq
      simpa [Machine.put, hw] using hCons.host q w hqw (by simpa [Machine.put, hEq] using hMode)

/-- A vCPU that is current on `p` is on no other CPU. -/
theorem Consistent.here (hCur : s.current p = some v) (q : Nat) (w : VcpuRef)
    (hq : s.current q = some w) : q = p ↔ w = v := by
  constructor
  · rintro rfl
    exact Option.some.inj (hq.symm.trans hCur)
  · rintro rfl
    exact Option.some.inj (((hCons.running q w).mp hq).symm.trans ((hCons.running p w).mp hCur))

/-- Work on a current vCPU is a matter of this vCPU and its CPU. -/
theorem Consistent.put (hCur : s.current p = some v) {h : HwRegs} {a : VcpuArch} {guest : Bool}
    {l : GuestView} (hSteady : SameUnswitched g (viewOf h) u)
    (hRes : guest = false → Resident g a h l)
    (hHost : guest = true → a.hostCtxt.sysRegs .mdscrEl1 = u.sys .mdscrEl1) :
    Consistent g u (s.put p v h a guest l) := by
  have hPut := hCons.assign true guest (hCons.here hCur) (fun _ => rfl) hSteady (by simp)
    (fun _ => hRes) hHost
  rwa [if_pos rfl, if_pos rfl, ← hCur, ← (hCons.running p v).mp hCur, Function.update_eq_self,
    Function.update_eq_self] at hPut

/-- Code that runs on `p` and writes registers only. -/
theorem Consistent.setHw {h : HwRegs} (hSteady : SameUnswitched g (viewOf h) u)
    (hRes : ∀ v, s.current p = some v → s.inGuest p = false → Resident g (s.vcpu v) h (s.left v)) :
    Consistent g u { s with hw := Function.update s.hw p h } where
  running := hCons.running
  guest := hCons.guest
  steady := by
    intro q
    by_cases hEq : q = p
    · simpa [hEq] using hSteady
    · simpa [hEq] using hCons.steady q
  saved := hCons.saved
  resident := by
    intro q w hq hMode
    by_cases hEq : q = p
    · subst hEq
      simpa using hRes w hq hMode
    · simpa [hEq] using hCons.resident q w hq hMode
  host := hCons.host

theorem Consistent.setVm (vm : Nat → VmArch) : Consistent g u { s with vm := vm } :=
  ⟨hCons.running, hCons.guest, hCons.steady, hCons.saved, hCons.resident, hCons.host⟩

theorem Consistent.enterGuest (hCur : s.current p = some v) :
    Consistent g u (enterGuest s p v) := by
  have hSteady := hCons.steady p
  apply hCons.put hCur
  · exact { hSteady with }
  · intro hFalse
    cases hFalse
  · intro _
    exact hSteady.mdscr

theorem Consistent.exitGuest (hCur : s.current p = some v) (hIn : s.inGuest p = true) :
    Consistent g u (exitGuest s p v) := by
  have hSteady := hCons.steady p
  have hHost := hCons.host p v hCur hIn
  refine Consistent.setVm (hCons.put hCur ?_ ?_ ?_) _
  · exact { hSteady with mdscr := hHost }
  · intro _
    exact resident_exit (s.vm v.vm) hSteady hHost
  · intro hTrue
    cases hTrue

theorem Consistent.emulateInstr (hCur : s.current p = some v) (hOut : s.inGuest p = false)
    (x : Nat → Word) (pc pstate : Word) : Consistent g u (emulateInstr s p v x pc pstate) := by
  have hRes := hCons.resident p v hCur hOut
  have hSame := hRes.same
  apply hCons.put hCur (hCons.steady p)
  · intro _
    exact ⟨{ hSame with x := fun _ => rfl, pc := rfl, pstate := rfl }, hRes.tpidr⟩
  · intro hTrue
    cases hTrue

theorem Consistent.timerInterrupt (hCur : s.current p = some v) (hOut : s.inGuest p = false)
    (ctl : Word) : Consistent g u (timerInterrupt s p v ctl) := by
  have hRes := hCons.resident p v hCur hOut
  have hSame := hRes.same
  have hSteady := hCons.steady p
  apply hCons.put hCur
  · exact { hSteady with }
  · intro _
    exact ⟨{ hSame with cntvCtl := rfl }, hRes.tpidr⟩
  · intro hTrue
    cases hTrue

theorem Consistent.injectLrs (hCur : s.current p = some v) (hOut : s.inGuest p = false)
    (hLrs : LrsSwitched g writes) : Consistent g u (injectLrs s p v writes) := by
  have hRes := hCons.resident p v hCur hOut
  have hSame := hRes.same
  apply hCons.put hCur (steady_writeLrs (hCons.steady p) hLrs)
  · intro _
    exact ⟨{ hSame with lr := fun i hi => writeLrs_congr writes (hSame.lr i hi) }, hRes.tpidr⟩
  · intro hTrue
    cases hTrue

/-- The old thread's vCPU goes to its records. -/
theorem Consistent.switchOut (hOut : s.inGuest p = false) (hLrs : LrsSwitched g collected) :
    Consistent g u (switchOut g s p collected) ∧ (switchOut g s p collected).current p = none ∧
      (switchOut g s p collected).inGuest p = false := by
  unfold Vcpu.switchOut
  split
  case h_1 hNone => exact ⟨hCons, hNone, hOut⟩
  case h_2 v hCur =>
    have hSave := (hCons.resident p v hCur hOut).save (hCons.steady p) hLrs
    have hSteady : SameUnswitched g
        (viewOf (archVcpuContextSave g (s.vcpu v) (s.hw p) collected).2) u := by
      have hWrites := steady_writeLrs (hCons.steady p) hLrs
      exact { hWrites with }
    exact ⟨hCons.assign false false (hCons.here hCur) (by simp) hSteady (fun _ => hSave) (by simp)
      (by simp), by simp, by simp [Machine.put]⟩

end

/-- Switching out leaves the vCPUs alone that are not current. -/
theorem switchOut_runningOn {w : VcpuRef} (hw : s.runningOn w = none) :
    (switchOut g s p collected).runningOn w = none := by
  unfold switchOut
  split
  · exact hw
  case h_2 v _ =>
    by_cases hEq : w = v
    · simp [hEq]
    · simpa [hEq] using hw

/-- The new thread's vCPU goes from its records to the CPU. -/
theorem Consistent.switchIn (hCons : Consistent g u s) (hIdle : s.current p = none)
    (hOut : s.inGuest p = false) {new : Option VcpuRef}
    (hNew : ∀ w, new = some w → s.runningOn w = none) (firstOffset : Word)
    {injected : List (Nat × Word)} (hLrs : LrsSwitched g injected) :
    Consistent g u (switchIn g s p new firstOffset injected) := by
  unfold Vcpu.switchIn
  split
  · exact hCons
  case h_2 v =>
    have hNone := hNew v rfl
    have hLoad := resident_load (hCons.saved v hNone) (hCons.steady p) firstOffset injected
    have hSteady := steady_load (a := s.vcpu v) (hCons.steady p) hLrs firstOffset
    refine hCons.assign true false (fun q w hq => iff_of_false ?_ ?_) (by simp) hSteady (by simp)
      (fun _ _ => hLoad) (by simp)
    · rintro rfl
      cases hIdle.symm.trans hq
    · rintro rfl
      cases hNone.symm.trans ((hCons.running q w).mp hq)

/-- Work done in host mode for the current vCPU. -/
theorem Consistent.inHost (hCons : Consistent g u s) {f : VcpuRef → Machine}
    (hf : ∀ v, s.current p = some v → s.inGuest p = false → Consistent g u (f v)) :
    Consistent g u (inHost s p f) := by
  unfold Vcpu.inHost
  split
  case h_1 v hCur hOut => exact hf v hCur hOut
  case h_2 => exact hCons

/-- Every operation that leaves the unswitched registers alone keeps the views. -/
theorem Consistent.step (hCons : Consistent g u s) (op : Op) (hOp : LeavesUnswitched g s op) :
    Consistent g u (step g s op) := by
  cases op with
  | enter p => exact hCons.inHost fun v hCur _ => hCons.enterGuest hCur
  | guest p w =>
    simp only [Vcpu.step]
    split
    case isTrue hIn =>
      apply hCons.setHw (steady_guestWrites (hCons.steady p) hOp)
      intro v _ hOut
      rw [hIn] at hOut
      cases hOut
    case isFalse => exact hCons
  | exit p =>
    simp only [Vcpu.step]
    split
    case h_1 v hCur hIn => exact hCons.exitGuest hCur hIn
    case h_2 => exact hCons
  | host p w =>
    simp only [Vcpu.step]
    split
    case isTrue => exact hCons
    case isFalse =>
      have hSteady := hCons.steady p
      have hMdscr : w.sys .mdscrEl1 = u.sys .mdscrEl1 := Eq.trans hOp hSteady.mdscr
      apply hCons.setHw
      · exact { hSteady with mdscr := hMdscr }
      · intro v hCur hOut
        exact (hCons.resident p v hCur hOut).hostWrites hOp
  | emulate p x pc pstate =>
    exact hCons.inHost fun v hCur hOut => hCons.emulateInstr hCur hOut x pc pstate
  | inject p writes => exact hCons.inHost fun v hCur hOut => hCons.injectLrs hCur hOut hOp
  | timerIrq p ctl => exact hCons.inHost fun v hCur hOut => hCons.timerInterrupt hCur hOut ctl
  | swap p new firstOffset collected injected =>
    simp only [Vcpu.step]
    split
    case isTrue hGuard =>
      rw [Bool.and_eq_true, Bool.not_eq_true'] at hGuard
      obtain ⟨hSaved, hIdle, hOut⟩ := hCons.switchOut hGuard.1 hOp.1
      refine hSaved.switchIn hIdle hOut ?_ firstOffset hOp.2
      intro w hw
      apply switchOut_runningOn
      simpa [hw] using hGuard.2
    case isFalse => exact hCons

end Steps

/-- Before any vCPU runs: the views are those of the vCPUs' initial records. -/
structure Start (g : GicConfig) (u : GuestView) (s : Machine) : Prop where
  idle : ∀ p, s.current p = none
  waiting : ∀ v, s.runningOn v = none
  outside : ∀ p, s.inGuest p = false
  steady : ∀ p, SameUnswitched g (viewOf (s.hw p)) u
  saved : ∀ v, SameView g (savedView g (s.vcpu v) u) (s.left v)

theorem Start.consistent {u : GuestView} {s : Machine} (hStart : Start g u s) :
    Consistent g u s where
  running := by
    intro p v
    simp [hStart.idle p, hStart.waiting v]
  guest := by
    intro p hIn
    rw [hStart.outside p] at hIn
    cases hIn
  steady := hStart.steady
  saved := fun v _ => hStart.saved v
  resident := by
    intro p v hCur
    rw [hStart.idle p] at hCur
    cases hCur
  host := by
    intro p v hCur
    rw [hStart.idle p] at hCur
    cases hCur

/-- The vCPU current on `p` finds, if it enters its guest now, what it left. -/
def FindsWhatItLeft (g : GicConfig) (s : Machine) (p : Nat) : Prop :=
  ∀ v, s.current p = some v → s.inGuest p = false →
    SameView g (viewOf ((step g s (.enter p)).hw p)) (s.left v)

theorem Consistent.finds {u : GuestView} {s : Machine} (hCons : Consistent g u s) (p : Nat) :
    FindsWhatItLeft g s p := by
  intro v hCur hOut
  have hEnter := (hCons.resident p v hCur hOut).enter (s.vm v.vm)
  simpa [Vcpu.step, Vcpu.inHost, hCur, hOut, Vcpu.enterGuest, Machine.put] using hEnter

/--
**Registers survive being switched out**: in every run, on any CPUs, whose operations
leave the registers alone that no switch carries, a vCPU that enters its guest finds
every register of its view as it left it.
-/
theorem guest_finds_what_it_left (g : GicConfig) (u : GuestView) (s : Machine) (ops : List Op)
    (hStart : Start g u s) (hOps : Admissible (step g) (LeavesUnswitched g) s ops) (p : Nat) :
    FindsWhatItLeft g (exec (step g) s ops) p := by
  have hCons : Consistent g u (exec (step g) s ops) :=
    exec_invariant (fun _ op hInv hOp => hInv.step op hOp) ops s hStart.consistent hOps
  exact hCons.finds p

/-! ### A machine with all registers zero -/

def zeroView : GuestView :=
  ⟨fun _ => 0#64, 0#64, 0#64, 0#64, fun _ => 0#64, 0#64, 0#64, fun _ => 0#64, fun _ => 0#64,
    fun _ => 0#64⟩

def zeroContext : VcpuContext := ⟨⟨fun _ => 0#64, 0#64, 0#64, 0#64, 0#64⟩, fun _ => 0#64⟩

def zeroHw : HwRegs :=
  { x := fun _ => 0#64, spEl0 := 0#64, elrEl2 := 0#64, spsrEl2 := 0#64, sys := fun _ => 0#64
    cntvCtl := 0#64, cntvCval := 0#64, cntvoff := 0#64, lr := fun _ => 0#64
    ap0r := fun _ => 0#64, ap1r := fun _ => 0#64, iccSre := 0#64, ichVmcr := 0#64
    ichHcr := 0#64, vtcrEl2 := 0#64, vttbrEl2 := 0#64 }

def zeroMachine : Machine where
  hw := fun _ => zeroHw
  vm := fun _ => ⟨0#64, 0#64, 0#64⟩
  vcpu := fun _ =>
    { ctxt := zeroContext, hostCtxt := zeroContext, vtimer := ⟨0#64, 0#64, 0#64⟩
      virqData := ⟨fun _ => 0#64, fun _ => 0#64, fun _ => 0#64, 0#64, 0#64, 0#64⟩
      isFirstRun := true }
  current := fun _ => none
  runningOn := fun _ => none
  inGuest := fun _ => false
  left := fun _ => zeroView

theorem start_zeroMachine (g : GicConfig) :
    Start g zeroView zeroMachine where
  idle := fun _ => rfl
  waiting := fun _ => rfl
  outside := fun _ => rfl
  steady := fun _ => ⟨rfl, rfl, fun _ _ _ => rfl, fun _ _ _ => rfl, fun _ _ _ => rfl⟩
  saved := by
    intro v
    refine ⟨fun _ => rfl, rfl, rfl, rfl, ?_, rfl, rfl, ?_, ?_, ?_⟩
    · intro r _
      cases r <;> rfl
    all_goals
      intro i _
      exact ite_self _

/-- The vCPU of the first VM runs on CPU 0 and its guest writes `w`; then the vCPU of
the second VM takes the CPU. -/
def visit (w : GuestView) : List Op :=
  [.swap 0 (some ⟨0, 0⟩) 0#64 [] [], .enter 0, .guest 0 w, .exit 0]

def visitAndSwitch (w : GuestView) : List Op :=
  visit w ++ [Op.swap 0 (some ⟨1, 0⟩) 0#64 [] []]

/-- A guest that writes `X0` finds it again after another VM has had the CPU. -/
theorem guest_finds_what_it_left_x0 :
    FindsWhatItLeft ⟨4, 5⟩ (exec (step ⟨4, 5⟩) zeroMachine
      (visitAndSwitch { zeroView with x := fun _ => 7#64 } ++
        [.swap 0 (some ⟨0, 0⟩) 0#64 [] []])) 0 := by
  apply guest_finds_what_it_left ⟨4, 5⟩ zeroView zeroMachine _ (start_zeroMachine _)
  refine ⟨⟨Or.inr rfl, Or.inr rfl⟩, trivial, ?_, trivial, ⟨Or.inr rfl, Or.inr rfl⟩,
    ⟨Or.inr rfl, Or.inr rfl⟩, trivial⟩
  refine ⟨rfl, rfl, ?_, ?_, ?_⟩
  all_goals
    intro i _ _
    exact (ite_self _).symm

/-- A guest loses what it writes to `MDSCR_EL1` at its next exit, and a guest of another
VM sees what was written to `DISR_EL1`, to the fourth active-priority register of
hardware with seven priority bits, and to a list register of hardware with nine. -/
theorem unswitched_registers_change_hands :
    ¬ FindsWhatItLeft ⟨4, 5⟩ (exec (step ⟨4, 5⟩) zeroMachine
        (visit { zeroView with sys := fun r => if r = .mdscrEl1 then 1#64 else 0#64 })) 0 ∧
      ¬ FindsWhatItLeft ⟨4, 5⟩ (exec (step ⟨4, 5⟩) zeroMachine
        (visitAndSwitch
          { zeroView with sys := fun r => if r = .disrEl1 then 1#64 else 0#64 })) 0 ∧
      ¬ FindsWhatItLeft ⟨4, 7⟩ (exec (step ⟨4, 7⟩) zeroMachine
        (visitAndSwitch { zeroView with ap1r := fun i => if i = 3 then 1#64 else 0#64 })) 0 ∧
      ¬ FindsWhatItLeft ⟨9, 5⟩ (exec (step ⟨9, 5⟩) zeroMachine
        (visitAndSwitch { zeroView with lr := fun i => if i = 0 then 1#64 else 0#64 })) 0 := by
  refine ⟨?_, ?_, ?_, ?_⟩
  · intro hFinds
    exact absurd ((hFinds ⟨0, 0⟩ (by decide) (by decide)).sys .mdscrEl1 (by decide)) (by decide)
  · intro hFinds
    exact absurd ((hFinds ⟨1, 0⟩ (by decide) (by decide)).sys .disrEl1 (by decide)) (by decide)
  · intro hFinds
    exact absurd ((hFinds ⟨1, 0⟩ (by decide) (by decide)).ap1r 3 (by decide)) (by decide)
  · intro hFinds
    exact absurd ((hFinds ⟨1, 0⟩ (by decide) (by decide)).lr 0 (by decide)) (by decide)

end Zvm.Vcpu
