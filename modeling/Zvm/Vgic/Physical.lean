import Zvm.Vgic.Origin
import Zvm.Vgic.Vms

/-!
# Physical interrupts

The host takes a physical interrupt: reading `ICC_IAR1_EL1` makes it active, its handler
runs, the write to `ICC_EOIR1_EL1` drops the priority, and `arm_gic_eoi_deactive`
deactivates it unless `zvm_switch_handle_pre` finds it in the bitmap of the interrupted
VM.  What stays active is deactivated when the guest ends the interrupt of a list
register that is linked to it.

The bitmap is filled from the devices and the virtual timer, the link comes from the
descriptor's initial value, so the two need not agree: a shared interrupt is never
linked, and a private one is linked whether the bitmap has it or not.
-/

namespace Zvm.Vgic

open Zvm.Verified Zvm.Verified.Run Zvm.Vcpu

/-- The fields of `struct z_virt_dev` that interrupts use.  `vm` is `none` until the
device belongs to a VM; `zshmn` says that the name contains `ZSHMN`. -/
structure Device where
  vm : Option Nat
  hirq : Nat
  virq : Nat
  devPtFlag : Bool
  zshmn : Bool

/-- `ARM_ARCH_VIRT_VTIMER_IRQ`, `ARM_ARCH_VIRT_PTIMER_IRQ` and the devices. -/
structure Platform where
  vtimerIrq : Nat
  ptimerIrq : Nat
  devices : List Device
  vtimer_private : vtimerIrq < localVirqNr
  ptimer_private : ptimerIrq < localVirqNr

/-- The interrupted context: its vCPU, whether the virtual timer's `ISTAT` bit is set,
and whether the vCPU is being deleted. -/
structure Context where
  cur : Option VcpuRef
  istat : Bool
  deleting : Bool

/-- The virtual interrupts, and the physical ones that are active. -/
structure Host where
  vms : Vms
  active : Nat → Bool

/-- `pt_irq_bitmap[irq]` of a VM, as `vm_device_irq_init` and `arch_vcpu_timer_init`
leave it. -/
def ptIrqBitmap (p : Platform) (vm irq : Nat) : Bool :=
  irq == p.vtimerIrq ||
    p.devices.any fun d => d.vm == some vm && d.hirq == irq && (d.devPtFlag || d.zshmn)

/-- `zvm_switch_handle_pre`. -/
def zvmSwitchHandlePre (p : Platform) (cur : Option VcpuRef) (irq : Nat) : Bool :=
  match cur with
  | none => false
  | some t => ptIrqBitmap p t.vm irq

/-- `arm_gic_eoi_deactive`. -/
def armGicEoiDeactive (s : Host) (irq : Nat) (noDeactive : Bool) : Host :=
  if noDeactive then s else { s with active := FunArray.set s.active irq false }

/-- `arm_arch_virt_vtimer_compare_isr`; without a vCPU it reads through a null pointer. -/
def armArchVirtVtimerCompareIsr (c : Nat → VgicConfig) (p : Platform) (s : Host) (x : Context) :
    Option Host :=
  match x.cur with
  | none => none
  | some t =>
    if x.istat then
      let s := { s with vms := setVirqToVcpu c s.vms x.cur t p.vtimerIrq true }
      -- `arm_gic_irq_clear_active`
      if x.deleting then some { s with active := FunArray.set s.active p.vtimerIrq false }
      else some s
    else some s

/-- `arm_arch_virt_ptimer_compare_isr`. -/
def armArchVirtPtimerCompareIsr (c : Nat → VgicConfig) (p : Platform) (s : Host) (x : Context) :
    Option Host :=
  match x.cur with
  | none => none
  | some t => some { s with vms := setVirqToVcpu c s.vms x.cur t p.ptimerIrq true }

/-- What an entry of `_sw_isr_table` calls. -/
inductive Isr where
  | vtimer
  | ptimer
  | passThrough (d : Device)
  | host

/-- The handlers that `IRQ_CONNECT` registers; those of the host inject nothing. -/
def swIsrTable (p : Platform) (irq : Nat) : Isr :=
  if irq = p.vtimerIrq then .vtimer
  else if irq = p.ptimerIrq then .ptimer
  else
    match p.devices.find? fun d => d.devPtFlag && d.hirq == irq with
    | some d => .passThrough d
    | none => .host

/-- The handler of an interrupt; that of a device is `pass_through_device_isr`. -/
def callIsr (c : Nat → VgicConfig) (p : Platform) (s : Host) (x : Context) (irq : Nat) :
    Option Host :=
  match swIsrTable p irq with
  | .vtimer => armArchVirtVtimerCompareIsr c p s x
  | .ptimer => armArchVirtPtimerCompareIsr c p s x
  | .passThrough d => some { s with vms := vmDeviceCallbackFunc c s.vms x.cur d.vm d.virq }
  | .host => some s

/-- `_isr_wrapper`. -/
def isrWrapper (c : Nat → VgicConfig) (p : Platform) (s : Host) (x : Context) (irq : Nat) :
    Option Host :=
  match callIsr c p { s with active := FunArray.set s.active irq true } x irq with
  | none => none
  | some s => some (armGicEoiDeactive s irq (zvmSwitchHandlePre p x.cur irq))

/-! ## What the handlers do -/

/-- The vCPU and the virtual interrupt that the handler injects. -/
def injectee (p : Platform) (x : Context) (irq : Nat) : Option (VcpuRef × Nat) :=
  match swIsrTable p irq with
  | .vtimer => if x.istat then x.cur.map fun t => (t, irq) else none
  | .ptimer => x.cur.map fun t => (t, irq)
  | .passThrough d =>
    if d.virq = deviceInvalidVirq then none
    else d.vm.map fun vm => (targetVcpu x.cur vm, d.virq)
  | .host => none

/-- The handler of one of the timers has a vCPU to inject to. -/
def HasTimerVcpu (p : Platform) (x : Context) (irq : Nat) : Prop :=
  irq = p.vtimerIrq ∨ irq = p.ptimerIrq → x.cur.isSome = true

/-- The host leaves the interrupt active: it is in the bitmap, and it is not the timer of
a vCPU that is being deleted. -/
def leavesActive (p : Platform) (x : Context) (irq : Nat) : Bool :=
  zvmSwitchHandlePre p x.cur irq && !(irq == p.vtimerIrq && x.istat && x.deleting)

/-- The virtual interrupts after the injection. -/
def injectTo (c : Nat → VgicConfig) (w : Vms) (cur : Option VcpuRef) :
    Option (VcpuRef × Nat) → Vms
  | none => w
  | some (t, virq) => setVirqToVcpu c w cur t virq true

section Wrapper

variable {c : Nat → VgicConfig} {p : Platform} {s : Host} {x : Context} {irq : Nat}

/-- A timer's handler without a vCPU. -/
theorem callIsr_timer_none (hIrq : irq = p.vtimerIrq ∨ irq = p.ptimerIrq) (hCur : x.cur = none) :
    callIsr c p s x irq = none := by
  unfold callIsr swIsrTable
  by_cases hVtimer : irq = p.vtimerIrq
  · rw [if_pos hVtimer]
    simp only [armArchVirtVtimerCompareIsr, hCur]
  · rw [if_neg hVtimer, if_pos (hIrq.resolve_left hVtimer)]
    simp only [armArchVirtPtimerCompareIsr, hCur]

/-- The handler injects one interrupt at most, and clears an active state only of the
timer of a vCPU that is being deleted. -/
theorem callIsr_eq (hVcpu : HasTimerVcpu p x irq) :
    ∃ s', callIsr c p s x irq = some s' ∧ s'.vms = injectTo c s.vms x.cur (injectee p x irq) ∧
      s'.active irq = (s.active irq && !(irq == p.vtimerIrq && x.istat && x.deleting)) := by
  unfold callIsr injectee swIsrTable
  by_cases hVtimer : irq = p.vtimerIrq
  · obtain ⟨t, hCur⟩ := Option.isSome_iff_exists.mp (hVcpu (.inl hVtimer))
    simp only [hVtimer, if_true, armArchVirtVtimerCompareIsr, hCur]
    cases x.istat <;> cases x.deleting <;> simp [injectTo]
  · by_cases hPtimer : irq = p.ptimerIrq
    · obtain ⟨t, hCur⟩ := Option.isSome_iff_exists.mp (hVcpu (.inr hPtimer))
      have hNe : p.ptimerIrq ≠ p.vtimerIrq := hPtimer ▸ hVtimer
      simp [hPtimer, hNe, armArchVirtPtimerCompareIsr, hCur, injectTo]
    · simp only [hVtimer, hPtimer, if_false]
      have hActive : s.active irq =
          (s.active irq && !(irq == p.vtimerIrq && x.istat && x.deleting)) := by
        simp [hVtimer]
      cases p.devices.find? fun d => d.devPtFlag && d.hirq == irq with
      | none => exact ⟨s, rfl, rfl, hActive⟩
      | some d =>
        refine ⟨_, rfl, ?_, hActive⟩
        simp only [vmDeviceCallbackFunc]
        split
        · rfl
        · cases d.vm <;> rfl

/-- One run through the wrapper. -/
theorem isrWrapper_eq (hVcpu : HasTimerVcpu p x irq) :
    ∃ s', isrWrapper c p s x irq = some s' ∧
      s'.vms = injectTo c s.vms x.cur (injectee p x irq) ∧
      s'.active irq = leavesActive p x irq := by
  obtain ⟨s₁, hIsr, hVms, hActive⟩ := callIsr_eq (c := c)
    (s := { s with active := FunArray.set s.active irq true }) hVcpu
  refine ⟨armGicEoiDeactive s₁ irq (zvmSwitchHandlePre p x.cur irq), ?_, ?_, ?_⟩
  · simp only [isrWrapper, hIsr]
  · unfold armGicEoiDeactive
    split <;> exact hVms
  · unfold armGicEoiDeactive leavesActive
    cases hPre : zvmSwitchHandlePre p x.cur irq with
    | false => simp
    | true => simpa using hActive

theorem isrWrapper_none (hVcpu : ¬ HasTimerVcpu p x irq) : isrWrapper c p s x irq = none := by
  unfold HasTimerVcpu at hVcpu
  rw [Classical.not_imp] at hVcpu
  have hCur : x.cur = none := by simpa using hVcpu.2
  simp only [isrWrapper, callIsr_timer_none hVcpu.1 hCur]

end Wrapper

/-! ## Links -/

/-- The interrupt is pending and enabled, so that the next flush takes it, or a list
register has it as pending. -/
def Wants (c : VgicConfig) (st : VcpuIrqs) (irq : Nat) : Prop :=
  (st.pending irq = true ∧ st.enabled irq = true) ∨ Held c st irq

/-- A list register with `hw = 1` and this `pINTID` is filled, or will be filled by the
next flush. -/
def Linked (c : VgicConfig) (st : VcpuIrqs) (irq : Nat) : Prop :=
  (∃ virq, st.pending virq = true ∧ st.enabled virq = true ∧
    (st.desc virq).pirqNum ≠ invalidPirqNum ∧ (st.desc virq).pirqNum = irq) ∨
  ∃ i, i < c.lrNum ∧ (st.lr i).state.pending = true ∧ (st.lr i).hw = true ∧ (st.lr i).pINTID = irq

section Links

variable {c : VgicConfig} {st : VcpuIrqs} {irq : Nat}

/-- Private interrupts are linked to themselves, others are not linked. -/
theorem linked_iff {R : Nat → Prop} (hTraced : Traced R st) :
    Linked c st irq ↔ irq < localVirqNr ∧ Wants c st irq := by
  have hValid : ∀ i, (st.lr i).state.pending = true → LrOrigin R (st.lr i) := by
    intro i hPending
    apply hTraced.lr i
    intro hInvalid
    rw [hInvalid] at hPending
    cases hPending
  constructor
  · intro hLinked
    rcases hLinked with ⟨virq, hPending, hEnabled, hNe, hPirq⟩ | ⟨i, hi, hPending, hHw, hPirq⟩
    · have hLocal := (pirqNum_ne_invalid (hTraced.pirq virq)).mp hNe
      have hSame : virq = irq := by rw [← hPirq, hTraced.pirq virq, if_pos hLocal]
      subst hSame
      exact ⟨hLocal, .inl ⟨hPending, hEnabled⟩⟩
    · have hOrigin := hValid i hPending
      have hSame : (st.lr i).vINTID = irq := (hOrigin.pINTID hHw).symm.trans hPirq
      refine ⟨?_, .inr ⟨i, hi, hSame, hPending⟩⟩
      rw [← hSame]
      exact hOrigin.hw.mp hHw
  · intro ⟨hLocal, hWants⟩
    rcases hWants with ⟨hPending, hEnabled⟩ | ⟨i, hi, hSame, hPending⟩
    · have hPirq := hTraced.pirq irq
      exact .inl ⟨irq, hPending, hEnabled, (pirqNum_ne_invalid hPirq).mpr hLocal,
        hPirq.trans (if_pos hLocal)⟩
    · have hOrigin := hValid i hPending
      have hHw : (st.lr i).hw = true := hOrigin.hw.mpr (by rw [hSame]; exact hLocal)
      exact .inr ⟨i, hi, hPending, hHw, (hOrigin.pINTID hHw).trans hSame⟩

/-- A sync and a flush that find room neither lose nor invent a private interrupt. -/
theorem wants_sync_flush (hInv : LrInv c st) (hLocal : irq < localVirqNr)
    (hRoom : (waiting c st.pending st.enabled (busyLr st)).card ≤ (freeLrs c st).card) :
    Wants c (virtIrqFlushVgic c (virtIrqSyncVgic c st)) irq ↔ Wants c st irq := by
  have hSync := virtIrqSyncVgic_synced hInv
  have hFlushed := sync_flush_flushed hInv hRoom
  have hRange : irq < 32 * (c.virqNr / 32) := by
    have hLe := c.local_le
    unfold localVirqNr at hLocal
    omega
  have hMem : irq ∈ flushed c (virtIrqSyncVgic c st) ↔
      st.pending irq = true ∧ st.enabled irq = true := by
    rw [mem_flushed, hSync.pending, hSync.enabled]
    exact and_iff_right hRange
  constructor
  · intro hWants
    rcases hWants with ⟨hPending, hEnabled⟩ | hHeld
    · rw [hFlushed.pending, Bool.and_eq_true, hSync.pending] at hPending
      rw [hFlushed.enabled, hSync.enabled] at hEnabled
      exact .inl ⟨hPending.1, hEnabled⟩
    · rcases hFlushed.held_inv irq hHeld with hOld | hNew
      · exact .inr ((held_sync hInv).mp hOld)
      · exact .inl (hMem.mp hNew)
  · intro hWants
    rcases hWants with hWaiting | hHeld
    · exact .inr (hFlushed.held_all irq (hMem.mpr hWaiting))
    · exact .inr (hFlushed.held irq ((held_sync hInv).mpr hHeld))

theorem wants_latchVirq (hLocal : irq < localVirqNr) {virq : Nat}
    (hEnabled : st.enabled virq = true) :
    Wants c (latchVirq st virq true) irq ↔
      (virq = irq ∧ st.enabled irq = true) ∨ Wants c st irq := by
  obtain ⟨hSame, hLr, _⟩ := latchVirq_frame st virq true
  unfold Wants Held
  rw [latchVirq_pending, hSame, hLr]
  by_cases hEq : irq = virq
  · subst hEq
    simp [raises, hLocal, hEnabled]
  · have hNe : (irq == virq) = false := by simpa using hEq
    have hNe' : ¬ virq = irq := fun h => hEq h.symm
    simp [hNe, hNe']

/-- Injecting `virq` makes the private interrupt `irq` wanted if they are the same and it
is enabled. -/
theorem wants_set_iff (hInv : LrInv c st) (hLocal : irq < localVirqNr) {virq : Nat}
    {cur others : Bool} (hRoom : LeavesRoom c st (.set virq true cur others)) :
    Wants c (vgicSetVirqToVcpu c st virq true cur others) irq ↔
      (virq = irq ∧ st.enabled irq = true) ∨ Wants c st irq := by
  have hOn : isVirqEnabled c st virq true others = st.enabled virq := by simp [isVirqEnabled]
  by_cases hSkip : c.virqNr ≤ virq ∨ st.enabled virq = false
  · -- nothing happens
    have hSame : vgicSetVirqToVcpu c st virq true cur others = st := by
      unfold vgicSetVirqToVcpu
      rw [hOn]
      rcases hSkip with hHigh | hOff
      · rw [if_pos hHigh]
      · simp [hOff]
    rw [hSame]
    refine ⟨.inr, ?_⟩
    intro hCases
    rcases hCases with ⟨rfl, hEnabled⟩ | hWants
    · have hLe := c.local_le
      unfold localVirqNr at hLocal
      rcases hSkip with hHigh | hOff
      · omega
      · rw [hOff] at hEnabled
        cases hEnabled
    · exact hWants
  · rw [not_or, Bool.not_eq_false] at hSkip
    obtain ⟨hLow, hEnabled⟩ := hSkip
    have hLatch : Wants c (latchVirq st virq true) irq ↔ _ := wants_latchVirq hLocal hEnabled
    rw [vgicSetVirqToVcpu, if_neg hLow, hOn, hEnabled, ← hLatch]
    cases cur with
    | false => simp
    | true =>
      have hEnough : RoomToRaise c st virq true := by
        rcases hRoom with hNot | hOff | hEnough
        · cases hNot
        · rw [hOn, hEnabled] at hOff
          cases hOff
        · exact hEnough
      exact wants_sync_flush (keeps_latchVirq hInv virq true).lrInv hLocal
        (waiting_latchVirq virq true hEnough)

end Links

/-! ## One deactivation for each interrupt -/

/-- The vCPU that the handler injects to has a list register for the interrupt, or will
have one. -/
def LinkedInjectee (c : Nat → VgicConfig) (p : Platform) (w : Vms) (x : Context) (irq : Nat) :
    Prop :=
  ∃ t virq, injectee p x irq = some (t, virq) ∧ Linked (c t.vm) (w t) irq

/-- Either the host has deactivated the interrupt when the wrapper is done, or a list
register is linked to it, and not both. -/
def DeactivatedOnce (c : Nat → VgicConfig) (p : Platform) (s : Host) (x : Context) (irq : Nat) :
    Prop :=
  ∃ s', isrWrapper c p s x irq = some s' ∧
    ((s'.active irq = false ∧ ¬ LinkedInjectee c p s'.vms x irq) ∨
      (s'.active irq = true ∧ LinkedInjectee c p s'.vms x irq))

/-- The interrupt is private, and the handler injects it under its own number to a vCPU
that has it enabled, or to one that wants it already. -/
def WillLink (c : Nat → VgicConfig) (p : Platform) (w : Vms) (x : Context) (irq : Nat) : Prop :=
  ∃ t virq, injectee p x irq = some (t, virq) ∧ irq < localVirqNr ∧
    ((virq = irq ∧ (w t).enabled irq = true) ∨ Wants (c t.vm) (w t) irq)

/-- The state of the vCPU that is injected to is that after a run whose flushes found
room, and there is room for the injection. -/
def Receivable (c : Nat → VgicConfig) (p : Platform) (w : Vms) (x : Context) (irq : Nat) : Prop :=
  ∀ t virq, injectee p x irq = some (t, virq) →
    (∃ ops, Admissible (virqStep (c t.vm)) (LeavesRoom (c t.vm)) bootIrqs ops ∧
      w t = exec (virqStep (c t.vm)) bootIrqs ops) ∧
    LeavesRoom (c t.vm) (w t) (.set virq true (x.cur == some t) (othersEnabled c w t virq))

section Deactivation

variable {c : Nat → VgicConfig} {p : Platform} {s : Host} {x : Context} {irq : Nat}

theorem linkedInjectee_iff {w : Vms} (hReceive : Receivable c p w x irq) :
    LinkedInjectee c p (injectTo c w x.cur (injectee p x irq)) x irq ↔ WillLink c p w x irq := by
  unfold LinkedInjectee WillLink
  apply exists_congr
  intro t
  apply exists_congr
  intro virq
  apply and_congr_right
  intro hTarget
  obtain ⟨⟨ops, hRun, hState⟩, hRoom⟩ := hReceive t virq hTarget
  have hInv : LrInv (c t.vm) (w t) := by
    rw [hState]
    exact lrInv_run (c t.vm) hRun
  have hTraced : Traced (fun _ => True) (w t) := by
    rw [hState]
    exact traced_run (c t.vm) ops
  rw [hTarget, injectTo, setVirqToVcpu_same,
    linked_iff ((kept_traced _ _).set hTraced (hTraced.latchVirq trivial true)
      (x.cur == some t) (othersEnabled c w t virq))]
  apply and_congr_right
  intro hLocal
  exact wants_set_iff hInv hLocal hRoom

/-- The interrupt is deactivated once exactly if the wrapper returns and the host leaves
those interrupts active that will be linked. -/
theorem deactivatedOnce_iff (hReceive : Receivable c p s.vms x irq) :
    DeactivatedOnce c p s x irq ↔
      HasTimerVcpu p x irq ∧ (leavesActive p x irq = true ↔ WillLink c p s.vms x irq) := by
  by_cases hVcpu : HasTimerVcpu p x irq
  · obtain ⟨s', hDone, hVms, hActive⟩ := isrWrapper_eq (c := c) (s := s) hVcpu
    have hLink := linkedInjectee_iff hReceive
    rw [← hVms] at hLink
    unfold DeactivatedOnce
    rw [hDone, ← hLink, ← hActive]
    simp only [Option.some.injEq, exists_eq_left', hVcpu, true_and]
    cases s'.active irq <;> simp
  · have hNone := isrWrapper_none (c := c) (s := s) hVcpu
    unfold DeactivatedOnce
    rw [hNone]
    simp [hVcpu]

end Deactivation

/-! ## Runs of the host -/

/-- A physical interrupt is taken, or something happens to the interrupts of a vCPU. -/
inductive HostOp where
  | take (x : Context) (irq : Nat)
  | vcpu (t : VcpuRef) (op : VirqOp)

/-- The guest ends the interrupt of a list register with `hw = 1`. -/
def guestDeactivates (c : VgicConfig) (st : VcpuIrqs) : VirqOp → Option Nat
  | .eoi i =>
    if i < c.lrNum ∧ (st.lr i).state.active = true ∧ (st.lr i).hw = true then
      some (st.lr i).pINTID
    else none
  | _ => none

def hostStep (c : Nat → VgicConfig) (p : Platform) (s : Host) : HostOp → Host
  | .take x irq => (isrWrapper c p s x irq).getD s
  | .vcpu t op =>
    { vms := Function.update s.vms t (virqStep (c t.vm) (s.vms t) op)
      active :=
        match guestDeactivates (c t.vm) (s.vms t) op with
        | none => s.active
        | some irq => FunArray.set s.active irq false }

def bootHost : Host where
  vms := fun _ => bootIrqs
  active := fun _ => false

/-- Private interrupts are raised only by physical interrupts of the same number, and
only where the host leaves these active. -/
def BacksPrivate (p : Platform) : HostOp → Prop
  | .take x irq => ∀ t virq, injectee p x irq = some (t, virq) → virq < localVirqNr →
      virq = irq ∧ leavesActive p x irq = true
  | .vcpu _ op => ∀ k, MakesPending op k → localVirqNr ≤ k

/-- The run has taken the physical interrupt, injected it to the vCPU under its own
number and left it active. -/
def BackedBy (p : Platform) (ops : List HostOp) (t : VcpuRef) (irq : Nat) : Prop :=
  ∃ x, HostOp.take x irq ∈ ops ∧ injectee p x irq = some (t, irq) ∧ leavesActive p x irq = true

section HostRuns

variable {c : Nat → VgicConfig} {p : Platform}

/-- The operation can make the interrupt pending on the vCPU. -/
def Brings (p : Platform) : HostOp → VcpuRef → Nat → Prop
  | .take x irq, t, k => injectee p x irq = some (t, k)
  | .vcpu u op, t, k => u = t ∧ MakesPending op k

theorem traced_hostStep {R : VcpuRef → Nat → Prop} {op : HostOp}
    (hOp : ∀ t k, Brings p op t k → R t k) (s : Host) (hTraced : ∀ t, Traced (R t) (s.vms t))
    (t : VcpuRef) : Traced (R t) ((hostStep c p s op).vms t) := by
  cases op with
  | vcpu u o =>
    simp only [hostStep]
    by_cases hEq : t = u
    · subst hEq
      rw [Function.update_self]
      exact (hTraced t).step fun k hPending => hOp t k ⟨rfl, hPending⟩
    · rw [Function.update_of_ne hEq]
      exact hTraced t
  | take x irq =>
    simp only [hostStep]
    by_cases hTimer : HasTimerVcpu p x irq
    · obtain ⟨s', hDone, hVms, _⟩ := isrWrapper_eq (c := c) (s := s) hTimer
      rw [hDone, Option.getD_some, hVms]
      cases hTarget : injectee p x irq with
      | none => exact hTraced t
      | some target =>
        simp only [injectTo]
        by_cases hEq : t = target.1
        · subst hEq
          rw [setVirqToVcpu_same]
          exact (kept_traced _ _).set (hTraced target.1)
            ((hTraced target.1).latchVirq (hOp target.1 target.2 hTarget) true) _ _
        · rw [setVirqToVcpu_other hEq]
          exact hTraced t
    · rw [isrWrapper_none hTimer]
      exact hTraced t

/-- Over any run of the host, with the interrupts that its operations bring in `R`. -/
theorem traced_host_run {R : VcpuRef → Nat → Prop} (ops : List HostOp)
    (hOps : ∀ op ∈ ops, ∀ t k, Brings p op t k → R t k) :
    ∀ t, Traced (R t) ((exec (hostStep c p) bootHost ops).vms t) := by
  let Inv : Host → Prop := fun s => ∀ t, Traced (R t) (s.vms t)
  have hBoot : Inv bootHost := fun t => traced_boot (R t)
  have hStep : ∀ op ∈ ops, ∀ s, Inv s → Inv (hostStep c p s op) :=
    fun op hMem s hTraced => traced_hostStep (hOps op hMem) s hTraced
  exact exec_invariant_of_mem ops hStep bootHost hBoot

theorem BacksPrivate.backedBy {op : HostOp} (hOp : BacksPrivate p op) {ops : List HostOp}
    (hMem : op ∈ ops) (t : VcpuRef) (k : Nat) (hBrings : Brings p op t k)
    (hLocal : k < localVirqNr) : BackedBy p ops t k := by
  cases op with
  | take x irq =>
    obtain ⟨hSame, hActive⟩ := hOp t k hBrings hLocal
    subst hSame
    exact ⟨x, hMem, hBrings, hActive⟩
  | vcpu u op => exact absurd hLocal (Nat.not_lt.mpr (hOp k hBrings.2))

end HostRuns

/--
**Deactivation of physical interrupts**: an interrupt that is taken with room for its
injection is deactivated once exactly if the wrapper returns and the host leaves the
interrupt active just in the case that a list register will be linked to it.  In every
run, the list registers in use that are linked are those of private interrupts; if only
physical interrupts of the same number raise private interrupts, and the host leaves
these active, then each of them is backed by one.
-/
theorem deactivated_once_iff (c : Nat → VgicConfig) (p : Platform) :
    (∀ s x irq, Receivable c p s.vms x irq →
      (DeactivatedOnce c p s x irq ↔
        HasTimerVcpu p x irq ∧ (leavesActive p x irq = true ↔ WillLink c p s.vms x irq))) ∧
    ∀ ops t i, let r := ((exec (hostStep c p) bootHost ops).vms t).lr i
      r.state ≠ .invalid →
        (r.hw = true ↔ r.vINTID < localVirqNr) ∧
        ((∀ op ∈ ops, BacksPrivate p op) → r.hw = true → BackedBy p ops t r.pINTID) := by
  refine ⟨fun s x irq hReceive => deactivatedOnce_iff hReceive, ?_⟩
  intro ops t i r hUsed
  have hAny : ∀ op ∈ ops, ∀ t k, Brings p op t k → True := fun _ _ _ _ _ => trivial
  have hOrigin := (traced_host_run ops hAny t).lr i hUsed
  refine ⟨hOrigin.hw, ?_⟩
  intro hOps hHw
  have hBacked := (traced_host_run ops (fun op hMem => (hOps op hMem).backedBy hMem) t).lr i hUsed
  show BackedBy p ops t r.pINTID
  rw [hBacked.pINTID hHw]
  exact hBacked.origin (hBacked.hw.mp hHw)

/-- A platform with one device, passed through to VM 0. -/
def samplePlatform (hirq virq : Nat) : Platform where
  vtimerIrq := 27
  ptimerIrq := 30
  devices := [⟨some 0, hirq, virq, true, false⟩]
  vtimer_private := by decide
  ptimer_private := by decide

/-- vCPU 0 of VM 0 is interrupted. -/
def sampleContext : Context where
  cur := some ⟨0, 0⟩
  istat := true
  deleting := false

theorem sampleVms_lrs : 0 < 4 := by decide

def sampleVms : Nat → VgicConfig := fun _ => sampleVgic 4 sampleVms_lrs

/-- The interrupt is enabled on all vCPUs. -/
def enabledHost (virq : Nat) : Host where
  vms := fun _ => exec (virqStep (sampleVgic 4 sampleVms_lrs)) bootIrqs [.enable virq true]
  active := fun _ => false

/-- The virtual timer of a running vCPU. -/
theorem deactivated_once_vtimer :
    DeactivatedOnce sampleVms (samplePlatform 40 40) (enabledHost 27) sampleContext 27 := by
  have hTarget : injectee (samplePlatform 40 40) sampleContext 27 = some (⟨0, 0⟩, 27) := by decide
  have hReceive : Receivable sampleVms (samplePlatform 40 40) (enabledHost 27).vms
      sampleContext 27 := by
    intro t virq hSome
    rw [hTarget] at hSome
    cases hSome
    refine ⟨⟨[.enable 27 true], ⟨trivial, trivial⟩, rfl⟩, ?_⟩
    right
    right
    unfold RoomToRaise
    decide
  refine ((deactivated_once_iff sampleVms (samplePlatform 40 40)).1 _ _ _ hReceive).mpr
    ⟨by unfold HasTimerVcpu; decide, ?_⟩
  exact iff_of_true (by decide) ⟨⟨0, 0⟩, 27, hTarget, by decide, .inl ⟨rfl, by decide⟩⟩

/-- A shared interrupt of a pass-through device that is taken while its VM runs is left
active and not linked.  The physical timer's is deactivated and linked.  A guest's
software-generated interrupt gets a list register with `hw = 1`. -/
theorem bitmap_and_link_differ :
    (∃ s', isrWrapper sampleVms (samplePlatform 40 40) (enabledHost 40) sampleContext 40 =
        some s' ∧ s'.active 40 = true ∧
      ¬ LinkedInjectee sampleVms (samplePlatform 40 40) s'.vms sampleContext 40) ∧
    (∃ s', isrWrapper sampleVms (samplePlatform 40 40) (enabledHost 30) sampleContext 30 =
        some s' ∧ s'.active 30 = false ∧
      LinkedInjectee sampleVms (samplePlatform 40 40) s'.vms sampleContext 30) ∧
    (let s := exec (hostStep sampleVms (samplePlatform 40 40)) bootHost
        [.vcpu ⟨0, 0⟩ (.enable 1 true), .vcpu ⟨0, 0⟩ (.sgi 1 0 true)]
     ((s.vms ⟨0, 0⟩).lr 0).state = ⟨true, false⟩ ∧ ((s.vms ⟨0, 0⟩).lr 0).vINTID = 1 ∧
       ((s.vms ⟨0, 0⟩).lr 0).hw = true) := by
  refine ⟨⟨_, rfl, by decide, ?_⟩, ⟨_, rfl, by decide, ?_⟩, by decide, by decide, by decide⟩
  · rintro ⟨t, virq, hTarget, hLinked⟩
    have hVcpu : t = ⟨0, 0⟩ := by
      have hSome : injectee (samplePlatform 40 40) sampleContext 40 = some (⟨0, 0⟩, 40) := by decide
      rw [hSome] at hTarget
      cases hTarget
      rfl
    subst hVcpu
    have hTraced := traced_run (sampleVgic 4 (by decide)) [.enable 40 true, .set 40 true true false]
    exact absurd ((linked_iff hTraced).mp hLinked).1 (by decide)
  · exact ⟨⟨0, 0⟩, 30, by decide, .inr ⟨0, by decide, by decide, by decide, by decide⟩⟩

end Zvm.Vgic
