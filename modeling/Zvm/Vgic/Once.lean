import Zvm.Vgic.Banks
import Zvm.Vgic.Origin
import Zvm.Vgic.Vms

/-!
# A shared interrupt is delivered once

The pending bits of a shared interrupt are kept for each vCPU.  `set_virq_to_vm` sets the bit
of one vCPU, and a vCPU whose bit is not set never gets the interrupt.  A guest's write to
`GICD_ISPENDR` sets the bits of all vCPUs, and every vCPU that is flushed gets it.
-/

namespace Zvm.Vgic

open Zvm.Verified Zvm.Verified.Run Zvm.Vcpu

/-! ## A vCPU without the interrupt -/

/-- The interrupt is not pending on this vCPU in any place. -/
structure Quiet (c : VgicConfig) (n : Nat) (st : VcpuIrqs) : Prop where
  pending : st.pending n = false
  edge : st.edge n = true
  lr : ¬ Held c st n

section Quiet

variable {c : VgicConfig} {st st' : VcpuIrqs} {n : Nat}

theorem Quiet.of_eq (hQuiet : Quiet c n st) (hPending : st'.pending n = st.pending n)
    (hEdge : st'.edge n = st.edge n) (hLr : st'.lr = st.lr) :
    Quiet c n st' where
  pending := hPending.trans hQuiet.pending
  edge := hEdge.trans hQuiet.edge
  lr := by
    unfold Held
    rw [hLr]
    exact hQuiet.lr

/-- One list register is written, and not with the pending interrupt. -/
theorem Quiet.set_lr (hQuiet : Quiet c n st) {i : Nat} {value : ListReg}
    (hLr : st'.lr = FunArray.set st.lr i value) (hPending : st'.pending n = st.pending n)
    (hEdge : st'.edge n = st.edge n)
    (hValue : value.vINTID = n → value.state.pending = true → Held c st n) :
    Quiet c n st' where
  pending := hPending.trans hQuiet.pending
  edge := hEdge.trans hQuiet.edge
  lr := by
    rintro ⟨k, hk, hIrq, hPend⟩
    rw [hLr] at hIrq hPend
    by_cases hEq : k = i
    · subst hEq
      rw [FunArray.set_same] at hIrq hPend
      exact hQuiet.lr (hValue hIrq hPend)
    · rw [FunArray.set_ne _ _ hEq] at hIrq hPend
      exact hQuiet.lr ⟨k, hk, hIrq, hPend⟩

theorem Quiet.inject (hQuiet : Quiet c n st) {irq : Nat} (hNe : irq ≠ n) :
    Quiet c n (vgicInjectVirqVcpuif c st irq).1 := by
  obtain ⟨d, i, value, _, hLr, hPending, hEdge, _⟩ := inject_writes c st irq
  split_ifs at hLr with hi
  · apply hQuiet.set_lr hLr (by rw [hPending]) (by rw [hEdge])
    intro hSame
    exact absurd hSame hNe
  · exact hQuiet.of_eq (by rw [hPending]) (by rw [hEdge]) hLr

theorem Quiet.syncLr (hQuiet : Quiet c n st) (i : Nat) : Quiet c n (syncLr c st i) := by
  have hFreed : Quiet c n (vgicv3WriteLr st i .zero) := by
    by_cases hi : i < 8
    · apply hQuiet.set_lr ((writeLr_lr st i .zero).trans (if_pos hi)) (by rw [writeLr_pending])
        (by rw [writeLr_edge])
      intro _ hPend
      cases hPend
    · exact hQuiet.of_eq (by rw [writeLr_pending]) (by rw [writeLr_edge])
        ((writeLr_lr st i .zero).trans (if_neg hi))
  unfold Vgic.syncLr
  simp only
  split
  · exact hFreed
  · split
    case isTrue hEdge => exact hFreed.of_eq rfl rfl rfl
    case isFalse hEdge =>
      -- a level-triggered interrupt becomes pending again, but this one is not
      have hNe : n ≠ (vgicv3ReadLr st i).vINTID := by
        intro hSame
        rw [← hSame] at hEdge
        exact hEdge hFreed.edge
      exact hFreed.of_eq (FunArray.set_ne _ _ hNe) rfl rfl

/-- Flushes and syncs do not bring the interrupt to the vCPU. -/
theorem kept_quiet (c : VgicConfig) (n : Nat) :
    Kept c (· ≠ n) (Quiet c n) where
  allowed := by
    intro st irq hQuiet hPending hEq
    rw [hEq, hQuiet.pending] at hPending
    cases hPending
  inject := fun _ _ hNe hQuiet => hQuiet.inject hNe
  pending := by
    intro st irq hQuiet
    by_cases hEq : n = irq
    · subst hEq
      exact ⟨FunArray.set_same _ _ _, hQuiet.edge, hQuiet.lr⟩
    · exact hQuiet.of_eq (FunArray.set_ne _ _ hEq) rfl rfl
  active := fun _ _ _ hQuiet => hQuiet.of_eq rfl rfl rfl
  src := fun _ _ _ hQuiet => hQuiet.of_eq rfl rfl rfl
  syncLr := fun _ i hQuiet => hQuiet.syncLr i

end Quiet

/-! ## Steps that do not assert the interrupt -/

/-- The operation asserts the interrupt on the vCPU. -/
def Asserts (n : Nat) : VirqOp → Prop
  | .set virq level _ _ => virq = n ∧ level = true
  | .setPend virq => virq = n
  | _ => False

section Step

variable {c : VgicConfig} {st : VcpuIrqs} {n : Nat}

theorem Quiet.latchVirq (hQuiet : Quiet c n st) (hSpi : localVirqNr ≤ n) {virq : Nat}
    {level : Bool} (hOther : ¬ (virq = n ∧ level = true)) :
    Quiet c n (latchVirq st virq level) := by
  obtain ⟨_, hLr, _, _, _, hEdge⟩ := latchVirq_frame st virq level
  apply hQuiet.of_eq ?_ (by rw [hEdge]) hLr
  rw [latchVirq_pending]
  by_cases hEq : n = virq
  · subst hEq
    have hLow : level = false := by simpa using hOther
    simp [raises, hLow, Nat.not_lt_of_le hSpi]
  · simp [hEq]

theorem Quiet.setLrState (hQuiet : Quiet c n st) {i : Nat} (hi : i < c.lrNum) {state : IrqState}
    (hState : state.pending = true → (st.lr i).state.pending = true) :
    Quiet c n (setLrState st i state) := by
  have hLr : (Vgic.setLrState st i state).lr =
      FunArray.set st.lr i { st.lr i with state := state } := rfl
  apply hQuiet.set_lr hLr rfl rfl
  intro hIrq hPend
  exact ⟨i, hi, hIrq, hState hPend⟩

theorem Quiet.step (hQuiet : Quiet c n st) (hSpi : localVirqNr ≤ n) {op : VirqOp}
    (hOther : ¬ Asserts n op) : Quiet c n (virqStep c st op) := by
  have hKept := kept_quiet c n
  cases op with
  | set virq level cur others =>
    exact hKept.set hQuiet (hQuiet.latchVirq hSpi hOther) cur others
  | sgi sgi sender cur =>
    simp only [virqStep]
    split
    case isTrue hSgi =>
      have hRecorded : Quiet c n (recordSender st sgi sender) := hQuiet.of_eq rfl rfl rfl
      refine hKept.set hRecorded (hRecorded.latchVirq hSpi ?_) cur false
      rintro ⟨hEq, _⟩
      simp only [localVirqNr] at hSpi
      omega
    case isFalse hSgi => exact hQuiet
  | flush => exact hKept.flush hQuiet
  | sync => exact hKept.sync hQuiet
  | syncFlush => exact hKept.flush (hKept.sync hQuiet)
  | ack i =>
    simp only [virqStep]
    split
    case isTrue hAck =>
      apply hQuiet.setLrState hAck.1
      intro hPend
      cases hPend
    case isFalse => exact hQuiet
  | eoi i =>
    simp only [virqStep]
    split
    case isTrue hEoi => exact hQuiet.setLrState hEoi.1 id
    case isFalse => exact hQuiet
  | enable virq on => exact hQuiet.of_eq rfl rfl rfl
  | setPend virq => exact hQuiet.of_eq (FunArray.set_ne _ _ (Ne.symm hOther)) rfl rfl
  | clearPend virq => exact hKept.pending st virq hQuiet
  | setPrio virq prio => exact hQuiet.of_eq rfl rfl rfl

end Step

/-! ## The vCPUs of all VMs -/

/-- An operation on one vCPU. -/
def vmsStep (c : Nat → VgicConfig) (w : Vms) (op : VcpuRef × VirqOp) : Vms :=
  Function.update w op.1 (virqStep (c op.1.vm) (w op.1) op.2)

def bootVms : Vms := fun _ => bootIrqs

/-- What survives every acceptable operation on a vCPU survives the operations on all. -/
theorem vmsStep_keeps {c : Nat → VgicConfig} {w : Vms} {t : VcpuRef} {P : VcpuIrqs → Prop}
    {op : VcpuRef × VirqOp} (hP : P (w t)) (hStep : ∀ st, P st → P (virqStep (c t.vm) st op.2)) :
    P (vmsStep c w op t) := by
  unfold vmsStep
  by_cases hEq : t = op.1
  · subst hEq
    rw [Function.update_self]
    exact hStep _ hP
  · rw [Function.update_of_ne hEq]
    exact hP

/-- No operation changes how an interrupt is triggered. -/
theorem edge_run (c : Nat → VgicConfig) (ops : List (VcpuRef × VirqOp)) (t : VcpuRef) (n : Nat) :
    (exec (vmsStep c) bootVms ops t).edge n = true := by
  have hStep : ∀ op ∈ ops, ∀ w : Vms, Traced (fun _ => True) (w t) →
      Traced (fun _ => True) (vmsStep c w op t) := by
    intro op _ w hTraced
    exact vmsStep_keeps hTraced fun st hSt => hSt.step fun _ _ => trivial
  exact (exec_invariant_of_mem ops hStep bootVms (traced_boot _)).edge n

/-! ## One assertion -/

/-- How the interrupt is asserted: by `set_virq_to_vm` in a context, or by a guest's write of
its bit to `GICD_ISPENDR`. -/
inductive Assertion where
  | virq (cur : Option VcpuRef)
  | ispendr

/-- The write to `GICD_ISPENDR` sets the bits of all vCPUs. -/
def assertVirq (c : Nat → VgicConfig) (w : Vms) (vm n : Nat) : Assertion → Vms
  | .virq cur => setVirqToVm c w cur vm n
  | .ispendr => fun t =>
    if t.vm = vm ∧ t.vcpuId < (c vm).vcpuNum then setPending (w t) n true else w t

/-- Enabled on all vCPUs, pending and active on none. -/
structure IdleIrq (c : VgicConfig) (n : Nat) (st : VcpuIrqs) : Prop where
  enabled : st.enabled n = true
  pending : st.pending n = false
  active : st.active n = false
  lr : ∀ i < c.lrNum, (st.lr i).vINTID = n → (st.lr i).state = .invalid

/-- In the whole run, one vCPU of the VM at most has a list register with the interrupt. -/
def DeliveredOnce (c : Nat → VgicConfig) (vm n : Nat) (w : Vms) (ops : List (VcpuRef × VirqOp)) :
    Prop :=
  ∃ v, Always (vmsStep c)
    (fun w => ∀ k < (c vm).vcpuNum, Held (c vm) (w ⟨vm, k⟩) n → k = v) w ops

/-- The condition: `set_virq_to_vm`, or one vCPU. -/
def Assertion.Single (c : VgicConfig) : Assertion → Prop
  | .virq _ => True
  | .ispendr => c.vcpuNum ≤ 1

/-- Every vCPU can take the interrupt at its next flush. -/
structure HasRoomFor (c : VgicConfig) (n : Nat) (st : VcpuIrqs) : Prop where
  lrInv : LrInv c st
  bank : n < 32 * (c.virqNr / 32)
  room : LeavesRoom c (setPending st n true) .flush

section Once

variable {c : Nat → VgicConfig} {vm n : Nat} {w : Vms}

theorem IdleIrq.quiet {c : VgicConfig} {st : VcpuIrqs} (hIdle : IdleIrq c n st)
    (hEdge : st.edge n = true) :
    Quiet c n st where
  pending := hIdle.pending
  edge := hEdge
  lr := by
    rintro ⟨i, hi, hIrq, hPend⟩
    rw [hIdle.lr i hi hIrq] at hPend
    cases hPend

/-- A quiet vCPU stays so. -/
theorem quiet_run (hSpi : localVirqNr ≤ n) {t : VcpuRef} (ops : List (VcpuRef × VirqOp)) :
    ∀ w : Vms, Quiet (c t.vm) n (w t) → (∀ op ∈ ops, ¬ Asserts n op.2) →
      Always (vmsStep c) (fun w => Quiet (c t.vm) n (w t)) w ops := by
  induction ops with
  | nil =>
    intro w hQuiet _
    exact hQuiet
  | cons op ops ih =>
    intro w hQuiet hOps
    have hNext : Quiet (c t.vm) n (vmsStep c w op t) :=
      vmsStep_keeps hQuiet fun st hSt => hSt.step hSpi (hOps op (by simp))
    exact ⟨hQuiet, ih _ hNext fun o ho => hOps o (by simp [ho])⟩

/-- The vCPUs other than the one that `set_virq_to_vm` acts on stay without the interrupt. -/
theorem deliveredOnce_virq (hSpi : localVirqNr ≤ n) (cur : Option VcpuRef)
    (hQuiet : ∀ k < (c vm).vcpuNum, Quiet (c vm) n (w ⟨vm, k⟩)) {ops : List (VcpuRef × VirqOp)}
    (hOps : ∀ op ∈ ops, ¬ Asserts n op.2) :
    DeliveredOnce c vm n (setVirqToVm c w cur vm n) ops := by
  refine ⟨(targetVcpu cur vm).vcpuId, ?_⟩
  rw [always_iff_forall_take]
  intro m k hk hHeld
  by_contra hNe
  have hOther : (⟨vm, k⟩ : VcpuRef) ≠ targetVcpu cur vm := by
    intro hEq
    exact hNe (congrArg VcpuRef.vcpuId hEq)
  have hStart : Quiet (c vm) n (setVirqToVm c w cur vm n ⟨vm, k⟩) := by
    rw [setVirqToVm, setVirqToVcpu_other hOther]
    exact hQuiet k hk
  have hRun := quiet_run (t := ⟨vm, k⟩) hSpi ops _ hStart hOps
  exact ((always_iff_forall_take _ _ _ _).mp hRun m).lr hHeld

/-- With room, a flush brings the interrupt to the vCPU. -/
theorem held_flush {c : VgicConfig} {st : VcpuIrqs} (hRoom : HasRoomFor c n st)
    (hEnabled : st.enabled n = true) : Held c (virtIrqFlushVgic c (setPending st n true)) n := by
  have hFlushed := virtIrqFlushVgic_flushed (hRoom.lrInv.setPending n true) hRoom.room
  apply hFlushed.held_all
  exact mem_flushed.mpr ⟨hRoom.bank, FunArray.set_same _ _ _, hEnabled⟩

/-- Two vCPUs that are flushed after the guest's write both get the interrupt. -/
theorem single_of_ispendr (hIdle : ∀ k < (c vm).vcpuNum, IdleIrq (c vm) n (w ⟨vm, k⟩))
    (hRoom : ∀ k < (c vm).vcpuNum, HasRoomFor (c vm) n (w ⟨vm, k⟩))
    (hAll : ∀ ops, (∀ op ∈ ops, ¬ Asserts n op.2) →
      DeliveredOnce c vm n (assertVirq c w vm n .ispendr) ops) : (c vm).vcpuNum ≤ 1 := by
  by_contra hMany
  have hSet : ∀ k < (c vm).vcpuNum,
      assertVirq c w vm n .ispendr ⟨vm, k⟩ = setPending (w ⟨vm, k⟩) n true :=
    fun k hk => if_pos ⟨rfl, hk⟩
  have hFlushed : ∀ k < (c vm).vcpuNum,
      Held (c vm) (virtIrqFlushVgic (c vm) (setPending (w ⟨vm, k⟩) n true)) n :=
    fun k hk => held_flush (hRoom k hk) (hIdle k hk).enabled
  -- the first two vCPUs are flushed, one after the other
  obtain ⟨v, hAlways⟩ := hAll [(⟨vm, 0⟩, .flush), (⟨vm, 1⟩, .flush)] (by simp [Asserts])
  have hEnd := (always_iff_forall_take _ _ _ _).mp hAlways 2
  have hFirst := hEnd 0 (by omega)
  have hSecond := hEnd 1 (by omega)
  have hNe : (⟨vm, 0⟩ : VcpuRef) ≠ ⟨vm, 1⟩ := by simp
  simp only [List.take, exec_cons, exec_nil, vmsStep, virqStep] at hFirst hSecond
  rw [Function.update_of_ne hNe, Function.update_self, hSet 0 (by omega)] at hFirst
  rw [Function.update_self, Function.update_of_ne (Ne.symm hNe), hSet 1 (by omega)] at hSecond
  have hZero := hFirst (hFlushed 0 (by omega))
  have hOne := hSecond (hFlushed 1 (by omega))
  omega

end Once

/-! ## The write to the distributor

`assertVirq` says which bits the write sets; here they are found in the distributor's banks. -/

section Ispendr

variable {b : GicBuild} {g : Gic}

/-- A guest's write of the bit of interrupt `n` to `GICD_ISPENDR` sets it for every vCPU. -/
theorem bit_ispendr (hNr : 32 ∣ b.virqNr) {n : Nat} (hSpi : localVirqNr ≤ n) (hn : n < b.virqNr)
    (hReg : n < 1024) (vcpu : Nat) {v irq : Nat} (hv : v < b.vcpuNum) (hIrq : irq < b.virqNr) :
    (vgicGicdMemWrite b g vcpu (GicReg.ispendr.offset n) (1#32 <<< (n % 32))).1.bit b .pending v irq =
      (g.bit b .pending v irq || irq == n) := by
  have hBanks : 32 * b.bankNum = b.virqNr := Nat.mul_div_cancel' hNr
  have hNum := b.vcpuNum_le
  simp only [localVirqNr] at hSpi
  obtain ⟨g', hWrite, hChanged⟩ := @bankWrite_changed b g .pending true
    (1#32 <<< (n % 32)) (n / 32) hNr (by omega) (by omega)
  simp only [vgicGicdMemWrite, show GicReg.ispendr.offset n = bankOffset .pending true (n / 32) from rfl,
    decodeGicd_bank _ (show n / 32 < 32 by omega), hWrite]
  unfold Gic.bit
  by_cases hLocal : irq < 32
  · rw [if_pos hLocal, if_pos hLocal, hChanged.rest]
    have hNe : (irq == n) = false := by
      rw [beq_eq_false_iff_ne]
      omega
    simp [hNe]
  · rw [if_neg hLocal, if_neg hLocal]
    by_cases hBank : irq / 32 = n / 32
    · rw [hBank, hChanged.bank v hv, writtenBits, if_pos rfl, BitVec.getLsbD_or,
        BitField.getLsbD_one_shiftLeft (Nat.mod_lt _ (by decide))]
      have hBit : (irq % 32 = n % 32) ↔ irq = n := by omega
      simp [hBit, beq_eq_decide]
    · have hNe : (irq == n) = false := by
        rw [beq_eq_false_iff_ne]
        rintro rfl
        exact hBank rfl
      rw [hChanged.others .pending v _ (by omega) (by omega) fun hBoth => hBank hBoth.2.2, hNe,
        Bool.or_false]

/-- What the guest's write does to the banks is what `assertVirq` does to the vCPUs. -/
theorem assertVirq_ispendr {c : Nat → VgicConfig} {vm n : Nat} {w : Vms} (hNr : 32 ∣ b.virqNr)
    (hSpi : localVirqNr ≤ n) (hn : n < b.virqNr) (hReg : n < 1024)
    (hVcpus : (c vm).vcpuNum = b.vcpuNum)
    (hBits : ∀ v < b.vcpuNum, ∀ irq < b.virqNr, (w ⟨vm, v⟩).pending irq = g.bit b .pending v irq)
    (vcpu : Nat) :
    ∀ v < b.vcpuNum, ∀ irq < b.virqNr, (assertVirq c w vm n .ispendr ⟨vm, v⟩).pending irq =
      (vgicGicdMemWrite b g vcpu (GicReg.ispendr.offset n) (1#32 <<< (n % 32))).1.bit b .pending v
        irq := by
  intro v hv irq hIrq
  rw [bit_ispendr hNr hSpi hn hReg vcpu hv hIrq, ← hBits v hv irq hIrq]
  simp only [assertVirq, hVcpus, hv, and_self, if_true, setPending, FunArray.set_apply]
  by_cases hEq : irq = n
  · simp [hEq]
  · simp [hEq]

end Ispendr

/--
**A shared interrupt is delivered once**: from every reachable state in which it is enabled on
all vCPUs and idle, one assertion is delivered to one vCPU at most in every run without
another assertion, if it is made by `set_virq_to_vm` or the VM has one vCPU only; if all vCPUs
have list registers for it, only then.
-/
theorem shared_delivered_once (c : Nat → VgicConfig) (vm n : Nat) (hSpi : localVirqNr ≤ n)
    (before : List (VcpuRef × VirqOp))
    (hIdle : ∀ k < (c vm).vcpuNum, IdleIrq (c vm) n (exec (vmsStep c) bootVms before ⟨vm, k⟩))
    (a : Assertion) :
    (a.Single (c vm) → ∀ ops, (∀ op ∈ ops, ¬ Asserts n op.2) →
      DeliveredOnce c vm n (assertVirq c (exec (vmsStep c) bootVms before) vm n a) ops) ∧
    ((∀ k < (c vm).vcpuNum, HasRoomFor (c vm) n (exec (vmsStep c) bootVms before ⟨vm, k⟩)) →
      (∀ ops, (∀ op ∈ ops, ¬ Asserts n op.2) →
        DeliveredOnce c vm n (assertVirq c (exec (vmsStep c) bootVms before) vm n a) ops) →
      a.Single (c vm)) := by
  constructor
  · intro hSingle ops hOps
    cases a with
    | virq cur =>
      exact deliveredOnce_virq hSpi cur
        (fun k hk => (hIdle k hk).quiet (edge_run c before ⟨vm, k⟩ n)) hOps
    | ispendr =>
      refine ⟨0, (always_iff_forall_take _ _ _ _).mpr ?_⟩
      intro m k hk _
      have hOne : (c vm).vcpuNum ≤ 1 := hSingle
      omega
  · intro hRoom hAll
    cases a with
    | virq cur => exact trivial
    | ispendr => exact single_of_ispendr hIdle hRoom hAll

/-- A VM with two vCPUs. -/
def pairVgic : VgicConfig := { sampleVgic 4 (by decide) with vcpuNum := 2 }

/-- Interrupt 40 is enabled on both vCPUs. -/
def enableBoth : List (VcpuRef × VirqOp) :=
  [(⟨0, 0⟩, .enable 40 true), (⟨0, 1⟩, .enable 40 true)]

/-- Both vCPUs are flushed. -/
def flushBoth : List (VcpuRef × VirqOp) := [(⟨0, 0⟩, .flush), (⟨0, 1⟩, .flush)]

/-- A device's interrupt is delivered once. -/
theorem shared_delivered_once_device :
    DeliveredOnce (fun _ => pairVgic) 0 40
      (assertVirq (fun _ => pairVgic) (exec (vmsStep fun _ => pairVgic) bootVms enableBoth) 0 40
        (.virq none)) flushBoth := by
  have hIdle : ∀ k < 2, IdleIrq pairVgic 40
      (exec (vmsStep fun _ => pairVgic) bootVms enableBoth ⟨0, k⟩) := by
    intro k hk
    rcases (by omega : k = 0 ∨ k = 1) with rfl | rfl
    · exact ⟨by decide, by decide, by decide, by decide⟩
    · exact ⟨by decide, by decide, by decide, by decide⟩
  exact (shared_delivered_once (fun _ => pairVgic) 0 40 (by decide) enableBoth hIdle (.virq none)).1
    trivial flushBoth (by simp [flushBoth, Asserts])

/-- An interrupt that the guest makes pending is delivered to both vCPUs. -/
theorem shared_delivered_twice :
    let w := exec (vmsStep fun _ => pairVgic)
      (assertVirq (fun _ => pairVgic) (exec (vmsStep fun _ => pairVgic) bootVms enableBoth) 0 40
        .ispendr) flushBoth
    (Held pairVgic (w ⟨0, 0⟩) 40 ∧ Held pairVgic (w ⟨0, 1⟩) 40) ∧
      ¬ DeliveredOnce (fun _ => pairVgic) 0 40
        (assertVirq (fun _ => pairVgic) (exec (vmsStep fun _ => pairVgic) bootVms enableBoth) 0 40
          .ispendr) flushBoth := by
  intro w
  have hFirst : Held pairVgic (w ⟨0, 0⟩) 40 := by decide
  have hSecond : Held pairVgic (w ⟨0, 1⟩) 40 := by decide
  refine ⟨⟨hFirst, hSecond⟩, ?_⟩
  rintro ⟨v, hAlways⟩
  have hEnd := (always_iff_forall_take _ _ _ _).mp hAlways 2
  have hZero := hEnd 0 (by decide) hFirst
  have hOne := hEnd 1 (by decide) hSecond
  omega

end Zvm.Vgic
