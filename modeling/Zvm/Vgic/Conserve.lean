import Zvm.Vgic.Flush
import Zvm.Verified.Run

/-!
# No virtual interrupt is lost

A run is any sequence of injections, flushes, syncs, guest steps on list registers and
guest writes to the enable, pending and priority registers.  An interrupt that is
pending stays so until the guest takes it, clears it or disables it, provided that every
flush of the run finds enough list registers: the code has no other answer to a full set
than to write to a register that does not exist and clear the pending bit.
-/

namespace Zvm.Vgic

open Zvm.Verified Zvm.Verified.Run

/-- What happens to a vCPU's interrupts. -/
inductive VirqOp where
  | set (virq : Nat) (level cur others : Bool)
  | sgi (sgi sender : Nat) (cur : Bool)
  | flush
  | sync
  | syncFlush
  | ack (i : Nat)
  | eoi (i : Nat)
  | enable (virq : Nat) (on : Bool)
  | setPend (virq : Nat)
  | clearPend (virq : Nat)
  | setPrio (virq prio : Nat)

/-- The guest acknowledges or ends the interrupt of a list register. -/
def setLrState (st : VcpuIrqs) (i : Nat) (state : IrqState) : VcpuIrqs :=
  { st with lr := FunArray.set st.lr i { st.lr i with state := state } }

/-- An operation that is not possible does nothing. -/
def virqStep (c : VgicConfig) (st : VcpuIrqs) : VirqOp → VcpuIrqs
  | .set virq level cur others => vgicSetVirqToVcpu c st virq level cur others
  | .sgi sgi sender cur =>
    if sgi < 16 ∧ sender < c.vcpuNum then raiseSgi c st sgi sender cur else st
  | .flush => virtIrqFlushVgic c st
  | .sync => virtIrqSyncVgic c st
  | .syncFlush => virtIrqFlushVgic c (virtIrqSyncVgic c st)
  | .ack i =>
    if i < c.lrNum ∧ (st.lr i).state = ⟨true, false⟩ then setLrState st i ⟨false, true⟩ else st
  | .eoi i =>
    -- an interrupt that became pending again while it was active stays pending
    if i < c.lrNum ∧ (st.lr i).state.active = true then
      setLrState st i ⟨(st.lr i).state.pending, false⟩
    else st
  | .enable virq on => { st with enabled := FunArray.set st.enabled virq on }
  | .setPend virq => setPending st virq true
  | .clearPend virq => setPending st virq false
  | .setPrio virq prio => setDesc st virq { st.desc virq with prio := prio }

/-- The interrupt is pending in one of the two places. -/
def Pends (c : VgicConfig) (st : VcpuIrqs) (irq : Nat) : Prop :=
  st.pending irq = true ∨ Held c st irq

/-- The guest takes the interrupt, clears it or disables it. -/
def Releases (st : VcpuIrqs) (irq : Nat) : VirqOp → Prop
  | .ack i => (st.lr i).vINTID = irq
  | .enable virq on => virq = irq ∧ on = false
  | .clearPend virq => virq = irq
  | _ => False

/-- `vgic_set_virq_to_vcpu` makes the interrupt pending. -/
def raises (st : VcpuIrqs) (virq : Nat) (level : Bool) : Bool :=
  decide (virq < localVirqNr) || (level && !(st.desc virq).level)

/-- There are list registers for the interrupts that are pending and enabled, and for
`virq` if it becomes pending, once those are collected that the guest is done with. -/
def RoomToRaise (c : VgicConfig) (st : VcpuIrqs) (virq : Nat) (level : Bool) : Prop :=
  (waiting c (fun k => st.pending k || (k == virq && raises st virq level)) st.enabled
    (busyLr st)).card ≤ (freeLrs c st).card

/-- If the operation flushes, there are enough list registers, among those that exist
and have a number below 8. -/
def LeavesRoom (c : VgicConfig) (st : VcpuIrqs) : VirqOp → Prop
  | .set virq level cur others =>
    cur = false ∨ isVirqEnabled c st virq level others = false ∨ RoomToRaise c st virq level
  | .sgi sgi _ cur => cur = false ∨ st.enabled sgi = false ∨ RoomToRaise c st sgi true
  | .flush => (waiting c st.pending st.enabled (hasLr st)).card ≤ (idleLrs c st).card
  | .syncFlush => (waiting c st.pending st.enabled (busyLr st)).card ≤ (freeLrs c st).card
  | _ => True

section Steps

variable {c : VgicConfig} {st : VcpuIrqs}

/-! ## Flush and sync -/

/-- What every step that is not the guest's does to pending interrupts. -/
structure Keeps (c : VgicConfig) (st st' : VcpuIrqs) : Prop where
  lrInv : LrInv c st'
  pends : ∀ irq, Pends c st irq → Pends c st' irq

theorem Keeps.refl (hInv : LrInv c st) : Keeps c st st := ⟨hInv, fun _ hPends => hPends⟩

theorem Keeps.trans {st' st'' : VcpuIrqs} (hFirst : Keeps c st st') (hRest : Keeps c st' st'') :
    Keeps c st st'' :=
  ⟨hRest.lrInv, fun irq hPends => hRest.pends irq (hFirst.pends irq hPends)⟩

theorem Flushed.keeps {st' : VcpuIrqs} {irqs : List Nat} (hFlushed : Flushed c st st' irqs) :
    Keeps c st st' := by
  refine ⟨hFlushed.lrInv, ?_⟩
  intro irq hPends
  rcases hPends with hBit | hHeld
  · by_cases hIn : irq ∈ irqs
    · exact .inr (hFlushed.held_all irq hIn)
    · left
      rw [hFlushed.pending, hBit]
      simpa using hIn
  · exact .inr (hFlushed.held irq hHeld)

theorem keeps_sync (hInv : LrInv c st) : Keeps c st (virtIrqSyncVgic c st) := by
  have hSync := virtIrqSyncVgic_synced hInv
  refine ⟨hSync.lrInv, ?_⟩
  intro irq hPends
  rcases hPends with hBit | hHeld
  · left
    rw [hSync.pending]
    exact hBit
  · exact .inr ((held_sync hInv).mpr hHeld)

/-- The interrupts that wait after a sync are those that are not in a busy register. -/
theorem sync_flush_flushed (hInv : LrInv c st)
    (hRoom : (waiting c st.pending st.enabled (busyLr st)).card ≤ (freeLrs c st).card) :
    Flushed c (virtIrqSyncVgic c st) (virtIrqFlushVgic c (virtIrqSyncVgic c st))
      (flushed c (virtIrqSyncVgic c st)) := by
  have hSync := virtIrqSyncVgic_synced hInv
  apply virtIrqFlushVgic_flushed hSync.lrInv
  have hHas : hasLr (virtIrqSyncVgic c st) = busyLr st := funext (hasLr_sync hInv)
  rw [hSync.pending, hSync.enabled, hHas, idleLrs_sync hInv]
  exact hRoom

theorem keeps_sync_flush (hInv : LrInv c st)
    (hRoom : (waiting c st.pending st.enabled (busyLr st)).card ≤ (freeLrs c st).card) :
    Keeps c st (virtIrqFlushVgic c (virtIrqSyncVgic c st)) :=
  (keeps_sync hInv).trans (sync_flush_flushed hInv hRoom).keeps

/-! ## Injection -/

theorem latchVirq_pending (st : VcpuIrqs) (virq : Nat) (level : Bool) (k : Nat) :
    (latchVirq st virq level).pending k =
      (st.pending k || (k == virq && raises st virq level)) := by
  unfold latchVirq raises
  by_cases hk : k = virq
  · subst hk
    cases level <;> cases hLevel : (st.desc k).level <;> by_cases hLocal : k < localVirqNr <;>
      simp [hLocal, hLevel, setPending, setDesc]
  · have hNe : (k == virq) = false := by simpa using hk
    rw [hNe, Bool.false_and, Bool.or_false]
    by_cases hLocal : virq < localVirqNr
    · simp [hLocal, setPending, FunArray.set, hk]
    · simp only [hLocal, if_false]
      split
      · split
        · simp [setPending, setDesc, FunArray.set, hk]
        · rfl
      · rfl

/-- What latching does to the rest of the state: a descriptor's level may change. -/
theorem latchVirq_frame (st : VcpuIrqs) (virq : Nat) (level : Bool) :
    (latchVirq st virq level).enabled = st.enabled ∧ (latchVirq st virq level).lr = st.lr ∧
      (latchVirq st virq level).listRegsMap = st.listRegsMap ∧
      (∀ k, ((latchVirq st virq level).desc k).id = (st.desc k).id) ∧
      (∀ k, ((latchVirq st virq level).desc k).srcCpu = (st.desc k).srcCpu) ∧
      (latchVirq st virq level).edge = st.edge := by
  unfold latchVirq
  by_cases hLocal : virq < localVirqNr
  · simp [hLocal, setPending]
  · simp only [hLocal, if_false]
    split
    · split
      all_goals
        refine ⟨rfl, rfl, rfl, ?_, ?_, rfl⟩
        all_goals
          intro k
          by_cases hk : k = virq <;> simp [setPending, setDesc, FunArray.set, hk]
    · exact ⟨rfl, rfl, rfl, fun _ => rfl, fun _ => rfl, rfl⟩

theorem keeps_latchVirq (hInv : LrInv c st) (virq : Nat) (level : Bool) :
    Keeps c st (latchVirq st virq level) := by
  obtain ⟨_, hLr, hMap, hId, hSrc, hEdge⟩ := latchVirq_frame st virq level
  refine ⟨⟨?_, ?_, ?_, ?_, ?_⟩, ?_⟩
  · rw [hEdge]
    exact hInv.edge
  · rw [hMap, hLr]
    exact hInv.free
  · intro i
    rw [hMap, hLr, hId]
    exact hInv.mapped i
  · intro k
    rw [hMap, hLr, hId]
    exact hInv.descId k
  · intro k i
    rw [hSrc]
    exact hInv.src k i
  · intro irq hPends
    rcases hPends with hBit | ⟨i, hi, hHolds⟩
    · left
      rw [latchVirq_pending, hBit, Bool.true_or]
    · exact .inr ⟨i, hi, by rw [hLr]; exact hHolds⟩

theorem waiting_latchVirq (virq : Nat) (level : Bool) (hRoom : RoomToRaise c st virq level) :
    (waiting c (latchVirq st virq level).pending (latchVirq st virq level).enabled
      (busyLr (latchVirq st virq level))).card ≤ (freeLrs c (latchVirq st virq level)).card := by
  obtain ⟨hEn, hLr, _, hId, _, _⟩ := latchVirq_frame st virq level
  have hPend : (latchVirq st virq level).pending =
      fun k => st.pending k || (k == virq && raises st virq level) :=
    funext (latchVirq_pending st virq level)
  have hEmpty : ∀ i, emptyLr (latchVirq st virq level) i = emptyLr st i := by
    intro i
    rw [emptyLr, hLr, emptyLr]
  have hBusy : busyLr (latchVirq st virq level) = busyLr st := by
    funext k
    rw [busyLr, hasLr, hId, hEmpty, busyLr, hasLr]
  have hFree : freeLrs c (latchVirq st virq level) = freeLrs c st := by
    simp only [freeLrs, hEmpty]
  rw [hPend, hEn, hBusy, hFree]
  exact hRoom

theorem keeps_set (hInv : LrInv c st) {virq : Nat} {level cur others : Bool}
    (hRoom : LeavesRoom c st (.set virq level cur others)) :
    Keeps c st (vgicSetVirqToVcpu c st virq level cur others) := by
  unfold vgicSetVirqToVcpu
  split
  · exact Keeps.refl hInv
  · split
    case isTrue => exact Keeps.refl hInv
    case isFalse hEnabled =>
      have hLatch := keeps_latchVirq hInv virq level
      split
      case isTrue hCur =>
        have hEnough : RoomToRaise c st virq level := by
          rcases hRoom with hNot | hOff | hEnough
          · rw [hCur] at hNot
            cases hNot
          · simp [hOff] at hEnabled
          · exact hEnough
        exact hLatch.trans (keeps_sync_flush hLatch.lrInv (waiting_latchVirq virq level hEnough))
      case isFalse => exact hLatch

theorem keeps_setDesc (hInv : LrInv c st) {irq : Nat} {d : VirqDesc}
    (hId : d.id = (st.desc irq).id) (hSrc : ∀ k, d.srcCpu.getLsbD k = true → k < c.vcpuNum) :
    Keeps c st (setDesc st irq d) :=
  ⟨hInv.setDesc hId hSrc, fun _ hPends => hPends⟩

theorem keeps_recordSender (hInv : LrInv c st) (sgi : Nat) {sender : Nat}
    (hSender : sender < c.vcpuNum) : Keeps c st (recordSender st sgi sender) := by
  have hSrc : ∀ k, ((st.desc sgi).srcCpu ||| 1#32 <<< sender).getLsbD k = true →
      k < c.vcpuNum := by
    intro k hk
    rw [BitVec.getLsbD_or, Bool.or_eq_true] at hk
    rcases hk with hOld | hNew
    · exact hInv.src sgi k hOld
    · simp only [BitVec.getLsbD_shiftLeft, BitVec.getLsbD_one] at hNew
      grind
  exact keeps_setDesc hInv rfl hSrc

/-- Recording the sender does not change what an injection needs. -/
theorem leavesRoom_recordSender {sgi sender : Nat} {cur : Bool} (hSgi : sgi < 16)
    (hRoom : LeavesRoom c st (.sgi sgi sender cur)) :
    LeavesRoom c (recordSender st sgi sender) (.set sgi true cur false) := by
  rcases hRoom with hNot | hOff | hEnough
  · exact .inl hNot
  · right
    left
    have hOwn : (recordSender st sgi sender).enabled sgi = false := hOff
    simp [isVirqEnabled, hOwn]
  · right
    right
    have hLocal : sgi < localVirqNr := by
      rw [localVirqNr]
      omega
    have hRaises : ∀ st', raises st' sgi true = true := by simp [raises, hLocal]
    have hBusy : busyLr (recordSender st sgi sender) = busyLr st := by
      funext k
      have hId : ((recordSender st sgi sender).desc k).id = (st.desc k).id := by
        by_cases hk : k = sgi <;> simp [recordSender, setDesc, FunArray.set, hk]
      rw [busyLr, hasLr, hId, busyLr, hasLr]
      rfl
    unfold RoomToRaise at hEnough ⊢
    rw [hRaises] at hEnough ⊢
    rw [hBusy]
    exact hEnough

theorem keeps_sgi (hInv : LrInv c st) {sgi sender : Nat} {cur : Bool} (hSgi : sgi < 16)
    (hSender : sender < c.vcpuNum) (hRoom : LeavesRoom c st (.sgi sgi sender cur)) :
    Keeps c st (raiseSgi c st sgi sender cur) := by
  have hDesc := keeps_recordSender hInv sgi hSender
  exact hDesc.trans (keeps_set hDesc.lrInv (leavesRoom_recordSender hSgi hRoom))

/-! ## Guest steps -/

/-- A guest step on a list register that is in use. -/
theorem lrInv_setLrState (hInv : LrInv c st) {i : Nat} {state : IrqState}
    (hUsed : (st.lr i).state ≠ .invalid) : LrInv c (setLrState st i state) := by
  have hBit : st.listRegsMap.getLsbD i = true := by
    by_contra hOff
    exact hUsed (hInv.free i (by simpa using hOff))
  have hIntid : ∀ k, ((setLrState st i state).lr k).vINTID = (st.lr k).vINTID := by
    intro k
    by_cases hk : k = i <;> simp [setLrState, FunArray.set, hk]
  refine ⟨hInv.edge, ?_, ?_, ?_, hInv.src⟩
  · intro k hk
    have hNe : k ≠ i := by
      intro hEq
      have hOff : st.listRegsMap.getLsbD k = false := hk
      rw [hEq, hBit] at hOff
      cases hOff
    simpa [setLrState, FunArray.set, hNe] using hInv.free k hk
  · intro k hk
    rw [hIntid]
    exact hInv.mapped k hk
  · intro irq
    rw [hIntid]
    exact hInv.descId irq

/-- A register's state may change as long as a pending interrupt in it stays pending. -/
theorem held_setLrState {i irq : Nat} {state : IrqState} (hHeld : Held c st irq)
    (hKeep : (st.lr i).vINTID = irq → (st.lr i).state.pending = true → state.pending = true) :
    Held c (setLrState st i state) irq := by
  obtain ⟨k, hk, hIrq, hPend⟩ := hHeld
  refine ⟨k, hk, ?_⟩
  by_cases hEq : k = i
  · subst hEq
    simpa [setLrState, FunArray.set, hIrq] using hKeep hIrq hPend
  · simpa [setLrState, FunArray.set, hEq, hIrq] using hPend

/-! ## Every step -/

/-- One step keeps the invariant, and an interrupt pending that it does not release. -/
theorem virqStep_keeps (hInv : LrInv c st) {op : VirqOp} (hRoom : LeavesRoom c st op) :
    LrInv c (virqStep c st op) ∧
      ∀ irq, Pends c st irq → ¬ Releases st irq op → Pends c (virqStep c st op) irq := by
  have hAll : ∀ {st' : VcpuIrqs}, Keeps c st st' →
      LrInv c st' ∧ ∀ irq, Pends c st irq → ¬ Releases st irq op → Pends c st' irq :=
    fun hKeeps => ⟨hKeeps.lrInv, fun irq hPends _ => hKeeps.pends irq hPends⟩
  cases op with
  | set virq level cur others => exact hAll (keeps_set hInv hRoom)
  | sgi sgi sender cur =>
    simp only [virqStep]
    split
    case isTrue hGuard => exact hAll (keeps_sgi hInv hGuard.1 hGuard.2 hRoom)
    case isFalse => exact hAll (Keeps.refl hInv)
  | flush => exact hAll (virtIrqFlushVgic_flushed hInv hRoom).keeps
  | sync => exact hAll (keeps_sync hInv)
  | syncFlush => exact hAll (keeps_sync_flush hInv hRoom)
  | ack i =>
    simp only [virqStep]
    split
    case isTrue hGuard =>
      refine ⟨lrInv_setLrState hInv (by rw [hGuard.2]; decide), fun irq hPends hNot => ?_⟩
      exact hPends.imp id fun hHeld => held_setLrState hHeld fun hIrq => absurd hIrq hNot
    case isFalse => exact hAll (Keeps.refl hInv)
  | eoi i =>
    simp only [virqStep]
    split
    case isTrue hGuard =>
      refine ⟨lrInv_setLrState hInv fun hInvalid => ?_, fun irq hPends _ => ?_⟩
      · rw [hInvalid] at hGuard
        exact absurd hGuard.2 (by decide)
      · exact hPends.imp id fun hHeld => held_setLrState hHeld fun _ hPend => hPend
    case isFalse => exact hAll (Keeps.refl hInv)
  | enable virq on =>
    exact ⟨⟨hInv.edge, hInv.free, hInv.mapped, hInv.descId, hInv.src⟩, fun _ hPends _ => hPends⟩
  | setPend virq =>
    refine ⟨hInv.setPending virq true, fun irq hPends _ => hPends.imp (fun hBit => ?_) id⟩
    show FunArray.set st.pending virq true irq = true
    exact FunArray.set_elim (fun _ => rfl) fun _ => hBit
  | clearPend virq =>
    refine ⟨hInv.setPending virq false, fun irq hPends hNot => hPends.imp (fun hBit => ?_) id⟩
    exact (FunArray.set_ne _ _ fun hEq => hNot hEq.symm).trans hBit
  | setPrio virq prio => exact ⟨hInv.setDesc rfl (hInv.src virq), fun _ hPends _ => hPends⟩

end Steps

/-- The invariant holds after every run whose flushes find room. -/
theorem lrInv_run (c : VgicConfig) {ops : List VirqOp}
    (hRoom : Admissible (virqStep c) (LeavesRoom c) bootIrqs ops) :
    LrInv c (exec (virqStep c) bootIrqs ops) :=
  exec_invariant (fun st _ (hInv : LrInv c st) hOp => (virqStep_keeps hInv hOp).1) ops bootIrqs
    (lrInv_boot c) hRoom

/--
**Conservation of virtual interrupts**: after every run whose flushes find room, an
enabled and pending interrupt is still pending after any further operation that finds
room, unless the guest takes it, clears it or disables it; and a flush clears a pending
bit only of an interrupt that a list register now holds as pending.
-/
theorem pending_conserved (c : VgicConfig) (ops : List VirqOp)
    (hRoom : Admissible (virqStep c) (LeavesRoom c) bootIrqs ops) :
    let st := exec (virqStep c) bootIrqs ops
    (∀ op, LeavesRoom c st op → ∀ irq, st.enabled irq = true → Pends c st irq →
      ¬ Releases st irq op → Pends c (virqStep c st op) irq) ∧
    (LeavesRoom c st .flush → ∀ irq, st.pending irq = true →
      (virtIrqFlushVgic c st).pending irq = false → Held c (virtIrqFlushVgic c st) irq) := by
  intro st
  have hInv : LrInv c st := lrInv_run c hRoom
  refine ⟨?_, ?_⟩
  · intro op hOp irq _ hPends hNot
    exact (virqStep_keeps hInv hOp).2 irq hPends hNot
  · intro hOp irq hBit hCleared
    have hPends : Pends c (virqStep c st .flush) irq :=
      (virqStep_keeps hInv hOp).2 irq (.inl hBit) fun hRel => hRel
    rcases hPends with hStill | hHeld
    · exact absurd (hCleared.symm.trans hStill) (by decide)
    · exact hHeld

/-- A build with 64 interrupts on hardware with `lrNum` list registers. -/
def sampleVgic (lrNum : Nat) (hPos : 0 < lrNum) : VgicConfig where
  lrNum := lrNum
  virqNr := 64
  vcpuNum := 1
  vserialVirq := 33
  zshmVirq := 34
  lrNum_pos := hPos
  local_le := by decide

/-- The interrupts of `virqs` are enabled and raised while the vCPU does not run. -/
def raiseAll (virqs : List Nat) : List VirqOp :=
  virqs.flatMap fun virq => [.enable virq true, .set virq true false false]

/-- Two interrupts and four list registers. -/
theorem pending_conserved_two :
    Pends (sampleVgic 4 (by decide)) (virqStep (sampleVgic 4 (by decide))
      (exec (virqStep (sampleVgic 4 (by decide))) bootIrqs (raiseAll [40, 41])) .flush) 41 := by
  have hRoom : Admissible (virqStep (sampleVgic 4 (by decide)))
      (LeavesRoom (sampleVgic 4 (by decide))) bootIrqs (raiseAll [40, 41]) :=
    ⟨trivial, .inl rfl, trivial, .inl rfl, trivial⟩
  have hFlush : LeavesRoom (sampleVgic 4 (by decide))
      (exec (virqStep (sampleVgic 4 (by decide))) bootIrqs (raiseAll [40, 41])) .flush := by
    unfold LeavesRoom
    decide
  exact (pending_conserved (sampleVgic 4 (by decide)) (raiseAll [40, 41]) hRoom).1 .flush hFlush 41
    (by decide) (.inl (by decide)) fun hRel => hRel

instance decidableHeld (c : VgicConfig) (st : VcpuIrqs) (irq : Nat) : Decidable (Held c st irq) :=
  inferInstanceAs (Decidable (∃ i < c.lrNum,
    (st.lr i).vINTID = irq ∧ (st.lr i).state.pending = true))

/-- With one list register and two pending interrupts the flush clears the pending bit
of the second one and writes it nowhere; with sixteen registers the ninth is lost. -/
theorem flush_drops_pending :
    (let c := sampleVgic 1 (by decide)
     let st := exec (virqStep c) bootIrqs (raiseAll [40, 41])
     st.enabled 41 = true ∧ st.pending 41 = true ∧
       (virtIrqFlushVgic c st).pending 41 = false ∧ ¬ Held c (virtIrqFlushVgic c st) 41) ∧
    (let c := sampleVgic 16 (by decide)
     let st := exec (virqStep c) bootIrqs (raiseAll [40, 41, 42, 43, 44, 45, 46, 47, 48])
     st.enabled 48 = true ∧ st.pending 48 = true ∧
       (virtIrqFlushVgic c st).pending 48 = false ∧ ¬ Held c (virtIrqFlushVgic c st) 48) := by
  refine ⟨⟨by decide, by decide, by decide, by decide⟩, ⟨by decide, by decide, ?_, ?_⟩⟩
  · decide
  · decide

end Zvm.Vgic
