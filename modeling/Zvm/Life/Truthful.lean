import Zvm.Life.VcpuStates

/-!
# What the state of a vCPU says about its thread

The invariant `LifeInv` says for each `vcpu_state` what the thread can be: started and not
suspended where the vCPU is READY or RUNNING, untouched where it was never readied.  Every
step keeps it but one that readies a paused vCPU which `k_wakeup` does not wake; such a
step breaks the property, so that the condition is exact.
-/

namespace Zvm.Life

open Zvm.Verified.FunArray Zvm.Verified.Run

/-! ## The truth about threads -/

/-- The state of the vCPU tells what its thread can do. -/
def Vcpu.Truthful (v : Vcpu) : Prop :=
  ((v.vcpuState = .ready ∨ v.vcpuState = .running) →
      v.thread.prestart = false ∧ ¬ v.thread.IsSuspended) ∧
    (v.vcpuState = .paused → v.thread.IsSuspended ∨ v.thread.prestart = true)

/-- The states of all vCPUs are truthful, and CPU_ON has started the threads it answered
success for. -/
structure Truthful (s : Vm) : Prop where
  states : ∀ i < s.vcpuNum, (s.vcpus i).Truthful
  started : ∀ i ∈ s.succeeded, (s.vcpus i).thread.prestart = false

/-- A paused vCPU that `k_wakeup` leaves as it is: its thread was never started, or it
blocks. -/
def Vcpu.Stuck (v : Vcpu) : Prop :=
  v.vcpuState = .paused ∧ (v.thread.prestart = true ∨ v.thread.pending = true)

instance (v : Vcpu) : Decidable v.Stuck := inferInstanceAs (Decidable (_ ∧ _))

/-- The operation does not ready a vCPU that is stuck. -/
def ReadiesLive (mpidMask : BitVec 64) (s : Vm) : LifeOp → Prop
  | .next => ∀ c, s.call = some c → c.kind = .ready → c.i < s.vcpuNum →
      (s.vmStatus = .pause ∨ (s.vcpus c.i).isPoweroff = false) → ¬ (s.vcpus c.i).Stuck
  | .cpuOn caller x1 _ => s.isCurrent caller = true → x1 ≠ 0#64 →
      ∀ t, findTarget mpidMask s x1 = some t → ¬ (s.vcpus t).Stuck
  | _ => True

/-! ## The invariant -/

/-- In a good run the state says more: a thread that was never started is untouched. -/
def Vcpu.Sound (v : Vcpu) : Prop :=
  match v.vcpuState with
  | .ready | .running => v.thread.prestart = false ∧ ¬ v.thread.IsSuspended
  | .paused => v.thread = Thread.new ∨ (v.thread.prestart = false ∧ v.thread.IsSuspended)
  | .unknown => v.thread = Thread.new
  | .halted | .reset => False

structure LifeInv (s : Vm) : Prop where
  sound : ∀ i < s.vcpuNum, (s.vcpus i).Sound
  current : ∀ cpu i, s.current cpu = some i → i < s.vcpuNum ∧ (s.vcpus i).cpu = cpu ∧
    ((s.vcpus i).vcpuState = .ready ∨ (s.vcpus i).vcpuState = .running)
  succeeded : ∀ i ∈ s.succeeded, (s.vcpus i).thread.prestart = false

variable {v : Vcpu} {s : Vm} {i : Nat} {mpidMask x1 : BitVec 64}

theorem Vcpu.Sound.truthful (h : v.Sound) : v.Truthful := by
  unfold Vcpu.Sound at h
  constructor
  · rintro (hState | hState) <;> simpa [hState] using h
  · intro hState
    simp only [hState] at h
    rcases h with hNew | ⟨_, hSusp⟩
    · exact .inr (by simp [hNew, Thread.new])
    · exact .inl hSusp

theorem LifeInv.truthful (h : LifeInv s) : Truthful s :=
  ⟨fun i hi => (h.sound i hi).truthful, h.succeeded⟩

section Steps

variable {s : Vm}

/-- A change of one vCPU keeps the invariant if the vCPU stays sound, on its CPU and
started, and if it does not stop while it is executed. -/
theorem LifeInv.modify (h : LifeInv s) {i : Nat} {f : Vcpu → Vcpu}
    (hSound : i < s.vcpuNum → (f (s.vcpus i)).Sound) (hCpu : (f (s.vcpus i)).cpu = (s.vcpus i).cpu)
    (hLive : ∀ cpu, s.current cpu = some i →
      (f (s.vcpus i)).vcpuState = .ready ∨ (f (s.vcpus i)).vcpuState = .running)
    (hStarted : (s.vcpus i).thread.prestart = false → (f (s.vcpus i)).thread.prestart = false) :
    LifeInv (s.modify i f) := by
  constructor
  case sound =>
    intro j hj
    exact modify_elim (fun hEq => hSound (hEq ▸ hj)) fun _ => h.sound j hj
  case current =>
    intro cpu j hCur
    obtain ⟨hj, hOn, hState⟩ := h.current cpu j hCur
    refine modify_elim (fun hEq => ?_) fun _ => ⟨hj, hOn, hState⟩
    subst hEq
    rw [hCpu]
    exact ⟨hj, hOn, hLive cpu hCur⟩
  case succeeded =>
    intro j hj
    exact modify_elim (fun hEq => hStarted (hEq ▸ h.succeeded j hj)) fun _ => h.succeeded j hj

theorem switchedOut_sound (h : v.Sound) : v.switchedOut.Sound := by
  unfold Vcpu.switchedOut
  split
  case isTrue hState => simpa [Vcpu.Sound, hState] using h
  case isFalse => exact h

theorem switchedOut_state (hState : v.vcpuState = .ready ∨ v.vcpuState = .running) :
    v.switchedOut.vcpuState = .ready := by
  unfold Vcpu.switchedOut
  rcases hState with hState | hState <;> simp [hState]

theorem switchedOut_thread (v : Vcpu) : v.switchedOut.thread = v.thread := by
  unfold Vcpu.switchedOut
  split <;> rfl

theorem switchedOut_cpu (v : Vcpu) : v.switchedOut.cpu = v.cpu := by
  unfold Vcpu.switchedOut
  split <;> rfl

/-- The old thread of a context switch. -/
theorem LifeInv.out (h : LifeInv s) (i : Nat) : LifeInv (s.modify i Vcpu.switchedOut) := by
  refine h.modify (fun hi => switchedOut_sound (h.sound i hi)) (switchedOut_cpu _) ?_ ?_
  · intro cpu hOn
    exact .inl (switchedOut_state (h.current cpu i hOn).2.2)
  · intro hStart
    rw [switchedOut_thread]
    exact hStart

/-- A CPU turns to a thread that is no vCPU. -/
theorem LifeInv.idle (h : LifeInv s) (cpu : Nat) :
    LifeInv { s with current := set s.current cpu none } := by
  refine ⟨h.sound, ?_, h.succeeded⟩
  intro c i hOn
  exact h.current c i (of_set_none hOn).2

theorem LifeInv.leaveCpu (h : LifeInv s) (i : Nat) : LifeInv (s.leaveCpu i) :=
  leaveCpu_elim (fun _ => h) ((h.out i).idle _)

/-- After that no CPU executes the vCPU. -/
theorem leaveCpu_left (hCpu : ∀ cpu, s.current cpu = some i → (s.vcpus i).cpu = cpu) (cpu : Nat) :
    (s.leaveCpu i).current cpu ≠ some i := by
  refine leaveCpu_elim (fun hCur hOn => ?_) fun hOn => ?_
  · rw [← hCpu cpu hOn] at hOn
    simp [Vm.isCurrent, hOn] at hCur
  · obtain ⟨hc, hOld⟩ := of_set_none hOn
    exact hc (hCpu cpu hOld).symm

theorem leaveCpu_thread (i : Nat) : ((s.leaveCpu i).vcpus i).thread = (s.vcpus i).thread :=
  leaveCpu_elim (fun _ => rfl)
    ((congrArg Vcpu.thread (modify_same s i _)).trans (switchedOut_thread _))

theorem leaveCpu_vcpuNum (i : Nat) : (s.leaveCpu i).vcpuNum = s.vcpuNum :=
  leaveCpu_elim (fun _ => rfl) rfl

theorem leaveCpu_vcpus_ne {j : Nat} (hNe : j ≠ i) : (s.leaveCpu i).vcpus j = s.vcpus j :=
  leaveCpu_elim (fun _ => rfl) (modify_ne s _ hNe)

/-! ### Readying -/

/-- The thread of a vCPU that is not stuck runs again. -/
theorem Vcpu.Sound.readied (h : v.Sound) (hLive : ¬ v.Stuck) :
    v.readied.Sound ∧ v.readied.vcpuState = .ready := by
  unfold Vcpu.Sound at h
  unfold Vcpu.readied
  cases hState : v.vcpuState with
  | ready => exact ⟨by simpa [Vcpu.Sound, hState] using h, by simp [hState]⟩
  | running => exact ⟨by simpa [Vcpu.Sound, hState] using h, rfl⟩
  | unknown =>
    simp only [hState] at h
    refine ⟨?_, rfl⟩
    simp [Vcpu.Sound, h, Thread.new, kThreadStart, Thread.IsSuspended]
  | paused =>
    simp only [hState] at h
    refine ⟨?_, rfl⟩
    rcases h with hNew | ⟨hStart, hSusp⟩
    · exact absurd ⟨hState, .inl (by simp [hNew, Thread.new])⟩ hLive
    · have hFree : v.thread.pending = false := by
        by_contra hPend
        exact hLive ⟨hState, .inr (by simpa using hPend)⟩
      simp [Vcpu.Sound, kWakeup, hFree, hStart, hSusp.1, Thread.IsSuspended]
  | halted | reset => simp [hState] at h

theorem readied_prestart (hStart : v.thread.prestart = false) :
    v.readied.thread.prestart = false := by
  have hWake : (kWakeup v.thread).prestart = false := by
    unfold kWakeup
    split_ifs <;> exact hStart
  have hBegin : (kThreadStart v.thread).prestart = false := by simp [kThreadStart, hStart]
  unfold Vcpu.readied
  cases v.vcpuState with
  | ready | running | halted => exact hStart
  | unknown => exact hBegin
  | paused | reset => exact hWake

/-- A stuck vCPU becomes READY all the same. -/
theorem Vcpu.Stuck.readied_not_truthful (hStuck : v.Stuck) (h : v.Sound) :
    ¬ v.readied.Truthful := by
  obtain ⟨hState, hWhy⟩ := hStuck
  unfold Vcpu.Sound at h
  simp only [hState] at h
  intro hTrue
  have hReady : v.readied.vcpuState = .ready := by simp [Vcpu.readied, hState]
  obtain ⟨hStart, hSusp⟩ := hTrue.1 (.inl hReady)
  simp only [Vcpu.readied, hState] at hStart hSusp
  rcases h with hNew | ⟨hOld, hOldSusp⟩
  · rw [hNew] at hStart
    exact absurd hStart (by decide)
  · have hPend : v.thread.pending = true := by
      rcases hWhy with hPre | hPend
      · rw [hOld] at hPre
        exact absurd hPre (by decide)
      · exact hPend
    exact hSusp (by simpa [kWakeup, hPend] using hOldSusp)

theorem LifeInv.ready (h : LifeInv s) (hLive : i < s.vcpuNum → ¬ (s.vcpus i).Stuck) :
    LifeInv (s.modify i Vcpu.readied) := by
  refine h.modify (fun hi => ((h.sound i hi).readied (hLive hi)).1) (Vcpu.readied_cpu _) ?_
    readied_prestart
  intro cpu hOn
  have hi := (h.current cpu i hOn).1
  exact .inl ((h.sound i hi).readied (hLive hi)).2

/-! ### Pausing -/

/-- What `vm_vcpu_pause` makes of a vCPU. -/
def Vcpu.paused (v : Vcpu) : Vcpu :=
  match v.vcpuState with
  | .ready | .running =>
    { v with
      vcpuState := .paused
      resumeSignal := false
      thread := kThreadSuspend v.thread }
  | .unknown | .reset => { v with vcpuState := .paused }
  | .paused | .halted => v

theorem vmVcpuPause_fst (i : Nat) :
    (vmVcpuPause s i).1 =
      if (s.vcpus i).vcpuState = .ready ∨ (s.vcpus i).vcpuState = .running then
        (s.leaveCpu i).modify i fun v =>
          { v with
            vcpuState := .paused
            resumeSignal := false
            thread := kThreadSuspend v.thread }
      else s.modify i Vcpu.paused := by
  unfold vmVcpuPause vcpuStateSwitch vcpuStateToPaused
  cases hState : (s.vcpus i).vcpuState with
  | ready | running => simp [modify_modify]
  | unknown | reset => simp [Vm.modify, Vcpu.paused, hState]
  | paused | halted => simpa using (modify_of_eq (by simp [Vcpu.paused, hState])).symm

theorem kThreadSuspend_isSuspended (t : Thread) : (kThreadSuspend t).IsSuspended := by
  unfold kThreadSuspend Thread.IsSuspended
  split
  case isTrue hSusp => exact ⟨hSusp, rfl⟩
  case isFalse => exact ⟨rfl, rfl⟩

theorem kThreadSuspend_prestart (t : Thread) : (kThreadSuspend t).prestart = t.prestart := by
  unfold kThreadSuspend
  split <;> rfl

theorem LifeInv.pause (h : LifeInv s) (hi : i < s.vcpuNum) : LifeInv (vmVcpuPause s i).1 := by
  have hSound := h.sound i hi
  unfold Vcpu.Sound at hSound
  rw [vmVcpuPause_fst]
  split
  case isTrue hState =>
    have hStart : (s.vcpus i).thread.prestart = false := ((h.sound i hi).truthful.1 hState).1
    refine (h.leaveCpu i).modify ?_ rfl ?_ ?_
    · intro _
      refine .inr ⟨?_, kThreadSuspend_isSuspended _⟩
      rw [kThreadSuspend_prestart, leaveCpu_thread]
      exact hStart
    · intro cpu hOn
      exact absurd hOn (leaveCpu_left (fun cpu hOn => (h.current cpu i hOn).2.1) cpu)
    · intro hOld
      exact (kThreadSuspend_prestart _).trans hOld
  case isFalse hState =>
    push Not at hState
    -- only a vCPU that was never started is left
    have hOff : ∀ cpu, s.current cpu ≠ some i := by
      intro cpu hOn
      rcases (h.current cpu i hOn).2.2 with hReady | hRun
      · exact hState.1 hReady
      · exact hState.2 hRun
    refine h.modify ?_ ?_ (fun cpu hOn => absurd hOn (hOff cpu)) ?_
    · intro _
      unfold Vcpu.paused
      cases hEq : (s.vcpus i).vcpuState with
      | ready => exact absurd hEq hState.1
      | running => exact absurd hEq hState.2
      | unknown =>
        simp only [hEq] at hSound
        exact .inl hSound
      | paused =>
        simp only [hEq] at hSound
        simpa [Vcpu.Sound, hEq] using hSound
      | halted | reset => simp [hEq] at hSound
    · unfold Vcpu.paused
      cases (s.vcpus i).vcpuState <;> rfl
    · intro hOld
      unfold Vcpu.paused
      cases hEq : (s.vcpus i).vcpuState with
      | ready => exact absurd hEq hState.1
      | running => exact absurd hEq hState.2
      | unknown | paused | halted | reset => exact hOld

/-! ### Threads by themselves -/

/-- The SUSPENDED bit with a timeout is sleep. -/
theorem LifeInv.sleep (h : LifeInv s) (hStart : (s.vcpus i).thread.prestart = false)
    (hState : (s.vcpus i).vcpuState = .ready ∨ (s.vcpus i).vcpuState = .running) :
    LifeInv (s.modify i fun v => { v with thread := kSleep v.thread }) := by
  refine h.modify ?_ rfl (fun _ _ => hState) id
  intro _
  rcases hState with hState | hState <;>
    simp [Vcpu.Sound, hState, kSleep, Thread.IsSuspended, hStart]

theorem LifeInv.timeout (h : LifeInv s) (i : Nat) :
    LifeInv (s.modify i fun v => { v with thread := zThreadTimeout v.thread }) := by
  have hStart : ∀ t : Thread, t.prestart = false → (zThreadTimeout t).prestart = false := by
    intro t ht
    unfold zThreadTimeout
    split
    · rfl
    · exact ht
  refine h.modify ?_ rfl (fun cpu hOn => (h.current cpu i hOn).2.2) (hStart _)
  intro hi
  have hSound := h.sound i hi
  unfold Vcpu.Sound at hSound ⊢
  -- of a vCPU that is paused or was never started no timeout is active
  have hNone : ∀ t : Thread, t.timeout = false → zThreadTimeout t = t := by
    intro t ht
    simp [zThreadTimeout, ht]
  cases hState : (s.vcpus i).vcpuState with
  | ready | running =>
    simp only [hState] at hSound ⊢
    refine ⟨hStart _ hSound.1, ?_⟩
    unfold zThreadTimeout
    split
    · simp [Thread.IsSuspended]
    · exact hSound.2
  | unknown =>
    simp only [hState] at hSound ⊢
    rw [hSound]
    decide
  | paused =>
    simp only [hState] at hSound ⊢
    rcases hSound with hNew | ⟨hPre, hSusp⟩
    · rw [hNew]
      decide
    · rw [hNone _ hSusp.2]
      exact .inr ⟨hPre, hSusp⟩
  | halted | reset => simp [hState] at hSound

/-- Blocking and going on again is not seen in the state. -/
theorem LifeInv.setPending (h : LifeInv s) {b : Bool}
    (hNew : (s.vcpus i).thread = Thread.new → b = false) :
    LifeInv (s.modify i fun v => { v with thread := { v.thread with pending := b } }) := by
  refine h.modify ?_ rfl (fun cpu hOn => (h.current cpu i hOn).2.2) id
  intro hi
  have hSound := h.sound i hi
  unfold Vcpu.Sound at hSound ⊢
  cases hState : (s.vcpus i).vcpuState with
  | ready | running =>
    simp only [hState] at hSound ⊢
    exact hSound
  | unknown =>
    simp only [hState] at hSound ⊢
    rw [hNew hSound, hSound]
    rfl
  | paused =>
    simp only [hState] at hSound ⊢
    rcases hSound with hFresh | hSusp
    · rw [hNew hFresh, hFresh]
      exact .inl rfl
    · exact .inr hSusp
  | halted | reset => simp [hState] at hSound

/-- The thread of a vCPU that is READY or RUNNING has been started. -/
theorem LifeInv.started (h : LifeInv s) (hi : i < s.vcpuNum)
    (hState : (s.vcpus i).vcpuState = .ready ∨ (s.vcpus i).vcpuState = .running) :
    (s.vcpus i).thread.prestart = false :=
  ((h.sound i hi).truthful.1 hState).1

/-! ### Context switches -/

/-- A vCPU whose thread can run becomes the current thread of its CPU. -/
theorem LifeInv.switchIn (h : LifeInv s) (hi : i < s.vcpuNum)
    (hReady : (s.vcpus i).thread.isReady = true) :
    LifeInv { s.modify i Vcpu.switchedIn with
      current := set s.current (s.vcpus i).cpu (some i) } := by
  simp only [Thread.isReady, Bool.not_eq_true', Bool.or_eq_false_iff] at hReady
  obtain ⟨⟨⟨hPre, hSusp⟩, _⟩, _⟩ := hReady
  have hBase : LifeInv (s.modify i Vcpu.switchedIn) := by
    refine h.modify ?_ rfl (fun _ _ => .inr rfl) id
    intro _
    exact ⟨hPre, fun hIs => absurd hIs.1 (by simp [Vcpu.switchedIn, hSusp])⟩
  refine ⟨hBase.sound, ?_, hBase.succeeded⟩
  intro c j hOn
  by_cases hc : c = (s.vcpus i).cpu
  · have hj : i = j := by simpa [hc] using hOn
    subst hj
    refine ⟨hi, ?_, .inr ?_⟩
    · rw [modify_same, hc]
      rfl
    · rw [modify_same]
      rfl
  · have hOld : s.current c = some j := by simpa [set_ne _ _ hc] using hOn
    exact hBase.current c j hOld

/-- The thread that a CPU executes is switched out; its thread is not touched. -/
theorem LifeInv.switchOut (h : LifeInv s) (cpu : Nat) :
    LifeInv (s.switchOut cpu) ∧ (s.switchOut cpu).vcpuNum = s.vcpuNum ∧
      (s.switchOut cpu).current = s.current ∧
      ∀ v, ((s.switchOut cpu).vcpus v).thread = (s.vcpus v).thread ∧
        ((s.switchOut cpu).vcpus v).cpu = (s.vcpus v).cpu := by
  unfold Vm.switchOut
  split
  · rename_i old hOld
    refine ⟨h.out old, rfl, rfl, fun v => ?_⟩
    refine modify_elim (fun hv => ?_) fun _ => ⟨rfl, rfl⟩
    subst hv
    exact ⟨switchedOut_thread _, switchedOut_cpu _⟩
  · exact ⟨h, rfl, rfl, fun _ => ⟨rfl, rfl⟩⟩

theorem LifeInv.swap (h : LifeInv s) {cpu : Nat} {new : Option Nat}
    (hCan : s.canRun cpu new = true) : LifeInv (doVcpuSwap s cpu new) := by
  obtain ⟨hOut, hNum, hCur, hKeep⟩ := h.switchOut cpu
  unfold doVcpuSwap
  split
  case isTrue => exact h
  case isFalse =>
    cases new with
    | none =>
      rw [← hCur]
      exact hOut.idle cpu
    | some v =>
      simp only [Vm.canRun, Bool.and_eq_true, decide_eq_true_eq, beq_iff_eq] at hCan
      obtain ⟨⟨hv, hCpu⟩, hReady⟩ := hCan
      have hIn := hOut.switchIn (hNum ▸ hv) ((hKeep v).1 ▸ hReady)
      rw [(hKeep v).2, hCpu, hCur] at hIn
      exact hIn

end Steps

/-! ## Every step -/

/-- The state that CPU_ON leaves for its target. -/
def Vm.powerOn (s : Vm) (t : Nat) (x1 x2 : BitVec 64) : Vm :=
  (s.modify t fun v => { v with pc := x2, x1 := x1 }).modify t Vcpu.readied

theorem readied_setRegs (v : Vcpu) (x1 x2 : BitVec 64) :
    ({ v with pc := x2, x1 := x1 } : Vcpu).readied = { v.readied with pc := x2, x1 := x1 } := by
  unfold Vcpu.readied
  cases hState : v.vcpuState <;> simp only [hState]

/-- CPU_ON that finds its vCPU readies it; the caller then sleeps or there was nothing to
do. -/
theorem psciVcpuOn_cases {t : Nat} (hOne : x1 ≠ 0#64) (hFind : findTarget mpidMask s x1 = some t)
    (caller : Nat) (x2 : BitVec 64) :
    (psciVcpuOn mpidMask s caller x1 x2).1 =
        { s.powerOn t x1 x2 with succeeded := t :: s.succeeded } ∨
      (psciVcpuOn mpidMask s caller x1 x2).1 =
        { ((s.powerOn t x1 x2).leaveCpu caller).modify caller
            fun v => { v with thread := kSleep v.thread } with
          succeeded := t :: ((s.powerOn t x1 x2).leaveCpu caller).succeeded } := by
  unfold psciVcpuOn
  simp only [if_neg hOne, hFind, vmVcpuReady_fst]
  split
  case isTrue => exact .inr rfl
  case isFalse => exact .inl rfl

theorem psciVcpuOn_none {caller : Nat} {x2 : BitVec 64}
    (hNone : x1 = 0#64 ∨ findTarget mpidMask s x1 = none) :
    (psciVcpuOn mpidMask s caller x1 x2).1 = s := by
  unfold psciVcpuOn
  by_cases hOne : x1 = 0#64
  · simp [hOne]
  · simp [hOne, hNone.resolve_left hOne]

theorem LifeInv.powerOn (h : LifeInv s) {t : Nat} (x1 x2 : BitVec 64)
    (hLive : t < s.vcpuNum → ¬ (s.vcpus t).Stuck) : LifeInv (s.powerOn t x1 x2) := by
  have hRegs : LifeInv (s.modify t fun v => { v with pc := x2, x1 := x1 }) :=
    h.modify (h.sound t) rfl (fun cpu hOn => (h.current cpu t hOn).2.2) id
  apply hRegs.ready
  intro ht
  rw [modify_same]
  exact hLive ht

theorem LifeInv.cpuOn (h : LifeInv s) {caller : Nat} {x2 : BitVec 64}
    (hCur : s.isCurrent caller = true)
    (hLive : x1 ≠ 0#64 → ∀ t, findTarget mpidMask s x1 = some t → ¬ (s.vcpus t).Stuck) :
    LifeInv (psciVcpuOn mpidMask s caller x1 x2).1 := by
  by_cases hOne : x1 = 0#64
  · rw [psciVcpuOn_none (.inl hOne)]
    exact h
  cases hFind : findTarget mpidMask s x1 with
  | none =>
    rw [psciVcpuOn_none (.inr hFind)]
    exact h
  | some t =>
    have hStuck := hLive hOne t hFind
    have ht : t < s.vcpuNum := (firstIdx_eq_some.mp hFind).1
    have hOn := h.powerOn x1 x2 (fun _ => hStuck)
    have hTarget : ((s.powerOn t x1 x2).vcpus t).vcpuState = .ready := by
      simp only [Vm.powerOn, modify_same, readied_setRegs]
      exact ((h.sound t ht).readied hStuck).2
    have hStart := hOn.started ht (.inl hTarget)
    -- success is recorded for a vCPU that has been started
    have hRecord : ∀ {u : Vm}, LifeInv u → (u.vcpus t).thread.prestart = false →
        LifeInv { u with succeeded := t :: u.succeeded } := by
      intro u hu hBegun
      refine ⟨hu.sound, hu.current, ?_⟩
      intro j hj
      rcases List.mem_cons.mp hj with rfl | hOld
      · exact hBegun
      · exact hu.succeeded j hOld
    rcases psciVcpuOn_cases hOne hFind caller x2 with hEq | hEq
    · rw [hEq]
      exact hRecord hOn hStart
    · rw [hEq]
      have hCpu : s.current (s.vcpus caller).cpu = some caller := by
        simpa [Vm.isCurrent] using hCur
      obtain ⟨hc, hOnCpu, hState⟩ := hOn.current _ caller hCpu
      have hLeft := hOn.leaveCpu caller
      have hIsCur : (s.powerOn t x1 x2).isCurrent caller = true := by
        simp only [Vm.isCurrent, hOnCpu, beq_iff_eq]
        exact hCpu
      have hOut : ((s.powerOn t x1 x2).leaveCpu caller).vcpus caller =
          ((s.powerOn t x1 x2).vcpus caller).switchedOut := by
        rw [leaveCpu_eq hIsCur]
        exact modify_same _ _ _
      have hBegun : (((s.powerOn t x1 x2).leaveCpu caller).vcpus caller).thread.prestart =
          false := by
        rw [leaveCpu_thread]
        exact hOn.started hc hState
      have hSleep := hLeft.sleep hBegun (.inl (by rw [hOut, switchedOut_state hState]))
      refine hRecord hSleep ?_
      by_cases hSame : t = caller
      · subst hSame
        rw [modify_same]
        exact hBegun
      · rw [modify_ne _ _ hSame, leaveCpu_vcpus_ne hSame]
        exact hStart

theorem LifeInv.next {s : Vm} (h : LifeInv s) {c : Call}
    (hLive : c.kind = .ready → c.i < s.vcpuNum →
      (s.vmStatus = .pause ∨ (s.vcpus c.i).isPoweroff = false) → ¬ (s.vcpus c.i).Stuck) :
    LifeInv (nextRound s c) := by
  unfold nextRound
  split
  case isFalse => exact ⟨h.sound, h.current, h.succeeded⟩
  case isTrue hi =>
    have hPause := h.pause hi
    have hReady : c.kind = .ready → LifeInv (readyRound s c.i c.ret).1 := by
      intro hKind
      rw [readyRound_fst]
      split
      case isTrue hWhen => exact h.ready fun _ => hLive hKind hi hWhen
      case isFalse => exact h
    cases hKind : c.kind with
    | pause => exact ⟨hPause.sound, hPause.current, hPause.succeeded⟩
    | ready =>
      obtain ⟨hSound, hCurrent, hSucceeded⟩ := hReady hKind
      exact ⟨hSound, hCurrent, hSucceeded⟩

/-- A step that readies no stuck vCPU keeps the invariant. -/
theorem lifeStep_keeps {op : LifeOp} (h : LifeInv s) (hLive : ReadiesLive mpidMask s op) :
    LifeInv (lifeStep mpidMask s op) := by
  cases op with
  | enter kind =>
    rw [lifeStep]
    split
    · exact ⟨h.sound, h.current, h.succeeded⟩
    · exact h
  | next =>
    rw [lifeStep]
    split
    · exact h
    · rename_i c hCall
      exact h.next (hLive c hCall)
  | cpuOn caller x1 x2 =>
    change LifeInv (if s.isCurrent caller then (psciVcpuOn mpidMask s caller x1 x2).1 else s)
    split
    case isTrue hCur => exact h.cpuOn hCur (hLive hCur)
    case isFalse => exact h
  | swap cpu new =>
    change LifeInv (if s.canRun cpu new then doVcpuSwap s cpu new else s)
    split
    case isTrue hCan => exact h.swap hCan
    case isFalse => exact h
  | timeout i => exact h.timeout i
  | pend i =>
    change LifeInv (if s.isCurrent i then
      (s.leaveCpu i).modify i fun v => { v with thread := { v.thread with pending := true } }
      else s)
    split
    case isFalse => exact h
    case isTrue hCur =>
      have hCpu : s.current (s.vcpus i).cpu = some i := by simpa [Vm.isCurrent] using hCur
      obtain ⟨hi, _, hState⟩ := h.current _ i hCpu
      refine (h.leaveCpu i).setPending ?_
      intro hNew
      have hStart := h.started hi hState
      rw [← leaveCpu_thread, hNew] at hStart
      exact absurd hStart (by decide)
  | unpend i => exact h.setPending fun _ => rfl

/-- A stuck vCPU that is readied is READY with a thread that does not run. -/
theorem lifeStep_breaks {op : LifeOp} (h : LifeInv s) (hTrue : Truthful (lifeStep mpidMask s op)) :
    ReadiesLive mpidMask s op := by
  cases op with
  | next =>
    intro c hCall hKind hi hWhen hStuck
    have hRound : (lifeStep mpidMask s .next).vcpus c.i = (s.vcpus c.i).readied := by
      simp only [lifeStep, hCall, nextRound, if_pos hi, hKind]
      rw [readyRound_fst, if_pos hWhen, modify_same]
    have hNum : (lifeStep mpidMask s .next).vcpuNum = s.vcpuNum := by
      simp only [lifeStep, hCall, nextRound, if_pos hi, hKind]
      rw [readyRound_fst, if_pos hWhen]
      rfl
    have hState := hTrue.states c.i (hNum ▸ hi)
    rw [hRound] at hState
    exact hStuck.readied_not_truthful (h.sound c.i hi) hState
  | cpuOn caller x1 x2 =>
    intro hCur hOne t hFind hStuck
    have ht : t < s.vcpuNum := (firstIdx_eq_some.mp hFind).1
    have hStep : lifeStep mpidMask s (.cpuOn caller x1 x2) =
        (psciVcpuOn mpidMask s caller x1 x2).1 := if_pos hCur
    -- the caller is executed and the target is paused
    have hNe : t ≠ caller := by
      rintro rfl
      have hCpu : s.current (s.vcpus t).cpu = some t := by simpa [Vm.isCurrent] using hCur
      rcases (h.current _ t hCpu).2.2 with hState | hState
      · exact absurd (hStuck.1.symm.trans hState) (by decide)
      · exact absurd (hStuck.1.symm.trans hState) (by decide)
    have hAfter : (lifeStep mpidMask s (.cpuOn caller x1 x2)).vcpuNum = s.vcpuNum ∧
        (lifeStep mpidMask s (.cpuOn caller x1 x2)).vcpus t =
          { (s.vcpus t).readied with pc := x2, x1 := x1 } := by
      have hTarget : (s.powerOn t x1 x2).vcpus t =
          { (s.vcpus t).readied with pc := x2, x1 := x1 } := by
        simp only [Vm.powerOn, modify_same, readied_setRegs]
      rw [hStep]
      rcases psciVcpuOn_cases hOne hFind caller x2 with hEq | hEq
      · rw [hEq]
        exact ⟨rfl, hTarget⟩
      · rw [hEq]
        refine ⟨leaveCpu_vcpuNum caller, ?_⟩
        rw [modify_ne _ _ hNe, leaveCpu_vcpus_ne hNe]
        exact hTarget
    have hState := hTrue.states t (hAfter.1 ▸ ht)
    rw [hAfter.2] at hState
    exact hStuck.readied_not_truthful (h.sound t ht) hState
  | enter | swap | timeout | pend | unpend => trivial

theorem lifeInv_newVm (vcpuNum : Nat) (cpu : Nat → Nat) (mpidr : Nat → BitVec 64) :
    LifeInv (newVm vcpuNum cpu mpidr) := by
  constructor
  · intro i _
    exact (rfl : Thread.new = Thread.new)
  · intro cpu i hOn
    exact nomatch hOn
  · intro i hi
    exact nomatch hi

/--
In a run from a new VM the states tell the truth about the threads, and CPU_ON has started
what it answered success for, exactly if no step readies a vCPU that is stuck.
-/
theorem states_truthful_iff (mpidMask : BitVec 64) (vcpuNum : Nat) (cpu : Nat → Nat)
    (mpidr : Nat → BitVec 64) (ops : List LifeOp) :
    Always (lifeStep mpidMask) Truthful (newVm vcpuNum cpu mpidr) ops ↔
      Admissible (lifeStep mpidMask) (ReadiesLive mpidMask) (newVm vcpuNum cpu mpidr) ops :=
  always_iff_of_strong (fun _ h => h.truthful) (fun _ _ => lifeStep_keeps)
    (fun _ _ => lifeStep_breaks) ops _ (lifeInv_newVm vcpuNum cpu mpidr)

/-- A VM with two vCPUs runs, is paused and resumed, and then its first vCPU powers the
second on. -/
def resumeThenOn : List LifeOp :=
  [.enter .ready, .next, .next, .next, .enter .pause, .next, .next, .next,
    .enter .ready, .next, .next, .next, .swap 1 (some 0), .cpuOn 0 1#64 0x80000#64]

def twoVcpus : Vm := newVm 2 (fun i => i + 1) (fun i => BitVec.ofNat 64 i)

/-- After the resume the second vCPU is READY and was never started; CPU_ON answers success
and does not start it either. -/
theorem resumed_vcpu_never_started :
    ((exec (lifeStep 0xf#64) twoVcpus resumeThenOn).vcpus 1).vcpuState = .ready ∧
      ((exec (lifeStep 0xf#64) twoVcpus resumeThenOn).vcpus 1).thread.prestart = true ∧
      (exec (lifeStep 0xf#64) twoVcpus resumeThenOn).succeeded = [1] ∧
      ¬ Truthful (exec (lifeStep 0xf#64) twoVcpus resumeThenOn) := by
  have hState : ((exec (lifeStep 0xf#64) twoVcpus resumeThenOn).vcpus 1).vcpuState = .ready := by
    decide +kernel
  have hPre : ((exec (lifeStep 0xf#64) twoVcpus resumeThenOn).vcpus 1).thread.prestart = true := by
    decide +kernel
  have hOn : (exec (lifeStep 0xf#64) twoVcpus resumeThenOn).succeeded = [1] := by
    decide +kernel
  refine ⟨hState, hPre, hOn, fun hTrue => ?_⟩
  have hStarted := hTrue.started 1 (by simp [hOn])
  rw [hPre] at hStarted
  exact absurd hStarted (by decide)

end Zvm.Life
