import Zvm.Life.Truthful

/-!
# CPU_ON and the registers of the vCPUs

A guest powers a vCPU on by the PSCI call CPU_ON: x1 is the MPIDR of the vCPU, x2 its first
address and x3 a value it shall find in x0.  `psci_vcpu_on` looks the vCPU up and writes its
saved context at once, whatever state it is in, and answers success.  A vCPU that is already
on gets a new pc in a context that is live.  x3 is read and never used, so that x0 of the
new vCPU is what it was.

The arguments are registers of the caller's saved context, which may be the target's.
-/

namespace Zvm.Life

open Zvm.Verified.FunArray Zvm.Verified.Run

/-! ## VMs with all registers -/

/-- A VM and the general registers of the saved contexts.  x1, the pc and the MPIDR, which
CPU_ON writes, are those of the vCPU; `regs` has the others. -/
structure Machine where
  vm : Vm
  regs : Nat → Nat → BitVec 64

/-- Register `r` of the saved context of a vCPU. -/
def Machine.reg (m : Machine) (i r : Nat) : BitVec 64 :=
  if r = 1 then (m.vm.vcpus i).x1 else m.regs i r

/-- The saved context of a vCPU. -/
structure Context where
  x : Nat → BitVec 64
  pc : BitVec 64
  mpidr : BitVec 64

def Machine.context (m : Machine) (i : Nat) : Context where
  x := m.reg i
  pc := (m.vm.vcpus i).pc
  mpidr := (m.vm.vcpus i).mpidr

/-- `psci_vcpu_on` with the registers of the caller.  `context_id`, x3, is not used. -/
def psciCpuOn (mpidMask : BitVec 64) (m : Machine) (caller : Nat) : Machine × Int :=
  let r := psciVcpuOn mpidMask m.vm caller (m.reg caller 1) (m.reg caller 2)
  ({ m with vm := r.1 }, r.2)

/-- The caller goes on when its sleep at the end of `vcpu_state_switch` is over. -/
def Vm.goesOn (s : Vm) (caller : Nat) : Vm :=
  if s.isCurrent caller then s
  else
    doVcpuSwap (s.modify caller fun v => { v with thread := zThreadTimeout v.thread })
      (s.vcpus caller).cpu (some caller)

/-- What happens to a VM: the steps of its life but CPU_ON, CPU_ON of a vCPU that is being
executed, whose result goes to x0 as a `uint32_t`, and a guest's own computation up to the
next trap. -/
inductive MachineOp where
  | life (op : LifeOp)
  | cpuOn (caller : Nat)
  | guest (i : Nat) (x : Nat → BitVec 64) (pc : BitVec 64)

def machineStep (mpidMask : BitVec 64) (m : Machine) : MachineOp → Machine
  | .life (.cpuOn _ _ _) => m
  | .life op => { m with vm := lifeStep mpidMask m.vm op }
  | .cpuOn caller =>
    if m.vm.isCurrent caller then
      let r := psciCpuOn mpidMask m caller
      { r.1 with
        regs := set r.1.regs caller
          (set (r.1.regs caller) 0 ((BitVec.ofInt 32 r.2).setWidth 64)) }
    else m
  | .guest i x pc =>
    if m.vm.isCurrent i then
      { vm := m.vm.modify i fun v => { v with pc := pc, x1 := x 1 }
        regs := set m.regs i x }
    else m

/-- A new VM; x0 of its vCPUs is the address of the device tree. -/
def newMachine (vcpuNum : Nat) (cpu : Nat → Nat) (mpidr : Nat → BitVec 64) (dtb : BitVec 64) :
    Machine where
  vm := newVm vcpuNum cpu mpidr
  regs := fun _ r => if r = 0 then dtb else 0#64

/-! ## What CPU_ON should do -/

/-- The identifier is the MPIDR of the vCPU. -/
def Names (mpidMask : BitVec 64) (m : Machine) (id : BitVec 64) (t : Nat) : Prop :=
  t < m.vm.vcpuNum ∧ id = (m.vm.vcpus t).mpidr &&& mpidMask

/-- READY or RUNNING. -/
def Vcpu.Live (v : Vcpu) : Prop := v.vcpuState = .ready ∨ v.vcpuState = .running

/-- The vCPU is off: it was never readied, or it was paused before it was ever started. -/
def Vcpu.Off (v : Vcpu) : Prop :=
  v.vcpuState = .unknown ∨ v.vcpuState = .paused ∧ v.thread.prestart = true

instance (v : Vcpu) : Decidable v.Live := inferInstanceAs (Decidable (_ ∨ _))

instance (v : Vcpu) : Decidable v.Off := inferInstanceAs (Decidable (_ ∨ _))

/-- CPU_ON, from the call to its return, acts on a vCPU that is off and on no other. -/
structure ActsOnOff (mpidMask : BitVec 64) (m : Machine) (caller : Nat) : Prop where
  refused : (∀ t, Names mpidMask m (m.reg caller 1) t → (m.vm.vcpus t).Live) →
    (∀ i, (psciCpuOn mpidMask m caller).1.context i = m.context i) ∧
      (psciCpuOn mpidMask m caller).2 ≠ 0
  accepted : ∀ t, Names mpidMask m (m.reg caller 1) t → (m.vm.vcpus t).Off →
    let r := psciCpuOn mpidMask m caller
    r.2 = 0 ∧ (r.1.context t).pc = m.reg caller 2 ∧ (r.1.context t).x 0 = m.reg caller 3 ∧
      ((r.1.vm.goesOn caller).vcpus t).vcpuState = .ready ∧
      ∀ j, j ≠ t → r.1.context j = m.context j ∧
        -- the caller executes the call and its return
        ((r.1.vm.goesOn caller).vcpus j).vcpuState =
          if j = caller then .running else (m.vm.vcpus j).vcpuState

/-- The call is for no vCPU, or for one that is not on and, if it is off, not by the
identifier 0 and with the value in x3 that it has in x0 already. -/
def CpuOnSafe (mpidMask : BitVec 64) (m : Machine) (caller : Nat) : Prop :=
  ∀ t, Names mpidMask m (m.reg caller 1) t →
    if m.reg caller 1 = 0#64 then ¬ (m.vm.vcpus t).Off
    else ¬ (m.vm.vcpus t).Live ∧ ((m.vm.vcpus t).Off → m.reg t 0 = m.reg caller 3)

/-! ## What every run keeps -/

/-- The vCPUs keep their MPIDR, and those that a CPU executes are on. -/
structure Placed (vcpuNum : Nat) (mpidr : Nat → BitVec 64) (s : Vm) : Prop where
  vcpuNum : s.vcpuNum = vcpuNum
  mpidr : ∀ i, (s.vcpus i).mpidr = mpidr i
  current : ∀ cpu i, s.current cpu = some i → (s.vcpus i).cpu = cpu ∧ (s.vcpus i).Live

section Placed

variable {vcpuNum : Nat} {mpidr : Nat → BitVec 64} {s : Vm}

theorem switchedOut_mpidr (v : Vcpu) : v.switchedOut.mpidr = v.mpidr := by
  unfold Vcpu.switchedOut
  split <;> rfl

theorem readied_mpidr (v : Vcpu) : v.readied.mpidr = v.mpidr := by
  unfold Vcpu.readied
  cases v.vcpuState <;> rfl

theorem Vcpu.Live.readied {v : Vcpu} (h : v.Live) : v.readied.Live := by
  left
  unfold Vcpu.readied
  rcases h with hState | hState <;> simp [hState]

theorem paused_mpidr (v : Vcpu) : v.paused.mpidr = v.mpidr ∧ v.paused.cpu = v.cpu := by
  unfold Vcpu.paused
  cases v.vcpuState <;> exact ⟨rfl, rfl⟩

variable (h : Placed vcpuNum mpidr s)
include h

/-- A change of one vCPU, which is still on if it is being executed. -/
theorem Placed.modify {i : Nat} {f : Vcpu → Vcpu}
    (hMpidr : (f (s.vcpus i)).mpidr = (s.vcpus i).mpidr)
    (hCpu : (f (s.vcpus i)).cpu = (s.vcpus i).cpu)
    (hLive : ∀ cpu, s.current cpu = some i → (f (s.vcpus i)).Live) :
    Placed vcpuNum mpidr (s.modify i f) := by
  refine ⟨h.vcpuNum, ?_, ?_⟩
  · intro j
    refine modify_elim (fun hEq => ?_) fun _ => h.mpidr j
    rw [hMpidr, hEq]
    exact h.mpidr i
  · intro cpu j hOn
    refine modify_elim (fun hEq => ?_) fun _ => h.current cpu j hOn
    subst hEq
    rw [hCpu]
    exact ⟨(h.current cpu j hOn).1, hLive cpu hOn⟩

/-- A change that the state and the CPU of the vCPU do not see. -/
theorem Placed.modify_regs {i : Nat} {f : Vcpu → Vcpu}
    (hMpidr : (f (s.vcpus i)).mpidr = (s.vcpus i).mpidr)
    (hCpu : (f (s.vcpus i)).cpu = (s.vcpus i).cpu)
    (hState : (f (s.vcpus i)).vcpuState = (s.vcpus i).vcpuState) :
    Placed vcpuNum mpidr (s.modify i f) := by
  refine h.modify hMpidr hCpu fun cpu hOn => ?_
  have hLive := (h.current cpu i hOn).2
  unfold Vcpu.Live at hLive ⊢
  rw [hState]
  exact hLive

theorem Placed.idle (cpu : Nat) :
    Placed vcpuNum mpidr { s with current := set s.current cpu none } := by
  refine ⟨h.vcpuNum, h.mpidr, ?_⟩
  intro c i hOn
  exact h.current c i (of_set_none hOn).2

theorem Placed.out (i : Nat) :
    Placed vcpuNum mpidr (s.modify i Vcpu.switchedOut) :=
  h.modify (switchedOut_mpidr _) (switchedOut_cpu _)
    fun cpu hOn => .inl (switchedOut_state (h.current cpu i hOn).2)

theorem Placed.leaveCpu (i : Nat) :
    Placed vcpuNum mpidr (s.leaveCpu i) :=
  leaveCpu_elim (fun _ => h) ((h.out i).idle _)

theorem Placed.switchOut (cpu : Nat) :
    Placed vcpuNum mpidr (s.switchOut cpu) ∧ (s.switchOut cpu).current = s.current ∧
      ∀ v, ((s.switchOut cpu).vcpus v).cpu = (s.vcpus v).cpu := by
  unfold Vm.switchOut
  cases hOld : s.current cpu with
  | none => exact ⟨h, rfl, fun _ => rfl⟩
  | some old =>
    refine ⟨h.out old, rfl, fun v => ?_⟩
    by_cases hv : v = old
    · rw [hv]
      exact (congrArg Vcpu.cpu (modify_same s old _)).trans (switchedOut_cpu _)
    · exact congrArg Vcpu.cpu (modify_ne s _ hv)

theorem Placed.swap {cpu : Nat} {new : Option Nat}
    (hCan : s.canRun cpu new = true) : Placed vcpuNum mpidr (doVcpuSwap s cpu new) := by
  obtain ⟨hOut, hCur, hCpus⟩ := h.switchOut cpu
  unfold doVcpuSwap
  split
  case isTrue => exact h
  case isFalse =>
    cases new with
    | none =>
      rw [← hCur]
      exact hOut.idle cpu
    | some v =>
      simp only [Vm.canRun, Bool.and_eq_true, beq_iff_eq] at hCan
      obtain ⟨⟨_, hCpu⟩, _⟩ := hCan
      have hIn : Placed vcpuNum mpidr ((s.switchOut cpu).modify v Vcpu.switchedIn) :=
        hOut.modify rfl rfl fun _ _ => .inr rfl
      refine ⟨hIn.vcpuNum, hIn.mpidr, ?_⟩
      intro c i hOn
      by_cases hc : c = cpu
      · obtain rfl : v = i := by simpa [hc] using hOn
        rw [modify_same]
        exact ⟨(hCpus v).trans (hCpu.trans hc.symm), .inr rfl⟩
      · refine hIn.current c i ?_
        change (s.switchOut cpu).current c = some i
        rw [hCur]
        simpa [set_ne _ _ hc] using hOn

theorem Placed.ready (i : Nat) :
    Placed vcpuNum mpidr (s.modify i Vcpu.readied) :=
  h.modify (readied_mpidr _) (Vcpu.readied_cpu _) fun cpu hOn => (h.current cpu i hOn).2.readied

theorem Placed.pause (i : Nat) :
    Placed vcpuNum mpidr (vmVcpuPause s i).1 := by
  rw [vmVcpuPause_fst]
  split
  case isTrue =>
    exact (h.leaveCpu i).modify rfl rfl fun cpu hOn =>
      absurd hOn (leaveCpu_left (fun cpu hOn => (h.current cpu i hOn).1) cpu)
  case isFalse hNot =>
    exact h.modify (paused_mpidr _).1 (paused_mpidr _).2
      fun cpu hOn => absurd (h.current cpu i hOn).2 hNot

theorem Placed.next (c : Call) :
    Placed vcpuNum mpidr (nextRound s c) := by
  unfold nextRound
  split
  case isFalse => exact ⟨h.vcpuNum, h.mpidr, h.current⟩
  case isTrue =>
    have hReady : Placed vcpuNum mpidr (readyRound s c.i c.ret).1 := by
      rw [readyRound_fst]
      split
      · exact h.ready c.i
      · exact h
    have hPause := h.pause c.i
    cases c.kind with
    | ready => exact ⟨hReady.vcpuNum, hReady.mpidr, hReady.current⟩
    | pause => exact ⟨hPause.vcpuNum, hPause.mpidr, hPause.current⟩

theorem Placed.cpuOn (mpidMask : BitVec 64) (caller : Nat)
    (x1 x2 : BitVec 64) : Placed vcpuNum mpidr (psciVcpuOn mpidMask s caller x1 x2).1 := by
  by_cases hOne : x1 = 0#64
  · rw [psciVcpuOn_none (.inl hOne)]
    exact h
  cases hFind : findTarget mpidMask s x1 with
  | none =>
    rw [psciVcpuOn_none (.inr hFind)]
    exact h
  | some t =>
    have hOn : Placed vcpuNum mpidr (s.powerOn t x1 x2) :=
      (h.modify_regs (f := fun v => { v with pc := x2, x1 := x1 }) rfl rfl rfl).ready t
    rcases psciVcpuOn_cases hOne hFind caller x2 with hEq | hEq
    · rw [hEq]
      exact ⟨hOn.vcpuNum, hOn.mpidr, hOn.current⟩
    · rw [hEq]
      have hSlept := (hOn.leaveCpu caller).modify_regs (i := caller)
        (f := fun v => { v with thread := kSleep v.thread }) rfl rfl rfl
      exact ⟨hSlept.vcpuNum, hSlept.mpidr, hSlept.current⟩

theorem Placed.step (mpidMask : BitVec 64) (op : LifeOp) :
    Placed vcpuNum mpidr (lifeStep mpidMask s op) := by
  cases op with
  | enter kind =>
    simp only [lifeStep]
    split
    · exact ⟨h.vcpuNum, h.mpidr, h.current⟩
    · exact h
  | next =>
    simp only [lifeStep]
    split
    · exact h
    · exact h.next _
  | cpuOn caller x1 x2 =>
    simp only [lifeStep]
    split
    · exact h.cpuOn mpidMask caller x1 x2
    · exact h
  | swap cpu new =>
    simp only [lifeStep]
    split
    case isTrue hCan => exact h.swap hCan
    case isFalse => exact h
  | timeout i =>
    exact h.modify_regs (f := fun v => { v with thread := zThreadTimeout v.thread }) rfl rfl rfl
  | pend i =>
    simp only [lifeStep]
    split
    · exact (h.leaveCpu i).modify_regs
        (f := fun v => { v with thread := { v.thread with pending := true } }) rfl rfl rfl
    · exact h
  | unpend i =>
    exact h.modify_regs (f := fun v => { v with thread := { v.thread with pending := false } })
      rfl rfl rfl

end Placed

theorem placed_machineStep {vcpuNum : Nat} {mpidr : Nat → BitVec 64} {mpidMask : BitVec 64}
    {m : Machine} (h : Placed vcpuNum mpidr m.vm) (op : MachineOp) :
    Placed vcpuNum mpidr (machineStep mpidMask m op).vm := by
  cases op with
  | life op =>
    have hStep := h.step mpidMask op
    cases op with
    | cpuOn caller x1 x2 => exact h
    | enter _ | next | swap _ _ | timeout _ | pend _ | unpend _ => exact hStep
  | cpuOn caller =>
    simp only [machineStep]
    split
    · exact h.cpuOn mpidMask caller _ _
    · exact h
  | guest i x pc =>
    simp only [machineStep]
    split
    · exact h.modify_regs (f := fun v => { v with pc := pc, x1 := x 1 }) rfl rfl rfl
    · exact h

theorem placed_run (mpidMask : BitVec 64) (vcpuNum : Nat) (cpu : Nat → Nat)
    (mpidr : Nat → BitVec 64) (dtb : BitVec 64) (ops : List MachineOp) :
    Placed vcpuNum mpidr
      (exec (machineStep mpidMask) (newMachine vcpuNum cpu mpidr dtb) ops).vm := by
  have hNew : Placed vcpuNum mpidr (newVm vcpuNum cpu mpidr) :=
    ⟨rfl, fun _ => rfl, fun _ _ hOn => by cases hOn⟩
  have hStep : ∀ op ∈ ops, ∀ m : Machine, Placed vcpuNum mpidr m.vm →
      Placed vcpuNum mpidr (machineStep mpidMask m op).vm :=
    fun op _ m h => placed_machineStep h op
  exact exec_invariant_of_mem ops hStep (newMachine vcpuNum cpu mpidr dtb) hNew

section Call

variable {mpidMask : BitVec 64} {s : Vm} {caller t : Nat} {x1 x2 : BitVec 64}

theorem psciVcpuOn_ret (hOne : x1 ≠ 0#64) (hFind : findTarget mpidMask s x1 = some t) :
    (psciVcpuOn mpidMask s caller x1 x2).2 = 0 := by
  simp [psciVcpuOn, hOne, hFind]

theorem psciVcpuOn_ret_none (hNone : x1 = 0#64 ∨ findTarget mpidMask s x1 = none) :
    (psciVcpuOn mpidMask s caller x1 x2).2 ≠ 0 := by
  unfold psciVcpuOn
  by_cases hOne : x1 = 0#64
  · simp [hOne]
  · simp [hOne, hNone.resolve_left hOne]

/-- The caller sleeps after it has readied a vCPU that is off. -/
theorem psciVcpuOn_off (hOne : x1 ≠ 0#64) (hFind : findTarget mpidMask s x1 = some t)
    (hOff : (s.vcpus t).Off) :
    (psciVcpuOn mpidMask s caller x1 x2).1 =
      { ((s.powerOn t x1 x2).leaveCpu caller).modify caller
          fun v => { v with thread := kSleep v.thread } with
        succeeded := t :: ((s.powerOn t x1 x2).leaveCpu caller).succeeded } := by
  have hSleeps : (vmVcpuReady (s.modify t fun v => { v with pc := x2, x1 := x1 }) t).2.2 = true := by
    unfold vmVcpuReady vcpuStateSwitch vcpuStateToReady
    rcases hOff with hState | ⟨hState, _⟩ <;> simp [hState]
  unfold psciVcpuOn
  simp only [if_neg hOne, hFind, hSleeps, if_true, vmVcpuReady_fst]
  rfl

/-- The saved registers that `Vcpu` has. -/
def Vcpu.saved (v : Vcpu) : BitVec 64 × BitVec 64 × BitVec 64 := (v.pc, v.x1, v.mpidr)

theorem switchedOut_saved (v : Vcpu) : v.switchedOut.saved = v.saved := by
  unfold Vcpu.switchedOut
  split <;> rfl

theorem saved_modify {i : Nat} {f : Vcpu → Vcpu}
    (hSaved : (f (s.vcpus i)).saved = (s.vcpus i).saved) (j : Nat) :
    ((s.modify i f).vcpus j).saved = (s.vcpus j).saved := by
  by_cases hEq : j = i
  · subst hEq
    rw [modify_same, hSaved]
  · rw [modify_ne _ _ hEq]

theorem saved_leaveCpu (i j : Nat) : ((s.leaveCpu i).vcpus j).saved = (s.vcpus j).saved :=
  leaveCpu_elim (fun _ => rfl) (saved_modify (switchedOut_saved _) j)

/-- Whether or not the caller sleeps, the saved registers after the call are those that
`psci_vcpu_on` has written. -/
theorem saved_psciVcpuOn (hOne : x1 ≠ 0#64) (hFind : findTarget mpidMask s x1 = some t) (j : Nat) :
    ((psciVcpuOn mpidMask s caller x1 x2).1.vcpus j).saved =
      ((s.powerOn t x1 x2).vcpus j).saved := by
  rcases psciVcpuOn_cases hOne hFind caller x2 with hEq | hEq
  · rw [hEq]
  · rw [hEq]
    calc ((((s.powerOn t x1 x2).leaveCpu caller).modify caller
          fun v => { v with thread := kSleep v.thread }).vcpus j).saved
        = (((s.powerOn t x1 x2).leaveCpu caller).vcpus j).saved :=
          saved_modify (f := fun v => { v with thread := kSleep v.thread }) rfl j
      _ = ((s.powerOn t x1 x2).vcpus j).saved := saved_leaveCpu caller j

theorem powerOn_same :
    (s.powerOn t x1 x2).vcpus t =
    { (s.vcpus t).readied with pc := x2, x1 := x1 } := by
  rw [Vm.powerOn, modify_modify, modify_same]
  exact readied_setRegs _ x1 x2

theorem powerOn_ne {j : Nat} (hNe : j ≠ t) : (s.powerOn t x1 x2).vcpus j = s.vcpus j := by
  rw [Vm.powerOn, modify_ne _ _ hNe, modify_ne _ _ hNe]

theorem Vcpu.Off.readied_state {v : Vcpu} (hOff : v.Off) : v.readied.vcpuState = .ready := by
  unfold Vcpu.readied
  rcases hOff with hState | ⟨hState, _⟩ <;> simp [hState]

theorem Vcpu.Off.not_live {v : Vcpu} (hOff : v.Off) : ¬ v.Live := by
  rintro (hLive | hLive) <;> rcases hOff with hState | ⟨hState, _⟩ <;> simp [hLive] at hState

/-- The caller that has slept is RUNNING when it returns, and the other vCPUs are as it left
them. -/
theorem goesOn_state (hCur : s.isCurrent caller = true) (l : List Nat) (j : Nat) :
    (((({ (s.leaveCpu caller).modify caller fun v => { v with thread := kSleep v.thread } with
        succeeded := l } : Vm)).goesOn caller).vcpus j).vcpuState =
      if j = caller then .running else (s.vcpus j).vcpuState := by
  have hOut : (s.vcpus caller).switchedOut.cpu = (s.vcpus caller).cpu := switchedOut_cpu _
  rw [leaveCpu_eq hCur]
  by_cases hEq : j = caller
  · subst hEq
    simp [Vm.goesOn, Vm.isCurrent, Vm.modify, doVcpuSwap, Vm.switchOut, hOut, Vcpu.switchedIn]
  · simp [Vm.goesOn, Vm.isCurrent, Vm.modify, doVcpuSwap, Vm.switchOut, hOut, hEq, set_ne]

end Call

/-! ## The whole call -/

section Acts

variable {mpidMask : BitVec 64} {m : Machine} {caller t : Nat}

theorem context_eq {m' : Machine} {i : Nat} (hRegs : m'.regs = m.regs)
    (hSaved : (m'.vm.vcpus i).saved = (m.vm.vcpus i).saved) : m'.context i = m.context i := by
  obtain ⟨hPc, hRest⟩ := Prod.mk.inj hSaved
  obtain ⟨hX1, hMpidr⟩ := Prod.mk.inj hRest
  simp only [Machine.context, hPc, hMpidr, Context.mk.injEq, and_true]
  funext r
  simp only [Machine.reg, hX1, hRegs]

/-- The search finds the vCPU that the identifier names. -/
theorem findTarget_eq_some_iff
    (hDistinct : ∀ i < m.vm.vcpuNum, ∀ j < m.vm.vcpuNum,
      (m.vm.vcpus i).mpidr &&& mpidMask = (m.vm.vcpus j).mpidr &&& mpidMask → i = j)
    {id : BitVec 64} : findTarget mpidMask m.vm id = some t ↔ Names mpidMask m id t := by
  unfold findTarget Names
  rw [firstIdx_eq_some]
  simp only [beq_iff_eq, beq_eq_false_iff_ne]
  constructor
  · rintro ⟨ht, hId, _⟩
    exact ⟨ht, hId⟩
  · rintro ⟨ht, hId⟩
    refine ⟨ht, hId, ?_⟩
    intro j hj hSame
    have hEq := hDistinct j (by omega) t ht (hSame.symm.trans hId)
    omega

/-- A refused call changes nothing. -/
theorem psciCpuOn_refused
    (hNone : m.reg caller 1 = 0#64 ∨ findTarget mpidMask m.vm (m.reg caller 1) = none) :
    (psciCpuOn mpidMask m caller).1 = m ∧ (psciCpuOn mpidMask m caller).2 ≠ 0 := by
  refine ⟨?_, psciVcpuOn_ret_none hNone⟩
  simp only [psciCpuOn, psciVcpuOn_none hNone]

/-- A call for a vCPU that is off does all it should, but for x0. -/
theorem psciCpuOn_off (hCur : m.vm.isCurrent caller = true) (hCaller : (m.vm.vcpus caller).Live)
    (hOne : m.reg caller 1 ≠ 0#64) (hFind : findTarget mpidMask m.vm (m.reg caller 1) = some t)
    (hOff : (m.vm.vcpus t).Off) :
    let r := psciCpuOn mpidMask m caller
    r.2 = 0 ∧ (r.1.context t).pc = m.reg caller 2 ∧ (r.1.context t).x 0 = m.reg t 0 ∧
      ((r.1.vm.goesOn caller).vcpus t).vcpuState = .ready ∧
      ∀ j, j ≠ t → r.1.context j = m.context j ∧
        ((r.1.vm.goesOn caller).vcpus j).vcpuState =
          if j = caller then .running else (m.vm.vcpus j).vcpuState := by
  intro r
  have hNe : caller ≠ t := by
    rintro rfl
    exact hOff.not_live hCaller
  have hSaved : ∀ j, (r.1.vm.vcpus j).saved =
      ((m.vm.powerOn t (m.reg caller 1) (m.reg caller 2)).vcpus j).saved :=
    saved_psciVcpuOn hOne hFind
  have hStill : (m.vm.powerOn t (m.reg caller 1) (m.reg caller 2)).isCurrent caller = true := by
    rw [Vm.isCurrent, powerOn_ne hNe]
    exact hCur
  have hState : ∀ j, ((r.1.vm.goesOn caller).vcpus j).vcpuState =
      if j = caller then .running
      else ((m.vm.powerOn t (m.reg caller 1) (m.reg caller 2)).vcpus j).vcpuState := by
    intro j
    have hVm : r.1.vm = _ := psciVcpuOn_off hOne hFind hOff
    rw [hVm]
    exact goesOn_state hStill _ j
  refine ⟨psciVcpuOn_ret hOne hFind, ?_, rfl, ?_, ?_⟩
  · have hTarget := hSaved t
    rw [powerOn_same] at hTarget
    exact congrArg Prod.fst hTarget
  · rw [hState, if_neg (Ne.symm hNe), powerOn_same]
    exact hOff.readied_state
  · intro j hj
    refine ⟨context_eq rfl ?_, ?_⟩
    · rw [hSaved, powerOn_ne hj]
    · rw [hState, powerOn_ne hj]

/-- In a state of a run, the call does what it should exactly if it is safe. -/
theorem actsOnOff_iff
    (hDistinct : ∀ i < m.vm.vcpuNum, ∀ j < m.vm.vcpuNum,
      (m.vm.vcpus i).mpidr &&& mpidMask = (m.vm.vcpus j).mpidr &&& mpidMask → i = j)
    (hCur : m.vm.isCurrent caller = true) (hCaller : (m.vm.vcpus caller).Live) :
    ActsOnOff mpidMask m caller ↔ CpuOnSafe mpidMask m caller := by
  constructor
  · intro hActs t hNames
    have hFind := (findTarget_eq_some_iff hDistinct).mpr hNames
    -- the identifier names no other vCPU
    have hOnly : ∀ u, Names mpidMask m (m.reg caller 1) u → u = t := by
      intro u hu
      have hOther := (findTarget_eq_some_iff hDistinct).mpr hu
      rw [hFind] at hOther
      exact (Option.some.inj hOther).symm
    split
    case isTrue hZero =>
      intro hOff
      exact (psciCpuOn_refused (.inl hZero)).2 (hActs.accepted t hNames hOff).1
    case isFalse hOne =>
      refine ⟨?_, ?_⟩
      · intro hLive
        refine (hActs.refused ?_).2 (psciVcpuOn_ret hOne hFind)
        intro u hu
        rw [hOnly u hu]
        exact hLive
      · intro hOff
        obtain ⟨_, _, hX0, _⟩ := hActs.accepted t hNames hOff
        exact (psciCpuOn_off hCur hCaller hOne hFind hOff).2.2.1.symm.trans hX0
  · intro hSafe
    constructor
    case refused =>
      intro hLive
      have hNone : m.reg caller 1 = 0#64 ∨ findTarget mpidMask m.vm (m.reg caller 1) = none := by
        by_cases hOne : m.reg caller 1 = 0#64
        · exact .inl hOne
        · right
          cases hFind : findTarget mpidMask m.vm (m.reg caller 1) with
          | none => rfl
          | some t =>
            have hNames := (findTarget_eq_some_iff hDistinct).mp hFind
            have hNot := hSafe t hNames
            rw [if_neg hOne] at hNot
            exact absurd (hLive t hNames) hNot.1
      obtain ⟨hSame, hRet⟩ := psciCpuOn_refused hNone
      exact ⟨fun i => by rw [hSame], hRet⟩
    case accepted =>
      intro t hNames hOff
      have hFind := (findTarget_eq_some_iff hDistinct).mpr hNames
      have hCond := hSafe t hNames
      split at hCond
      case isTrue => exact absurd hOff hCond
      case isFalse hOne =>
        obtain ⟨hRet, hPc, hX0, hRest⟩ := psciCpuOn_off hCur hCaller hOne hFind hOff
        exact ⟨hRet, hPc, hX0.trans (hCond.2 hOff), hRest⟩

end Acts

/--
**CPU_ON**: in every state reachable by runs, pauses and resumes, CPU_ON calls, context
switches and any computations of the guests, CPU_ON acts only on a vCPU that is off, and does
all it should, if and only if it names no vCPU, or names one that is not on and, if that is
off, not by the identifier 0 and with x3 equal to the x0 it has.
-/
theorem cpu_on_acts_iff (mpidMask : BitVec 64) (vcpuNum : Nat) (cpu : Nat → Nat)
    (mpidr : Nat → BitVec 64) (dtb : BitVec 64)
    (hDistinct : ∀ i < vcpuNum, ∀ j < vcpuNum, mpidr i &&& mpidMask = mpidr j &&& mpidMask → i = j)
    (ops : List MachineOp) (caller : Nat) :
    let m := exec (machineStep mpidMask) (newMachine vcpuNum cpu mpidr dtb) ops
    m.vm.isCurrent caller = true →
      (ActsOnOff mpidMask m caller ↔ CpuOnSafe mpidMask m caller) := by
  intro m hCur
  have hPlaced := placed_run mpidMask vcpuNum cpu mpidr dtb ops
  have hOn : m.vm.current (m.vm.vcpus caller).cpu = some caller := by
    simpa [Vm.isCurrent] using hCur
  refine actsOnOff_iff ?_ hCur (hPlaced.current _ caller hOn).2
  rw [hPlaced.vcpuNum]
  intro i hi j hj hSame
  rw [hPlaced.mpidr, hPlaced.mpidr] at hSame
  exact hDistinct i hi j hj hSame

/-- The arguments x1, x2 and x3. -/
def onArgs (x1 x2 x3 : BitVec 64) (r : Nat) : BitVec 64 :=
  if r = 1 then x1 else if r = 2 then x2 else if r = 3 then x3 else 0#64

/-- A VM with two vCPUs whose first one runs and has the registers. -/
def firstRuns (x : Nat → BitVec 64) : List MachineOp :=
  [.life (.enter .ready), .life .next, .life .next, .life .next, .life (.swap 1 (some 0)),
    .guest 0 x 0x40000#64]

/-- Then the first one powers the second one on, both run, and the first one has the
registers `y`. -/
def bothRun (x y : Nat → BitVec 64) : List MachineOp :=
  firstRuns x ++ [MachineOp.cpuOn 0, .life (.swap 2 (some 1)), .life (.timeout 0),
    .life (.swap 1 (some 0)), .guest 0 y 0x40004#64]

def pairMachine (ops : List MachineOp) : Machine :=
  exec (machineStep 0xf#64) (newMachine 2 (fun i => i + 1) (BitVec.ofNat 64) 0#64) ops

/-- 1 is the MPIDR of the second vCPU of the pair. -/
theorem names_second {ops : List MachineOp} {t : Nat} (hNum : (pairMachine ops).vm.vcpuNum = 2)
    (hFirst : ((pairMachine ops).vm.vcpus 0).mpidr = 0#64)
    (hNames : Names 0xf#64 (pairMachine ops) 1#64 t) : t = 1 := by
  obtain ⟨ht, hId⟩ := hNames
  rw [hNum] at ht
  rcases (by omega : t = 0 ∨ t = 1) with rfl | rfl
  · rw [hFirst] at hId
    exact absurd hId (by decide)
  · rfl

/-- The second vCPU is powered on with 0 for its x0. -/
theorem cpu_on_second :
    ActsOnOff 0xf#64 (pairMachine (firstRuns (onArgs 1#64 0x80000#64 0#64))) 0 := by
  have hDistinct : ∀ i < 2, ∀ j < 2,
      BitVec.ofNat 64 i &&& 0xf#64 = BitVec.ofNat 64 j &&& 0xf#64 → i = j := by
    decide
  refine (cpu_on_acts_iff 0xf#64 2 (fun i => i + 1) (BitVec.ofNat 64) 0#64 hDistinct
    (firstRuns (onArgs 1#64 0x80000#64 0#64)) 0 (by decide +kernel)).mpr ?_
  intro t hNames
  obtain rfl := names_second (by decide +kernel) (by decide +kernel) hNames
  exact ⟨by decide +kernel, fun _ => by decide +kernel⟩

/-- With another value in x3, x0 is not what the caller asked for.  A second call for the
vCPU, which is RUNNING, is answered with success and moves its pc. -/
theorem cpu_on_wrong :
    (let m := pairMachine (firstRuns (onArgs 1#64 0x80000#64 5#64))
     ((psciCpuOn 0xf#64 m 0).1.context 1).x 0 = 0#64 ∧ ¬ ActsOnOff 0xf#64 m 0) ∧
    (let m := pairMachine
       (bothRun (onArgs 1#64 0x80000#64 0#64) (onArgs 1#64 0x90000#64 0#64))
     (m.vm.vcpus 1).vcpuState = .running ∧ (psciCpuOn 0xf#64 m 0).2 = 0 ∧
       ((psciCpuOn 0xf#64 m 0).1.context 1).pc = 0x90000#64 ∧ ¬ ActsOnOff 0xf#64 m 0) := by
  constructor
  · intro m
    have hX0 : ((psciCpuOn 0xf#64 m 0).1.context 1).x 0 = 0#64 := by decide +kernel
    refine ⟨hX0, fun hActs => ?_⟩
    have hNames : Names 0xf#64 m (m.reg 0 1) 1 := ⟨by decide +kernel, by decide +kernel⟩
    obtain ⟨_, _, hWanted, _⟩ := hActs.accepted 1 hNames (by decide +kernel)
    rw [hX0] at hWanted
    exact absurd hWanted (by decide +kernel)
  · intro m
    have hRet : (psciCpuOn 0xf#64 m 0).2 = 0 := by decide +kernel
    have hRuns : (m.vm.vcpus 1).vcpuState = .running := by decide +kernel
    refine ⟨hRuns, hRet, by decide +kernel, fun hActs => ?_⟩
    refine (hActs.refused ?_).2 hRet
    intro t hNames
    obtain rfl := names_second (by decide +kernel) (by decide +kernel) hNames
    exact .inr hRuns

end Zvm.Life
