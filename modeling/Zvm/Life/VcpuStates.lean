import Mathlib.Data.BitVec
import Zvm.Verified.FunArray
import Zvm.Verified.Run

/-!
# The state of a vCPU and of its thread

A vCPU is a kernel thread with a state of its own, `vcpu_state`.  `vcpu_state_switch`
changes that state and starts, wakes or suspends the thread along with it; the context
switch sets it to RUNNING and back to READY.  A vCPU that is READY or RUNNING should have
a thread that has been started and is not suspended.

A VM is resumed by readying all its vCPUs, also those that the guest has never powered on.
These were paused without being started, and `k_wakeup` does not start a thread: they
become READY and will never run, and a later CPU_ON finds nothing left to do.

The calls that go over all vCPUs hold the VM's lock and sleep after each change of a
state, so that the steps here are the single rounds of their loops.  `k_sleep` sets the
SUSPENDED bit of the calling thread together with a timeout; such a thread is asleep, not
suspended.
-/

namespace Zvm.Life

open Zvm.Verified.FunArray

/-! ## Threads -/

/-- The bits PRESTART, SUSPENDED and PENDING of `thread_state`, and whether a timeout of the
thread is active. -/
structure Thread where
  prestart : Bool
  suspended : Bool
  pending : Bool
  timeout : Bool
  deriving DecidableEq

/-- A thread that was created and not started. -/
def Thread.new : Thread := ⟨true, false, false, false⟩

/-- `z_is_thread_ready`. -/
def Thread.isReady (t : Thread) : Bool := !(t.prestart || t.suspended || t.pending || t.timeout)

/-- `k_thread_start`. -/
def kThreadStart (t : Thread) : Thread := if t.prestart then { t with prestart := false } else t

/-- `k_thread_suspend`. -/
def kThreadSuspend (t : Thread) : Thread :=
  if t.suspended then { t with timeout := false }
  else { t with timeout := false, suspended := true }

/-- `k_wakeup`: a thread without a timeout must have no other bit than SUSPENDED. -/
def kWakeup (t : Thread) : Thread :=
  if t.pending then t
  else if !t.timeout && !(t.suspended && !t.prestart) then t
  else { t with timeout := false, suspended := false }

/-- `k_sleep` of the current thread. -/
def kSleep (t : Thread) : Thread := { t with suspended := true, timeout := true }

/-- `z_thread_timeout`. -/
def zThreadTimeout (t : Thread) : Thread := if t.timeout then ⟨false, false, false, false⟩ else t

/-- The thread has been suspended and does not wake up by itself. -/
def Thread.IsSuspended (t : Thread) : Prop := t.suspended = true ∧ t.timeout = false

instance (t : Thread) : Decidable t.IsSuspended := inferInstanceAs (Decidable (_ ∧ _))

/-! ## vCPUs -/

/-- `_VCPU_STATE_*`. -/
inductive VcpuState where
  | ready
  | running
  | paused
  | halted
  | unknown
  | reset
  deriving DecidableEq

/-- `VM_STATE_*`. -/
inductive VmStatus where
  | neverRun
  | running
  | pause
  | halt
  | error
  deriving DecidableEq

/-- `struct z_vcpu`: its state, its thread, the CPU the thread is bound to, and the
registers that CPU_ON reads and writes. -/
structure Vcpu where
  vcpuState : VcpuState
  thread : Thread
  cpu : Nat
  isPoweroff : Bool
  resumeSignal : Bool
  mpidr : BitVec 64
  pc : BitVec 64
  x1 : BitVec 64
  deriving DecidableEq

inductive CallKind where
  | ready
  | pause
  deriving DecidableEq

/-- A call of `vm_vcpus_ready` or `vm_vcpus_pause` that is under way. -/
structure Call where
  kind : CallKind
  i : Nat
  ret : Int
  failed : Bool

/-- A VM, and the vCPUs of it that the CPUs execute. -/
structure Vm where
  vcpuNum : Nat
  vcpus : Nat → Vcpu
  vmStatus : VmStatus
  current : Nat → Option Nat
  /-- The call that holds the VM's lock. -/
  call : Option Call
  /-- The vCPUs for which CPU_ON has answered success. -/
  succeeded : List Nat

def Vm.modify (s : Vm) (i : Nat) (f : Vcpu → Vcpu) : Vm :=
  { s with vcpus := set s.vcpus i (f (s.vcpus i)) }

/-- The vCPU is the current thread of its CPU. -/
def Vm.isCurrent (s : Vm) (i : Nat) : Bool := s.current (s.vcpus i).cpu == some i

/-- The branch of `vcpu_context_switch` for the old thread. -/
def Vcpu.switchedOut (v : Vcpu) : Vcpu :=
  if v.vcpuState = .running then { v with vcpuState := .ready } else v

/-- The branch of `vcpu_context_switch` for the new thread. -/
def Vcpu.switchedIn (v : Vcpu) : Vcpu := { v with vcpuState := .running, resumeSignal := false }

/-- The current thread of the CPU is switched out. -/
def Vm.switchOut (s : Vm) (cpu : Nat) : Vm :=
  match s.current cpu with
  | some old => s.modify old Vcpu.switchedOut
  | none => s

/-- `do_vcpu_swap` on a CPU; `none` is a thread that is no vCPU of the VM. -/
def doVcpuSwap (s : Vm) (cpu : Nat) (new : Option Nat) : Vm :=
  if s.current cpu = new then s
  else
    match new with
    | some v =>
      { (s.switchOut cpu).modify v Vcpu.switchedIn with current := set s.current cpu new }
    | none => { s.switchOut cpu with current := set s.current cpu new }

/-- The CPU of a vCPU turns to another thread. -/
def Vm.leaveCpu (s : Vm) (i : Nat) : Vm :=
  if s.isCurrent i then doVcpuSwap s (s.vcpus i).cpu none else s

/-- `vcpu_state_to_ready`. -/
def vcpuStateToReady (s : Vm) (i : Nat) : Vm × Int :=
  match (s.vcpus i).vcpuState with
  | .unknown | .ready =>
    (s.modify i fun v => { v with vcpuState := .ready, thread := kThreadStart v.thread }, 0)
  | .running => (s.modify i fun v => { v with resumeSignal := true }, 0)
  | .reset | .paused =>
    (s.modify i fun v => { v with vcpuState := .ready, thread := kWakeup v.thread }, 0)
  | .halted => (s, -22)

/-- `vcpu_state_to_paused`; a thread that is suspended leaves its CPU. -/
def vcpuStateToPaused (s : Vm) (i : Nat) : Vm × Int :=
  match (s.vcpus i).vcpuState with
  | .ready | .running =>
    ((s.leaveCpu i).modify i fun v =>
      { v with resumeSignal := false, thread := kThreadSuspend v.thread }, 0)
  | .reset | .paused | .unknown => (s, 0)
  | .halted => (s, -22)

/-- `vcpu_state_switch` with the function for the new state: the return value, and whether
the caller sleeps at the end. -/
def vcpuStateSwitch (toState : Vm → Nat → Vm × Int) (new : VcpuState) (s : Vm) (i : Nat) :
    Vm × Int × Bool :=
  if (s.vcpus i).vcpuState = new then (s, 0, false)
  else if (toState s i).2 < 0 then ((toState s i).1, (toState s i).2, false)
  else ((toState s i).1.modify i fun v => { v with vcpuState := new }, (toState s i).2, true)

/-- `vm_vcpu_ready`. -/
def vmVcpuReady (s : Vm) (i : Nat) : Vm × Int × Bool := vcpuStateSwitch vcpuStateToReady .ready s i

/-- `vm_vcpu_pause`. -/
def vmVcpuPause (s : Vm) (i : Nat) : Vm × Int × Bool := vcpuStateSwitch vcpuStateToPaused .paused s i

/-! ## Calls -/

/-- A round of the loop of `vm_vcpus_ready`, with the last return value. -/
def readyRound (s : Vm) (i : Nat) (ret : Int) : Vm × Int :=
  let r := if s.vmStatus = .pause then ((vmVcpuReady s i).1, (vmVcpuReady s i).2.1) else (s, ret)
  if (r.1.vcpus i).isPoweroff then r else ((vmVcpuReady r.1 i).1, (vmVcpuReady r.1 i).2.1)

/-- A round of the loop of `vm_vcpus_pause`. -/
def pauseRound (s : Vm) (i : Nat) : Vm × Int := ((vmVcpuPause s i).1, (vmVcpuPause s i).2.1)

/-- The next round of the call under way, or its end. -/
def nextRound (s : Vm) (c : Call) : Vm :=
  if c.i < s.vcpuNum then
    let r := match c.kind with
      | .ready => readyRound s c.i c.ret
      | .pause => pauseRound s c.i
    { r.1 with call := some { c with i := c.i + 1, ret := r.2, failed := c.failed || r.2 < 0 } }
  else
    { s with
      vmStatus :=
        if c.failed then s.vmStatus
        else match c.kind with
          | .ready => .running
          | .pause => .pause
      call := none }

/-- The vCPU that CPU_ON is for. -/
def findTarget (mpidMask : BitVec 64) (s : Vm) (cpuId : BitVec 64) : Option Nat :=
  firstIdx s.vcpuNum fun i => cpuId == (s.vcpus i).mpidr &&& mpidMask

/-- `psci_vcpu_on` of the vCPU `caller`, with its registers x1 and x2. -/
def psciVcpuOn (mpidMask : BitVec 64) (s : Vm) (caller : Nat) (x1 x2 : BitVec 64) : Vm × Int :=
  if x1 = 0#64 then (s, -1)
  else
    match findTarget mpidMask s x1 with
    | none => (s, -3)
    | some t =>
      let r := vmVcpuReady (s.modify t fun v => { v with pc := x2, x1 := x1 }) t
      let s :=
        if r.2.2 then
          (r.1.leaveCpu caller).modify caller fun v => { v with thread := kSleep v.thread }
        else r.1
      ({ s with succeeded := t :: s.succeeded }, 0)

/-- What happens to a VM: the calls for all vCPUs and their rounds, CPU_ON of a vCPU that
is being executed, context switches, and that threads time out, block and go on. -/
inductive LifeOp where
  | enter (kind : CallKind)
  | next
  | cpuOn (caller : Nat) (x1 x2 : BitVec 64)
  | swap (cpu : Nat) (new : Option Nat)
  | timeout (i : Nat)
  | pend (i : Nat)
  | unpend (i : Nat)

/-- The scheduler of a CPU can choose the thread. -/
def Vm.canRun (s : Vm) (cpu : Nat) : Option Nat → Bool
  | none => true
  | some v => decide (v < s.vcpuNum) && (s.vcpus v).cpu == cpu && (s.vcpus v).thread.isReady

def lifeStep (mpidMask : BitVec 64) (s : Vm) : LifeOp → Vm
  | .enter kind =>
    match s.call with
    | none => { s with call := some ⟨kind, 0, 0, false⟩ }
    | some _ => s
  | .next =>
    match s.call with
    | none => s
    | some c => nextRound s c
  | .cpuOn caller x1 x2 =>
    if s.isCurrent caller then (psciVcpuOn mpidMask s caller x1 x2).1 else s
  | .swap cpu new => if s.canRun cpu new then doVcpuSwap s cpu new else s
  | .timeout i => s.modify i fun v => { v with thread := zThreadTimeout v.thread }
  | .pend i =>
    if s.isCurrent i then
      (s.leaveCpu i).modify i fun v => { v with thread := { v.thread with pending := true } }
    else s
  | .unpend i => s.modify i fun v => { v with thread := { v.thread with pending := false } }

/-- `vm_create`: every vCPU but the first is powered off, and no thread has been started. -/
def newVm (vcpuNum : Nat) (cpu : Nat → Nat) (mpidr : Nat → BitVec 64) : Vm where
  vcpuNum := vcpuNum
  vcpus := fun i =>
    { vcpuState := .unknown
      thread := Thread.new
      cpu := cpu i
      isPoweroff := decide (i ≠ 0)
      resumeSignal := false
      mpidr := mpidr i
      pc := 0#64
      x1 := 0#64 }
  vmStatus := .neverRun
  current := fun _ => none
  call := none
  succeeded := []

/-! ## What the functions do to a vCPU -/

@[simp]
theorem modify_same (s : Vm) (i : Nat) (f : Vcpu → Vcpu) :
    (s.modify i f).vcpus i = f (s.vcpus i) := set_same _ _ _

theorem modify_ne (s : Vm) {i j : Nat} (f : Vcpu → Vcpu) (hNe : j ≠ i) :
    (s.modify i f).vcpus j = s.vcpus j := set_ne _ _ hNe

theorem modify_modify (s : Vm) (i : Nat) (f g : Vcpu → Vcpu) :
    (s.modify i f).modify i g = s.modify i fun v => g (f v) := by
  simp only [Vm.modify, set_same, set_set]

theorem modify_of_eq {s : Vm} {i : Nat} {f : Vcpu → Vcpu} (hEq : f (s.vcpus i) = s.vcpus i) :
    s.modify i f = s := by
  simp only [Vm.modify, hEq, set_self]

/-- What `vm_vcpu_ready` makes of a vCPU. -/
def Vcpu.readied (v : Vcpu) : Vcpu :=
  match v.vcpuState with
  | .ready | .halted => v
  | .running => { v with vcpuState := .ready, resumeSignal := true }
  | .unknown => { v with vcpuState := .ready, thread := kThreadStart v.thread }
  | .paused | .reset => { v with vcpuState := .ready, thread := kWakeup v.thread }

theorem vmVcpuReady_fst (s : Vm) (i : Nat) : (vmVcpuReady s i).1 = s.modify i Vcpu.readied := by
  unfold vmVcpuReady vcpuStateSwitch vcpuStateToReady
  cases hState : (s.vcpus i).vcpuState with
  | ready | halted => exact (modify_of_eq (by simp [Vcpu.readied, hState])).symm
  | running | unknown | paused | reset =>
    simp [Vm.modify, Vcpu.readied, hState]

theorem Vcpu.readied_idem (v : Vcpu) : v.readied.readied = v.readied := by
  unfold Vcpu.readied
  cases hState : v.vcpuState <;> simp [hState]

theorem Vcpu.readied_isPoweroff (v : Vcpu) : v.readied.isPoweroff = v.isPoweroff := by
  unfold Vcpu.readied
  cases v.vcpuState <;> rfl

theorem Vcpu.readied_cpu (v : Vcpu) : v.readied.cpu = v.cpu := by
  unfold Vcpu.readied
  cases v.vcpuState <;> rfl

/-- A round of `vm_vcpus_ready` readies the vCPU if the VM is paused or the vCPU is the
first; doing it twice changes nothing. -/
theorem readyRound_fst (s : Vm) (i : Nat) (ret : Int) :
    (readyRound s i ret).1 =
      if s.vmStatus = .pause ∨ (s.vcpus i).isPoweroff = false then s.modify i Vcpu.readied
      else s := by
  unfold readyRound
  by_cases hPause : s.vmStatus = .pause
  · simp only [hPause, if_true, true_or, vmVcpuReady_fst, modify_same, Vcpu.readied_isPoweroff,
      modify_modify, Vcpu.readied_idem]
    split <;> rfl
  · simp only [hPause, if_false, false_or, vmVcpuReady_fst]
    cases hOff : (s.vcpus i).isPoweroff <;> simp

@[elab_as_elim]
theorem modify_elim {motive : Vcpu → Prop} {s : Vm} {i j : Nat} {f : Vcpu → Vcpu}
    (hSame : j = i → motive (f (s.vcpus i))) (hNe : j ≠ i → motive (s.vcpus j)) :
    motive ((s.modify i f).vcpus j) := by
  simp only [Vm.modify]
  exact set_elim hSame hNe

/-- The current thread is replaced by one that is no vCPU. -/
theorem leaveCpu_eq {s : Vm} {i : Nat} (hCur : s.isCurrent i = true) :
    s.leaveCpu i =
      { s.modify i Vcpu.switchedOut with current := set s.current (s.vcpus i).cpu none } := by
  have hCpu : s.current (s.vcpus i).cpu = some i := by simpa [Vm.isCurrent] using hCur
  unfold Vm.leaveCpu doVcpuSwap
  simp [hCur, hCpu, Vm.switchOut, Vm.modify]

theorem leaveCpu_of_not {s : Vm} {i : Nat} (hCur : s.isCurrent i = false) : s.leaveCpu i = s := by
  simp [Vm.leaveCpu, hCur]

@[elab_as_elim]
theorem leaveCpu_elim {motive : Vm → Prop} {s : Vm} {i : Nat}
    (hNot : s.isCurrent i = false → motive s)
    (hOut : motive
      { s.modify i Vcpu.switchedOut with current := set s.current (s.vcpus i).cpu none }) :
    motive (s.leaveCpu i) := by
  cases hCur : s.isCurrent i with
  | false =>
    rw [leaveCpu_of_not hCur]
    exact hNot hCur
  | true =>
    rw [leaveCpu_eq hCur]
    exact hOut

end Zvm.Life
