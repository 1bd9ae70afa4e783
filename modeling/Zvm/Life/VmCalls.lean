import Mathlib.Data.List.ReduceOption
import Zvm.Life.Truthful

/-!
# The calls for all vCPUs of a VM

`vm_vcpus_ready`, `vm_vcpus_pause` and `vm_vcpus_halt` go over the vCPUs and keep going after a
failure.  A flag remembers it and withholds the new status of the VM; the return value is that of
the last vCPU that was tried, and hides a failure before it.
-/

namespace Zvm.Life

inductive VmCall where
  | ready
  | pause
  | halt

/-- The return value of `vm_vcpu_ready` and `vm_vcpu_pause`. -/
def Vcpu.switchRet (v : Vcpu) : Int := if v.vcpuState = .halted then -22 else 0

/-- `vm_vcpu_halt`, unless it deletes the VM under the lock of the call. -/
def vcpuHalt (v : Vcpu) : Option (Vcpu × Int) :=
  match v.vcpuState with
  | .ready | .running | .paused | .halted => some ({ v with vcpuState := .halted }, 0)
  | .reset | .unknown => none

/-- A round of the loop, with the status of the VM and the last return value. -/
def vcpuRound (vmStatus : VmStatus) (ret : Int) (v : Vcpu) : VmCall → Option (Vcpu × Int)
  | .ready =>
    let r := if vmStatus = .pause then (v.readied, v.switchRet) else (v, ret)
    some (if r.1.isPoweroff then r else (r.1.readied, r.1.switchRet))
  | .pause => some (v.paused, v.switchRet)
  | .halt => vcpuHalt v

/-- The loop over the entries of `vcpus[]`: the vCPUs afterwards, the return value, and whether the
status of the VM is set. -/
def vmVcpusLoop (call : VmCall) (vmStatus : VmStatus) :
    List (Option Vcpu) → Int → Bool → Option (List (Option Vcpu) × Int × Bool)
  | [], ret, failed => some ([], ret, !failed)
  | none :: vs, _, _ => some (none :: vs, -19, false)
  | some v :: vs, ret, failed => do
    let r ← vcpuRound vmStatus ret v call
    let (vs', ret', done) ← vmVcpusLoop call vmStatus vs r.2 (failed || decide (r.2 < 0))
    some (some r.1 :: vs', ret', done)

/-- `vm_vcpus_ready`, `vm_vcpus_pause` and `vm_vcpus_halt`. -/
def vmVcpus (call : VmCall) (vmStatus : VmStatus) (vcpus : List (Option Vcpu)) :
    Option (List (Option Vcpu) × Int × Bool) :=
  vmVcpusLoop call vmStatus vcpus 0 false

/-- The call switches this vCPU. -/
def VmCall.tries (vmStatus : VmStatus) (v : Vcpu) : VmCall → Bool
  | .ready => decide (vmStatus = .pause) || !v.isPoweroff
  | .pause | .halt => true

/-- The switch of this vCPU fails. -/
def VmCall.fails (vmStatus : VmStatus) (v : Vcpu) : VmCall → Bool
  | .ready => VmCall.ready.tries vmStatus v && decide (v.vcpuState = .halted)
  | .pause => decide (v.vcpuState = .halted)
  | .halt => false

/-- The vCPU is halted by deleting the VM. -/
def VmCall.deletes (v : Vcpu) : VmCall → Bool
  | .ready | .pause => false
  | .halt => decide (v.vcpuState = .reset ∨ v.vcpuState = .unknown)

/-- The vCPU that the call tries last. -/
def VmCall.lastTried (call : VmCall) (vmStatus : VmStatus) (vcpus : List (Option Vcpu)) :
    Option Vcpu :=
  (vcpus.reduceOption.filter (call.tries vmStatus)).getLast?

/-- The call returns, negative exactly if a vCPU is missing or could not be switched, and sets the
status of the VM exactly if it does not return a negative value. -/
def Reports (call : VmCall) (vmStatus : VmStatus) (vcpus : List (Option Vcpu)) : Prop :=
  ∃ ret done, (vmVcpus call vmStatus vcpus).map Prod.snd = some (ret, done) ∧
    (ret < 0 ↔ none ∈ vcpus ∨ vcpus.reduceOption.any (call.fails vmStatus)) ∧
    (done ↔ ¬ ret < 0)

section

variable {call : VmCall} {vmStatus : VmStatus} {vs : List (Option Vcpu)}

theorem vcpuRound_ret (ret : Int) (v : Vcpu) :
    (vcpuRound vmStatus ret v call).map Prod.snd =
      if call.deletes v then none
      else some (if call.tries vmStatus v then if call.fails vmStatus v then -22 else 0 else ret) := by
  cases call with
  | ready =>
    have hHalted : v.readied.vcpuState = .halted ↔ v.vcpuState = .halted := by
      unfold Vcpu.readied
      cases hState : v.vcpuState <;> simp [hState]
    by_cases hPause : vmStatus = .pause <;> cases hOff : v.isPoweroff <;>
      simp [vcpuRound, VmCall.deletes, VmCall.tries, VmCall.fails, Vcpu.switchRet,
        Vcpu.readied_isPoweroff, *]
  | pause => simp [vcpuRound, VmCall.deletes, VmCall.tries, VmCall.fails, Vcpu.switchRet]
  | halt =>
    cases hState : v.vcpuState <;> simp [vcpuRound, vcpuHalt, VmCall.deletes, VmCall.tries,
      VmCall.fails, hState]

theorem lastTried_cons (v : Vcpu) (ret : Int) (code : Vcpu → Int) :
    (call.lastTried vmStatus (some v :: vs)).elim ret code =
      (call.lastTried vmStatus vs).elim (if call.tries vmStatus v then code v else ret) code := by
  rw [VmCall.lastTried, List.reduceOption_cons_of_some, List.filter_cons]
  split
  · rw [List.getLast?_cons, VmCall.lastTried]
    cases (vs.reduceOption.filter (call.tries vmStatus)).getLast? <;> rfl
  · rfl

/-- The loop returns what the last vCPU gave, and remembers every failure, unless a vCPU that it
reaches takes the VM with it. -/
theorem vmVcpusLoop_eq (vs : List (Option Vcpu)) :
    ∀ (ret : Int) (failed : Bool),
    (ret < 0 → failed = true) →
    (vmVcpusLoop call vmStatus vs ret failed).map Prod.snd =
      if (vs.takeWhile Option.isSome).reduceOption.any call.deletes then none
      else some (
        if none ∈ vs then -19
        else (call.lastTried vmStatus vs).elim ret fun v =>
          if call.fails vmStatus v then -22 else 0,
        !(decide (none ∈ vs) || failed || vs.reduceOption.any (call.fails vmStatus))) := by
  induction vs with
  | nil =>
    intro ret failed _
    simp [vmVcpusLoop, VmCall.lastTried]
  | cons entry vs ih =>
    intro ret failed hRet
    cases entry with
    | none => simp [vmVcpusLoop]
    | some v =>
      have hLoop : (vmVcpusLoop call vmStatus (some v :: vs) ret failed).map Prod.snd =
          ((vcpuRound vmStatus ret v call).map Prod.snd).bind fun r =>
            (vmVcpusLoop call vmStatus vs r (failed || decide (r < 0))).map Prod.snd := by
        rw [vmVcpusLoop]
        cases vcpuRound vmStatus ret v call with
        | none => rfl
        | some r =>
          cases h : vmVcpusLoop call vmStatus vs r.2 (failed || decide (r.2 < 0)) <;> simp [h]
      rw [hLoop, vcpuRound_ret, lastTried_cons]
      cases hDel : call.deletes v with
      | true => simp [hDel]
      | false =>
        have hFlag : (failed || decide ((if call.tries vmStatus v then
            if call.fails vmStatus v then -22 else 0 else ret) < 0)) =
            (failed || call.fails vmStatus v) := by
          have hTries : call.fails vmStatus v = true → call.tries vmStatus v = true := by
            cases call <;> simp +contextual [VmCall.fails, VmCall.tries]
          cases hTry : call.tries vmStatus v <;> cases hFail : call.fails vmStatus v <;> simp_all
        rw [if_neg Bool.false_ne_true, Option.bind_some, ih _ _ (by simp +contextual), hFlag]
        simp [hDel, Bool.or_assoc]

end

/-- A call for all vCPUs reports every failure exactly if it does not delete the VM, and a vCPU is
missing, none fails, or the last one that is tried does. -/
theorem reports_iff (call : VmCall) (vmStatus : VmStatus) (vcpus : List (Option Vcpu)) :
    Reports call vmStatus vcpus ↔
      (vcpus.takeWhile Option.isSome).reduceOption.any call.deletes = false ∧
        (none ∈ vcpus ∨ vcpus.reduceOption.any (call.fails vmStatus) =
          (call.lastTried vmStatus vcpus).any (call.fails vmStatus)) := by
  have hRet : (call.lastTried vmStatus vcpus).elim (0 : Int)
      (fun v => if call.fails vmStatus v then -22 else 0) < 0 ↔
      (call.lastTried vmStatus vcpus).any (call.fails vmStatus) := by
    cases call.lastTried vmStatus vcpus with
    | none => simp
    | some v => cases hFails : call.fails vmStatus v <;> simp [hFails]
  rw [Reports, vmVcpus, vmVcpusLoop_eq vcpus 0 false (by omega)]
  cases (vcpus.takeWhile Option.isSome).reduceOption.any call.deletes with
  | true => simp
  | false =>
    by_cases hNone : none ∈ vcpus
    · simp [hNone]
    · simp only [hNone, Bool.false_eq_true, if_false, decide_false, Bool.false_or, Option.some.injEq,
        Prod.mk.injEq, false_or, true_and]
      constructor
      · rintro ⟨ret, done, ⟨rfl, rfl⟩, hNeg, -⟩
        exact Bool.eq_iff_iff.mpr (hNeg.symm.trans hRet)
      · intro hSame
        exact ⟨_, _, ⟨rfl, rfl⟩, by rw [hRet, hSame], by rw [hRet, ← hSame, Bool.not_eq_true',
          Bool.not_eq_true]⟩

/-- A vCPU that runs, or that was halted. -/
def sampleVcpu (vcpuState : VcpuState) : Vcpu := ⟨vcpuState, Thread.new, 1, false, false, 0, 0, 0⟩

/-- The first vCPU cannot be paused and the second can: the call returns 0, and does not set the
status of the VM. -/
theorem failed_pause_unreported :
    (vmVcpus .pause .running [some (sampleVcpu .halted), some (sampleVcpu .running)]).map Prod.snd =
        some (0, false) ∧
      ¬ Reports .pause .running [some (sampleVcpu .halted), some (sampleVcpu .running)] := by
  refine ⟨by decide, ?_⟩
  rintro ⟨ret, done, hCall, hNeg, -⟩
  cases hCall
  exact absurd (hNeg.mpr (by decide)) (by decide)

end Zvm.Life
