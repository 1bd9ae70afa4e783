import Zvm.Life.VcpuStates
import Zvm.Vgic.Banks

/-!
# The private interrupts of a paused vCPU

Pausing a vCPU should disable the private interrupts that are passed through to its VM, on the
CPU of the vCPU, and resuming it enable them again.  Both functions do this for a VM whose
`vm->is_rtos` is set.  Nothing sets it: what `vm_os_create` sets is the flag of `vm->os`.

The thread of a halted vCPU should end when none of its interrupts is pending.  It looks at those
of the vCPU that has the number of its CPU.
-/

namespace Zvm.Vgic

open Zvm.Verified.BitField Zvm.Verified.FunArray Zvm.Life

/-- A vCPU: `is_rtos` and `pt_irq_bitmap` of its VM, the interrupts its guest has enabled, and its
CPU. -/
structure PtVcpu where
  isRtos : Bool
  ptIrqBitmap : Nat → Bool
  virqEnabled : BitVec 32
  cpu : Nat

/-- The loop of both functions. -/
def internelRegMap (v : PtVcpu) (all : Bool) (regMap : BitVec 32) : BitVec 32 :=
  (List.range 32).foldl (fun regMap bit =>
    if v.ptIrqBitmap bit then
      if v.isRtos && all then regMap ||| 1#32 <<< bit
      else if !all && !v.isRtos then regMap ||| (v.virqEnabled &&& 1#32 <<< bit)
      else regMap
    else regMap) regMap

/-- `save_disable_internal_int`: the map is written to `GICR_ICENABLER0`. -/
def saveDisableInternalInt (v : PtVcpu) (disableAll : Bool) (enabled : Nat → BitVec 32) :
    Nat → BitVec 32 :=
  set enabled v.cpu (enabled v.cpu &&& ~~~internelRegMap v disableAll 0#32)

/-- `load_enable_internal_int`: the map is written to `GICR_ISENABLER0`. -/
def loadEnableInternalInt (v : PtVcpu) (enableAll : Bool) (enabled : Nat → BitVec 32) :
    Nat → BitVec 32 :=
  set enabled v.cpu (enabled v.cpu ||| internelRegMap v enableAll (enabled v.cpu))

/-- The interrupts in `vcpu_state_to_paused`. -/
def toPausedInts (v : PtVcpu) (enabled : Nat → BitVec 32) : VcpuState → Nat → BitVec 32
  | .ready | .running => saveDisableInternalInt v true enabled
  | .paused | .halted | .unknown | .reset => enabled

/-- The interrupts in `vcpu_state_to_ready`. -/
def toReadyInts (v : PtVcpu) (enabled : Nat → BitVec 32) : VcpuState → Nat → BitVec 32
  | .reset | .paused => loadEnableInternalInt v true enabled
  | .ready | .running | .halted | .unknown => enabled

/-- The vCPU is paused from state `cur` and readied again. -/
structure Silences (v : PtVcpu) (enabled : Nat → BitVec 32) (cur : VcpuState) : Prop where
  silent : ∀ j < 32, v.ptIrqBitmap j = true →
    (toPausedInts v enabled cur v.cpu).getLsbD j = false
  others : ∀ j, v.ptIrqBitmap j = false →
    (toPausedInts v enabled cur v.cpu).getLsbD j = (enabled v.cpu).getLsbD j
  restored : ∀ j < 32, v.ptIrqBitmap j = true → v.virqEnabled.getLsbD j = true →
    (toReadyInts v (toPausedInts v enabled cur) .paused v.cpu).getLsbD j = true

theorem getLsbD_internelRegMap (v : PtVcpu) (regMap : BitVec 32) (j : Nat) :
    (internelRegMap v true regMap).getLsbD j =
      (regMap.getLsbD j || v.isRtos && v.ptIrqBitmap j && decide (j < 32)) := by
  rcases v with ⟨_ | _, ptIrqBitmap, virqEnabled, cpu⟩
  · simp [internelRegMap]
  · simp only [internelRegMap, Bool.and_true, if_true, getLsbD_foldl_or, Bool.true_and]
    congr 1
    rw [Bool.eq_iff_iff, List.any_eq_true]
    simp only [List.mem_range, Bool.and_eq_true, decide_eq_true_eq]
    constructor
    · rintro ⟨i, hi, hMark, hBit⟩
      rw [getLsbD_one_shiftLeft hi, decide_eq_true_eq] at hBit
      exact hBit ▸ ⟨hMark, hi⟩
    · rintro ⟨hMark, hj⟩
      exact ⟨j, hj, hMark, by rw [getLsbD_one_shiftLeft hj, decide_eq_true rfl]⟩

/-- Pausing silences the interrupts, and resuming restores them, exactly if `vm->is_rtos` is set
or there is nothing to silence and nothing to restore. -/
theorem silences_iff (v : PtVcpu) (enabled : Nat → BitVec 32) {cur : VcpuState}
    (hCur : cur = .ready ∨ cur = .running) :
    Silences v enabled cur ↔ v.isRtos = true ∨ ∀ j < 32, v.ptIrqBitmap j = true →
      (enabled v.cpu).getLsbD j = false ∧ v.virqEnabled.getLsbD j = false := by
  have hPaused : toPausedInts v enabled cur = saveDisableInternalInt v true enabled := by
    rcases hCur with rfl | rfl <;> rfl
  have hBit : ∀ j, (toPausedInts v enabled cur v.cpu).getLsbD j =
      ((enabled v.cpu).getLsbD j && !(v.isRtos && v.ptIrqBitmap j)) := by
    intro j
    rw [hPaused, saveDisableInternalInt, set_same, BitVec.getLsbD_and, BitVec.getLsbD_not,
      getLsbD_internelRegMap]
    cases hOn : (enabled v.cpu).getLsbD j with
    | false => rfl
    | true => simp [BitVec.lt_of_getLsbD hOn]
  have hBack : ∀ j < 32, (toReadyInts v (toPausedInts v enabled cur) .paused v.cpu).getLsbD j =
      ((toPausedInts v enabled cur v.cpu).getLsbD j || v.isRtos && v.ptIrqBitmap j) := by
    intro j hj
    rw [toReadyInts, loadEnableInternalInt, set_same, BitVec.getLsbD_or, getLsbD_internelRegMap]
    simp [hj]
  have hOthers : ∀ j, v.ptIrqBitmap j = false →
      (toPausedInts v enabled cur v.cpu).getLsbD j = (enabled v.cpu).getLsbD j := by
    intro j hMark
    simp [hBit, hMark]
  cases hRtos : v.isRtos with
  | true =>
    refine iff_of_true ⟨fun j hj hMark => ?_, hOthers, fun j hj hMark _ => ?_⟩ (.inl rfl)
    · simp [hBit, hRtos, hMark]
    · simp [hBack j hj, hRtos, hMark]
  | false =>
    constructor
    · intro h
      refine .inr fun j hj hMark => ?_
      have hSilent := h.silent j hj hMark
      have hRestored := h.restored j hj hMark
      rw [hBack j hj, hSilent, hRtos] at hRestored
      exact ⟨by simpa [hBit, hRtos] using hSilent, by simpa using hRestored⟩
    · rintro (h | h)
      · cases h
      · exact ⟨fun j hj hMark => by simp [hBit, h j hj hMark], hOthers,
          fun j hj hMark hOn => by simp [h j hj hMark] at hOn⟩

theorem silences_rtos : Silences ⟨true, fun _ => true, 0, 1⟩ (fun _ => 0x08000000#32) .running :=
  (silences_iff _ _ (.inr rfl)).mpr (.inl rfl)

/-- A VM as it is created: the timer interrupt stays enabled while the vCPU is paused. -/
theorem paused_vcpu_not_silent :
    ¬ Silences ⟨false, fun j => j == 27, 0x08000000#32, 1⟩ (fun _ => 0x08000000#32) .running :=
  fun h => absurd (h.silent 27 (by decide) rfl) (by decide)

/-! ## A halted vCPU -/

/-- A round of the loop of `vcpu_thread_entry`: what `arch_vcpu_run` returned, and the VM, the CPU
of the vCPU and the interrupt controller after it. -/
structure Round where
  ret : Int
  vmStatus : VmStatus
  cpu : Nat
  gic : Gic

def Round.halted (r : Round) : Bool := decide (r.ret < 0 ∨ r.vmStatus = .halt)

/-- `BIT(vcpu->cpu)`, of 32 bits. -/
def Round.cpuMask (r : Round) (i : Nat) : Bool := decide (i = r.cpu ∧ i < 32)

/-- `vcpu_thread_entry`: the round after which it leaves the loop. -/
def vcpuThreadEntry (b : GicBuild) (rounds : List Round) : Option Round :=
  rounds.find? fun r => r.halted && !(List.range b.virqNr).any (isVirq b r.gic .pending r.cpuMask)

/-- An interrupt is pending for vCPU `i`. -/
def PendingFor (b : GicBuild) (g : Gic) (i : Nat) : Prop :=
  ∃ irq < b.virqNr, g.bit b .pending i irq = true

/-- The vCPU leaves when it is halted and has nothing pending, exactly if something is pending
for it just when something is for the vCPU with the number of its CPU. -/
theorem vcpuThreadEntry_iff (b : GicBuild) (vcpuId : Nat) (r : Round) (later : List Round) :
    (vcpuThreadEntry b (r :: later) = some r ↔
        r.halted = true ∧ ¬ PendingFor b r.gic vcpuId) ↔
      (r.halted = true → (PendingFor b r.gic vcpuId ↔
        r.cpu < min b.vcpuNum 32 ∧ PendingFor b r.gic r.cpu)) := by
  have hSeen : (List.range b.virqNr).any (isVirq b r.gic .pending r.cpuMask) = true ↔
      r.cpu < min b.vcpuNum 32 ∧ PendingFor b r.gic r.cpu := by
    simp only [List.any_eq_true, isVirq, List.mem_range, Bool.and_eq_true, Round.cpuMask,
      decide_eq_true_eq, PendingFor, lt_min_iff]
    constructor
    · rintro ⟨irq, hIrq, i, hi, ⟨rfl, hLt⟩, hBit⟩
      exact ⟨⟨hi, hLt⟩, irq, hIrq, hBit⟩
    · rintro ⟨⟨hi, hLt⟩, irq, hIrq, hBit⟩
      exact ⟨irq, hIrq, r.cpu, hi, ⟨rfl, hLt⟩, hBit⟩
  have hLeaves : vcpuThreadEntry b (r :: later) = some r ↔
      r.halted = true ∧ ¬ (r.cpu < min b.vcpuNum 32 ∧ PendingFor b r.gic r.cpu) := by
    rw [← hSeen, Bool.not_eq_true, ← Bool.not_eq_true', ← Bool.and_eq_true, vcpuThreadEntry]
    exact ⟨List.find?_some, fun hLeave => List.find?_cons_of_pos hLeave⟩
  rw [hLeaves]
  exact and_congr_right_iff.trans (imp_congr_right fun _ => not_iff_not.trans iff_comm)

/-- The VM is halted while vCPU 1 is on CPU 0: it leaves, with an interrupt pending. -/
theorem halted_vcpu_leaves_pending :
    let g := vdevGicv3Init qemuBuild
    let r : Round := ⟨0, .halt, 0, { g with gicr := set g.gicr 1 ((g.gicr 1).setBits .pending 1) }⟩
    vcpuThreadEntry qemuBuild [r] = some r ∧ PendingFor qemuBuild r.gic 1 :=
  ⟨List.find?_cons_of_pos (by decide +kernel), 0, by decide, by decide +kernel⟩

end Zvm.Vgic
