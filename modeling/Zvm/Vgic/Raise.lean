import Zvm.Vgic.Conserve

/-!
# Raising an interrupt again

`vgic_set_virq_to_vcpu` makes a shared interrupt pending only when its level goes from
low to high.  The level goes down when somebody lowers it, and on injection for two
devices: for the console when the interrupt takes a new list register, for the shared
memory always.  A device that only raises its interrupt is heard once.
-/

namespace Zvm.Vgic

open Zvm.Verified.Run

section Raise

variable {c : VgicConfig} {st : VcpuIrqs} {virq : Nat}

/-- A sync and a flush that find room do not make an interrupt pending. -/
theorem pends_of_sync_flush (hInv : LrInv c st)
    (hRoom : (waiting c st.pending st.enabled (busyLr st)).card ≤ (freeLrs c st).card)
    (hPends : Pends c (virtIrqFlushVgic c (virtIrqSyncVgic c st)) virq) : Pends c st virq := by
  have hSync := virtIrqSyncVgic_synced hInv
  have hFlushed := sync_flush_flushed hInv hRoom
  have hBit : (virtIrqSyncVgic c st).pending virq = true → st.pending virq = true := by
    rw [hSync.pending]
    exact id
  rcases hPends with hAfter | hHeld
  · rw [hFlushed.pending, Bool.and_eq_true] at hAfter
    exact .inl (hBit hAfter.1)
  · rcases hFlushed.held_inv virq hHeld with hOld | hNew
    · exact .inr ((held_sync hInv).mp hOld)
    · exact .inl (hBit (mem_flushed.mp hNew).2.1)

theorem pends_latchVirq_iff (level : Bool) :
    Pends c (latchVirq st virq level) virq ↔ raises st virq level = true ∨ Pends c st virq := by
  have hLr := (latchVirq_frame st virq level).2.1
  unfold Pends Held
  rw [latchVirq_pending, hLr]
  simp only [beq_self_eq_true, Bool.true_and, Bool.or_eq_true]
  tauto

/-- Raising an enabled interrupt makes it pending exactly if it is private, or its level
was low, or it was pending already. -/
theorem pends_set_iff (hInv : LrInv c st) (hVirq : virq < c.virqNr)
    (hEnabled : st.enabled virq = true) {cur others : Bool}
    (hRoom : LeavesRoom c st (.set virq true cur others)) :
    Pends c (vgicSetVirqToVcpu c st virq true cur others) virq ↔
      virq < localVirqNr ∨ (st.desc virq).level = false ∨ Pends c st virq := by
  have hOn : isVirqEnabled c st virq true others = true := by simp [isVirqEnabled, hEnabled]
  have hSet : vgicSetVirqToVcpu c st virq true cur others =
      if cur then virtIrqFlushVgic c (virtIrqSyncVgic c (latchVirq st virq true))
      else latchVirq st virq true := by
    rw [vgicSetVirqToVcpu, if_neg (by omega), hOn]
    rfl
  have hRaises : raises st virq true = true ↔
      virq < localVirqNr ∨ (st.desc virq).level = false := by
    simp [raises]
  have hLatch : Pends c (latchVirq st virq true) virq ↔
      virq < localVirqNr ∨ (st.desc virq).level = false ∨ Pends c st virq := by
    rw [pends_latchVirq_iff, hRaises, or_assoc]
  rw [hSet, ← hLatch]
  cases cur with
  | false => simp
  | true =>
    have hEnough : RoomToRaise c st virq true := by
      rcases hRoom with hNot | hOff | hEnough
      · cases hNot
      · rw [hOn] at hOff
        cases hOff
      · exact hEnough
    have hInv' := (keeps_latchVirq hInv virq true).lrInv
    have hRoom' := waiting_latchVirq virq true hEnough
    simp only [if_true]
    constructor
    · exact pends_of_sync_flush hInv' hRoom'
    · exact (keeps_sync_flush hInv' hRoom').pends virq

end Raise

/--
**Raising an interrupt**: after every run whose flushes find room, raising an enabled
interrupt, with room for it, makes it pending exactly if it is private, or its level is
low, or it is pending already.
-/
theorem raised_pends_iff (c : VgicConfig) (ops : List VirqOp)
    (hRun : Admissible (virqStep c) (LeavesRoom c) bootIrqs ops) (virq : Nat)
    (hVirq : virq < c.virqNr) (cur others : Bool) :
    let st := exec (virqStep c) bootIrqs ops
    st.enabled virq = true → LeavesRoom c st (.set virq true cur others) →
      (Pends c (vgicSetVirqToVcpu c st virq true cur others) virq ↔
        virq < localVirqNr ∨ (st.desc virq).level = false ∨ Pends c st virq) := by
  intro st hEnabled hRoom
  exact pends_set_iff (lrInv_run c hRun) hVirq hEnabled hRoom

/-- The first interrupt of a device. -/
theorem raised_pends_first :
    Pends (sampleVgic 4 (by decide)) (vgicSetVirqToVcpu (sampleVgic 4 (by decide))
      (exec (virqStep (sampleVgic 4 (by decide))) bootIrqs [.enable 40 true]) 40 true true
      false) 40 := by
  have hRoom : LeavesRoom (sampleVgic 4 (by decide))
      (exec (virqStep (sampleVgic 4 (by decide))) bootIrqs [.enable 40 true])
      (.set 40 true true false) := by
    right
    right
    unfold RoomToRaise
    decide
  exact (raised_pends_iff (sampleVgic 4 (by decide)) [.enable 40 true] ⟨trivial, trivial⟩ 40
    (by decide) true false (by decide) hRoom).mpr (.inr (.inl (by decide)))

instance decidablePends (c : VgicConfig) (st : VcpuIrqs) (irq : Nat) :
    Decidable (Pends c st irq) :=
  inferInstanceAs (Decidable (st.pending irq = true ∨ Held c st irq))

/-- The guest takes the interrupt of list register 0 and ends it. -/
def handle : List VirqOp := [.ack 0, .eoi 0]

/-- The second interrupt of a pass-through device is dropped, with four idle list
registers; so is the third one of the console if the second came while the guest was
handling the first. -/
theorem second_raise_dropped :
    (let c := sampleVgic 4 (by decide)
     let st := exec (virqStep c) bootIrqs ([VirqOp.enable 40 true, .set 40 true true false] ++ handle)
     st.enabled 40 = true ∧ (freeLrs c st).card = 4 ∧
       ¬ Pends c (vgicSetVirqToVcpu c st 40 true true false) 40) ∧
    (let c := sampleVgic 4 (by decide)
     let st := exec (virqStep c) bootIrqs
       ([VirqOp.enable 33 true, .set 33 true true false, .ack 0, .set 33 true true false, .eoi 0] ++
         handle)
     st.enabled 33 = true ∧ (freeLrs c st).card = 4 ∧
       ¬ Pends c (vgicSetVirqToVcpu c st 33 true true false) 33) := by
  refine ⟨⟨by decide, by decide, by decide⟩, ⟨by decide, by decide, by decide⟩⟩

end Zvm.Vgic
