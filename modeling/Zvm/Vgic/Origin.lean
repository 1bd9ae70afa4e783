import Zvm.Vgic.Conserve

/-!
# Where the interrupt of a list register comes from

`vgicv3_pre_set_lr` takes the physical interrupt of a list register from the descriptor,
and the descriptor has it from `init_vcpu_virt_irq_desc`: private interrupts, those of
software and emulated devices among them, are their own physical interrupt, shared
interrupts have none.  Nothing writes the field later.  Nor does an interrupt get into a
list register that nobody has raised.  Both hold in all runs, with or without room.
-/

namespace Zvm.Vgic

open Zvm.Verified Zvm.Verified.Run

/-- The operation can make the interrupt pending. -/
def MakesPending : VirqOp → Nat → Prop
  | .set virq _ _ _, k => k = virq
  | .sgi sgi _ _, k => k = sgi
  | .setPend virq, k => k = virq
  | _, _ => False

/-- The interrupt is in `R`, and it is linked to the physical interrupt of the same
number exactly if it is private. -/
structure LrOrigin (R : Nat → Prop) (r : ListReg) : Prop where
  origin : R r.vINTID
  hw : r.hw = true ↔ r.vINTID < localVirqNr
  pINTID : r.hw = true → r.pINTID = r.vINTID

/-- Every interrupt that is pending or in a list register is in `R`. -/
structure Traced (R : Nat → Prop) (st : VcpuIrqs) : Prop where
  edge : ∀ k, st.edge k = true
  pirq : ∀ k, (st.desc k).pirqNum = if k < localVirqNr then k else invalidPirqNum
  pending : ∀ k, st.pending k = true → R k
  lr : ∀ i, (st.lr i).state ≠ .invalid → LrOrigin R (st.lr i)

section Traced

variable {c : VgicConfig} {R : Nat → Prop} {st : VcpuIrqs}

theorem traced_boot (R : Nat → Prop) :
    Traced R bootIrqs where
  edge _ := rfl
  pirq _ := rfl
  pending _ hPending := by cases hPending
  lr _ hValid := absurd rfl hValid

/-- A private interrupt's number is not the mark of a missing physical interrupt. -/
theorem pirqNum_ne_invalid {d : VirqDesc} {virq : Nat}
    (hPirq : d.pirqNum = if virq < localVirqNr then virq else invalidPirqNum) :
    d.pirqNum ≠ invalidPirqNum ↔ virq < localVirqNr := by
  rw [hPirq]
  unfold localVirqNr invalidPirqNum
  split <;> omega

theorem lrOrigin_preSetLr {d : VirqDesc} {virq : Nat} (hR : R virq)
    (hPirq : d.pirqNum = if virq < localVirqNr then virq else invalidPirqNum) (value : ListReg) :
    LrOrigin R (vgicv3PreSetLr virq d value) where
  origin := hR
  hw := decide_eq_true_iff.trans (pirqNum_ne_invalid hPirq)
  pINTID := by
    intro hHw
    have hNe : d.pirqNum ≠ invalidPirqNum := of_decide_eq_true hHw
    have hLocal := (pirqNum_ne_invalid hPirq).mp hNe
    show (if d.pirqNum ≠ invalidPirqNum then d.pirqNum else 0) = virq
    rw [if_pos hNe, hPirq, if_pos hLocal]

theorem Traced.setDesc (hTraced : Traced R st) {virq : Nat} {d : VirqDesc}
    (hPirq : d.pirqNum = (st.desc virq).pirqNum) :
    Traced R (setDesc st virq d) where
  edge := hTraced.edge
  pirq k := by
    by_cases hk : k = virq
    · subst hk
      simpa [Vgic.setDesc, hPirq] using hTraced.pirq k
    · simpa [Vgic.setDesc, FunArray.set, hk] using hTraced.pirq k
  pending := hTraced.pending
  lr := hTraced.lr

theorem Traced.setPending (hTraced : Traced R st) {virq : Nat} {on : Bool}
    (hR : on = true → R virq) :
    Traced R (setPending st virq on) where
  edge := hTraced.edge
  pirq := hTraced.pirq
  pending k hPending := by
    by_cases hk : k = virq
    · subst hk
      exact hR (by simpa [Vgic.setPending] using hPending)
    · exact hTraced.pending k (by simpa [Vgic.setPending, FunArray.set, hk] using hPending)
  lr := hTraced.lr

theorem Traced.inject (hTraced : Traced R st) {virq : Nat} (hR : R virq) :
    Traced R (vgicInjectVirqVcpuif c st virq).1 := by
  obtain ⟨d, i, value, hDesc, hLr, hPending, hEdge, hPirq, _⟩ := inject_writes c st virq
  have hOwn : d.pirqNum = if virq < localVirqNr then virq else invalidPirqNum :=
    hPirq.trans (hTraced.pirq virq)
  refine ⟨?_, ?_, ?_, ?_⟩
  · rw [hEdge]
    exact hTraced.edge
  · intro k
    rw [hDesc]
    exact FunArray.set_elim (fun hk => hk ▸ hOwn) fun _ => hTraced.pirq k
  · rw [hPending]
    exact hTraced.pending
  · intro j
    rw [hLr]
    split
    · exact FunArray.set_elim (fun _ _ => lrOrigin_preSetLr hR hOwn value) fun _ => hTraced.lr j
    · exact hTraced.lr j

theorem Traced.syncLr (hTraced : Traced R st) (i : Nat) : Traced R (syncLr c st i) := by
  have hCleared : Traced R (vgicv3WriteLr st i .zero) := by
    refine ⟨?_, ?_, ?_, ?_⟩
    · rw [writeLr_edge]
      exact hTraced.edge
    · rw [writeLr_desc]
      exact hTraced.pirq
    · rw [writeLr_pending]
      exact hTraced.pending
    · intro j
      rw [writeLr_lr]
      split
      · exact FunArray.set_elim (fun _ hValid => absurd rfl hValid) fun _ => hTraced.lr j
      · exact hTraced.lr j
  unfold Vgic.syncLr
  simp only
  split
  · exact hCleared
  · rw [if_pos (hCleared.edge _)]
    have hUnset : Traced R (listRegsUnset (vgicv3WriteLr st i .zero) i) :=
      ⟨hCleared.edge, hCleared.pirq, hCleared.pending, hCleared.lr⟩
    exact hUnset.setDesc rfl

theorem kept_traced (c : VgicConfig) (R : Nat → Prop) :
    Kept c R (Traced R) where
  allowed _ irq hTraced hPending := hTraced.pending irq hPending
  inject _ _ hR hTraced := hTraced.inject hR
  pending _ _ hTraced := hTraced.setPending (by simp)
  active _ _ _ hTraced := ⟨hTraced.edge, hTraced.pirq, hTraced.pending, hTraced.lr⟩
  src _ _ _ hTraced := hTraced.setDesc rfl
  syncLr _ i hTraced := hTraced.syncLr i

/-! ## Steps and runs -/

theorem Traced.latchVirq (hTraced : Traced R st) {virq : Nat} (hR : R virq) (level : Bool) :
    Traced R (latchVirq st virq level) := by
  unfold Vgic.latchVirq
  split
  · exact hTraced.setPending fun _ => hR
  · simp only
    split
    · have hLevel : Traced R (Vgic.setDesc st virq { st.desc virq with level := level }) :=
        hTraced.setDesc rfl
      split
      · exact hLevel.setPending fun _ => hR
      · exact hLevel
    · exact hTraced

/-- The guest changes the state of a list register that is in use. -/
theorem Traced.setLrState (hTraced : Traced R st) {i : Nat} (hUsed : (st.lr i).state ≠ .invalid)
    (state : IrqState) :
    Traced R (setLrState st i state) where
  edge := hTraced.edge
  pirq := hTraced.pirq
  pending := hTraced.pending
  lr j := by
    intro hValid
    by_cases hj : j = i
    · subst hj
      have hOld := hTraced.lr j hUsed
      simp only [Vgic.setLrState, FunArray.set_same]
      exact ⟨hOld.origin, hOld.hw, hOld.pINTID⟩
    · simp only [Vgic.setLrState, FunArray.set_ne _ _ hj] at hValid ⊢
      exact hTraced.lr j hValid

theorem Traced.step (hTraced : Traced R st) {op : VirqOp} (hOp : ∀ k, MakesPending op k → R k) :
    Traced R (virqStep c st op) := by
  have hKept := kept_traced c R
  cases op with
  | set virq level cur others =>
    exact hKept.set hTraced (hTraced.latchVirq (hOp virq rfl) level) cur others
  | sgi sgi sender cur =>
    simp only [virqStep]
    split
    · have hSender : Traced R (recordSender st sgi sender) := hTraced.setDesc rfl
      exact hKept.set hSender (hSender.latchVirq (hOp sgi rfl) true) cur false
    · exact hTraced
  | flush => exact hKept.flush hTraced
  | sync => exact hKept.sync hTraced
  | syncFlush => exact hKept.flush (hKept.sync hTraced)
  | ack i =>
    simp only [virqStep]
    split
    case isTrue hAck =>
      refine hTraced.setLrState ?_ _
      rw [hAck.2]
      decide
    case isFalse => exact hTraced
  | eoi i =>
    simp only [virqStep]
    split
    case isTrue hEoi =>
      refine hTraced.setLrState ?_ _
      intro hInvalid
      rw [hInvalid] at hEoi
      cases hEoi.2
    case isFalse => exact hTraced
  | enable virq on => exact ⟨hTraced.edge, hTraced.pirq, hTraced.pending, hTraced.lr⟩
  | setPend virq => exact hTraced.setPending fun _ => hOp virq rfl
  | clearPend virq => exact hTraced.setPending (by simp)
  | setPrio virq prio => exact hTraced.setDesc rfl

theorem traced_run (c : VgicConfig) (ops : List VirqOp) :
    Traced (fun _ => True) (exec (virqStep c) bootIrqs ops) := by
  apply exec_invariant_of_mem
  · intro op _ st hTraced
    exact hTraced.step fun _ _ => trivial
  · exact traced_boot _

end Traced

end Zvm.Vgic
