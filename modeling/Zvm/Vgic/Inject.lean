import Zvm.Verified.BitField
import Zvm.Vgic.ListRegs

/-!
# What injecting an interrupt does

`LrInv` ties the descriptors, the map of used list registers and the list registers
together, as long as no write to a list register has been lost.  Under it an injection
reuses the interrupt's list register or takes an idle one; `Injected` says what changes.
-/

namespace Zvm.Vgic

open Zvm.Verified

/-! ## The map of used list registers -/

theorem lrMask_eq {id : Nat} (hId : id < 31) : lrMask id = 1#64 <<< id := by
  have hAll : ∀ k < 31, lrMask k = 1#64 <<< k := by decide
  exact hAll id hId

theorem getLsbD_lrMask {id : Nat} (hId : id < 31) (k : Nat) :
    (lrMask id).getLsbD k = decide (k = id) := by
  rw [lrMask_eq hId]
  exact BitField.getLsbD_one_shiftLeft (by omega) k

theorem listRegsTest_eq (st : VcpuIrqs) {id : Nat} (hId : id < 31) :
    listRegsTest st id = st.listRegsMap.getLsbD id := by
  unfold listRegsTest
  rw [lrMask_eq hId, ← BitVec.twoPow_eq, BitVec.and_twoPow]
  cases hBit : st.listRegsMap.getLsbD id with
  | false => simp
  | true =>
    have hNe : BitVec.twoPow 64 id ≠ 0#64 := by
      intro hZero
      have hOne := congrArg (fun w => w.getLsbD id) hZero
      simp at hOne
      omega
    simpa using hNe

theorem getLsbD_listRegsSet (st : VcpuIrqs) {id : Nat} (hId : id < 31) (k : Nat) :
    (listRegsSet st id).listRegsMap.getLsbD k = (decide (k = id) || st.listRegsMap.getLsbD k) := by
  simp only [listRegsSet, BitVec.getLsbD_or, getLsbD_lrMask hId, Bool.or_comm]

theorem getLsbD_listRegsUnset (st : VcpuIrqs) {id : Nat} (hId : id < 31) (k : Nat) :
    (listRegsUnset st id).listRegsMap.getLsbD k =
      (decide (k ≠ id) && st.listRegsMap.getLsbD k) := by
  simp only [listRegsUnset, BitVec.getLsbD_and, BitVec.getLsbD_not, getLsbD_lrMask hId]
  by_cases hk : k < 64
  · simp [hk, Bool.and_comm]
  · simp [BitVec.getLsbD_of_ge st.listRegsMap k (by omega)]

/-- The mask of the invalid identifier has bits above the list registers only. -/
theorem listRegsTest_invalid {st : VcpuIrqs}
    (hMap : ∀ i, st.listRegsMap.getLsbD i = true → i < 31) :
    listRegsTest st invalidDescId = false := by
  have hLow : ∀ k < 31, (lrMask invalidDescId).getLsbD k = false := by decide
  have hZero : st.listRegsMap &&& lrMask invalidDescId = 0#64 := by
    apply BitVec.eq_of_getLsbD_eq
    intro k _
    rw [BitVec.getLsbD_and, BitVec.getLsbD_zero, Bool.and_eq_false_iff]
    rcases Nat.lt_or_ge k 31 with hLt | hGe
    · exact .inr (hLow k hLt)
    · left
      by_contra hBit
      have hLt := hMap k (by simpa using hBit)
      omega
  simp [listRegsTest, hZero]

/-! ## The invariant -/

/-- The list registers that exist and can be written. -/
def VgicConfig.lrs (c : VgicConfig) : Nat := min c.lrNum 8

theorem VgicConfig.lrs_le (c : VgicConfig) : c.lrs ≤ 8 := Nat.min_le_right _ _

theorem VgicConfig.lrs_le_lrNum (c : VgicConfig) : c.lrs ≤ c.lrNum := Nat.min_le_left _ _

/-- Descriptors, map and list registers agree. -/
structure LrInv (c : VgicConfig) (st : VcpuIrqs) : Prop where
  edge : ∀ irq, st.edge irq = true
  free : ∀ i, st.listRegsMap.getLsbD i = false → (st.lr i).state = .invalid
  mapped : ∀ i, st.listRegsMap.getLsbD i = true →
    i < c.lrs ∧ (st.lr i).vINTID < c.virqNr ∧ (st.desc (st.lr i).vINTID).id = i
  descId : ∀ irq, (st.desc irq).id = invalidDescId ∨
    (st.listRegsMap.getLsbD (st.desc irq).id = true ∧ (st.lr (st.desc irq).id).vINTID = irq)
  src : ∀ irq k, (st.desc irq).srcCpu.getLsbD k = true → k < c.vcpuNum

theorem lrInv_boot (c : VgicConfig) :
    LrInv c bootIrqs where
  edge := fun _ => rfl
  free := fun _ _ => rfl
  mapped := by
    intro i hi
    simp [bootIrqs] at hi
  descId := fun _ => .inl rfl
  src := by
    intro irq k hk
    simp [bootIrqs, initDesc] at hk

/-- The interrupt has a list register. -/
def hasLr (st : VcpuIrqs) (irq : Nat) : Bool := (st.desc irq).id != invalidDescId

/-- A list register holds the interrupt in a pending state. -/
def Held (c : VgicConfig) (st : VcpuIrqs) (irq : Nat) : Prop :=
  ∃ i < c.lrNum, (st.lr i).vINTID = irq ∧ (st.lr i).state.pending = true

section Invariant

variable {c : VgicConfig} {st : VcpuIrqs}

theorem LrInv.map_lt (hInv : LrInv c st) {i : Nat} (hi : st.listRegsMap.getLsbD i = true) : i < 8 :=
  Nat.lt_of_lt_of_le (hInv.mapped i hi).1 c.lrs_le

theorem LrInv.test_invalid (hInv : LrInv c st) : listRegsTest st invalidDescId = false := by
  apply listRegsTest_invalid
  intro i hi
  have := hInv.map_lt hi
  omega

/-- A register that holds an interrupt is in use. -/
theorem LrInv.mapped_of_pending (hInv : LrInv c st) {i : Nat}
    (hi : (st.lr i).state.pending = true) : st.listRegsMap.getLsbD i = true := by
  by_contra hBit
  rw [hInv.free i (by simpa using hBit)] at hi
  cases hi

/-- The register a descriptor names holds its interrupt. -/
theorem LrInv.vINTID_of_id (hInv : LrInv c st) {virq j : Nat}
    (hBit : st.listRegsMap.getLsbD j = true) (hId : (st.desc virq).id = j) :
    (st.lr j).vINTID = virq := by
  rcases hInv.descId virq with hNone | ⟨_, hLr⟩
  · have := hInv.map_lt hBit
    rw [hId, invalidDescId] at hNone
    omega
  · rwa [hId] at hLr

end Invariant

/-- What an injection of `virq` into list register `j` does: `j` was idle or already the
interrupt's own, and nothing else changes. -/
structure Injected (c : VgicConfig) (st st' : VcpuIrqs) (virq j : Nat) : Prop where
  slot : j < c.lrs
  was : (st.listRegsMap.getLsbD j = false ∧ (st.desc virq).id = invalidDescId) ∨
    (st.listRegsMap.getLsbD j = true ∧ (st.desc virq).id = j)
  pending : st'.pending = st.pending
  enabled : st'.enabled = st.enabled
  edge : st'.edge = st.edge
  map : ∀ k, st'.listRegsMap.getLsbD k = (decide (k = j) || st.listRegsMap.getLsbD k)
  lr_self : (st'.lr j).vINTID = virq ∧ (st'.lr j).state.pending = true
  lr_other : ∀ i, i ≠ j → st'.lr i = st.lr i
  desc_self : (st'.desc virq).id = j ∧ (st'.desc virq).srcCpu = (st.desc virq).srcCpu
  desc_other : ∀ k, k ≠ virq → st'.desc k = st.desc k

section Injected

variable {c : VgicConfig} {st st' : VcpuIrqs} {virq j : Nat}

section

variable (hInj : Injected c st st' virq j)
include hInj

theorem Injected.lrInv (hInv : LrInv c st) (hVirq : virq < c.virqNr) :
    LrInv c st' where
  edge := by
    intro irq
    rw [hInj.edge]
    exact hInv.edge irq
  free := by
    intro i hi
    rw [hInj.map, Bool.or_eq_false_iff, decide_eq_false_iff_not] at hi
    rw [hInj.lr_other i hi.1]
    exact hInv.free i hi.2
  mapped := by
    intro i hi
    by_cases hEq : i = j
    · subst hEq
      rw [hInj.lr_self.1]
      exact ⟨hInj.slot, hVirq, hInj.desc_self.1⟩
    · have hOld : st.listRegsMap.getLsbD i = true := by simpa [hInj.map, hEq] using hi
      obtain ⟨hSlot, hLt, hId⟩ := hInv.mapped i hOld
      have hNe : (st.lr i).vINTID ≠ virq := by
        intro hSame
        rw [hSame] at hId
        rcases hInj.was with ⟨_, hNone⟩ | ⟨_, hOwn⟩
        · have := hInv.map_lt hOld
          rw [hNone, invalidDescId] at hId
          omega
        · exact hEq (hId.symm.trans hOwn)
      rw [hInj.lr_other i hEq, hInj.desc_other _ hNe]
      exact ⟨hSlot, hLt, hId⟩
  descId := by
    intro irq
    by_cases hEq : irq = virq
    · subst hEq
      right
      rw [hInj.desc_self.1, hInj.map]
      exact ⟨by simp, hInj.lr_self.1⟩
    · rw [hInj.desc_other irq hEq]
      rcases hInv.descId irq with hNone | ⟨hBit, hLr⟩
      · exact .inl hNone
      · right
        have hNe : (st.desc irq).id ≠ j := by
          intro hSame
          rw [hSame] at hBit hLr
          rcases hInj.was with ⟨hFree, _⟩ | ⟨_, hOwn⟩
          · rw [hFree] at hBit
            cases hBit
          · exact hEq (hLr.symm.trans (hInv.vINTID_of_id hBit hOwn))
        rw [hInj.map, hInj.lr_other _ hNe]
        exact ⟨by simp [hBit], hLr⟩
  src := by
    intro irq k hk
    by_cases hEq : irq = virq
    · subst hEq
      rw [hInj.desc_self.2] at hk
      exact hInv.src irq k hk
    · rw [hInj.desc_other irq hEq] at hk
      exact hInv.src irq k hk

theorem Injected.held_self : Held c st' virq :=
  ⟨j, Nat.lt_of_lt_of_le hInj.slot c.lrs_le_lrNum, hInj.lr_self⟩

/-- No pending interrupt is overwritten. -/
theorem Injected.held (hInv : LrInv c st) {irq : Nat} (hHeld : Held c st irq) : Held c st' irq := by
  obtain ⟨i, hi, hLr, hPend⟩ := hHeld
  by_cases hEq : i = j
  · subst hEq
    rcases hInj.was with ⟨hFree, _⟩ | ⟨hBit, hOwn⟩
    · rw [hInv.mapped_of_pending hPend] at hFree
      cases hFree
    · rw [← hLr, hInv.vINTID_of_id hBit hOwn]
      exact hInj.held_self
  · exact ⟨i, hi, by rw [hInj.lr_other i hEq]; exact hLr,
      by rw [hInj.lr_other i hEq]; exact hPend⟩

/-- No other interrupt becomes pending in a register. -/
theorem Injected.held_inv {irq : Nat} (hHeld : Held c st' irq) :
    Held c st irq ∨ irq = virq := by
  obtain ⟨i, hi, hLr, hPend⟩ := hHeld
  by_cases hEq : i = j
  · right
    rw [← hLr, hEq]
    exact hInj.lr_self.1
  · left
    rw [hInj.lr_other i hEq] at hLr hPend
    exact ⟨i, hi, hLr, hPend⟩

/-- Injecting again uses the same register. -/
theorem Injected.trans {st'' : VcpuIrqs} {k : Nat} (hNext : Injected c st' st'' virq k) :
    Injected c st st'' virq j := by
  have hSlot := Nat.lt_of_lt_of_le hInj.slot c.lrs_le
  have hSame : k = j := by
    rcases hNext.was with ⟨_, hNone⟩ | ⟨_, hOwn⟩
    · rw [hInj.desc_self.1, invalidDescId] at hNone
      omega
    · exact hOwn.symm.trans hInj.desc_self.1
  subst hSame
  refine ⟨hInj.slot, hInj.was, hNext.pending.trans hInj.pending,
    hNext.enabled.trans hInj.enabled, hNext.edge.trans hInj.edge, ?_, hNext.lr_self, ?_,
    ⟨hNext.desc_self.1, hNext.desc_self.2.trans hInj.desc_self.2⟩, ?_⟩
  · intro i
    rw [hNext.map, hInj.map, ← Bool.or_assoc, Bool.or_self]
  · intro i hi
    rw [hNext.lr_other i hi, hInj.lr_other i hi]
  · intro i hi
    rw [hNext.desc_other i hi, hInj.desc_other i hi]

end

end Injected

/-! ## Room -/

/-- The list registers that exist, can be written and are not in use. -/
def idleLrs (c : VgicConfig) (st : VcpuIrqs) : Finset Nat :=
  (Finset.range c.lrs).filter fun i => st.listRegsMap.getLsbD i = false

theorem mem_idleLrs {c : VgicConfig} {st : VcpuIrqs} {i : Nat} :
    i ∈ idleLrs c st ↔ i < c.lrs ∧ st.listRegsMap.getLsbD i = false := by
  simp [idleLrs]

/-- There is a list register for the interrupt. -/
def HasRoom (c : VgicConfig) (st : VcpuIrqs) (virq : Nat) : Prop :=
  hasLr st virq = true ∨ (idleLrs c st).Nonempty

/-- The test for a negative number never succeeds. -/
theorem inject_ret_nonneg (c : VgicConfig) (st : VcpuIrqs) (virq : Nat) :
    0 ≤ (vgicInjectVirqVcpuif c st virq).2 := by
  unfold vgicInjectVirqVcpuif
  have hReg : ¬ ((vgicv3GetIdleLr c st : Nat) : Int) < 0 := by omega
  simp only [hReg, if_false, apply_ite Prod.snd]
  split <;> split <;> decide

section Room

variable {c : VgicConfig} {st : VcpuIrqs} {virq : Nat}

/-- The search finds an idle register that can be written if there is one. -/
theorem getIdleLr_mem (hIdle : (idleLrs c st).Nonempty) : vgicv3GetIdleLr c st ∈ idleLrs c st := by
  obtain ⟨i, hi⟩ := hIdle
  rw [mem_idleLrs] at hi
  have hLrs := c.lrs_le
  have hTest : listRegsTest st i = false := by
    rw [listRegsTest_eq st (by omega)]
    exact hi.2
  unfold vgicv3GetIdleLr
  cases hFind : FunArray.firstIdx c.lrNum (fun i => !listRegsTest st i) with
  | none =>
    have hAll := FunArray.firstIdx_eq_none.mp hFind i
      (Nat.lt_of_lt_of_le hi.1 c.lrs_le_lrNum)
    rw [hTest] at hAll
    cases hAll
  | some j =>
    obtain ⟨_, hFree, hFirst⟩ := FunArray.firstIdx_eq_some.mp hFind
    have hLe : j ≤ i := by
      by_contra hGt
      have hBefore := hFirst i (by omega)
      rw [hTest] at hBefore
      cases hBefore
    rw [Option.getD_some, mem_idleLrs]
    refine ⟨by omega, ?_⟩
    rw [← listRegsTest_eq st (by omega)]
    simpa using hFree

/-- Both ways of an injection end with a write of the interrupt's list register. -/
theorem injected_write {map : BitVec 64} {j : Nat} {d d' : VirqDesc} {value : ListReg}
    (hSlot : j < c.lrs)
    (hWas : (st.listRegsMap.getLsbD j = false ∧ (st.desc virq).id = invalidDescId) ∨
      (st.listRegsMap.getLsbD j = true ∧ (st.desc virq).id = j))
    (hMap : ∀ k, map.getLsbD k = (decide (k = j) || st.listRegsMap.getLsbD k))
    (hPend : d.virqStates.pending = true) (hId : d'.id = j)
    (hSrc : d'.srcCpu = (st.desc virq).srcCpu) :
    Injected c st (vgicv3WriteLr (setDesc { st with listRegsMap := map } virq d') j
      (vgicv3PreSetLr virq d value)) virq j := by
  rw [vgicv3WriteLr, if_pos (Nat.lt_of_lt_of_le hSlot c.lrs_le)]
  refine ⟨hSlot, hWas, rfl, rfl, rfl, hMap, ?_, fun i hi => FunArray.set_ne _ _ hi, ?_,
    fun k hk => FunArray.set_ne _ _ hk⟩
  · simp [vgicv3PreSetLr, hPend]
  · simp [setDesc, hId, hSrc]

/-- An interrupt that has a list register is written to it again. -/
theorem inject_held (hInv : LrInv c st) (hHas : hasLr st virq = true) :
    st.listRegsMap.getLsbD (st.desc virq).id = true ∧ ∃ d d' : VirqDesc,
      (vgicInjectVirqVcpuif c st virq).1 = vgicv3WriteLr (setDesc st virq d') (st.desc virq).id
        (vgicv3PreSetLr virq d (st.lr (st.desc virq).id)) ∧
      d.virqStates = ⟨true, (st.desc virq).virqStates.active⟩ ∧ d'.id = (st.desc virq).id ∧
      d'.srcCpu = (st.desc virq).srcCpu := by
  have hNe : (st.desc virq).id ≠ invalidDescId := by simpa [hasLr] using hHas
  obtain ⟨hBit, hLr⟩ := (hInv.descId virq).resolve_left hNe
  have hLt := hInv.map_lt hBit
  have hTest : listRegsTest st (st.desc virq).id = true := by
    rw [listRegsTest_eq st (by omega)]
    exact hBit
  have hRead : vgicv3ReadLr st (st.desc virq).id = st.lr (st.desc virq).id := if_pos hLt
  simp only [vgicInjectVirqVcpuif, hTest, if_true, hRead, hLr, beq_self_eq_true, Bool.and_self]
  exact ⟨hBit, _, _, rfl, rfl, rfl, rfl⟩

/-- An interrupt that has a list register is injected there. -/
theorem inject_reuse (hInv : LrInv c st) (hHas : hasLr st virq = true) :
    ∃ j, Injected c st (vgicInjectVirqVcpuif c st virq).1 virq j := by
  obtain ⟨hBit, d, d', hWrite, hState, hId, hSrc⟩ := inject_held hInv hHas
  refine ⟨(st.desc virq).id, ?_⟩
  rw [hWrite]
  refine injected_write (hInv.mapped _ hBit).1 (.inr ⟨hBit, rfl⟩) (fun k => ?_) (by rw [hState]) hId hSrc
  by_cases hk : k = (st.desc virq).id <;> simp [hk, hBit]

/-- Any other interrupt takes an idle one. -/
theorem inject_idle (hInv : LrInv c st) (hHas : hasLr st virq = false)
    (hIdle : (idleLrs c st).Nonempty) :
    ∃ j, Injected c st (vgicInjectVirqVcpuif c st virq).1 virq j := by
  have hNone : (st.desc virq).id = invalidDescId := by simpa [hasLr] using hHas
  have hMem := mem_idleLrs.mp (getIdleLr_mem hIdle)
  have hLt : vgicv3GetIdleLr c st < 8 := Nat.lt_of_lt_of_le hMem.1 c.lrs_le
  have hReg : ¬ ((vgicv3GetIdleLr c st : Nat) : Int) < 0 := by omega
  refine ⟨vgicv3GetIdleLr c st, ?_⟩
  simp only [vgicInjectVirqVcpuif, hNone, hInv.test_invalid, Bool.false_and,
    Bool.false_eq_true, if_false, hReg, Int.toNat_natCast]
  exact injected_write hMem.1 (.inl ⟨hMem.2, hNone⟩) (getLsbD_listRegsSet st (by omega)) rfl rfl rfl

theorem inject_injected (hInv : LrInv c st) (hRoom : HasRoom c st virq) :
    ∃ j, Injected c st (vgicInjectVirqVcpuif c st virq).1 virq j := by
  cases hHas : hasLr st virq with
  | true => exact inject_reuse hInv hHas
  | false =>
    rcases hRoom with hTrue | hIdle
    · rw [hHas] at hTrue
      cases hTrue
    · exact inject_idle hInv hHas hIdle

end Room

section Room

variable {c : VgicConfig} {st st' : VcpuIrqs} {virq j : Nat}

theorem Injected.hasLr_self (hInj : Injected c st st' virq j) : hasLr st' virq = true := by
  have hSlot := Nat.lt_of_lt_of_le hInj.slot c.lrs_le
  simp only [hasLr, hInj.desc_self.1, invalidDescId, bne_iff_ne]
  omega

theorem Injected.hasLr_other (hInj : Injected c st st' virq j) {irq : Nat} (hNe : irq ≠ virq) :
    hasLr st' irq = hasLr st irq := by
  simp only [hasLr, hInj.desc_other irq hNe]

/-- An injection uses up one register, or none if the interrupt has one. -/
theorem Injected.idle_card (hInj : Injected c st st' virq j) :
    (idleLrs c st').card + (if hasLr st virq then 0 else 1) = (idleLrs c st).card := by
  have hErase : idleLrs c st' = (idleLrs c st).erase j := by
    ext k
    rw [Finset.mem_erase, mem_idleLrs, mem_idleLrs, hInj.map]
    by_cases hk : k = j <;> simp [hk]
  have hSlot := Nat.lt_of_lt_of_le hInj.slot c.lrs_le
  rcases hInj.was with ⟨hFree, hNone⟩ | ⟨hBit, hOwn⟩
  · have hMem : j ∈ idleLrs c st := mem_idleLrs.mpr ⟨hInj.slot, hFree⟩
    have hHas : hasLr st virq = false := by simp [hasLr, hNone]
    have hPos : 0 < (idleLrs c st).card := Finset.card_pos.mpr ⟨j, hMem⟩
    rw [hErase, Finset.card_erase_of_mem hMem, hHas]
    simp only [Bool.false_eq_true, if_false]
    omega
  · have hNot : j ∉ idleLrs c st := by
      intro hMem
      rw [(mem_idleLrs.mp hMem).2] at hBit
      cases hBit
    have hHas : hasLr st virq = true := by
      simp only [hasLr, hOwn, invalidDescId, bne_iff_ne]
      omega
    rw [hErase, Finset.erase_eq_of_notMem hNot, hHas]
    rfl

end Room

end Zvm.Vgic
