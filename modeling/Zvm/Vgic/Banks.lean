import Mathlib
import Zvm.Verified.BitField
import Zvm.Vgic.Advertised

/-!
# The registers of the shared interrupts

What a guest's accesses to the distributor do to the banks of bits of the shared interrupts,
their priorities and their configuration.  A bank is written for all vCPUs, and nothing else
with it; but a write to bank 0 lands in the banks of other interrupts.  A priority is written
with those of its three neighbours, whatever the size of the access, and the configuration is
kept for each vCPU and never looked at.
-/

namespace Zvm.Vgic

open Zvm.Verified Zvm.Verified.FunArray

/-! ## The loops -/

section Loops

variable {virqNr base : Nat} {value w : BitVec 32} {setFlag : Bool}

theorem getLsbD_foldl_or (p : Nat → Prop) [DecidablePred p] (f : Nat → BitVec 32) (j : Nat)
    (is : List Nat) :
    ∀ w,
      (is.foldl (fun value i => if p i then value ||| f i else value) w).getLsbD j =
        (w.getLsbD j || is.any fun i => decide (p i) && (f i).getLsbD j) := by
  induction is with
  | nil => simp
  | cons i is ih =>
    intro w
    rw [List.foldl_cons, ih]
    by_cases hp : p i
    · simp [hp, Bool.or_assoc]
    · simp [hp]

/-- What a register that sets or clears bits makes of a word. -/
def writtenBits (setFlag : Bool) (value w : BitVec 32) : BitVec 32 :=
  if setFlag then w ||| value else w &&& ~~~value

theorem writtenBits_idem :
    writtenBits setFlag value (writtenBits setFlag value w) = writtenBits setFlag value w := by
  cases setFlag with
  | true => simp [writtenBits, BitVec.or_assoc]
  | false => simp [writtenBits, BitVec.and_assoc]

theorem getLsbD_writeBits {k : Nat} (hLt : k < 32) (bits : List Nat) :
    ∀ w,
    (∀ bit ∈ bits, bit < 32 ∧ (base = 0 ∨ base + bit ≤ virqNr)) →
      (writeBits virqNr base value setFlag bits w).getLsbD k =
        if k ∈ bits then (writtenBits setFlag value w).getLsbD k else w.getLsbD k := by
  induction bits with
  | nil =>
    intro w _
    simp [writeBits]
  | cons bit bits ih =>
    intro w hIn
    obtain ⟨hBit, hLe⟩ := hIn bit (by simp)
    have hRest : ∀ k ∈ bits, k < 32 ∧ (base = 0 ∨ base + k ≤ virqNr) :=
      fun k hk => hIn k (by simp [hk])
    have hOne := BitField.getLsbD_one_shiftLeft hBit k
    have hAll := fun w => ih w hRest
    rw [writeBits, if_neg (show ¬ (base ≠ 0 ∧ virqNr < base + bit) by omega)]
    by_cases hk : k = bit
    · subst hk
      cases hSet : value.getLsbD k <;> cases setFlag <;>
        simp [-BitVec.getLsbD_eq_getElem, writtenBits, hAll, hSet, hOne, hLt]
    · cases value.getLsbD bit <;> cases setFlag <;>
        simp [-BitVec.getLsbD_eq_getElem, writtenBits, hAll, hk, hOne, hLt]

theorem writeBits_range (hLe : base = 0 ∨ base + 31 ≤ virqNr) :
    writeBits virqNr base value setFlag (List.range 32) w = writtenBits setFlag value w := by
  ext k hk
  rw [← BitVec.getLsbD_eq_getElem, getLsbD_writeBits hk, if_pos (List.mem_range.mpr hk),
    BitVec.getLsbD_eq_getElem]
  intro bit hBit
  have := List.mem_range.mp hBit
  omega

end Loops

/-! ## The banks -/

/-- The word of the distributor that a write to the bank of `base` changes for a vCPU. -/
def bankWord (b : GicBuild) (kind : BitKind) (base vcpu : Nat) : Nat :=
  if base = 0 then kind.confusedWord else kind.word b vcpu (base / 32)

/-- The words after a write to the bank of `base`. -/
def writtenBanks (b : GicBuild) (kind : BitKind) (setFlag : Bool) (base : Nat) (value : BitVec 32)
    (banks : Nat → BitVec 32) : Nat → BitVec 32 := fun w =>
  if ∃ u, u < b.vcpuNum ∧ w = bankWord b kind base u then writtenBits setFlag value (banks w)
  else banks w

/-- Bank `k` of one kind has changed by `f` on every vCPU of the VM, and nothing else. -/
structure BankChanged (b : GicBuild) (kind : BitKind) (k : Nat) (f : BitVec 32 → BitVec 32)
    (g g' : Gic) : Prop where
  bank : ∀ v < b.vcpuNum, g'.gicd.banks (kind.word b v k) = f (g.gicd.banks (kind.word b v k))
  others : ∀ kind' v k', v < b.maxVcpu → k' < b.bankNum →
    ¬ (kind' = kind ∧ v < b.vcpuNum ∧ k' = k) →
    g'.gicd.banks (kind'.word b v k') = g.gicd.banks (kind'.word b v k')
  trigger : ∀ w, b.edgeStart ≤ w → g'.gicd.banks w = g.gicd.banks w
  rest : g' = { g with gicd := { g.gicd with banks := g'.gicd.banks } }

/-- A word of a shared bank of a vCPU of the VM, or of the trigger table. -/
def SharedWord (b : GicBuild) (w : Nat) : Prop :=
  (∃ (kind : BitKind) (v k : Nat), v < b.vcpuNum ∧ 1 ≤ k ∧ k < b.bankNum ∧ w = kind.word b v k) ∨
    (b.edgeStart ≤ w ∧ w < b.edgeStart + b.virqNr)

/-- The shared interrupts and the other registers of the distributor are the same. -/
def SharedSame (b : GicBuild) (g g' : Gic) : Prop :=
  (∀ w, SharedWord b w → g'.gicd.banks w = g.gicd.banks w) ∧
    g' = { g with gicd := { g.gicd with banks := g'.gicd.banks } }

section Banks

variable {b : GicBuild} {g : Gic} {kind : BitKind} {setFlag : Bool} {value : BitVec 32}
  {base vcpu k : Nat}

/-- The loop over the vCPUs changes the words of the bank. -/
theorem foldl_testAndSet (hLe : base = 0 ∨ base + 31 ≤ b.virqNr) (vcpus : List Nat) :
    ∀ d : Gicd, (vcpus.foldl (testAndSetGicdBit b kind base value setFlag) d).banks = fun w =>
      if ∃ u ∈ vcpus, w = bankWord b kind base u then writtenBits setFlag value (d.banks w)
      else d.banks w := by
  induction vcpus with
  | nil => simp
  | cons u vcpus ih =>
    intro d
    funext w
    have hFirst : (testAndSetGicdBit b kind base value setFlag d u).banks =
        set d.banks (bankWord b kind base u)
          (writtenBits setFlag value (d.banks (bankWord b kind base u))) := by
      rw [← writeBits_range hLe]
      rfl
    rw [List.foldl_cons, ih, hFirst]
    by_cases hw : w = bankWord b kind base u
    · subst hw
      simp [writtenBits_idem]
    · simp [set_ne _ _ hw, hw]

theorem bankWrite_eq (hLt : base < b.virqNr) (hLe : base = 0 ∨ base + 31 ≤ b.virqNr) :
    bankWrite b g kind setFlag base value = ({ g with gicd := { g.gicd with
      banks := writtenBanks b kind setFlag base value g.gicd.banks } }, 0) := by
  rw [bankWrite, if_neg (Nat.not_le.mpr hLt), foldl_testAndSetGicdBit, foldl_testAndSet hLe]
  simp only [List.mem_range]
  rfl

theorem decodeGicd_bank (prioEnd : Nat) (hk : k < 32) :
    decodeGicd prioEnd (bankOffset kind setFlag k) = .bank kind setFlag (k * 32) :=
  decodeGicd_bank_lane prioEnd kind setFlag hk (Nat.zero_lt_succ 3)

theorem row_lt {v : Nat} (hv : v < b.maxVcpu) (hk : k < b.bankNum) :
    v * b.bankNum + k < b.maxVcpu * b.bankNum :=
  calc v * b.bankNum + k < v * b.bankNum + b.bankNum := by omega
    _ = (v + 1) * b.bankNum := (Nat.succ_mul v _).symm
    _ ≤ b.maxVcpu * b.bankNum := Nat.mul_le_mul_right _ hv

/-- No two banks share a word. -/
theorem word_inj {kind' : BitKind} {v v' k' : Nat} (hv : v < b.maxVcpu) (hv' : v' < b.maxVcpu)
    (hk : k < b.bankNum) (hk' : k' < b.bankNum) (hEq : kind.word b v k = kind'.word b v' k') :
    kind = kind' ∧ v = v' ∧ k = k' := by
  have hRow := row_lt hv hk
  have hRow' := row_lt hv' hk'
  have hSum : v * b.bankNum + k = v' * b.bankNum + k' ∧ kind = kind' := by
    cases kind <;> cases kind' <;> simp only [BitKind.word] at hEq <;> simp <;> omega
  obtain ⟨hSum, rfl⟩ := hSum
  have hPos : 0 < b.bankNum := by omega
  have hDiv := congrArg (· / b.bankNum) hSum
  have hMod := congrArg (· % b.bankNum) hSum
  simp only [Nat.mul_comm v, Nat.mul_comm v', Nat.mul_add_div hPos, Nat.div_eq_of_lt hk,
    Nat.div_eq_of_lt hk', Nat.add_zero] at hDiv
  simp only [Nat.mul_comm v, Nat.mul_comm v', Nat.mul_add_mod, Nat.mod_eq_of_lt hk,
    Nat.mod_eq_of_lt hk'] at hMod
  exact ⟨rfl, hDiv, hMod⟩

theorem word_lt_edgeStart {v : Nat} (hv : v < b.maxVcpu) (hk : k < b.bankNum) :
    kind.word b v k < b.edgeStart := by
  have hRow := row_lt hv hk
  unfold GicBuild.edgeStart
  cases kind <;> simp only [BitKind.word] <;> omega

theorem bankWrite_changed (hNr : 32 ∣ b.virqNr) (hk : 1 ≤ k) (hLt : k < b.bankNum) :
    ∃ g', bankWrite b g kind setFlag (k * 32) value = (g', 0) ∧
      BankChanged b kind k (writtenBits setFlag value) g g' := by
  have hBanks : 32 * b.bankNum = b.virqNr := Nat.mul_div_cancel' hNr
  have hWord : ∀ u, bankWord b kind (k * 32) u = kind.word b u k := by
    intro u
    rw [bankWord, if_neg (by omega), Nat.mul_div_cancel _ (by decide)]
  have hNum := b.vcpuNum_le
  rw [bankWrite_eq (by omega) (by omega)]
  refine ⟨_, rfl, ?_⟩
  refine ⟨fun v hv => ?_, fun kind' v k' hv hk' hNot => ?_, fun w hw => ?_, rfl⟩
  · exact if_pos ⟨v, hv, (hWord v).symm⟩
  · refine if_neg ?_
    rintro ⟨u, hu, hEq⟩
    rw [hWord] at hEq
    obtain ⟨rfl, rfl, rfl⟩ := word_inj hv (by omega) hk' hLt hEq
    exact hNot ⟨rfl, hu, rfl⟩
  · refine if_neg ?_
    rintro ⟨u, hu, rfl⟩
    rw [hWord] at hw
    exact absurd hw (Nat.not_le.mpr (word_lt_edgeStart (by omega) hLt))

theorem getLsbD_bankRead (mask : Nat → Bool) (hk : 1 ≤ k) (hNr : 32 ∣ b.virqNr)
    (hLt : k < b.bankNum) {j : Nat} (hj : j < 32) :
    (bankRead b g kind mask (k * 32)).getLsbD j = true ↔
      ∃ v < b.vcpuNum, mask v = true ∧ (g.gicd.banks (kind.word b v k)).getLsbD j = true := by
  have hBanks : 32 * b.bankNum = b.virqNr := Nat.mul_div_cancel' hNr
  have hBit : ∀ v, g.bit b kind v (k * 32 + j) = (g.gicd.banks (kind.word b v k)).getLsbD j := by
    intro v
    rw [Gic.bit, if_neg (by omega), show (k * 32 + j) / 32 = k by omega,
      show (k * 32 + j) % 32 = j by omega]
  have hOne : ∀ i < 32, (1#32 <<< i).getLsbD j = decide (j = i) :=
    fun i hi => BitField.getLsbD_one_shiftLeft hi j
  rw [bankRead, if_neg (by omega), getLsbD_foldl_or]
  simp only [BitVec.ofNat_eq_ofNat, BitVec.getLsbD_zero, Bool.false_or, List.any_eq_true, List.mem_range,
    Bool.and_eq_true, decide_eq_true_eq, isVirq]
  constructor
  · rintro ⟨i, hi, ⟨_, v, hv, hMask, hSet⟩, hSame⟩
    rw [hOne i hi, decide_eq_true_eq] at hSame
    subst hSame
    exact ⟨v, hv, hMask, by rwa [← hBit]⟩
  · rintro ⟨v, hv, hMask, hSet⟩
    exact ⟨j, hj, ⟨by omega, v, hv, hMask, by rwa [hBit]⟩, by rw [hOne j hj, decide_eq_true_eq]⟩

/--
**The banks of the shared interrupts.**  A write to the register of a bank changes the bits of
this bank and kind on every vCPU of the VM, and nothing else.  A read shows the bits of the
vCPU that reads, except in `GICD_ISACTIVER`: there the bits of all vCPUs are shown, which are
its own exactly if no other vCPU has a bit set that it has not.
-/
theorem bank_registers_iff (hNr : 32 ∣ b.virqNr) (hVcpu : vcpu < b.vcpuNum) (hk : 1 ≤ k)
    (hLt : k < b.bankNum) (hReg : k < 32) :
    (∃ g', vgicGicdMemWrite b g vcpu (bankOffset kind setFlag k) value = (g', 0) ∧
      BankChanged b kind k (writtenBits setFlag value) g g') ∧
    (vgicGicdMemRead b g vcpu (bankOffset kind setFlag k) = g.gicd.banks (kind.word b vcpu k) ↔
      (kind = .active → setFlag = true → ∀ v < b.vcpuNum, ∀ j < 32,
        (g.gicd.banks (kind.word b v k)).getLsbD j = true →
          (g.gicd.banks (kind.word b vcpu k)).getLsbD j = true)) := by
  constructor
  · simp only [vgicGicdMemWrite, decodeGicd_bank _ hReg]
    exact bankWrite_changed hNr hk hLt
  · have hBits := fun j (hj : j < 32) =>
      @getLsbD_bankRead b g kind k (readMask vcpu kind setFlag (k * 32)) hk hNr hLt j hj
    simp only [vgicGicdMemRead, decodeGicd_bank _ hReg]
    constructor
    · rintro hEq rfl rfl v hv j hj hSet
      rw [hEq] at hBits
      exact (hBits j hj).mpr ⟨v, hv, by simp [readMask]; omega, hSet⟩
    · intro hOwn
      ext j hj
      rw [Bool.eq_iff_iff, ← BitVec.getLsbD_eq_getElem, ← BitVec.getLsbD_eq_getElem, hBits j hj]
      constructor
      · rintro ⟨v, hv, hMask, hSet⟩
        by_cases hSame : v = vcpu
        · rwa [← hSame]
        · simp only [readMask, beq_eq_false_iff_ne.mpr hSame, Bool.false_or, Bool.and_eq_true,
            decide_eq_true_eq] at hMask
          exact hOwn hMask.1.1 hMask.1.2 v hv j hj hSet
      · exact fun hSet => ⟨vcpu, hVcpu, by simp [readMask], hSet⟩

theorem bank_registers_iff_pending :
    vgicGicdMemRead qemuBuild (vdevGicv3Init qemuBuild) 1 0x204 = 0#32 :=
  (@bank_registers_iff qemuBuild (vdevGicv3Init qemuBuild) .pending true 0 1 1 (by decide)
    (by decide) (by decide) (by decide) (by decide)).2.mpr nofun

/-- Interrupt 32 becomes active on vCPU 0, and vCPU 1 reads it as active. -/
theorem isactiver_shows_others :
    let g := { vdevGicv3Init qemuBuild with gicd :=
      { (vdevGicv3Init qemuBuild).gicd with banks := set (fun _ => 0) 65 1 } }
    BitKind.active.word qemuBuild 0 1 = 65 ∧ g.gicd.banks (BitKind.active.word qemuBuild 1 1) = 0#32 ∧
      vgicGicdMemRead qemuBuild g 1 0x304 = 1#32 := by
  refine ⟨by decide, by decide, by decide +kernel⟩

/--
**A write to bank 0** of the distributor leaves the shared interrupts alone exactly if the word
that it changes is not one of theirs, or the bits have the values already.
-/
theorem bank_zero_iff (hVcpu : vcpu < b.vcpuNum) :
    SharedSame b g (vgicGicdMemWrite b g vcpu (bankOffset kind setFlag 0) value).1 ↔
      ¬ SharedWord b kind.confusedWord ∨
        writtenBits setFlag value (g.gicd.banks kind.confusedWord) =
          g.gicd.banks kind.confusedWord := by
  have hNr := b.virqNr_ge
  have hWord : ∀ w, (∃ u, u < b.vcpuNum ∧ w = bankWord b kind 0 u) ↔ w = kind.confusedWord :=
    fun w => ⟨fun ⟨_, _, hEq⟩ => hEq, fun hEq => ⟨vcpu, hVcpu, hEq⟩⟩
  simp only [vgicGicdMemWrite, decodeGicd_bank 0x7f8 (show 0 < 32 by decide), Nat.zero_mul]
  rw [bankWrite_eq (by omega) (.inl rfl)]
  simp only [SharedSame, writtenBanks, hWord, and_true]
  constructor
  · intro hSame
    by_cases hShared : SharedWord b kind.confusedWord
    · exact .inr (by simpa using hSame _ hShared)
    · exact .inl hShared
  · rintro hCases w hShared
    by_cases hw : w = kind.confusedWord
    · subst hw
      rw [if_pos rfl]
      exact hCases.resolve_left (not_not_intro hShared)
    · rw [if_neg hw]

theorem bank_zero_iff_zero :
    SharedSame qemuBuild (vdevGicv3Init qemuBuild)
      (vgicGicdMemWrite qemuBuild (vdevGicv3Init qemuBuild) 0 0x100 0).1 :=
  (@bank_zero_iff qemuBuild _ .enable true 0 0 (by decide)).mpr (.inr (by decide))

/-- Enabling interrupt 0 through the distributor enables interrupt 224 for vCPU 0. -/
theorem bank_zero_enables_shared :
    BitKind.enable.word qemuBuild 0 7 = 7 ∧ (vdevGicv3Init qemuBuild).gicd.banks 7 = 0#32 ∧
      (vgicGicdMemWrite qemuBuild (vdevGicv3Init qemuBuild) 0 0x100 1).1.gicd.banks 7 = 1#32 := by
  refine ⟨by decide, by decide, by decide +kernel⟩

end Banks

end Zvm.Vgic
