import Zvm.Verified.BitField

/-!
# Stage-2 descriptors

A stage-2 table entry is one 64-bit word: a two-bit type, an output address in
bits 47:12 and attributes above and below it.  This module has the descriptor
functions of `arch/arm64/core/zvm/mmu.c` on such words, and what they say about
the two fields the hardware uses for a translation, `outAddr` and `attrsOf`.

The loop that maps a range carries one word, the attributes joined with the
physical address, and advances it by plain addition.  `mkDesc` is that word for
a given address; addition moves the address only (`mkDesc_add`), as long as the
address stays inside its field.
-/

namespace Zvm.Stage2

open Zvm.Verified.BitField

/-- A table entry. -/
abbrev Word := BitVec 64

/-! ## Masks and levels -/

/-- `XLAT_LAST_LEVEL`, the level of 4 KiB pages. -/
def xlatLastLevel : Nat := 3

/-- `BASE_XLAT_LEVEL` for 39-bit guest addresses. -/
def baseXlatLevel : Nat := 1

/-- `Ln_XLAT_NUM_ENTRIES`. -/
def xlatNumEntries : Nat := 512

/-- `LEVEL_TO_VA_SIZE_SHIFT`. -/
def levelToVaSizeShift (level : Nat) : Nat := 12 + 9 * (xlatLastLevel - level)

/-- `DESC_ATTRS_MASK`. -/
def descAttrsMask : Word := genmask 64 63 51 ||| genmask 64 11 2

/-- `GENMASK(47, PAGE_SIZE_SHIFT)`, the output address. -/
def physMask : Word := genmask 64 47 12

/-- The output address of an entry. -/
def outAddr (desc : Word) : Nat := (desc &&& physMask).toNat

/-- The attributes of an entry. -/
def attrsOf (desc : Word) : Word := desc &&& descAttrsMask

/-- `vm_is_free_desc`. -/
def vmIsFreeDesc (desc : Word) : Bool := desc &&& 3#64 == 0#64

/-- `vm_is_table_desc`. -/
def vmIsTableDesc (desc : Word) (level : Nat) : Bool :=
  decide (level ≠ xlatLastLevel) && (desc &&& 3#64 == 3#64)

/-- `vm_is_block_desc`. -/
def vmIsBlockDesc (desc : Word) : Bool := desc &&& 3#64 == 1#64

/-- `vm_is_desc_block_aligned`. -/
def vmIsDescBlockAligned (desc : Word) (levelSize : Nat) : Bool :=
  (desc &&& physMask) &&& BitVec.ofNat 64 (levelSize - 1) == 0#64

/-- `vm_is_desc_superset`: same attributes and same address above the level's size. -/
def vmIsDescSuperset (desc1 desc2 : Word) (level : Nat) : Bool :=
  let mask := descAttrsMask ||| genmask 64 47 (levelToVaSizeShift level)
  desc1 &&& mask == desc2 &&& mask

/-- `vm_set_pte_block_desc`: the word stored for a block or page. -/
def blockDesc (desc : Word) (level : Nat) : Word :=
  if desc = 0#64 then 0#64
  else desc ||| (if level = xlatLastLevel then 3#64 else 1#64)

/-- The word `vm_expand_to_table` stores in entry `i` when it splits `desc`. -/
def splitDesc (desc : Word) (level i : Nat) : Word :=
  (if level + 1 = xlatLastLevel then desc ||| 3#64 else desc) |||
    BitVec.ofNat 64 (i <<< levelToVaSizeShift (level + 1))

/-! ## Region attributes -/

/-- `MT_S2_ACCESS_OFF` is given. -/
def accessOff (attrs : BitVec 32) : Bool := attrs.getLsbD 7

/-- `MT_NO_OVERWRITE` is given. -/
def noOverwrite (attrs : BitVec 32) : Bool := attrs.getLsbD 8

/-- `get_vm_region_desc`. -/
def getVmRegionDesc (attrs : BitVec 32) : Word :=
  let apR : Word := if attrs.getLsbD 4 then 1#64 <<< 6 else 0#64
  let apW : Word := if attrs.getLsbD 5 then 2#64 <<< 6 else 0#64
  let af : Word := if accessOff attrs then 0#64 else 1#64 <<< 10
  let memType := attrs &&& 7#32
  -- device memory is execute-never; normal memory is write-back in both domains
  let typ : Word :=
    if memType = 0#32 ∨ memType = 1#32 ∨ memType = 2#32 then (2#64 <<< 8) ||| (2#64 <<< 53)
    else if memType = 4#32 then (3#64 <<< 8) ||| ((3#64 <<< 4) ||| (3#64 <<< 2))
    else if memType = 3#32 ∨ memType = 5#32 then
      (2#64 <<< 8) ||| ((3#64 <<< 4) ||| (3#64 <<< 2))
    else 0#64
  apR ||| apW ||| af ||| typ

/-- Only attribute bits are set. -/
def IsAttrs (a : Word) : Prop := a &&& descAttrsMask = a

theorem isAttrs_getVmRegionDesc (attrs : BitVec 32) : IsAttrs (getVmRegionDesc attrs) := by
  unfold IsAttrs getVmRegionDesc
  dsimp only
  split_ifs <;> decide

/-- With the access flag the attributes are not all clear. -/
theorem getVmRegionDesc_ne_zero {attrs : BitVec 32} (hAf : accessOff attrs = false) :
    getVmRegionDesc attrs ≠ 0#64 := by
  unfold getVmRegionDesc
  simp only [hAf, Bool.false_eq_true, if_false]
  split_ifs <;> decide

/-! ## Fields -/

theorem levelToVaSizeShift_ge (level : Nat) : 12 ≤ levelToVaSizeShift level := by
  unfold levelToVaSizeShift
  omega

theorem outAddr_eq (desc : Word) : outAddr desc = desc.toNat % 2 ^ 48 / 2 ^ 12 * 2 ^ 12 :=
  toNat_and_genmask (by decide) desc

theorem outAddr_lt (desc : Word) : outAddr desc < 2 ^ 48 := by
  rw [outAddr_eq]
  omega

theorem outAddr_aligned (desc : Word) : 2 ^ 12 ∣ outAddr desc := by
  rw [outAddr_eq]
  exact Nat.dvd_mul_left _ _

/-- The shortcut test compares attributes and the address above the level's size. -/
theorem vmIsDescSuperset_iff (desc1 desc2 : Word) (level : Nat) :
    vmIsDescSuperset desc1 desc2 level = true ↔
      attrsOf desc1 = attrsOf desc2 ∧
        outAddr desc1 / 2 ^ levelToVaSizeShift level =
          outAddr desc2 / 2 ^ levelToVaSizeShift level := by
  unfold vmIsDescSuperset
  rw [beq_iff_eq, and_or_eq_iff,
    and_genmask_eq_iff (l := 12) (by decide) (levelToVaSizeShift_ge level)]
  rfl

theorem vmIsDescBlockAligned_iff (desc : Word) {k : Nat} (hk : k ≤ 63) :
    vmIsDescBlockAligned desc (2 ^ k) = true ↔ 2 ^ k ∣ outAddr desc := by
  have hPow : 2 ^ k - 1 < 2 ^ 64 := by
    have := Nat.pow_lt_pow_right (a := 2) (by decide) (show k < 64 by omega)
    omega
  unfold vmIsDescBlockAligned
  rw [beq_iff_eq, ← BitVec.toNat_inj, BitVec.toNat_and, BitVec.toNat_ofNat,
    Nat.mod_eq_of_lt hPow, Nat.and_two_pow_sub_one_eq_mod, Nat.dvd_iff_mod_eq_zero]
  rfl

/-- Type bits are outside both fields. -/
theorem fields_or_type (desc : Word) {c : Word} (hc : c = 1#64 ∨ c = 3#64) :
    outAddr (desc ||| c) = outAddr desc ∧ attrsOf (desc ||| c) = attrsOf desc := by
  have hPhys : c &&& physMask = 0#64 := by
    rcases hc with rfl | rfl <;> decide
  have hAttrs : c &&& descAttrsMask = 0#64 := by
    rcases hc with rfl | rfl <;> decide
  simp [outAddr, attrsOf, BitVec.and_or_distrib_right, hPhys, hAttrs]

theorem type_or_three (desc : Word) : (desc ||| 3#64) &&& 3#64 = 3#64 := by
  rw [BitVec.and_or_distrib_right]
  apply BitVec.eq_of_getLsbD_eq
  intro i _
  simp only [BitVec.getLsbD_or, BitVec.getLsbD_and]
  cases BitVec.getLsbD 3#64 i <;> simp

variable {desc attrs : Word} {phys level i : Nat}

theorem type_or_one (hFree : desc &&& 3#64 = 0#64) : (desc ||| 1#64) &&& 3#64 = 1#64 := by
  rw [BitVec.and_or_distrib_right, hFree]
  decide

/-! ## The word a mapping loop carries -/

/-- Attributes joined with a physical address. -/
def mkDesc (attrs : Word) (phys : Nat) : Word := attrs ||| BitVec.ofNat 64 phys

/-- A page-aligned address below `2 ^ 51` has no attribute bit and no type bit. -/
theorem phys_and_attrs (hAlign : 2 ^ 12 ∣ phys) (hLt : phys < 2 ^ 51) :
    BitVec.ofNat 64 phys &&& descAttrsMask = 0#64 := by
  apply BitVec.eq_of_getLsbD_eq
  intro i _
  obtain ⟨frame, rfl⟩ := hAlign
  have hLow : i < 12 → (2 ^ 12 * frame).testBit i = false := by
    intro hi
    rw [Nat.testBit_two_pow_mul]
    simp [hi]
  have hHigh : 51 ≤ i → (2 ^ 12 * frame).testBit i = false := fun hi =>
    Nat.testBit_lt_two_pow (Nat.lt_of_lt_of_le hLt (Nat.pow_le_pow_right (by decide) hi))
  simp only [descAttrsMask, BitVec.getLsbD_and, BitVec.getLsbD_or, BitVec.getLsbD_ofNat,
    getLsbD_genmask (show 63 < 64 by decide), getLsbD_genmask (show 11 < 64 by decide)]
  grind

section

variable (hAttrs : IsAttrs attrs) (hAlign : 2 ^ 12 ∣ phys)
include hAttrs hAlign

theorem attrs_and_phys (hLt : phys < 2 ^ 51) : attrs &&& BitVec.ofNat 64 phys = 0#64 := by
  rw [← hAttrs, BitVec.and_assoc, BitVec.and_comm descAttrsMask, phys_and_attrs hAlign hLt]
  simp

/-- Advancing the word advances the address. -/
theorem mkDesc_add {k : Nat} (hAlignK : 2 ^ 12 ∣ k) (hLt : phys + k < 2 ^ 51) :
    mkDesc attrs phys + BitVec.ofNat 64 k = mkDesc attrs (phys + k) := by
  have hSum := Nat.dvd_add hAlign hAlignK
  unfold mkDesc
  rw [or_eq_add_of_and_eq_zero (attrs_and_phys hAttrs hAlign (by omega)),
    or_eq_add_of_and_eq_zero (attrs_and_phys hAttrs hSum hLt), BitVec.ofNat_add,
    BitVec.add_assoc]

theorem attrsOf_mkDesc (hLt : phys < 2 ^ 51) : attrsOf (mkDesc attrs phys) = attrs := by
  rw [attrsOf, mkDesc, BitVec.and_or_distrib_right, phys_and_attrs hAlign hLt, hAttrs]
  simp

theorem outAddr_mkDesc (hLt : phys < 2 ^ 48) : outAddr (mkDesc attrs phys) = phys := by
  have hOut : attrs &&& physMask = 0#64 := by
    rw [← hAttrs, BitVec.and_assoc, show descAttrsMask &&& physMask = 0#64 by decide]
    simp
  have hVal := outAddr_eq (BitVec.ofNat 64 phys)
  have hEq : outAddr (mkDesc attrs phys) = outAddr (BitVec.ofNat 64 phys) := by
    simp [outAddr, mkDesc, BitVec.and_or_distrib_right, hOut]
  rw [hEq, hVal, BitVec.toNat_ofNat, Nat.mod_eq_of_lt (by omega : phys < 2 ^ 64),
    Nat.mod_eq_of_lt hLt]
  exact Nat.div_mul_cancel hAlign

/-- The type bits of the carried word are clear. -/
theorem type_mkDesc : mkDesc attrs phys &&& 3#64 = 0#64 := by
  have hA : attrs &&& 3#64 = 0#64 := by
    rw [← hAttrs, BitVec.and_assoc, show descAttrsMask &&& 3#64 = 0#64 by decide]
    simp
  have hP : BitVec.ofNat 64 phys &&& 3#64 = 0#64 := by
    obtain ⟨frame, rfl⟩ := hAlign
    rw [← BitVec.toNat_inj, BitVec.toNat_and, BitVec.toNat_ofNat]
    show (2 ^ 12 * frame) % 2 ^ 64 &&& (2 ^ 2 - 1) = 0
    rw [Nat.and_two_pow_sub_one_eq_mod]
    omega
  rw [mkDesc, BitVec.and_or_distrib_right, hA, hP]
  rfl

end

/-! ## The parts of a split block -/

/-- Part `i` of a split block continues its output address. -/
theorem outAddr_splitDesc (hLevel : 1 ≤ level) (hLast : level < 3) (hi : i < 512)
    (hAlign : 2 ^ levelToVaSizeShift level ∣ outAddr desc) :
    outAddr (splitDesc desc level i) = outAddr desc + i * 2 ^ levelToVaSizeShift (level + 1) := by
  have hShift : levelToVaSizeShift level = levelToVaSizeShift (level + 1) + 9 := by
    unfold levelToVaSizeShift xlatLastLevel
    omega
  have hSmall : levelToVaSizeShift (level + 1) ≤ 21 := by
    unfold levelToVaSizeShift xlatLastLevel
    omega
  have hPart : i * 2 ^ levelToVaSizeShift (level + 1) < 2 ^ levelToVaSizeShift level := by
    rw [hShift, Nat.pow_add, Nat.mul_comm]
    exact Nat.mul_lt_mul_of_pos_left (by omega) (Nat.two_pow_pos _)
  have hPartLt : i * 2 ^ levelToVaSizeShift (level + 1) < 2 ^ 48 := by
    have : 2 ^ levelToVaSizeShift level ≤ 2 ^ 30 := Nat.pow_le_pow_right (by decide) (by omega)
    omega
  have hPartAlign : 2 ^ 12 ∣ i * 2 ^ levelToVaSizeShift (level + 1) :=
    Nat.dvd_trans (Nat.pow_dvd_pow 2 (levelToVaSizeShift_ge _)) (Nat.dvd_mul_left _ _)
  have hBase : outAddr (if level + 1 = xlatLastLevel then desc ||| 3#64 else desc) =
      outAddr desc := by
    split
    · exact (fields_or_type desc (.inr rfl)).1
    · rfl
  have hIndex : outAddr (BitVec.ofNat 64 (i <<< levelToVaSizeShift (level + 1))) =
      i * 2 ^ levelToVaSizeShift (level + 1) := by
    rw [Nat.shiftLeft_eq, outAddr_eq, BitVec.toNat_ofNat,
      Nat.mod_eq_of_lt (by omega : _ < 2 ^ 64), Nat.mod_eq_of_lt hPartLt]
    exact Nat.div_mul_cancel hPartAlign
  unfold outAddr at hBase hIndex hAlign ⊢
  rw [splitDesc, BitVec.and_or_distrib_right, BitVec.toNat_or, hBase, hIndex]
  exact nat_or_eq_add hAlign hPart

/-- A part of a split block has the block's attributes. -/
theorem attrsOf_splitDesc (desc : Word) (hLevel : 1 ≤ level) (hi : i < 512) :
    attrsOf (splitDesc desc level i) = attrsOf desc := by
  have hSmall : levelToVaSizeShift (level + 1) ≤ 21 := by
    unfold levelToVaSizeShift xlatLastLevel
    omega
  have hIndex : BitVec.ofNat 64 (i <<< levelToVaSizeShift (level + 1)) &&& descAttrsMask =
      0#64 := by
    rw [Nat.shiftLeft_eq]
    apply phys_and_attrs
    · exact Nat.dvd_trans (Nat.pow_dvd_pow 2 (levelToVaSizeShift_ge _)) (Nat.dvd_mul_left _ _)
    · have : 2 ^ levelToVaSizeShift (level + 1) ≤ 2 ^ 21 :=
        Nat.pow_le_pow_right (by decide) hSmall
      calc i * 2 ^ levelToVaSizeShift (level + 1) ≤ 512 * 2 ^ 21 :=
            Nat.mul_le_mul (by omega) this
        _ < 2 ^ 51 := by decide
  have hBase : attrsOf (if level + 1 = xlatLastLevel then desc ||| 3#64 else desc) =
      attrsOf desc := by
    split
    · exact (fields_or_type desc (.inr rfl)).2
    · rfl
  unfold attrsOf at hBase ⊢
  rw [splitDesc, BitVec.and_or_distrib_right, hBase, hIndex]
  simp

/-- A part of a split block is a page at the last level and a block before it. -/
theorem type_splitDesc (hBlock : desc &&& 3#64 = 1#64) :
    splitDesc desc level i &&& 3#64 =
      if level + 1 = xlatLastLevel then 3#64 else 1#64 := by
  have hIndex : BitVec.ofNat 64 (i <<< levelToVaSizeShift (level + 1)) &&& 3#64 = 0#64 := by
    have hDvd : 2 ^ 12 ∣ i <<< levelToVaSizeShift (level + 1) := by
      rw [Nat.shiftLeft_eq]
      exact Nat.dvd_trans (Nat.pow_dvd_pow 2 (levelToVaSizeShift_ge _)) (Nat.dvd_mul_left _ _)
    have hZero : mkDesc 0#64 (i <<< levelToVaSizeShift (level + 1)) &&& 3#64 = 0#64 :=
      type_mkDesc (by simp [IsAttrs]) hDvd
    simpa [mkDesc] using hZero
  rw [splitDesc, BitVec.and_or_distrib_right, hIndex]
  split
  · simp [type_or_three]
  · simp [hBlock]

end Zvm.Stage2
