import Mathlib.Data.BitVec
import Mathlib.Tactic.Ring

/-!
# Contiguous bit fields of machine words

Hardware descriptors pack an address, attributes and a type into one word, and
C code takes them apart with contiguous masks.  This module relates the mask
`genmask h l` (bits `l` to `h`) to arithmetic on the word's value: cutting a
field out is a remainder and a quotient, comparing two words under a mask is
comparing quotients, and joining two words whose bits are disjoint is adding
them.  Nothing here knows what the fields mean.
-/

namespace Zvm.Verified.BitField

variable {w : Nat}

/-- A single bit. -/
theorem getLsbD_one_shiftLeft {k : Nat} (hk : k < w) (j : Nat) :
    (1#w <<< k).getLsbD j = decide (j = k) := by
  rw [← BitVec.twoPow_eq, BitVec.getLsbD_twoPow]
  by_cases hj : k = j
  · subst hj
    simp [hk]
  · simp [hj, Ne.symm hj]

/-- The mask of bits `l` to `h`, both included. -/
def genmask (w h l : Nat) : BitVec w :=
  (BitVec.allOnes w <<< l) &&& (BitVec.allOnes w >>> (w - 1 - h))

theorem getLsbD_genmask {h l : Nat} (hw : h < w) (i : Nat) :
    (genmask w h l).getLsbD i = (decide (l ≤ i) && decide (i ≤ h)) := by
  simp only [genmask, BitVec.getLsbD_and, BitVec.getLsbD_shiftLeft,
    BitVec.getLsbD_ushiftRight, BitVec.getLsbD_allOnes]
  grind

/-- A masked word is the field's value at the field's place. -/
theorem toNat_and_genmask {h l : Nat} (hw : h < w) (x : BitVec w) :
    (x &&& genmask w h l).toNat = x.toNat % 2 ^ (h + 1) / 2 ^ l * 2 ^ l := by
  apply Nat.eq_of_testBit_eq
  intro i
  rw [BitVec.testBit_toNat, BitVec.getLsbD_and, getLsbD_genmask hw,
    Nat.testBit_mul_two_pow, Nat.testBit_div_two_pow, Nat.testBit_mod_two_pow,
    BitVec.testBit_toNat]
  by_cases hl : l ≤ i
  · have hBack : i - l + l = i := by omega
    rw [hBack]
    simp only [hl, decide_true, Bool.true_and, Nat.lt_succ_iff]
    rw [Bool.and_comm]
  · simp [hl]

/-- Two words agree under a mask iff they agree on each bit of it. -/
theorem and_eq_and_iff (x y m : BitVec w) :
    x &&& m = y &&& m ↔ ∀ i, m.getLsbD i = true → x.getLsbD i = y.getLsbD i := by
  constructor
  · intro hEq i hBit
    have hAt := congrArg (fun z => z.getLsbD i) hEq
    simpa [BitVec.getLsbD_and, hBit] using hAt
  · intro hBits
    apply BitVec.eq_of_getLsbD_eq
    intro i _
    rw [BitVec.getLsbD_and, BitVec.getLsbD_and]
    cases hBit : m.getLsbD i with
    | false => simp
    | true => rw [hBits i hBit]

/-- Agreement under a union of masks is agreement under each of them. -/
theorem and_or_eq_iff (x y m n : BitVec w) :
    x &&& (m ||| n) = y &&& (m ||| n) ↔ x &&& m = y &&& m ∧ x &&& n = y &&& n := by
  simp only [and_eq_and_iff, BitVec.getLsbD_or, Bool.or_eq_true]
  constructor
  · intro hBits
    exact ⟨fun i hm => hBits i (.inl hm), fun i hn => hBits i (.inr hn)⟩
  · rintro ⟨hm, hn⟩ i (hBit | hBit)
    · exact hm i hBit
    · exact hn i hBit

/-- Comparing under a mask whose lower end is raised compares quotients. -/
theorem and_genmask_eq_iff {h l k : Nat} (hw : h < w) (hlk : l ≤ k) (x y : BitVec w) :
    x &&& genmask w h k = y &&& genmask w h k ↔
      (x &&& genmask w h l).toNat / 2 ^ k = (y &&& genmask w h l).toNat / 2 ^ k := by
  have hQuot : ∀ z : BitVec w, (z &&& genmask w h l).toNat / 2 ^ k =
      z.toNat % 2 ^ (h + 1) / 2 ^ k := by
    intro z
    obtain ⟨j, rfl⟩ : ∃ j, k = l + j := ⟨k - l, by omega⟩
    rw [toNat_and_genmask hw, Nat.pow_add 2 l j, ← Nat.div_div_eq_div_mul,
      ← Nat.div_div_eq_div_mul, Nat.mul_div_cancel _ (Nat.two_pow_pos l)]
  rw [hQuot, hQuot]
  constructor
  · intro hEq
    have hVal := congrArg BitVec.toNat hEq
    rw [toNat_and_genmask hw, toNat_and_genmask hw] at hVal
    exact Nat.eq_of_mul_eq_mul_right (Nat.two_pow_pos k) hVal
  · intro hEq
    apply BitVec.eq_of_toNat_eq
    rw [toNat_and_genmask hw, toNat_and_genmask hw, hEq]

/-- Words without a common bit are joined by addition. -/
theorem or_eq_add_of_and_eq_zero {x y : BitVec w} (hDisj : x &&& y = 0#w) : x ||| y = x + y :=
  (BitVec.add_eq_or_of_and_eq_zero x y hDisj).symm

/-- A low part below a multiple of `2 ^ k` is joined by addition. -/
theorem nat_or_eq_add {a b k : Nat} (ha : 2 ^ k ∣ a) (hb : b < 2 ^ k) : a ||| b = a + b := by
  obtain ⟨c, rfl⟩ := ha
  exact (Nat.two_pow_add_eq_or_of_lt hb c).symm

end Zvm.Verified.BitField
