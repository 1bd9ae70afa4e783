import Zvm.Verified.BitField
import Zvm.Verified.FunArray

/-!
# Sets of numbers as bitmaps of 64-bit words

Number `i` is bit `i % 64` of word `i / 64`.  The three operations are a test, setting a
bit and clearing it, and the search is a loop from 0 that stops at the first clear bit.
Each has one lemma in terms of the set; none of the proofs above looks at a word.
-/

namespace Zvm.Verified.WordBitmap

open Zvm.Verified.FunArray Zvm.Verified.BitField

/-- Whether `i` is in the set. -/
def test (m : Nat → BitVec 64) (i : Nat) : Bool := (m (i / 64)).getLsbD (i % 64)

/-- `m[i / 64] |= BIT(i % 64);` -/
def insert (m : Nat → BitVec 64) (i : Nat) : Nat → BitVec 64 :=
  set m (i / 64) (m (i / 64) ||| (1#64 <<< (i % 64)))

/-- `m[i / 64] &= ~BIT(i % 64);` -/
def erase (m : Nat → BitVec 64) (i : Nat) : Nat → BitVec 64 :=
  set m (i / 64) (m (i / 64) &&& ~~~(1#64 <<< (i % 64)))

/-- The loop over the numbers below `n`, which gives `n` if all are in the set. -/
def firstClear (n : Nat) (m : Nat → BitVec 64) : Nat := (firstIdx n fun i => !test m i).getD n

theorem test_insert (m : Nat → BitVec 64) (i j : Nat) :
    test (insert m i) j = (decide (j = i) || test m j) := by
  have hk : i % 64 < 64 := Nat.mod_lt i (by decide)
  unfold test insert
  by_cases hWord : j / 64 = i / 64
  · have hBit : j % 64 = i % 64 ↔ j = i := by omega
    rw [hWord, set_same, BitVec.getLsbD_or, getLsbD_one_shiftLeft hk, Bool.or_comm]
    simp only [hBit]
  · have hNe : j ≠ i := fun h => hWord (by rw [h])
    rw [set_ne _ _ hWord]
    simp [hNe]

theorem test_erase (m : Nat → BitVec 64) (i j : Nat) :
    test (erase m i) j = (!decide (j = i) && test m j) := by
  have hk : i % 64 < 64 := Nat.mod_lt i (by decide)
  have hj : j % 64 < 64 := Nat.mod_lt j (by decide)
  unfold test erase
  by_cases hWord : j / 64 = i / 64
  · have hBit : j % 64 = i % 64 ↔ j = i := by omega
    rw [hWord, set_same, BitVec.getLsbD_and, BitVec.getLsbD_not, getLsbD_one_shiftLeft hk,
      Bool.and_comm]
    simp only [hj, hBit, decide_true, Bool.true_and]
  · have hNe : j ≠ i := fun h => hWord (by rw [h])
    rw [set_ne _ _ hWord]
    simp [hNe]

/-- The search stops at a number that is not in the set, or all of them are. -/
theorem firstClear_cases (n : Nat) (m : Nat → BitVec 64) :
    (firstClear n m < n ∧ test m (firstClear n m) = false) ∨
      (firstClear n m = n ∧ ∀ i < n, test m i = true) := by
  unfold firstClear
  cases hFind : firstIdx n fun i => !test m i with
  | some i =>
    obtain ⟨hi, hClear, _⟩ := firstIdx_eq_some.mp hFind
    exact .inl ⟨hi, by simpa using hClear⟩
  | none =>
    refine .inr ⟨rfl, ?_⟩
    intro i hi
    simpa using firstIdx_eq_none.mp hFind i hi

end Zvm.Verified.WordBitmap
