import Mathlib.Data.BitVec
import Zvm.Verified.FunArray

/-!
# The loop over the set bits of a word

`while (w) { k = ctz(w); w &= w - 1; … }` visits the set bits of a word in increasing
order, each once.  `setBits` is the list it visits, and `overSetBits_eq` says that the loop
is the fold over that list, for any body that may fail.
-/

namespace Zvm.Verified.SetBits

open Zvm.Verified.FunArray

variable {n : Nat}

/-- The position of the lowest set bit. -/
def lowestSet (w : BitVec n) : Option Nat := firstIdx n fun i => w.getLsbD i

/-- The positions of the set bits. -/
def setBits (w : BitVec n) : List Nat := (List.range n).filter fun i => w.getLsbD i

theorem mem_setBits {w : BitVec n} {i : Nat} : i ∈ setBits w ↔ w.getLsbD i = true := by
  simp only [setBits, List.mem_filter, List.mem_range]
  exact ⟨fun h => h.2, fun h => ⟨BitVec.lt_of_getLsbD h, h⟩⟩

theorem length_setBits_le (w : BitVec n) : (setBits w).length ≤ n := by
  have hLe := List.length_filter_le (fun i => w.getLsbD i) (List.range n)
  rwa [List.length_range] at hLe

/-- A number with lowest set bit `k` is `2 ^ k` and a multiple of `2 ^ (k + 1)`. -/
theorem split_at_lowest {x k : Nat} (hSet : x.testBit k = true)
    (hLow : ∀ j < k, x.testBit j = false) : x = 2 ^ (k + 1) * (x / 2 ^ (k + 1)) + 2 ^ k := by
  have hMod : x % 2 ^ (k + 1) = 2 ^ k := by
    apply Nat.eq_of_testBit_eq
    intro j
    rw [Nat.testBit_mod_two_pow, Nat.testBit_two_pow]
    rcases Nat.lt_trichotomy j k with hlt | rfl | hgt
    · simp [hLow j hlt, Nat.ne_of_gt hlt]
    · simp [hSet]
    · simp [Nat.ne_of_lt hgt, show ¬ j < k + 1 by omega]
  have hDiv := Nat.div_add_mod x (2 ^ (k + 1))
  omega

/-- `w & (w - 1)` is `w` without its lowest set bit. -/
theorem getLsbD_clearLowest {w : BitVec n} {k : Nat} (hLow : lowestSet w = some k) (i : Nat) :
    (w &&& (w - 1#n)).getLsbD i = (w.getLsbD i && decide (i ≠ k)) := by
  obtain ⟨hk, hSet, hBelow⟩ := firstIdx_eq_some.mp hLow
  have hSplit := split_at_lowest (x := w.toNat) hSet hBelow
  have hPow : 2 ^ (k + 1) = 2 * 2 ^ k := Nat.pow_succ'
  have hPos : 0 < 2 ^ k := Nat.two_pow_pos k
  have hLt : 1 < 2 ^ n := Nat.one_lt_two_pow (by omega)
  have hSub : (w - 1#n).toNat = 2 ^ (k + 1) * (w.toNat / 2 ^ (k + 1)) + (2 ^ k - 1) := by
    have hLess := w.isLt
    rw [BitVec.toNat_sub, BitVec.toNat_ofNat, Nat.mod_eq_of_lt hLt]
    rw [show 2 ^ n - 1 + w.toNat = 2 ^ n + (w.toNat - 1) by omega, Nat.add_mod_left,
      Nat.mod_eq_of_lt (by omega)]
    omega
  have hBit : (w - 1#n).getLsbD i = if i < k + 1 then (2 ^ k - 1).testBit i
      else (w.toNat / 2 ^ (k + 1)).testBit (i - (k + 1)) := by
    rw [BitVec.getLsbD, hSub, Nat.testBit_two_pow_mul_add _ (by omega)]
  have hBitW : w.getLsbD i = if i < k + 1 then (2 ^ k).testBit i
      else (w.toNat / 2 ^ (k + 1)).testBit (i - (k + 1)) := by
    have hRead : w.getLsbD i =
        (2 ^ (k + 1) * (w.toNat / 2 ^ (k + 1)) + 2 ^ k).testBit i := by
      rw [← hSplit]
      rfl
    rw [hRead, Nat.testBit_two_pow_mul_add _ (by omega)]
  rw [BitVec.getLsbD_and, hBit, hBitW, Nat.testBit_two_pow_sub_one, Nat.testBit_two_pow]
  rcases Nat.lt_trichotomy i k with hlt | rfl | hgt
  · simp [show i < k + 1 by omega, Nat.ne_of_gt hlt]
  · simp
  · simp [show ¬ i < k + 1 by omega, Nat.ne_of_gt hgt]

theorem setBits_of_none {w : BitVec n} (hNone : lowestSet w = none) : setBits w = [] := by
  rw [setBits, List.filter_eq_nil_iff]
  intro i hi
  have hClear := firstIdx_eq_none.mp hNone i (List.mem_range.mp hi)
  simp [hClear]

/-- The lowest set bit is visited first, and then those of `w & (w - 1)`. -/
theorem setBits_of_some {w : BitVec n} {k : Nat} (hLow : lowestSet w = some k) :
    setBits w = k :: setBits (w &&& (w - 1#n)) := by
  obtain ⟨hk, hSet, hBelow⟩ := firstIdx_eq_some.mp hLow
  -- the positions before `k`, `k`, and those behind it
  have hRange : List.range n = List.range k ++ (k :: (List.range (n - k - 1)).map (k + 1 + ·)) := by
    have hLen : n = k + 1 + (n - k - 1) := by omega
    conv_lhs => rw [hLen, List.range_add, List.range_succ]
    simp
  have hBefore : ∀ p : Nat → Bool, (∀ i < k, p i = false) →
      (List.range k).filter p = [] := by
    intro p hp
    rw [List.filter_eq_nil_iff]
    intro i hi
    simp [hp i (List.mem_range.mp hi)]
  unfold setBits
  rw [hRange, List.filter_append, List.filter_append, hBefore _ hBelow, hBefore]
  · rw [List.nil_append, List.nil_append, List.filter_cons_of_pos hSet,
      List.filter_cons_of_neg (by simp [getLsbD_clearLowest hLow])]
    congr 1
    apply List.filter_congr
    intro i hi
    obtain ⟨j, _, rfl⟩ := List.mem_map.mp hi
    rw [getLsbD_clearLowest hLow]
    simp [show k + 1 + j ≠ k by omega]
  · intro i hi
    rw [getLsbD_clearLowest hLow, hBelow i hi, Bool.false_and]

/-- The loop, with a body that may fail; `fuel` bounds the rounds. -/
def overSetBits {σ : Type*} (body : σ → Nat → Option σ) : Nat → BitVec n → σ → Option σ
  | 0, _, s => some s
  | fuel + 1, w, s =>
    match lowestSet w with
    | none => some s
    | some k =>
      match body s k with
      | none => none
      | some s' => overSetBits body fuel (w &&& (w - 1#n)) s'

/-- With enough fuel the loop is the fold over the set bits. -/
theorem overSetBits_eq {σ : Type*} (body : σ → Nat → Option σ) (fuel : Nat) :
    ∀ (w : BitVec n) (s : σ), (setBits w).length ≤ fuel →
      overSetBits body fuel w s = (setBits w).foldlM body s := by
  induction fuel with
  | zero =>
    intro w s hLen
    rw [List.length_eq_zero_iff.mp (Nat.le_zero.mp hLen)]
    rfl
  | succ fuel ih =>
    intro w s hLen
    unfold overSetBits
    cases hLow : lowestSet w with
    | none =>
      rw [setBits_of_none hLow]
      rfl
    | some k =>
      have hBits := setBits_of_some hLow
      rw [hBits, List.length_cons] at hLen
      rw [hBits, List.foldlM_cons]
      cases hBody : body s k with
      | none =>
        simp only [hBody]
        rfl
      | some s' =>
        simp only [hBody]
        exact ih (w &&& (w - 1#n)) s' (by omega)

end Zvm.Verified.SetBits
