import Mathlib.Data.List.Basic

/-!
# Arrays as functions, and the two shifting loops

A fixed C array is a function from indices.  This module has the two loops
that make room for an element in the used part of such an array and that close
the gap an element leaves, in the direction the C code runs them, and the
closed form of what each of them leaves in every slot.  The proofs above this
module use the closed forms only.
-/

namespace Zvm.Verified.FunArray

variable {α : Type*}

/-- `a` with slot `i` replaced by `x`. -/
def set (a : Nat → α) (i : Nat) (x : α) : Nat → α :=
  fun k => if k = i then x else a k

@[grind =]
theorem set_apply (a : Nat → α) (i : Nat) (x : α) (k : Nat) :
    set a i x k = if k = i then x else a k := rfl

@[simp]
theorem set_same (a : Nat → α) (i : Nat) (x : α) : set a i x i = x := by
  simp [set]

theorem set_ne (a : Nat → α) {i k : Nat} (x : α) (hNe : k ≠ i) : set a i x k = a k := by
  simp [set, hNe]

@[simp]
theorem set_set (a : Nat → α) (i : Nat) (x y : α) : set (set a i x) i y = set a i y := by
  funext k
  by_cases hk : k = i
  · rw [hk, set_same, set_same]
  · rw [set_ne _ _ hk, set_ne _ _ hk, set_ne _ _ hk]

@[simp]
theorem set_self (a : Nat → α) (i : Nat) : set a i (a i) = a := by
  funext k
  by_cases hk : k = i
  · rw [hk, set_same]
  · rw [set_ne _ _ hk]

/-- The slot that was replaced, or another. -/
@[elab_as_elim]
theorem set_elim {motive : α → Prop} {a : Nat → α} {i k : Nat} {x : α} (hSame : k = i → motive x)
    (hNe : k ≠ i → motive (a k)) : motive (set a i x k) := by
  rw [set_apply]
  split
  · exact hSame ‹_›
  · exact hNe ‹_›

/-- What is left of an array of optional values when one is taken out. -/
theorem of_set_none {a : Nat → Option α} {i k : Nat} {x : α} (h : set a i none k = some x) :
    k ≠ i ∧ a k = some x := by
  rw [set_apply] at h
  split at h
  · cases h
  · exact ⟨‹_›, h⟩

/-- `for (j = n; j > lo; j--) a[j] = a[j-1];` -/
def shiftUp (lo : Nat) : Nat → (Nat → α) → (Nat → α)
  | 0, a => a
  | j + 1, a => if lo < j + 1 then shiftUp lo j (set a (j + 1) (a j)) else a

/-- `for (i = lo; i < lo + n; i++) a[i] = a[i+1];` -/
def shiftDown : Nat → Nat → (Nat → α) → (Nat → α)
  | _, 0, a => a
  | lo, n + 1, a => shiftDown (lo + 1) n (set a lo (a (lo + 1)))

/-- Making room: the slots above `lo` up to `n` receive their left neighbour. -/
theorem shiftUp_apply (lo n : Nat) :
    ∀ (a : Nat → α) (k : Nat),
      shiftUp lo n a k = if lo < k ∧ k ≤ n then a (k - 1) else a k := by
  induction n with
  | zero =>
    intro a k
    simp only [shiftUp]
    split
    · omega
    · rfl
  | succ j ih =>
    intro a k
    simp only [shiftUp]
    split
    case isTrue hLo =>
      rw [ih]
      -- the inner loop no longer touches slot `j + 1`, set just before it
      by_cases hk : k = j + 1
      · subst hk
        simp [set, hLo]
      · by_cases hIn : lo < k ∧ k ≤ j
        · have hPrev : k - 1 ≠ j + 1 := by omega
          rw [if_pos hIn, if_pos ⟨hIn.1, by omega⟩, set_ne _ _ hPrev]
        · rw [if_neg hIn, if_neg (by omega), set_ne _ _ hk]
    case isFalse hLo =>
      rw [if_neg (by omega)]

/-- Closing a gap: the `n` slots from `lo` on receive their right neighbour. -/
theorem shiftDown_apply (n : Nat) :
    ∀ (lo : Nat) (a : Nat → α) (k : Nat),
      shiftDown lo n a k = if lo ≤ k ∧ k < lo + n then a (k + 1) else a k := by
  induction n with
  | zero =>
    intro lo a k
    simp only [shiftDown]
    split
    · omega
    · rfl
  | succ n ih =>
    intro lo a k
    simp only [shiftDown]
    rw [ih]
    by_cases hk : k = lo
    · subst hk
      rw [if_neg (by omega), if_pos (by omega), set_same]
    · by_cases hIn : lo + 1 ≤ k ∧ k < lo + 1 + n
      · have hNext : k + 1 ≠ lo := by omega
        rw [if_pos hIn, if_pos (by omega), set_ne _ _ hNext]
      · rw [if_neg hIn, if_neg (by omega), set_ne _ _ hk]

/-- The first index below `n` that passes the test, as a loop from 0 finds it. -/
def firstIdx (n : Nat) (p : Nat → Bool) : Option Nat :=
  (List.range n).find? p

theorem firstIdx_eq_some {n i : Nat} {p : Nat → Bool} :
    firstIdx n p = some i ↔ i < n ∧ p i = true ∧ ∀ j < i, p j = false := by
  unfold firstIdx
  rw [List.find?_range_eq_some]
  simp only [List.mem_range, Bool.not_eq_eq_eq_not, Bool.not_true]
  tauto

theorem firstIdx_eq_none {n : Nat} {p : Nat → Bool} :
    firstIdx n p = none ↔ ∀ j < n, p j = false := by
  simp [firstIdx]

/-- The number of indices below `n` that pass the test, as a loop counts them. -/
def countIdx (n : Nat) (p : Nat → Bool) : Nat := ((List.range n).filter p).length

theorem countIdx_eq_zero {n : Nat} {p : Nat → Bool} : countIdx n p = 0 ↔ ∀ j < n, p j = false := by
  simp [countIdx]

/-- One index less passes. -/
theorem countIdx_clear {n i : Nat} {p q : Nat → Bool} (hi : i < n) (hp : p i = true)
    (hq : q i = false) (hSame : ∀ j, j ≠ i → q j = p j) : countIdx n p = countIdx n q + 1 := by
  have hMem : i ∈ List.range n := List.mem_range.mpr hi
  have hRest : ((List.range n).erase i).countP p = ((List.range n).erase i).countP q := by
    apply List.countP_congr
    intro j hj
    rw [hSame j (List.Nodup.mem_erase_iff List.nodup_range |>.mp hj).1]
  have hPerm := List.perm_cons_erase hMem
  unfold countIdx
  rw [← List.countP_eq_length_filter, ← List.countP_eq_length_filter, hPerm.countP_eq,
    hPerm.countP_eq, List.countP_cons_of_pos hp, List.countP_cons_of_neg (by simp [hq]), hRest]

end Zvm.Verified.FunArray
