import Mathlib.Data.List.GetD
import Zvm.Verified.RingBuffer

/-!
# Rings that count what they hold

A ring of `n` cells with an index to read from and the number of cells in use, so that a full ring
and an empty one are told apart.  `window` is the list of the cells in use.  A cell may be several
elements of a larger array side by side (`cell`).
-/

namespace Zvm.Verified.CountedRing

open Zvm.Verified.FunArray Zvm.Verified.RingBuffer

variable {α : Type*}

/-- The `n` elements from `a` on. -/
def slice (buf : Nat → α) (a n : Nat) : List α := (List.range n).map fun i => buf (a + i)

/-- The elements `xs` stored from `a` on. -/
def store (buf : Nat → α) (a : Nat) (xs : List α) : Nat → α :=
  fun k => if a ≤ k then xs[k - a]?.getD (buf k) else buf k

/-- The `used` cells of a ring of `n` cells, read from `head` on. -/
def window (n : Nat) (buf : Nat → α) (head used : Nat) : List α :=
  (List.range used).map fun k => buf ((head + k) % n)

/-- The cell `j` of an array of cells of `size` elements. -/
def cell (size : Nat) (buf : Nat → α) (j : Nat) : List α := slice buf (j * size) size

@[simp]
theorem length_slice (buf : Nat → α) (a n : Nat) : (slice buf a n).length = n := by
  rw [slice, List.length_map, List.length_range]

@[simp]
theorem length_window (n : Nat) (buf : Nat → α) (head used : Nat) :
    (window n buf head used).length = used := by
  rw [window, List.length_map, List.length_range]

theorem slice_congr {buf buf' : Nat → α} {a n : Nat}
    (hSame : ∀ k, a ≤ k → k < a + n → buf' k = buf k) : slice buf' a n = slice buf a n := by
  refine List.map_congr_left ?_
  intro i hi
  rw [List.mem_range] at hi
  exact hSame (a + i) (Nat.le_add_right a i) (by omega)

theorem store_of_outside {buf : Nat → α} {a k : Nat} {xs : List α}
    (hOut : k < a ∨ a + xs.length ≤ k) : store buf a xs k = buf k := by
  rw [store]
  split
  · rw [List.getElem?_eq_none (by omega)]
    rfl
  · rfl

theorem slice_store_same (buf : Nat → α) (a : Nat) (xs : List α) :
    slice (store buf a xs) a xs.length = xs := by
  refine List.ext_getElem (length_slice ..) ?_
  intro i _ hi
  simp only [slice, List.getElem_map, List.getElem_range, store]
  rw [if_pos (Nat.le_add_right a i), Nat.add_sub_cancel_left, List.getElem?_eq_getElem hi]
  rfl

theorem cell_store {size j : Nat} {xs : List α} (hLen : xs.length = size) (buf : Nat → α) :
    cell size (store buf (j * size) xs) = set (cell size buf) j xs := by
  funext i
  by_cases hi : i = j
  · rw [hi, set_same, cell, ← hLen]
    exact slice_store_same buf _ xs
  · rw [set_ne _ _ hi]
    refine slice_congr ?_
    intro k hLow hHigh
    refine store_of_outside ?_
    -- different cells do not overlap
    rcases Nat.lt_or_gt_of_ne hi with hLt | hGt
    · have hEnd : (i + 1) * size ≤ j * size := Nat.mul_le_mul_right size hLt
      rw [Nat.add_mul, Nat.one_mul] at hEnd
      omega
    · have hEnd : (j + 1) * size ≤ i * size := Nat.mul_le_mul_right size hGt
      rw [Nat.add_mul, Nat.one_mul] at hEnd
      omega

theorem window_getElem? {n : Nat} {buf : Nat → α} {head used k : Nat} (hk : k < used) :
    (window n buf head used)[k]? = some (buf ((head + k) % n)) := by
  simp [window, hk]

/-- A cell stored behind the used ones. -/
theorem window_push {n : Nat} {buf : Nat → α} {head used : Nat} (hRoom : used < n) (x : α) :
    window n (set buf ((head + used) % n) x) head (used + 1) = window n buf head used ++ [x] := by
  rw [window, List.range_succ, List.map_append, List.map_singleton, set_same, window]
  congr 1
  refine List.map_congr_left ?_
  intro k hk
  rw [List.mem_range] at hk
  exact set_ne _ _ (slot_ne hk hRoom)

/-- The first used cell, and the window behind it. -/
theorem window_pop {n : Nat} {buf : Nat → α} {head used : Nat} (hHead : head < n) :
    window n buf head (used + 1) = buf head :: window n buf ((head + 1) % n) used := by
  rw [window, List.range_succ_eq_map, List.map_cons, Nat.add_zero, Nat.mod_eq_of_lt hHead,
    List.map_map, window]
  congr 1
  refine List.map_congr_left ?_
  intro k _
  rw [Function.comp_apply, Nat.mod_add_mod, Nat.succ_eq_add_one]
  congr 2
  omega

end Zvm.Verified.CountedRing
