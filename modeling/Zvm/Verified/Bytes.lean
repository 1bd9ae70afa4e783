import Zvm.Verified.FunArray
import Mathlib.Data.Nat.ModEq
import Mathlib.Tactic.Ring

/-!
# Byte memory with little-endian words

Memory is a function from addresses to bytes.  A word of `n` bytes at `a` is
what the bytes from `a` on spell, the lowest first.

## Main results

* `load_store_same`: a word read back is the word stored, cut to its width.
* `load_store_of_disjoint`: a store changes no word outside its bytes.
-/

namespace Zvm.Verified.Bytes

open Zvm.Verified.FunArray

/-- The word of `n` bytes at `a`. -/
def load (m : Nat → UInt8) : Nat → Nat → Nat
  | 0, _ => 0
  | n + 1, a => (m a).toNat + 256 * load m n (a + 1)

/-- Store the low `n` bytes of `v` at `a`. -/
def store (m : Nat → UInt8) : Nat → Nat → Nat → Nat → UInt8
  | 0, _, _ => m
  | n + 1, a, v => set (store m n (a + 1) (v / 256)) a (UInt8.ofNat v)

/-- A word depends on its own bytes only. -/
theorem load_congr {m m' : Nat → UInt8} (n : Nat) :
    ∀ a, (∀ k, a ≤ k → k < a + n → m' k = m k) → load m' n a = load m n a := by
  induction n with
  | zero => intro a _; rfl
  | succ n ih =>
    intro a hSame
    have hRest := ih (a + 1) fun k hk hk' => hSame k (by omega) (by omega)
    rw [load, load, hSame a (by omega) (by omega), hRest]

theorem store_apply_of_outside (m : Nat → UInt8) (n : Nat) :
    ∀ a v k, k < a ∨ a + n ≤ k → store m n a v k = m k := by
  induction n with
  | zero => intro a v k _; rfl
  | succ n ih =>
    intro a v k hOut
    rw [store, set_ne _ _ (by omega), ih _ _ _ (by omega)]

theorem load_store_same (m : Nat → UInt8) (n : Nat) :
    ∀ a v, load (store m n a v) n a = v % 256 ^ n := by
  induction n with
  | zero => intro a v; simp [load, Nat.mod_one]
  | succ n ih =>
    intro a v
    -- the first byte does not disturb the word of the others
    have hRest : load (store m (n + 1) a v) n (a + 1) = v / 256 % 256 ^ n := by
      rw [← ih (a + 1) (v / 256)]
      apply load_congr
      intro k hk _
      rw [store, set_ne _ _ (by omega)]
    have hByte : (store m (n + 1) a v a).toNat = v % 256 := by
      rw [store, set_same, UInt8.toNat_ofNat']
    rw [load, hRest, hByte, pow_succ, Nat.mul_comm (256 ^ n), Nat.mod_mul]

theorem load_store_of_disjoint (m : Nat → UInt8) {n n' a a' : Nat} (v : Nat)
    (hOff : a + n ≤ a' ∨ a' + n' ≤ a) : load (store m n a v) n' a' = load m n' a' := by
  apply load_congr
  intro k hk hk'
  exact store_apply_of_outside m n a v k (by omega)

/-- Copy `n` bytes from `src` to `dst`, as `memcpy` does for areas that do not overlap. -/
def copy (m : Nat → UInt8) (dst src n : Nat) : Nat → UInt8 :=
  fun k => if dst ≤ k ∧ k < dst + n then m (src + (k - dst)) else m k

theorem copy_apply_of_outside (m : Nat → UInt8) {dst src n k : Nat} (hOut : k < dst ∨ dst + n ≤ k) :
    copy m dst src n k = m k := by
  rw [copy, if_neg (by omega)]

end Zvm.Verified.Bytes
