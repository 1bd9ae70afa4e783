import Mathlib.Data.BitVec
import Mathlib.Tactic.Ring
import Zvm.Verified.Run

/-!
# VM identifiers

`include/zephyr/zvm/zvm.h` keeps the set of used VM identifiers in one 32-bit
word.  `allocate_vmid` takes the lowest clear bit below `CONFIG_MAX_VM_NUM` and
returns `CONFIG_MAX_VM_NUM` itself when there is none; `free_vmid` clears a bit
again.

Two widths matter.  `BIT(n)` is a 64-bit constant, but the loop bound of
`find_next_vmid` is stored in a 32-bit variable: for 32 VMs the bound is
`2 ^ 32`, truncated to 0, and no identifier is ever found.
-/

namespace Zvm.Os.Vmid

/-- The part of `struct zvm_manage_info` that `allocate_vmid` and `free_vmid` use. -/
structure VmidPool where
  allocedVmid : BitVec 32
  vmTotalNum : BitVec 32
deriving DecidableEq, Repr

/-- `BIT(n)`, an `unsigned long` constant. -/
def bit64 (n : Nat) : BitVec 64 := 1#64 <<< n

/-- `is_vmid_full`. -/
def isVmidFull (maxVmNum : Nat) (pool : VmidPool) : Bool :=
  pool.allocedVmid.setWidth 64 == bit64 maxVmNum - 1#64

/-- The loop of `find_next_vmid`, from the mask `id` of candidate `vmid` on: the
identifier found and the word with its bit set. -/
def findNextVmidFrom (maxid alloced : BitVec 32) :
    Nat → BitVec 32 → Nat → Option (Nat × BitVec 32)
  | 0, _, _ => none
  | fuel + 1, id, vmid =>
    if id < maxid then
      if id &&& alloced = 0#32 then some (vmid, alloced ||| id)
      else findNextVmidFrom maxid alloced fuel (id <<< 1) (vmid + 1)
    else none

/-- `find_next_vmid`; a mask has 32 positions, so 33 rounds always suffice. -/
def findNextVmid (maxVmNum : Nat) (pool : VmidPool) : Option (Nat × BitVec 32) :=
  findNextVmidFrom ((bit64 maxVmNum).setWidth 32) pool.allocedVmid 33 1#32 0

/-- `allocate_vmid`: the new pool and the identifier, `CONFIG_MAX_VM_NUM` when
none is left. -/
def allocateVmid (maxVmNum : Nat) (pool : VmidPool) : VmidPool × Nat :=
  if isVmidFull maxVmNum pool then (pool, maxVmNum)
  else
    match findNextVmid maxVmNum pool with
    | none => (pool, maxVmNum)
    | some (res, alloced) => (⟨alloced, pool.vmTotalNum + 1#32⟩, res)

/-- `free_vmid`, whose return value no modelled caller uses. -/
def freeVmid (maxVmNum : Nat) (pool : VmidPool) (vmid : Nat) : VmidPool :=
  if maxVmNum ≤ vmid then pool
  else if pool.allocedVmid &&& (bit64 vmid).setWidth 32 = 0#32 then pool
  else ⟨pool.allocedVmid &&& (~~~(bit64 vmid)).setWidth 32, pool.vmTotalNum - 1#32⟩

/-- The identifier `vmid` is in use. -/
def VmidPool.used (pool : VmidPool) (vmid : Nat) : Bool := pool.allocedVmid.getLsbD vmid

/-! ## The masks -/

theorem bit64_setWidth {n : Nat} (hn : n < 32) : (bit64 n).setWidth 32 = 1#32 <<< n := by
  have hMod : n % 64 = n := Nat.mod_eq_of_lt (by omega)
  apply BitVec.eq_of_getLsbD_eq
  intro i hi
  simp only [bit64, BitVec.getLsbD_setWidth, BitVec.getLsbD_shiftLeft, BitVec.getLsbD_one]
  grind

variable {k maxVmNum vmid : Nat} {pool : VmidPool}

theorem mask_and_eq_zero (w : BitVec 32) (hk : k < 32) :
    1#32 <<< k &&& w = 0#32 ↔ w.getLsbD k = false := by
  rw [BitVec.and_comm, ← BitVec.twoPow_eq, BitVec.and_twoPow]
  cases hBit : w.getLsbD k with
  | false => simp
  | true =>
    simp only [↓reduceIte, Bool.true_eq_false, iff_false]
    intro hZero
    have hSelected := congrArg (fun bits => bits.getLsbD k) hZero
    simp [hk] at hSelected

theorem mask_lt {n : Nat} (hn : n < 32) (hk : k < 32) : (1#32 <<< k < 1#32 <<< n) ↔ k < n := by
  have hPowK : 2 ^ k < 2 ^ 32 := Nat.pow_lt_pow_right (by decide) hk
  have hPowN : 2 ^ n < 2 ^ 32 := Nat.pow_lt_pow_right (by decide) hn
  rw [← BitVec.twoPow_eq, ← BitVec.twoPow_eq, BitVec.lt_def, BitVec.toNat_twoPow,
    BitVec.toNat_twoPow, Nat.mod_eq_of_lt hPowK, Nat.mod_eq_of_lt hPowN]
  exact Nat.pow_lt_pow_iff_right (by decide)

/-! ## The search -/

/-- The search stops at the lowest clear bit at or above `vmid`, below `maxVmNum`. -/
theorem findNextVmidFrom_spec (hMax : maxVmNum < 32) (alloced : BitVec 32) (fuel : Nat) :
    ∀ vmid, vmid ≤ maxVmNum → maxVmNum < vmid + fuel →
      (∃ res, vmid ≤ res ∧ res < maxVmNum ∧ alloced.getLsbD res = false ∧
        (∀ k, vmid ≤ k → k < res → alloced.getLsbD k = true) ∧
        findNextVmidFrom (1#32 <<< maxVmNum) alloced fuel (1#32 <<< vmid) vmid =
          some (res, alloced ||| 1#32 <<< res)) ∨
      ((∀ k, vmid ≤ k → k < maxVmNum → alloced.getLsbD k = true) ∧
        findNextVmidFrom (1#32 <<< maxVmNum) alloced fuel (1#32 <<< vmid) vmid = none) := by
  induction fuel with
  | zero =>
    intro vmid hLe hFuel
    omega
  | succ fuel ih =>
    intro vmid hLe hFuel
    have hVmid : vmid < 32 := by omega
    simp only [findNextVmidFrom, mask_lt hMax hVmid, mask_and_eq_zero alloced hVmid,
      ← BitVec.shiftLeft_add]
    by_cases hLt : vmid < maxVmNum
    · rw [if_pos hLt]
      by_cases hBit : alloced.getLsbD vmid = false
      · left
        refine ⟨vmid, Nat.le_refl _, hLt, hBit, fun k hk hk' => by omega, ?_⟩
        rw [if_pos hBit]
      · rw [if_neg hBit]
        have hSet : alloced.getLsbD vmid = true := by simpa using hBit
        -- one more used identifier in front of the part still to be searched
        have hFront : ∀ k, vmid ≤ k → vmid + 1 ≤ k ∨ alloced.getLsbD k = true := by
          intro k hk
          rcases Nat.lt_or_eq_of_le hk with hlt | rfl
          · exact .inl hlt
          · exact .inr hSet
        rcases ih (vmid + 1) hLt (by omega) with
          ⟨res, hRes, hResLt, hClear, hBelow, hEq⟩ | ⟨hAll, hEq⟩
        · left
          refine ⟨res, by omega, hResLt, hClear, fun k hk hk' => ?_, hEq⟩
          rcases hFront k hk with hLater | hUsed
          · exact hBelow k hLater hk'
          · exact hUsed
        · right
          refine ⟨fun k hk hk' => ?_, hEq⟩
          rcases hFront k hk with hLater | hUsed
          · exact hAll k hLater hk'
          · exact hUsed
    · right
      rw [if_neg hLt]
      exact ⟨fun k hk hk' => by omega, rfl⟩

/--
**What `allocate_vmid` does**: it either fails, leaving the pool alone, or
returns the lowest identifier that is not in use and marks it.
-/
theorem allocateVmid_cases (hMax : maxVmNum ≤ 32) (pool : VmidPool) :
    allocateVmid maxVmNum pool = (pool, maxVmNum) ∨
      ∃ vmid, vmid < maxVmNum ∧ maxVmNum < 32 ∧ pool.used vmid = false ∧
        (∀ k < vmid, pool.used k = true) ∧
        allocateVmid maxVmNum pool =
          (⟨pool.allocedVmid ||| 1#32 <<< vmid, pool.vmTotalNum + 1#32⟩, vmid) := by
  unfold allocateVmid
  split
  case isTrue => exact .inl rfl
  case isFalse =>
    unfold findNextVmid
    rcases Nat.lt_or_eq_of_le hMax with hLt | rfl
    · rw [bit64_setWidth hLt]
      rcases findNextVmidFrom_spec hLt pool.allocedVmid 33 0 (by omega) (by omega) with
        ⟨res, _, hRes, hClear, hBelow, hEq⟩ | ⟨_, hEq⟩ <;>
        rw [BitVec.shiftLeft_zero] at hEq
      · right
        exact ⟨res, hRes, hLt, hClear, fun k hk => hBelow k (Nat.zero_le k) hk, by rw [hEq]⟩
      · left
        rw [hEq]
    · -- the loop bound is `BIT(32)` cut to 32 bits
      left
      rfl

/-- `is_vmid_full` sees every identifier in use. -/
theorem used_of_isVmidFull (hMax : maxVmNum < 32) (hFull : isVmidFull maxVmNum pool = true)
    (hk : k < maxVmNum) : pool.used k = true := by
  have hPow : 2 ^ maxVmNum < 2 ^ 64 := Nat.pow_lt_pow_right (by decide) (by omega)
  have hPos : 0 < 2 ^ maxVmNum := Nat.two_pow_pos maxVmNum
  have hEq : pool.allocedVmid.setWidth 64 = bit64 maxVmNum - 1#64 := by
    simpa [isVmidFull] using hFull
  have hBit := congrArg (fun w => w.toNat.testBit k) hEq
  have hMask : (bit64 maxVmNum - 1#64).toNat = 2 ^ maxVmNum - 1 := by
    rw [bit64, ← BitVec.twoPow_eq, BitVec.toNat_sub, BitVec.toNat_twoPow, Nat.mod_eq_of_lt hPow]
    simp only [BitVec.toNat_ofNat]
    omega
  have hWide : pool.allocedVmid.toNat < 2 ^ 64 :=
    Nat.lt_trans pool.allocedVmid.isLt (by decide)
  simp only [hMask, Nat.testBit_two_pow_sub_one, hk, decide_true, BitVec.toNat_setWidth,
    Nat.mod_eq_of_lt hWide] at hBit
  exact hBit

/-- With fewer than 32 VMs `allocate_vmid` fails only when all identifiers are in use. -/
theorem used_of_allocateVmid_fail (hMax : maxVmNum < 32)
    (hFail : (allocateVmid maxVmNum pool).2 = maxVmNum) (hk : k < maxVmNum) :
    pool.used k = true := by
  unfold allocateVmid at hFail
  split at hFail
  case isTrue hFull => exact used_of_isVmidFull hMax hFull hk
  case isFalse =>
    unfold findNextVmid at hFail
    rw [bit64_setWidth hMax] at hFail
    rcases findNextVmidFrom_spec hMax pool.allocedVmid 33 0 (by omega) (by omega) with
      ⟨res, _, hRes, _, _, hEq⟩ | ⟨hAll, _⟩
    · rw [BitVec.shiftLeft_zero] at hEq
      rw [hEq] at hFail
      simp only at hFail
      omega
    · exact hAll k (Nat.zero_le k) hk

/-! ## The set of used identifiers -/

theorem used_mark (pool : VmidPool) (hVmid : vmid < 32) (total : BitVec 32) (k : Nat) :
    VmidPool.used ⟨pool.allocedVmid ||| 1#32 <<< vmid, total⟩ k =
      (decide (k = vmid) || pool.used k) := by
  simp only [VmidPool.used, BitVec.getLsbD_or, BitVec.getLsbD_shiftLeft, BitVec.getLsbD_one]
  grind

/-- `free_vmid` takes exactly its argument out of the used identifiers. -/
theorem used_freeVmid (hMax : maxVmNum ≤ 32) (pool : VmidPool) (hVmid : vmid < maxVmNum) (k : Nat) :
    (freeVmid maxVmNum pool vmid).used k = (pool.used k && decide (k ≠ vmid)) := by
  have hLt : vmid < 32 := by omega
  unfold freeVmid
  rw [if_neg (by omega), bit64_setWidth hLt, BitVec.and_comm]
  simp only [mask_and_eq_zero _ hLt]
  split
  case isTrue hClear =>
    by_cases hk : k = vmid
    · subst hk
      simp [VmidPool.used, hClear]
    · simp [hk]
  case isFalse =>
    have hOut : 32 ≤ k → pool.allocedVmid.getLsbD k = false :=
      fun hk => BitVec.getLsbD_of_ge _ _ hk
    simp only [VmidPool.used, bit64, BitVec.getLsbD_and, BitVec.getLsbD_setWidth,
      BitVec.getLsbD_not, BitVec.getLsbD_shiftLeft, BitVec.getLsbD_one]
    grind

/-- An identifier that was just allocated is given back without a trace. -/
theorem freeVmid_allocateVmid (hMax : maxVmNum ≤ 32) {vmids : VmidPool}
    (hVmid : allocateVmid maxVmNum pool = (vmids, vmid)) (hLt : vmid < maxVmNum) :
    pool.used vmid = false ∧ vmids.used vmid = true ∧ freeVmid maxVmNum vmids vmid = pool := by
  rcases allocateVmid_cases hMax pool with hSame | ⟨res, hRes, hMax', hClear, _, hEq⟩
  · obtain ⟨_, rfl⟩ := Prod.mk.inj (hVmid.symm.trans hSame)
    omega
  · obtain ⟨rfl, rfl⟩ := Prod.mk.inj (hVmid.symm.trans hEq)
    have hBit : vmid < 32 := by omega
    have hUsed : VmidPool.used ⟨pool.allocedVmid ||| 1#32 <<< vmid, pool.vmTotalNum + 1#32⟩ vmid =
        true := by
      rw [used_mark pool hBit]
      simp
    refine ⟨hClear, hUsed, ?_⟩
    have hHit : ¬ (pool.allocedVmid ||| 1#32 <<< vmid) &&& (bit64 vmid).setWidth 32 = 0#32 := by
      rw [bit64_setWidth hBit, BitVec.and_comm, mask_and_eq_zero _ hBit]
      intro hOff
      exact Bool.false_ne_true (hOff.symm.trans hUsed)
    unfold freeVmid
    rw [if_neg (by omega), if_neg hHit]
    have hWord : (pool.allocedVmid ||| 1#32 <<< vmid) &&& (~~~(bit64 vmid)).setWidth 32 =
        pool.allocedVmid := by
      apply BitVec.eq_of_getLsbD_eq
      intro k hk
      have hAt := used_mark pool hBit 0#32 k
      have hFree := used_freeVmid hMax ⟨pool.allocedVmid ||| 1#32 <<< vmid, 0#32⟩ hLt k
      unfold freeVmid at hFree
      rw [if_neg (by omega), if_neg hHit, hAt] at hFree
      simp only [VmidPool.used] at hFree hClear
      rw [hFree]
      by_cases hkv : k = vmid
      · subst hkv
        simp [hClear]
      · simp [hkv]
    rw [hWord]
    simp

/-! ## Runs -/

open Zvm.Verified.Run

/-- What `free_vmid` returns: `-EINVAL`, `-ENOENT` or 0. -/
def freeVmidReturn (maxVmNum : Nat) (pool : VmidPool) (vmid : Nat) : Int :=
  if maxVmNum ≤ vmid then -22
  else if pool.allocedVmid &&& (bit64 vmid).setWidth 32 = 0#32 then -2
  else 0

inductive VmidOp where
  | allocate
  | free (vmid : Nat)

def vmidStep (maxVmNum : Nat) (pool : VmidPool) : VmidOp → VmidPool
  | .allocate => (allocateVmid maxVmNum pool).1
  | .free vmid => freeVmid maxVmNum pool vmid

/-- The identifiers in use. -/
def VmidPool.ids (pool : VmidPool) : Finset Nat :=
  (Finset.range 32).filter fun k => pool.used k = true

structure Counted (maxVmNum : Nat) (pool : VmidPool) : Prop where
  total : pool.vmTotalNum.toNat = pool.ids.card
  below : ∀ k, pool.used k = true → k < maxVmNum

/-- The pool hands out the lowest identifier that is not in use, and takes back only those that
are. -/
structure VmidLaw (maxVmNum : Nat) (pool : VmidPool) : Prop where
  counted : Counted maxVmNum pool
  lowest : ∀ k < maxVmNum, pool.used k = false → (∀ j < k, pool.used j = true) →
    (allocateVmid maxVmNum pool).2 = k ∧
      ∀ j, (allocateVmid maxVmNum pool).1.used j = (decide (j = k) || pool.used j)
  full : (∀ k < maxVmNum, pool.used k = true) →
    allocateVmid maxVmNum pool = (pool, maxVmNum)
  unknown : ∀ vmid, pool.used vmid = false →
    freeVmidReturn maxVmNum pool vmid < 0 ∧ freeVmid maxVmNum pool vmid = pool

section Runs

variable {maxVmNum : Nat} {pool : VmidPool}

theorem mem_ids : k ∈ pool.ids ↔ pool.used k = true := by
  rw [VmidPool.ids, Finset.mem_filter, Finset.mem_range]
  refine and_iff_right_of_imp fun hUsed => ?_
  by_contra hLe
  rw [VmidPool.used, BitVec.getLsbD_of_ge _ _ (by omega)] at hUsed
  cases hUsed

/-- The two cases of an identifier that can be freed. -/
theorem freeVmid_unknown (hMax : maxVmNum ≤ 32) (hClear : pool.used vmid = false) :
    freeVmidReturn maxVmNum pool vmid < 0 ∧ freeVmid maxVmNum pool vmid = pool := by
  unfold freeVmidReturn freeVmid
  by_cases hVmid : maxVmNum ≤ vmid
  · rw [if_pos hVmid, if_pos hVmid]
    exact ⟨by decide, rfl⟩
  · have hBit : pool.allocedVmid &&& (bit64 vmid).setWidth 32 = 0#32 := by
      rw [bit64_setWidth (by omega), BitVec.and_comm, mask_and_eq_zero _ (by omega)]
      exact hClear
    rw [if_neg hVmid, if_neg hVmid, if_pos hBit, if_pos hBit]
    exact ⟨by decide, rfl⟩

theorem Counted.free (hMax : maxVmNum ≤ 32) (h : Counted maxVmNum pool) (vmid : Nat) :
    Counted maxVmNum (freeVmid maxVmNum pool vmid) := by
  cases hUsed : pool.used vmid with
  | false =>
    rw [(freeVmid_unknown hMax hUsed).2]
    exact h
  | true =>
    have hLt := h.below vmid hUsed
    have hMem : vmid ∈ pool.ids := mem_ids.mpr hUsed
    have hSet := used_freeVmid hMax pool hLt
    have hIds : (freeVmid maxVmNum pool vmid).ids = pool.ids.erase vmid := by
      ext k
      rw [Finset.mem_erase, mem_ids, mem_ids, hSet k]
      simp [and_comm]
    have hTotal : (freeVmid maxVmNum pool vmid).vmTotalNum = pool.vmTotalNum - 1#32 := by
      have hBit : ¬ pool.allocedVmid &&& (bit64 vmid).setWidth 32 = 0#32 := by
        rw [bit64_setWidth (by omega), BitVec.and_comm, mask_and_eq_zero _ (by omega)]
        exact ne_of_eq_of_ne hUsed (by decide)
      rw [freeVmid, if_neg (by omega), if_neg hBit]
    have hPos : 0 < pool.ids.card := Finset.card_pos.mpr ⟨vmid, hMem⟩
    have hCount := h.total
    have hWidth := pool.vmTotalNum.isLt
    refine ⟨?_, fun k hk => h.below k ?_⟩
    · rw [hTotal, hIds, Finset.card_erase_of_mem hMem, BitVec.toNat_sub, BitVec.toNat_ofNat]
      omega
    · rw [hSet k, Bool.and_eq_true] at hk
      exact hk.1

theorem Counted.allocate (hMax : maxVmNum ≤ 32) (h : Counted maxVmNum pool) :
    Counted maxVmNum (allocateVmid maxVmNum pool).1 := by
  rcases allocateVmid_cases hMax pool with hSame | ⟨vmid, hLt, -, hClear, -, hEq⟩
  · rw [hSame]
    exact h
  · have hSet := used_mark pool (by omega : vmid < 32) (pool.vmTotalNum + 1#32)
    rw [hEq]
    have hIds : VmidPool.ids ⟨pool.allocedVmid ||| 1#32 <<< vmid, pool.vmTotalNum + 1#32⟩ =
        insert vmid pool.ids := by
      ext k
      rw [Finset.mem_insert, mem_ids, mem_ids, hSet k]
      simp
    have hNew : vmid ∉ pool.ids := by simp [mem_ids, hClear]
    have hSmall : pool.ids.card ≤ 32 :=
      (Finset.card_filter_le _ _).trans (Finset.card_range 32).le
    have hCount := h.total
    refine ⟨?_, fun k hk => ?_⟩
    · rw [hIds, Finset.card_insert_of_notMem hNew, BitVec.toNat_add, BitVec.toNat_ofNat]
      omega
    · rw [hSet k, Bool.or_eq_true, decide_eq_true_eq] at hk
      rcases hk with rfl | hk
      · exact hLt
      · exact h.below k hk

theorem counted_exec (hMax : maxVmNum ≤ 32) (ops : List VmidOp) :
    Counted maxVmNum (exec (vmidStep maxVmNum) ⟨0, 0⟩ ops) := by
  refine exec_invariant_of_mem ops ?_ _ ⟨by decide, fun k hk => by simp [VmidPool.used] at hk⟩
  intro op _ pool h
  cases op with
  | allocate => exact h.allocate hMax
  | free vmid => exact h.free hMax vmid

/-- With fewer than 32 VMs the search reaches every identifier. -/
theorem Counted.law (hMax : maxVmNum < 32) (h : Counted maxVmNum pool) : VmidLaw maxVmNum pool := by
  refine ⟨h, ?_, ?_, fun vmid => freeVmid_unknown hMax.le⟩
  · intro k hk hClear hBelow
    rcases allocateVmid_cases hMax.le pool with hSame | ⟨vmid, hLt, -, hFree, hLow, hEq⟩
    · have hUsed := used_of_allocateVmid_fail hMax (by rw [hSame]) hk
      rw [hClear] at hUsed
      cases hUsed
    · have hSame : vmid = k := by
        rcases Nat.lt_trichotomy vmid k with hlt | rfl | hgt
        · rw [hBelow vmid hlt] at hFree
          cases hFree
        · rfl
        · rw [hLow k hgt] at hClear
          cases hClear
      subst hSame
      rw [hEq]
      exact ⟨rfl, used_mark pool (by omega) _⟩
  · intro hAll
    rcases allocateVmid_cases hMax.le pool with hSame | ⟨vmid, hLt, -, hFree, -, -⟩
    · exact hSame
    · rw [hAll vmid hLt] at hFree
      cases hFree

end Runs

/--
**The pool of VM identifiers**: in every state of every run the law holds exactly if
`CONFIG_MAX_VM_NUM` is not 32.
-/
theorem vmid_law_iff (maxVmNum : Nat) (hMax : maxVmNum ≤ 32) (ops : List VmidOp) :
    VmidLaw maxVmNum (exec (vmidStep maxVmNum) ⟨0, 0⟩ ops) ↔ maxVmNum ≠ 32 := by
  constructor
  · rintro hLaw rfl
    -- nothing is ever allocated, so that the lowest identifier is not in use
    have hNone : ∀ pool : VmidPool, allocateVmid 32 pool = (pool, 32) := by
      intro pool
      rcases allocateVmid_cases (Nat.le_refl 32) pool with hSame | ⟨_, -, hFalse, -⟩
      · exact hSame
      · omega
    have hStep : ∀ op ∈ ops, ∀ pool : VmidPool, (∀ k, pool.used k = false) →
        ∀ k, (vmidStep 32 pool op).used k = false := by
      intro op _ pool hClear
      cases op with
      | allocate => rwa [vmidStep, hNone]
      | free vmid => rwa [vmidStep, (freeVmid_unknown (Nat.le_refl 32) (hClear vmid)).2]
    have hEmpty := exec_invariant_of_mem ops hStep ⟨0, 0⟩ fun k => by simp [VmidPool.used]
    have hFirst := (hLaw.lowest 0 (by decide) (hEmpty 0) fun j hj => by omega).1
    rw [hNone] at hFirst
    cases hFirst
  · exact fun hNe => (counted_exec hMax ops).law (by omega)

theorem vmid_law_iff_two :
    VmidLaw 2 (exec (vmidStep 2) ⟨0, 0⟩ [.allocate, .allocate, .allocate, .free 0, .free 5]) :=
  (vmid_law_iff 2 (by decide) _).mpr (by decide)

/-- With 32 VMs no identifier is found although all are free. -/
theorem no_vmid_of_thirty_two :
    allocateVmid 32 ⟨0, 0⟩ = (⟨0, 0⟩, 32) ∧ ∀ k < 32, VmidPool.used ⟨0, 0⟩ k = false := by
  decide

end Zvm.Os.Vmid
