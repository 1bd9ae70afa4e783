import Zvm.Os.GuestMemoryLayout
import Zvm.Verified.Run

/-!
# Undoing an allocation

A create command that fails gives its memory back by freeing an address: the one it was
given, or, where it was given none, the one a previous owner of its identifier had left in
the record.  This module says when the block list is the same again afterwards.

In every state the manager can reach, the blocks are in order and two free blocks never
touch (`Regular`): freeing merges a block with both neighbours, and an allocation leaves a
free remainder where a free block ended before.  So a block that was just taken is merged
with its own remainder and with nothing else, provided that it is the block that is freed.
It is not where the search finds another block at the same start first, which has size 0.
-/

namespace Zvm.Os.GuestMemory

open Zvm.Verified.FunArray Zvm.Verified.Run

/-! ## Free blocks do not touch -/

/-- The blocks in slots `k` and `k + 1` do not touch if both are free. -/
def ApartAt (mm : GuestMemoryManager) (k : Nat) : Prop :=
  k + 1 < mm.blkCount → (mm.blkList k).isAllocated = false →
    (mm.blkList (k + 1)).isAllocated = false →
    off mm k + (mm.blkList k).size ≠ off mm (k + 1)

/-- The blocks are in order and no two free ones touch. -/
structure Regular (mm : GuestMemoryManager) : Prop where
  ordered : Ordered mm
  apart : ∀ k, ApartAt mm k

theorem regular_init {baseAddr totalMem : Nat} (hBase : baseAddr < 2 ^ 64)
    (hTotal : totalMem < 2 ^ 64) :
    Regular (guestMemoryManagerInit baseAddr totalMem) where
  ordered := ordered_init hBase hTotal
  apart := by
    intro k hk
    simp [guestMemoryManagerInit] at hk

section Merge

variable {mm : GuestMemoryManager} {lo index : Nat}

theorem ApartAt.coalesce_lt {k : Nat} (hApart : ApartAt mm k) (hk : k < lo) :
    ApartAt (coalesce mm lo) k := by
  intro hCount hFree hFreeNext
  have hLess : k + 1 < mm.blkCount - 1 := hCount
  have hNext : ((coalesce mm lo).blkList (k + 1)).isAllocated =
      (mm.blkList (k + 1)).isAllocated := by
    rcases Nat.lt_or_eq_of_le (Nat.succ_le_of_lt hk) with hlt | rfl
    · rw [coalesce_blk_lt hlt]
    · rw [coalesce_blk_self]
  rw [coalesce_off_le (Nat.le_of_lt hk), coalesce_off_le (Nat.succ_le_of_lt hk), coalesce_blk_lt hk]
  rw [coalesce_blk_lt hk] at hFree
  rw [hNext] at hFreeNext
  exact hApart (by omega) hFree hFreeNext

theorem ApartAt.coalesce_ge {k : Nat} (hApart : ApartAt mm (k + 1)) (hO : Ordered mm)
    (hlo : lo + 1 < mm.blkCount) (hAdj : adjacent mm lo = true)
    (hFreeLo : (mm.blkList (lo + 1)).isAllocated = false) (hk : lo ≤ k) :
    ApartAt (coalesce mm lo) k := by
  intro hCount hFree hFreeNext
  have hLess : k + 1 < mm.blkCount - 1 := hCount
  rw [coalesce_blk_gt (by omega) hLess] at hFreeNext
  rw [coalesce_off_gt (by omega) hLess]
  rcases Nat.lt_or_eq_of_le hk with hlt | rfl
  · rw [coalesce_blk_gt hlt (by omega)] at hFree ⊢
    rw [coalesce_off_gt hlt (by omega)]
    exact hApart (by omega) hFree hFreeNext
  · -- the merged block ends where its second part ended
    have hTouch := (hO.adjacent_iff hlo).mp hAdj
    have hEnd := hApart (by omega) hFreeLo hFreeNext
    rw [coalesce_size hO hlo hAdj, coalesce_off_le (Nat.le_refl lo)]
    omega

/-- What `free_guest_memory_part` can do: nothing, or clear one block and merge it with the
block behind it, the block before it, or both. -/
inductive FreeOutcome (mm : GuestMemoryManager) (addr : Nat) : GuestMemoryManager → Prop
  | nothing (hNone : firstIdx mm.blkCount (startsAt mm addr) = none) : FreeOutcome mm addr mm
  | alone (j : Nat) (hFound : firstIdx mm.blkCount (startsAt mm addr) = some j) :
      FreeOutcome mm addr (clearBlk mm j)
  | next (j : Nat) (hFound : firstIdx mm.blkCount (startsAt mm addr) = some j)
      (hNext : j + 1 < mm.blkCount) : FreeOutcome mm addr (coalesce (clearBlk mm j) j)
  | prev (j : Nat) (hFound : firstIdx mm.blkCount (startsAt mm addr) = some (j + 1))
      (hFree : (mm.blkList j).isAllocated = false) :
      FreeOutcome mm addr (coalesce (clearBlk mm (j + 1)) j)
  | both (j : Nat) (hFound : firstIdx mm.blkCount (startsAt mm addr) = some (j + 1))
      (hNext : j + 2 < mm.blkCount) :
      FreeOutcome mm addr (coalesce (coalesce (clearBlk mm (j + 1)) (j + 1)) j)

theorem clearBlk_isAllocated_ne {k : Nat} (hk : k ≠ index) :
    ((clearBlk mm index).blkList k).isAllocated = (mm.blkList k).isAllocated := by
  rw [(clearBlk_blk mm index k).2.2]
  simp [hk]

theorem clearBlk_isAllocated_self : ((clearBlk mm index).blkList index).isAllocated = false := by
  simp [(clearBlk_blk mm index index).2.2]

theorem free_outcome (mm : GuestMemoryManager) (addr : Nat) :
    FreeOutcome mm addr (freeGuestMemoryPart mm addr) := by
  unfold freeGuestMemoryPart
  split
  case h_1 hNone => exact .nothing hNone
  case h_2 index hFound =>
    cases index with
    | zero =>
      simp only [mergePrev, mergeNext]
      split
      case isTrue hTest =>
        simp only [Bool.and_eq_true, decide_eq_true_eq] at hTest
        have hLess : 0 < mm.blkCount - 1 := hTest.1.1
        exact .next 0 hFound (by omega)
      case isFalse => exact .alone 0 hFound
    | succ j =>
      simp only [mergePrev, mergeNext]
      split
      case isTrue hTest =>
        simp only [Bool.and_eq_true, decide_eq_true_eq] at hTest
        have hLess : j + 1 < mm.blkCount - 1 := hTest.1.1
        split
        case isTrue => exact .both j hFound (by omega)
        case isFalse => exact .next (j + 1) hFound (by omega)
      case isFalse =>
        split
        case isTrue hTest =>
          simp only [Bool.and_eq_true, Bool.not_eq_true'] at hTest
          have hFree := hTest.1
          rw [clearBlk_isAllocated_ne (by omega)] at hFree
          exact .prev j hFound hFree
        case isFalse => exact .alone (j + 1) hFound

/-- Merging with the block behind leaves at most one pair that touches, at the freed block's
start. -/
theorem apart_mergeNext (hO : Ordered mm) (hi : index < mm.blkCount)
    (hApart : ∀ k, k ≠ index → k + 1 ≠ index → ApartAt mm k) :
    ∀ k, k + 1 ≠ index → ApartAt (mergeNext mm index) k := by
  intro k hk
  unfold mergeNext
  split
  case isTrue hTest =>
    simp only [Bool.and_eq_true, decide_eq_true_eq, Bool.not_eq_true'] at hTest
    obtain ⟨⟨hLess, hFreeNext⟩, hAdj⟩ := hTest
    rcases Nat.lt_or_ge k index with hlt | hge
    · exact (hApart k (by omega) hk).coalesce_lt hlt
    · exact (hApart (k + 1) (by omega) (by omega)).coalesce_ge hO (by omega) hAdj hFreeNext hge
  case isFalse hTest =>
    by_cases hki : k = index
    · subst hki
      intro hLess hFree hFreeNext hTouch
      have hAdj := (hO.adjacent_iff hLess).mpr hTouch
      exact hTest (by simp [hFreeNext, hAdj]; omega)
    · exact hApart k hki hk

theorem apart_mergePrev (hO : Ordered mm) (hi : index < mm.blkCount)
    (hFree : (mm.blkList index).isAllocated = false) (hApart : ∀ k, k + 1 ≠ index → ApartAt mm k) :
    ∀ k, ApartAt (mergePrev mm index) k := by
  intro k
  unfold mergePrev
  split
  case h_1 => exact hApart k (by omega)
  case h_2 prev =>
    split
    case isTrue hTest =>
      simp only [Bool.and_eq_true, Bool.not_eq_true'] at hTest
      rcases Nat.lt_or_ge k prev with hlt | hge
      · exact (hApart k (by omega)).coalesce_lt hlt
      · exact (hApart (k + 1) (by omega)).coalesce_ge hO hi hTest.2 hFree hge
    case isFalse hTest =>
      by_cases hk : k = prev
      · subst hk
        intro hLess hFreePrev _ hTouch
        have hAdj := (hO.adjacent_iff hLess).mpr hTouch
        exact hTest (by simp [hFreePrev, hAdj])
      · exact hApart k (by omega)

end Merge

/-! ## Every state of the manager is regular -/

section Steps

variable {mm : GuestMemoryManager}

theorem ordered_mergeNext {index : Nat} (hO : Ordered mm) : Ordered (mergeNext mm index) := by
  unfold mergeNext
  split
  case isTrue hTest =>
    simp only [Bool.and_eq_true, decide_eq_true_eq] at hTest
    exact hO.coalesce (by omega) hTest.2
  case isFalse => exact hO

theorem ordered_mergePrev {index : Nat} (hO : Ordered mm) (hi : index < mm.blkCount) :
    Ordered (mergePrev mm index) := by
  unfold mergePrev
  split
  case h_1 => exact hO
  case h_2 prev =>
    split
    case isTrue hTest =>
      simp only [Bool.and_eq_true] at hTest
      exact hO.coalesce hi hTest.2
    case isFalse => exact hO

/-- The freed block stays in its slot when the block behind it is merged into it. -/
theorem mergeNext_slot {index : Nat} (hi : index < mm.blkCount) :
    index < (mergeNext mm index).blkCount ∧
      ((mergeNext mm index).blkList index).isAllocated = (mm.blkList index).isAllocated := by
  unfold mergeNext
  split
  case isTrue hTest =>
    simp only [Bool.and_eq_true, decide_eq_true_eq] at hTest
    exact ⟨hTest.1.1, by rw [coalesce_blk_self]⟩
  case isFalse => exact ⟨hi, rfl⟩

theorem Regular.free (hReg : Regular mm) (addr : Nat) : Regular (freeGuestMemoryPart mm addr) := by
  unfold freeGuestMemoryPart
  split
  case h_1 => exact hReg
  case h_2 index hFound =>
    obtain ⟨hi, _, _⟩ := firstIdx_eq_some.mp hFound
    have hO := (within_clearBlk mm index).ordered hReg.ordered
    have hClear : ∀ k, k ≠ index → k + 1 ≠ index → ApartAt (clearBlk mm index) k := by
      intro k hk hk' hLess hFree hFreeNext
      rw [clearBlk_isAllocated_ne hk] at hFree
      rw [clearBlk_isAllocated_ne hk'] at hFreeNext
      rw [clearBlk_off, clearBlk_off, (clearBlk_blk mm index k).2.1]
      exact hReg.apart k hLess hFree hFreeNext
    obtain ⟨hSlot, hFlag⟩ := mergeNext_slot (show index < (clearBlk mm index).blkCount from hi)
    rw [clearBlk_isAllocated_self] at hFlag
    exact ⟨ordered_mergePrev (ordered_mergeNext hO) hSlot,
      apart_mergePrev (ordered_mergeNext hO) hSlot hFlag (apart_mergeNext hO hi hClear)⟩

theorem Regular.takeBlk (hReg : Regular mm) {osType size i : Nat}
    (hSize : size ≤ (mm.blkList i).size) : Regular (takeBlk mm osType size i) := by
  refine ⟨(within_takeBlk _ hSize).ordered hReg.ordered, ?_⟩
  intro k hk hFree hFreeNext
  rw [takeBlk_isAllocated] at hFree hFreeNext
  have hNe : k ≠ i := by
    rintro rfl
    simp at hFree
  have hNe' : k + 1 ≠ i := by
    intro hEq
    simp [hEq] at hFreeNext
  rw [if_neg hNe] at hFree
  rw [if_neg hNe'] at hFreeNext
  rw [takeBlk_off, takeBlk_off, takeBlk_size, if_neg hNe]
  exact hReg.apart k hk hFree hFreeNext

theorem Regular.splitBlk (hReg : Regular mm) {osType size i : Nat} (hi : i < mm.blkCount)
    (hFreeI : (mm.blkList i).isAllocated = false) (hSize : size < (mm.blkList i).size)
    (hCount : mm.blkCount < blkListLen) : Regular (splitBlk mm osType size i) := by
  refine ⟨hReg.ordered.splitBlk hi hSize hCount, ?_⟩
  intro k hk hFree hFreeNext
  have hLess : k + 1 < mm.blkCount + 1 := hk
  rcases splitBlk_slots i (Nat.lt_of_succ_lt hk) with hlt | rfl | rfl | ⟨j, rfl, hgt, hj⟩
  · -- the block taken is allocated, so slot `k + 1` is a slot before it
    have hNext : k + 1 < i := by
      rcases Nat.lt_or_eq_of_le (Nat.succ_le_of_lt hlt) with hlt' | rfl
      · exact hlt'
      · rw [splitBlk_blk_self] at hFreeNext
        simp at hFreeNext
    rw [splitBlk_blk_lt hlt] at hFree ⊢
    rw [splitBlk_blk_lt hNext] at hFreeNext
    rw [splitBlk_off_le (by omega), splitBlk_off_le (by omega)]
    exact hReg.apart k (by omega) hFree hFreeNext
  · rw [splitBlk_blk_self] at hFree
    simp at hFree
  · -- the remainder ends where the block ended
    have hEnd := hReg.apart i (by omega) hFreeI
      (by rwa [splitBlk_blk_gt (by omega) (by omega)] at hFreeNext)
    rw [splitBlk_off_rest hReg.ordered osType hi (Nat.le_of_lt hSize),
      (splitBlk_blk_rest mm osType size i).2.1, splitBlk_off_gt (by omega) (by omega)]
    omega
  · rw [splitBlk_blk_gt hgt hj] at hFree ⊢
    rw [splitBlk_blk_gt (by omega) (by omega)] at hFreeNext
    rw [splitBlk_off_gt hgt hj, splitBlk_off_gt (by omega) (by omega)]
    exact hReg.apart j (by omega) hFree hFreeNext

theorem Regular.allocate (hReg : Regular mm) (osType size : Nat) :
    Regular (allocateGuestMemoryPart mm osType size).1 := by
  have hOut := allocate_outcome mm osType size
  generalize allocateGuestMemoryPart mm osType size = res at hOut
  cases hOut with
  | noFit => exact hReg
  | exact i hi hFree hSize => exact hReg.takeBlk (Nat.le_of_eq hSize.symm)
  | full i hi hFree hSize => exact hReg.takeBlk (Nat.le_of_lt hSize)
  | split i hi hFree hSize hCount => exact hReg.splitBlk hi hFree hSize hCount

/-- The calls that change the block list. -/
inductive MemCall where
  | allocate (osType size : Nat)
  | free (addr : Nat)

def memStep (mm : GuestMemoryManager) : MemCall → GuestMemoryManager
  | .allocate osType size => (allocateGuestMemoryPart mm osType size).1
  | .free addr => freeGuestMemoryPart mm addr

/-- After any calls, in any order and with any arguments, the block list is regular. -/
theorem regular_exec {baseAddr totalMem : Nat} (hBase : baseAddr < 2 ^ 64)
    (hTotal : totalMem < 2 ^ 64) (calls : List MemCall) :
    Regular (exec memStep (guestMemoryManagerInit baseAddr totalMem) calls) := by
  refine exec_invariant_of_mem calls ?_ _ (regular_init hBase hTotal)
  intro call _ s hReg
  cases call with
  | allocate osType size => exact hReg.allocate osType size
  | free addr => exact hReg.free addr

end Steps

/-! ## When the list is the same again -/

/-- The same blocks, with the same owners where they are allocated. -/
structure SameList (mm mm' : GuestMemoryManager) : Prop where
  blocks : SameBlocks mm mm'
  owner : ∀ k < mm.blkCount, (mm.blkList k).isAllocated = true →
    (mm'.blkList k).osType = (mm.blkList k).osType

theorem SameList.refl (mm : GuestMemoryManager) : SameList mm mm :=
  ⟨⟨rfl, rfl, rfl, fun _ _ => rfl, fun _ _ => rfl, fun _ _ => rfl⟩, fun _ _ _ => rfl⟩

/-- An allocation that fails, or whose block is then freed, can be undone by freeing `stale`
or that block: none is found and nothing is freed; or a block is found, which has not to be
split or can be split, its address is not taken for a failure unless it is freed all the
same, and no allocated block before it has the same start. -/
def undoable (mm : GuestMemoryManager) (size stale : Nat) : Bool :=
  match firstIdx mm.blkCount (fits mm size) with
  | none => (firstIdx mm.blkCount (startsAt mm stale)).isNone
  | some i =>
    !(decide (size < (mm.blkList i).size) && decide (blkListLen ≤ mm.blkCount)) &&
      (decide ((mm.blkList i).startAddr ≠ 0) || decide (stale = 0)) &&
      (firstIdx i (startsAt mm (mm.blkList i).startAddr)).isNone

section Undo

variable {mm : GuestMemoryManager} {addr osType size i : Nat}

/-- Freeing without any merge. -/
theorem free_of_count (hCount : (freeGuestMemoryPart mm addr).blkCount = mm.blkCount)
    (hPos : 0 < mm.blkCount) :
    (firstIdx mm.blkCount (startsAt mm addr) = none ∧ freeGuestMemoryPart mm addr = mm) ∨
      ∃ j, firstIdx mm.blkCount (startsAt mm addr) = some j ∧
        freeGuestMemoryPart mm addr = clearBlk mm j := by
  have hOut := free_outcome mm addr
  generalize freeGuestMemoryPart mm addr = res at hOut hCount
  cases hOut with
  | nothing hNone => exact .inl ⟨hNone, rfl⟩
  | alone j hFound => exact .inr ⟨j, hFound, rfl⟩
  | next j hFound hOther | prev j hFound hOther =>
    have hLess : mm.blkCount - 1 = mm.blkCount := hCount
    omega
  | both j hFound hNext =>
    have hLess : mm.blkCount - 1 - 1 = mm.blkCount := hCount
    omega

/-- A freed block is not merged where the list is that of a regular state in which it is
free. -/
theorem mergePrev_of_sameBlocks {mm' : GuestMemoryManager} (hReg : Regular mm)
    (hSame : SameBlocks mm mm') (hi : i < mm.blkCount)
    (hFree : (mm.blkList i).isAllocated = false) : mergePrev mm' i = mm' := by
  unfold mergePrev
  split
  case h_1 => rfl
  case h_2 prev =>
    rw [if_neg]
    intro hTest
    simp only [Bool.and_eq_true, Bool.not_eq_true'] at hTest
    have hFreePrev := (hSame.alloc prev (by omega)).symm.trans hTest.1
    have hTouch := ((hSame.within.ordered hReg.ordered).adjacent_iff
      (show prev + 1 < mm'.blkCount by rw [hSame.count]; exact hi)).mp hTest.2
    rw [hSame.within.off (by omega), hSame.within.off hi, hSame.size prev (by omega)] at hTouch
    exact hReg.apart prev hi hFreePrev hFree hTouch

theorem mergeNext_of_sameBlocks {mm' : GuestMemoryManager} (hReg : Regular mm)
    (hSame : SameBlocks mm mm') (hFree : (mm.blkList i).isAllocated = false) :
    mergeNext mm' i = mm' := by
  unfold mergeNext
  rw [if_neg]
  intro hTest
  simp only [Bool.and_eq_true, decide_eq_true_eq, Bool.not_eq_true', hSame.count] at hTest
  have hNext : i + 1 < mm.blkCount := by omega
  have hFreeNext := (hSame.alloc (i + 1) hNext).symm.trans hTest.1.2
  have hTouch := ((hSame.within.ordered hReg.ordered).adjacent_iff
    (show i + 1 < mm'.blkCount by rw [hSame.count]; exact hNext)).mp hTest.2
  rw [hSame.within.off (by omega), hSame.within.off hNext, hSame.size i (by omega)] at hTouch
  exact hReg.apart i hNext hFree hFreeNext hTouch

/-- A block of the list with another owner, where it is free. -/
theorem sameList_of_blk {mm' : GuestMemoryManager} (hBase : mm'.baseAddr = mm.baseAddr)
    (hTotal : mm'.totalMemory = mm.totalMemory) (hCount : mm'.blkCount = mm.blkCount)
    (hFree : (mm.blkList i).isAllocated = false)
    (hBlk : ∀ k < mm.blkCount, mm'.blkList k =
      if k = i then { mm.blkList i with osType := osType } else mm.blkList k) :
    SameList mm mm' := by
  refine ⟨⟨hBase, hTotal, hCount, ?_, ?_, ?_⟩, ?_⟩
  iterate 3
    intro k hk
    rw [hBlk k hk]
    split
    case isTrue hki => rw [hki]
    case isFalse => rfl
  · intro k hk hAlloc
    have hNe : k ≠ i := by
      rintro rfl
      simp [hFree] at hAlloc
    rw [hBlk k hk, if_neg hNe]

/-- The search of `free_guest_memory_part` finds the block in slot `i`, just taken. -/
theorem firstIdx_startsAt_taken {mm' : GuestMemoryManager} (hi : i < mm'.blkCount)
    (hBefore : ∀ k < i, mm'.blkList k = mm.blkList k)
    (hStart : (mm'.blkList i).startAddr = (mm.blkList i).startAddr)
    (hTaken : (mm'.blkList i).isAllocated = true) :
    firstIdx mm'.blkCount (startsAt mm' addr) = some i ↔
      addr = (mm.blkList i).startAddr ∧ firstIdx i (startsAt mm addr) = none := by
  rw [firstIdx_eq_some, firstIdx_eq_none]
  have hSame : ∀ k < i, startsAt mm' addr k = startsAt mm addr k := by
    intro k hk
    simp only [startsAt, hBefore k hk]
  constructor
  · rintro ⟨_, hHit, hFirst⟩
    simp only [startsAt, Bool.and_eq_true, decide_eq_true_eq, hStart] at hHit
    exact ⟨hHit.1.symm, fun k hk => (hSame k hk).symm.trans (hFirst k hk)⟩
  · rintro ⟨hAddr, hNone⟩
    refine ⟨hi, ?_, fun k hk => (hSame k hk).trans (hNone k hk)⟩
    simp [startsAt, hStart, hTaken, hAddr]

/-! ### A block of exactly the size -/

theorem clearBlk_takeBlk_blk (hSize : (mm.blkList i).size = size)
    (hFree : (mm.blkList i).isAllocated = false) (k : Nat) :
    (clearBlk (takeBlk mm osType size i) i).blkList k =
      if k = i then { mm.blkList i with osType := osType } else mm.blkList k := by
  simp only [clearBlk, takeBlk, set_same, set_set, set_apply]
  split
  case isTrue => rw [← hSize, ← hFree]
  case isFalse => rfl

/-- If the list is the same, the block that was freed is the one that was taken. -/
theorem firstIdx_of_sameBlocks_exact (hi : i < mm.blkCount)
    (hFree : (mm.blkList i).isAllocated = false)
    (hSame : SameBlocks mm (freeGuestMemoryPart (takeBlk mm osType size i) addr)) :
    firstIdx (takeBlk mm osType size i).blkCount (startsAt (takeBlk mm osType size i) addr) =
      some i := by
  have hTaken : ((takeBlk mm osType size i).blkList i).isAllocated = true := by
    rw [takeBlk_isAllocated, if_pos rfl]
  have hFlag := hSame.alloc i hi
  rw [hFree] at hFlag
  have hCount : (freeGuestMemoryPart (takeBlk mm osType size i) addr).blkCount =
      (takeBlk mm osType size i).blkCount := hSame.count
  rcases free_of_count hCount (Nat.lt_of_le_of_lt (Nat.zero_le i) hi) with
    ⟨_, hEq⟩ | ⟨j, hFound, hEq⟩
  · rw [hEq, hTaken] at hFlag
    simp at hFlag
  · have hij : i = j := by
      by_contra hNe
      rw [hEq, clearBlk_isAllocated_ne hNe, hTaken] at hFlag
      simp at hFlag
    rw [hFound, hij]

theorem sameList_free_exact (hReg : Regular mm) (hi : i < mm.blkCount)
    (hFree : (mm.blkList i).isAllocated = false) (hSize : (mm.blkList i).size = size) :
    SameList mm (freeGuestMemoryPart (takeBlk mm osType size i) addr) ↔
      firstIdx (takeBlk mm osType size i).blkCount (startsAt (takeBlk mm osType size i) addr) =
        some i := by
  constructor
  · exact fun hSame => firstIdx_of_sameBlocks_exact hi hFree hSame.blocks
  · intro hFound
    have hSame : SameList mm (clearBlk (takeBlk mm osType size i) i) :=
      sameList_of_blk rfl rfl rfl hFree fun k _ => clearBlk_takeBlk_blk hSize hFree k
    have hEq : freeGuestMemoryPart (takeBlk mm osType size i) addr =
        clearBlk (takeBlk mm osType size i) i := by
      simp only [freeGuestMemoryPart, hFound]
      rw [mergeNext_of_sameBlocks hReg hSame.blocks hFree,
        mergePrev_of_sameBlocks hReg hSame.blocks hi hFree]
    rw [hEq]
    exact hSame

/-! ### A block that is split -/

/-- If one merge brings the number of blocks back and the list is the same, the block that
was freed is the one that was taken. -/
theorem firstIdx_of_sameBlocks_split (hi : i < mm.blkCount)
    (hFree : (mm.blkList i).isAllocated = false) (hSize : size < (mm.blkList i).size)
    (hFirst : ∀ k < i, fits mm size k = false)
    (hSame : SameBlocks mm (freeGuestMemoryPart (splitBlk mm osType size i) addr)) :
    firstIdx (splitBlk mm osType size i).blkCount
      (startsAt (splitBlk mm osType size i) addr) = some i := by
  have hSelf : ((splitBlk mm osType size i).blkList i).isAllocated = true := by
    rw [splitBlk_blk_self]
  have hCount : (splitBlk mm osType size i).blkCount = mm.blkCount + 1 := rfl
  have hOut := free_outcome (splitBlk mm osType size i) addr
  have hFlag := hSame.alloc i hi
  rw [hFree] at hFlag
  generalize hRes : freeGuestMemoryPart (splitBlk mm osType size i) addr = res at hOut hSame hFlag
  cases hOut with
  | nothing | alone =>
    have hMore : mm.blkCount + 1 = mm.blkCount := hSame.count
    omega
  | both j =>
    have hLess : mm.blkCount + 1 - 1 - 1 = mm.blkCount := hSame.count
    omega
  | next j hFound hNext =>
    obtain ⟨hj, hHit, _⟩ := firstIdx_eq_some.mp hFound
    simp only [startsAt, Bool.and_eq_true] at hHit
    rcases Nat.lt_trichotomy j i with hlt | rfl | hgt
    · -- the freed block was allocated before, in the same slot
      have hSlot := hSame.alloc j (by omega)
      rw [coalesce_blk_self] at hSlot
      rw [splitBlk_blk_lt hlt] at hHit
      simp [clearBlk_isAllocated_self, hHit.2] at hSlot
    · exact hFound
    · rw [coalesce_blk_lt hgt, clearBlk_isAllocated_ne (by omega), hSelf] at hFlag
      simp at hFlag
  | prev j hFound hFreeJ =>
    rcases Nat.lt_trichotomy (j + 1) i with hlt | hEq | hgt
    · -- the remainder is in slot `i`, so the part has no size, and slot `j` was free for it
      have hRest := hSame.size i hi
      rw [coalesce_blk_gt (by omega) (show i < mm.blkCount + 1 - 1 by omega),
        (clearBlk_blk _ _ _).2.1, (splitBlk_blk_rest mm osType size i).2.1] at hRest
      have hZero : size = 0 := by omega
      rw [splitBlk_blk_lt (by omega)] at hFreeJ
      have hFits := hFirst j (by omega)
      simp [fits, hFreeJ, hZero] at hFits
    · rw [hFound, hEq]
    · rcases Nat.lt_or_eq_of_le (Nat.le_of_lt_succ hgt) with hlt | rfl
      · rw [coalesce_blk_lt hlt, clearBlk_isAllocated_ne (by omega), hSelf] at hFlag
        simp at hFlag
      · simp [hSelf] at hFreeJ

theorem sameList_free_split (hReg : Regular mm) (hi : i < mm.blkCount)
    (hFree : (mm.blkList i).isAllocated = false) (hSize : size < (mm.blkList i).size)
    (hFirst : ∀ k < i, fits mm size k = false) :
    SameList mm (freeGuestMemoryPart (splitBlk mm osType size i) addr) ↔
      firstIdx (splitBlk mm osType size i).blkCount
        (startsAt (splitBlk mm osType size i) addr) = some i := by
  constructor
  · intro hSame
    exact firstIdx_of_sameBlocks_split hi hFree hSize hFirst hSame.blocks
  · intro hFound
    obtain ⟨hMerge, hBlk⟩ :=
      mergeNext_splitBlk hReg.ordered osType hi (Nat.le_of_lt hSize) hFree
    have hSame : SameList mm (mergeNext (clearBlk (splitBlk mm osType size i) i) i) :=
      sameList_of_blk (by rw [hMerge]; rfl) (by rw [hMerge]; rfl) (by rw [hMerge]; rfl) hFree hBlk
    have hEq : freeGuestMemoryPart (splitBlk mm osType size i) addr =
        mergeNext (clearBlk (splitBlk mm osType size i) i) i := by
      simp only [freeGuestMemoryPart, hFound]
      exact mergePrev_of_sameBlocks hReg hSame.blocks hi hFree
    rw [hEq]
    exact hSame

/-! ### The other cases -/

/-- Where nothing was taken, nothing may be freed. -/
theorem sameList_free (hPos : 0 < mm.blkCount) :
    SameList mm (freeGuestMemoryPart mm addr) ↔
      firstIdx mm.blkCount (startsAt mm addr) = none := by
  constructor
  · intro hSame
    rcases free_of_count hSame.blocks.count hPos with ⟨hNone, _⟩ | ⟨j, hFound, hEq⟩
    · exact hNone
    · obtain ⟨hj, hHit, _⟩ := firstIdx_eq_some.mp hFound
      have hFlag := hSame.blocks.alloc j hj
      rw [hEq, clearBlk_isAllocated_self] at hFlag
      simp [startsAt, ← hFlag] at hHit
  · intro hNone
    simp only [freeGuestMemoryPart, hNone]
    exact SameList.refl mm

/-- A block that was reduced because the array is full stays reduced. -/
theorem not_sameList_full (hi : i < mm.blkCount) (hSize : size < (mm.blkList i).size) :
    ¬ SameList mm (freeGuestMemoryPart (takeBlk mm osType size i) addr) := by
  intro hSame
  have hKept := hSame.blocks.size i hi
  have hReduced : ((takeBlk mm osType size i).blkList i).size = size := by
    rw [takeBlk_size, if_pos rfl]
  have hCount : (freeGuestMemoryPart (takeBlk mm osType size i) addr).blkCount =
      (takeBlk mm osType size i).blkCount := hSame.blocks.count
  rcases free_of_count hCount (Nat.lt_of_le_of_lt (Nat.zero_le i) hi) with
    ⟨_, hEq⟩ | ⟨j, _, hEq⟩
  · rw [hEq, hReduced] at hKept
    omega
  · rw [hEq, (clearBlk_blk _ j i).2.1, hReduced] at hKept
    omega

/-- The block that is freed is the one that was taken. -/
theorem firstIdx_startsAt_take (osType size addr : Nat) (hi : i < mm.blkCount) :
    (firstIdx (takeBlk mm osType size i).blkCount (startsAt (takeBlk mm osType size i) addr) =
        some i ↔ addr = (mm.blkList i).startAddr ∧ firstIdx i (startsAt mm addr) = none) ∧
      (firstIdx (splitBlk mm osType size i).blkCount (startsAt (splitBlk mm osType size i) addr) =
        some i ↔ addr = (mm.blkList i).startAddr ∧ firstIdx i (startsAt mm addr) = none) := by
  constructor
  · exact firstIdx_startsAt_taken (show i < (takeBlk mm osType size i).blkCount from hi)
      (fun k hk => set_ne _ _ (by omega)) (takeBlk_start i) (by rw [takeBlk_isAllocated, if_pos rfl])
  · exact firstIdx_startsAt_taken
      (show i < (splitBlk mm osType size i).blkCount from Nat.lt_succ_of_lt hi)
      (fun k hk => splitBlk_blk_lt hk) (by rw [splitBlk_blk_self]) (by rw [splitBlk_blk_self])

/--
**Undoing an allocation**: after an allocation, freeing its block, or `stale` if the
allocation returned 0, brings the block list back exactly if `undoable` says so.
-/
theorem undo_iff (hReg : Regular mm) (osType size stale : Nat) :
    SameList mm (freeGuestMemoryPart (allocateGuestMemoryPart mm osType size).1
        (if (allocateGuestMemoryPart mm osType size).2 = 0 then stale
          else (allocateGuestMemoryPart mm osType size).2)) ↔
      undoable mm size stale = true := by
  have hPos := hReg.ordered.count_pos
  unfold allocateGuestMemoryPart undoable
  cases hFit : firstIdx mm.blkCount (fits mm size) with
  | none =>
    simp only [if_pos, Option.isNone_iff_eq_none]
    exact sameList_free hPos
  | some i =>
    obtain ⟨hi, hTest, hFirst⟩ := firstIdx_eq_some.mp hFit
    simp only [fits, Bool.and_eq_true, Bool.not_eq_true', decide_eq_true_eq] at hTest
    -- the address that is freed is that of the block
    have hAddr : ∀ a : Nat,
        ((if a = 0 then stale else a) = a ∧ firstIdx i (startsAt mm (if a = 0 then stale else a)) = none) ↔
          ((a ≠ 0 ∨ stale = 0) ∧ firstIdx i (startsAt mm a) = none) := by
      intro a
      by_cases ha : a = 0
      · subst ha
        constructor
        · rintro ⟨hEq, hNone⟩
          rw [if_pos rfl] at hEq hNone
          exact ⟨.inr hEq, hEq ▸ hNone⟩
        · rintro ⟨hNe | hEq, hNone⟩
          · exact absurd rfl hNe
          · rw [if_pos rfl, hEq]
            exact ⟨rfl, hNone⟩
      · simp [ha]
    by_cases hLt : size < (mm.blkList i).size
    · by_cases hFull : blkListLen ≤ mm.blkCount
      · simp only [hLt, hFull, if_true, decide_true, Bool.and_self, Bool.not_true,
          Bool.false_and, Bool.false_eq_true, iff_false]
        exact not_sameList_full hi hLt
      · simp only [hLt, hFull, if_true, if_false, decide_true, decide_false, Bool.and_false,
          Bool.not_false, Bool.true_and, Bool.and_eq_true, Bool.or_eq_true, decide_eq_true_eq,
          Option.isNone_iff_eq_none]
        rw [← hAddr, ← (firstIdx_startsAt_take _ _ _ hi).2]
        exact sameList_free_split hReg hi hTest.1 hLt hFirst
    · simp only [hLt, if_false, decide_false, Bool.false_and, Bool.not_false, Bool.true_and,
        Bool.and_eq_true, Bool.or_eq_true, decide_eq_true_eq, Option.isNone_iff_eq_none]
      rw [← hAddr, ← (firstIdx_startsAt_take _ _ _ hi).1]
      exact sameList_free_exact hReg hi hTest.1 (by omega)

end Undo

end Zvm.Os.GuestMemory
