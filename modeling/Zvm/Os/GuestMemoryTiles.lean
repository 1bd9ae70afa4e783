import Zvm.Os.GuestMemoryUndo

/-!
# The blocks tile the region

As long as no allocation fails for lack of a slot, the blocks cover the region without a gap: each
ends where the next one starts and the last one where the region ends (`Tiled`).  With `Regular` no
two neighbours are free, so a list without an allocated block is the one it was at first.

An allocation that fails for lack of a slot leaves its block taken and reduced.  And one that gets
the block at address 0 returns 0 as if it had failed.
-/

namespace Zvm.Os.GuestMemory

open Zvm.Verified.FunArray Zvm.Verified.Run

/-- Where the block in slot `k` starts, or where the region ends if there is none. -/
def bound (mm : GuestMemoryManager) (k : Nat) : Nat :=
  if k < mm.blkCount then off mm k else mm.totalMemory

structure Tiled (mm : GuestMemoryManager) : Prop where
  first : off mm 0 = 0
  pos : ∀ k < mm.blkCount, 0 < (mm.blkList k).size
  next : ∀ k < mm.blkCount, off mm k + (mm.blkList k).size = bound mm (k + 1)

variable {baseAddr totalMem : Nat} {mm : GuestMemoryManager}

theorem tiled_init (hBase : baseAddr < 2 ^ 64) (hTotal : 0 < totalMem) :
    Tiled (guestMemoryManagerInit baseAddr totalMem) := by
  have hFirst : off (guestMemoryManagerInit baseAddr totalMem) 0 = 0 := by
    simp only [off, guestMemoryManagerInit, set_same]
    omega
  refine ⟨hFirst, fun k hk => ?_, fun k hk => ?_⟩ <;>
    obtain rfl : k = 0 := by simpa [guestMemoryManagerInit] using hk
  · simpa [guestMemoryManagerInit] using hTotal
  · rw [hFirst]
    simp [bound, guestMemoryManagerInit]

section Steps

variable {mm : GuestMemoryManager} {lo index osType size i : Nat}

/-- Only the starts and the sizes matter. -/
theorem Tiled.congr {mm' : GuestMemoryManager} (hT : Tiled mm)
    (hCount : mm'.blkCount = mm.blkCount) (hTotal : mm'.totalMemory = mm.totalMemory)
    (hOff : ∀ k, off mm' k = off mm k)
    (hSize : ∀ k < mm.blkCount, (mm'.blkList k).size = (mm.blkList k).size) : Tiled mm' := by
  refine ⟨hOff 0 ▸ hT.first, fun k hk => ?_, fun k hk => ?_⟩ <;> rw [hCount] at hk
  · rw [hSize k hk]
    exact hT.pos k hk
  · rw [hOff, hSize k hk, hT.next k hk, bound, bound, hCount, hTotal, hOff]

theorem Tiled.takeBlk (hT : Tiled mm) (hSize : (mm.blkList i).size = size) :
    Tiled (takeBlk mm osType size i) := by
  refine hT.congr rfl rfl takeBlk_off fun k _ => ?_
  rw [takeBlk_size]
  split
  · next hk => rw [hk, hSize]
  · rfl

theorem Tiled.clearBlk (hT : Tiled mm) (index : Nat) : Tiled (clearBlk mm index) :=
  hT.congr rfl rfl clearBlk_off fun k _ => (clearBlk_blk mm index k).2.1

theorem coalesce_bound (hlo : lo < i) : bound (coalesce mm lo) i = bound mm (i + 1) := by
  have hCount : (coalesce mm lo).blkCount = mm.blkCount - 1 := rfl
  unfold bound
  by_cases hi : i < mm.blkCount - 1
  · rw [if_pos (hCount ▸ hi), if_pos (by omega), coalesce_off_gt hlo hi]
  · rw [if_neg (hCount ▸ hi), if_neg (by omega)]
    rfl

theorem Tiled.coalesce (hT : Tiled mm) (hO : Ordered mm) (hlo : lo + 1 < mm.blkCount)
    (hAdj : adjacent mm lo = true) : Tiled (coalesce mm lo) := by
  have hCount : (GuestMemory.coalesce mm lo).blkCount = mm.blkCount - 1 := rfl
  have hSize := coalesce_size hO hlo hAdj
  have hTouch := (hO.adjacent_iff hlo).mp hAdj
  refine ⟨(coalesce_off_le (Nat.zero_le lo)).trans hT.first, fun k hk => ?_, fun k hk => ?_⟩ <;>
    rcases Nat.lt_trichotomy k lo with hlt | rfl | hgt
  · rw [coalesce_blk_lt hlt]
    exact hT.pos k (by omega)
  · rw [hSize]
    exact Nat.add_pos_left (hT.pos k (by omega)) _
  · rw [coalesce_blk_gt hgt (by omega)]
    exact hT.pos (k + 1) (by omega)
  · rw [coalesce_off_le (by omega), coalesce_blk_lt hlt, hT.next k (by omega), bound, bound,
      if_pos (by omega), if_pos (by omega), coalesce_off_le hlt]
  · have hNext := hT.next (k + 1) hlo
    rw [coalesce_off_le (Nat.le_refl k), hSize, coalesce_bound (show k < k + 1 by omega)]
    omega
  · rw [coalesce_off_gt hgt (by omega), coalesce_blk_gt hgt (by omega),
      coalesce_bound (by omega)]
    exact hT.next (k + 1) (by omega)

theorem Tiled.free (hT : Tiled mm) (hO : Ordered mm) (addr : Nat) :
    Tiled (freeGuestMemoryPart mm addr) := by
  unfold freeGuestMemoryPart
  split
  case h_1 => exact hT
  case h_2 index hFound =>
    have hi : index < (GuestMemory.clearBlk mm index).blkCount := (firstIdx_eq_some.mp hFound).1
    have hOrd := (within_clearBlk mm index).ordered hO
    have hNext : Tiled (mergeNext (GuestMemory.clearBlk mm index) index) := by
      unfold mergeNext
      split
      case isTrue hTest =>
        simp only [Bool.and_eq_true, decide_eq_true_eq] at hTest
        exact (hT.clearBlk index).coalesce hOrd (by omega) hTest.2
      case isFalse => exact hT.clearBlk index
    have hSlot := (mergeNext_slot hi).1
    generalize hMerged : mergeNext (GuestMemory.clearBlk mm index) index = merged at hNext hSlot
    have hMergedOrd : Ordered merged := hMerged ▸ ordered_mergeNext hOrd
    unfold mergePrev
    split
    · exact hNext
    · split
      case isTrue hTest =>
        simp only [Bool.and_eq_true] at hTest
        exact hNext.coalesce hMergedOrd hSlot hTest.2
      case isFalse => exact hNext

theorem splitBlk_bound {k : Nat} (hi : i < k) :
    bound (splitBlk mm osType size i) (k + 1) = bound mm k := by
  have hCount : (splitBlk mm osType size i).blkCount = mm.blkCount + 1 := rfl
  unfold bound
  by_cases hk : k < mm.blkCount
  · rw [if_pos (by omega), if_pos hk, splitBlk_off_gt hi hk]
  · rw [if_neg (by omega), if_neg hk]
    rfl

theorem Tiled.splitBlk (hT : Tiled mm) (hO : Ordered mm) (hi : i < mm.blkCount) (hPos : 0 < size)
    (hSize : size < (mm.blkList i).size) : Tiled (splitBlk mm osType size i) := by
  have hCount : (GuestMemory.splitBlk mm osType size i).blkCount = mm.blkCount + 1 := rfl
  have hRest := splitBlk_off_rest hO osType hi (Nat.le_of_lt hSize)
  have hRestSize := (splitBlk_blk_rest mm osType size i).2.1
  refine ⟨(splitBlk_off_le (Nat.zero_le i)).trans hT.first, fun k hk => ?_, fun k hk => ?_⟩ <;>
    rcases splitBlk_slots i hk with hlt | rfl | rfl | ⟨j, rfl, hgt, hj⟩
  · rw [splitBlk_blk_lt hlt]
    exact hT.pos k (by omega)
  · rw [splitBlk_blk_self]
    exact hPos
  · omega
  · rw [splitBlk_blk_gt hgt hj]
    exact hT.pos j hj
  · rw [splitBlk_off_le (by omega), splitBlk_blk_lt hlt, hT.next k (by omega), bound, bound,
      if_pos (by omega), if_pos (by omega), splitBlk_off_le hlt]
  · rw [splitBlk_off_le (Nat.le_refl k), splitBlk_blk_self, bound, if_pos (by omega), hRest]
  · have hNext := hT.next i hi
    rw [splitBlk_bound (show i < i + 1 by omega), hRest, hRestSize]
    omega
  · rw [splitBlk_off_gt hgt hj, splitBlk_blk_gt hgt hj, splitBlk_bound (by omega)]
    exact hT.next j hj

end Steps

/-! ## Runs -/

/-- The first block that fits has to be split and there is no slot for the remainder. -/
def lacksSlot (mm : GuestMemoryManager) (size : Nat) : Bool :=
  match firstIdx mm.blkCount (fits mm size) with
  | none => false
  | some i => decide (size < (mm.blkList i).size) && decide (blkListLen ≤ mm.blkCount)

/-- An allocation asks for something and does not fail for lack of a slot. -/
def HasSlot (mm : GuestMemoryManager) : MemCall → Prop
  | .allocate _ size => 0 < size ∧ lacksSlot mm size = false
  | .free _ => True

instance (mm : GuestMemoryManager) : ∀ call, Decidable (HasSlot mm call)
  | .allocate _ _ => inferInstanceAs (Decidable (_ ∧ _))
  | .free _ => .isTrue trivial

/-- The invariant of a run from `guest_memory_manager_init`. -/
structure Whole (baseAddr totalMem : Nat) (mm : GuestMemoryManager) : Prop where
  base : mm.baseAddr = baseAddr
  total : mm.totalMemory = totalMem
  regular : Regular mm
  tiled : Tiled mm

theorem free_region (mm : GuestMemoryManager) (addr : Nat) :
    (freeGuestMemoryPart mm addr).baseAddr = mm.baseAddr ∧
      (freeGuestMemoryPart mm addr).totalMemory = mm.totalMemory := by
  have hNext : ∀ m index, (mergeNext m index).baseAddr = m.baseAddr ∧
      (mergeNext m index).totalMemory = m.totalMemory := by
    intro m index
    unfold mergeNext
    split <;> exact ⟨rfl, rfl⟩
  have hPrev : ∀ m index, (mergePrev m index).baseAddr = m.baseAddr ∧
      (mergePrev m index).totalMemory = m.totalMemory := by
    intro m index
    unfold mergePrev
    split
    · exact ⟨rfl, rfl⟩
    · split <;> exact ⟨rfl, rfl⟩
  unfold freeGuestMemoryPart
  split
  · exact ⟨rfl, rfl⟩
  · rw [(hPrev _ _).1, (hPrev _ _).2]
    exact hNext (clearBlk mm _) _

theorem Whole.step (mm : GuestMemoryManager) (call : MemCall) (h : Whole baseAddr totalMem mm)
    (hCall : HasSlot mm call) : Whole baseAddr totalMem (memStep mm call) := by
  cases call with
  | free addr =>
    obtain ⟨hBase, hTotal⟩ := free_region mm addr
    exact ⟨hBase.trans h.base, hTotal.trans h.total, h.regular.free addr,
      h.tiled.free h.regular.ordered addr⟩
  | allocate osType size =>
    obtain ⟨hPos, hSlot⟩ := hCall
    have hReg := h.regular.allocate osType size
    unfold lacksSlot at hSlot
    simp only [memStep, allocateGuestMemoryPart] at hReg ⊢
    cases hFit : firstIdx mm.blkCount (fits mm size) with
    | none => exact h
    | some i =>
      obtain ⟨hi, hTest, -⟩ := firstIdx_eq_some.mp hFit
      simp only [fits, Bool.and_eq_true, decide_eq_true_eq] at hTest
      simp only [hFit] at hSlot hReg ⊢
      by_cases hLt : size < (mm.blkList i).size
      · have hCount : ¬ blkListLen ≤ mm.blkCount := by simpa [hLt] using hSlot
        simp only [hLt, hCount, if_true, if_false] at hReg ⊢
        exact ⟨h.base, h.total, hReg, h.tiled.splitBlk h.regular.ordered hi hPos hLt⟩
      · simp only [hLt, if_false] at hReg ⊢
        exact ⟨h.base, h.total, hReg, h.tiled.takeBlk (by omega)⟩

/-- What the block list looks like. -/
structure TilesRegion (mm : GuestMemoryManager) (baseAddr totalMem : Nat) : Prop where
  count : 1 ≤ mm.blkCount ∧ mm.blkCount ≤ 16
  nonempty : ∀ i < mm.blkCount, 0 < (mm.blkList i).size
  first : (mm.blkList 0).startAddr = baseAddr
  next : ∀ i, i + 1 < mm.blkCount →
    (mm.blkList (i + 1)).startAddr = (mm.blkList i).startAddr + (mm.blkList i).size
  last : (mm.blkList (mm.blkCount - 1)).startAddr + (mm.blkList (mm.blkCount - 1)).size =
    baseAddr + totalMem
  apart : ∀ i, i + 1 < mm.blkCount → (mm.blkList i).isAllocated = false →
    (mm.blkList (i + 1)).isAllocated = true

theorem Whole.tiles (h : Whole baseAddr totalMem mm) (hEnd : baseAddr + totalMem < 2 ^ 64) :
    TilesRegion mm baseAddr totalMem := by
  have hO := h.regular.ordered
  have hPos := hO.count_pos
  have hStart : ∀ i < mm.blkCount, (mm.blkList i).startAddr = baseAddr + off mm i := by
    intro i hi
    have hInside := hO.inside i hi
    have hLt := hO.start_lt i hi
    rw [h.total] at hInside
    simp only [off, h.base] at hInside ⊢
    omega
  have hNext : ∀ i, i + 1 < mm.blkCount →
      off mm i + (mm.blkList i).size = off mm (i + 1) := by
    intro i hi
    rw [h.tiled.next i (by omega), bound, if_pos hi]
  refine ⟨⟨hPos, hO.count_le⟩, h.tiled.pos, ?_, fun i hi => ?_, ?_, fun i hi hFree => ?_⟩
  · rw [hStart 0 hPos, h.tiled.first, Nat.add_zero]
  · rw [hStart i (by omega), hStart (i + 1) hi, ← hNext i hi, Nat.add_assoc]
  · rw [hStart _ (by omega), Nat.add_assoc, h.tiled.next _ (by omega), bound, if_neg (by omega),
      h.total]
  · by_contra hNot
    exact h.regular.apart i hi hFree (by simpa using hNot) (hNext i hi)

/-- After any calls that did not fail for lack of a slot the blocks tile the region, with no two
free neighbours; and if none is allocated, the list is the one it was at first. -/
theorem blocks_tile_region (baseAddr totalMem : Nat) (hTotal : 0 < totalMem)
    (hEnd : baseAddr + totalMem < 2 ^ 64) (calls : List MemCall)
    (hCalls : Admissible memStep HasSlot (guestMemoryManagerInit baseAddr totalMem) calls) :
    let mm := exec memStep (guestMemoryManagerInit baseAddr totalMem) calls
    TilesRegion mm baseAddr totalMem ∧
      ((∀ i < mm.blkCount, (mm.blkList i).isAllocated = false) →
        mm.blkCount = 1 ∧ (mm.blkList 0).startAddr = baseAddr ∧
          (mm.blkList 0).size = totalMem) := by
  intro mm
  have hInit : Whole baseAddr totalMem (guestMemoryManagerInit baseAddr totalMem) :=
    ⟨rfl, rfl, regular_init (by omega) (by omega), tiled_init (by omega) hTotal⟩
  have hTiles : TilesRegion mm baseAddr totalMem :=
    (exec_invariant Whole.step calls _ hInit hCalls).tiles hEnd
  refine ⟨hTiles, fun hFree => ?_⟩
  have hOne : mm.blkCount = 1 := by
    by_contra hMore
    have hTwo : 0 + 1 < mm.blkCount := by
      have := hTiles.count.1
      omega
    have hSecond := hTiles.apart 0 hTwo (hFree 0 (by omega))
    rw [hFree (0 + 1) hTwo] at hSecond
    cases hSecond
  have hLast := hTiles.last
  have hFirst := hTiles.first
  rw [hOne, Nat.sub_self] at hLast
  exact ⟨hOne, hFirst, by omega⟩

/-- Three parts, of which the middle one is freed last. -/
theorem blocks_tile_region_three :
    let calls := [.allocate 1 16, .allocate 2 8, .allocate 1 4, .free 4096, .free 4120, .free 4112]
    let mm := exec memStep (guestMemoryManagerInit 4096 64) calls
    mm.blkCount = 1 ∧ (mm.blkList 0).startAddr = 4096 ∧ (mm.blkList 0).size = 64 :=
  (blocks_tile_region 4096 64 (by decide) (by decide) _ (by decide)).2 (by decide)

/-! ## Failed allocations -/

/-- The blocks in use are the same, owners included. -/
def Unchanged (mm mm' : GuestMemoryManager) : Prop :=
  mm'.blkCount = mm.blkCount ∧ ∀ k < mm.blkCount, mm'.blkList k = mm.blkList k

/-- No block fits; or the first that does is not at address 0 and can be taken or split. -/
def failsCleanly (mm : GuestMemoryManager) (size : Nat) : Bool :=
  match firstIdx mm.blkCount (fits mm size) with
  | none => true
  | some i => decide ((mm.blkList i).startAddr ≠ 0) && !lacksSlot mm size

theorem not_unchanged_takeBlk {osType size i : Nat} (hi : i < mm.blkCount)
    (hFree : (mm.blkList i).isAllocated = false) : ¬ Unchanged mm (takeBlk mm osType size i) := by
  intro hSame
  have hFlag : ((takeBlk mm osType size i).blkList i).isAllocated = true := by
    rw [takeBlk_isAllocated, if_pos rfl]
  rw [hSame.2 i hi, hFree] at hFlag
  cases hFlag

/-- In any state, an allocation that returns 0 leaves the list as it was if and only if
`failsCleanly`. -/
theorem failed_allocation_unchanged_iff (mm : GuestMemoryManager) (osType size : Nat) :
    ((allocateGuestMemoryPart mm osType size).2 = 0 →
        Unchanged mm (allocateGuestMemoryPart mm osType size).1) ↔
      failsCleanly mm size = true := by
  unfold failsCleanly lacksSlot allocateGuestMemoryPart
  cases hFit : firstIdx mm.blkCount (fits mm size) with
  | none => exact iff_of_true (fun _ => ⟨rfl, fun _ _ => rfl⟩) rfl
  | some i =>
    obtain ⟨hi, hTest, -⟩ := firstIdx_eq_some.mp hFit
    simp only [fits, Bool.and_eq_true, Bool.not_eq_true'] at hTest
    have hTaken : ¬ Unchanged mm (takeBlk mm osType size i) := not_unchanged_takeBlk hi hTest.1
    by_cases hLt : size < (mm.blkList i).size
    · by_cases hFull : blkListLen ≤ mm.blkCount
      · simp [hLt, hFull, hTaken]
      · have hSplit : ∀ start rest,
            ¬ Unchanged mm (insertRest (takeBlk mm osType size i) i start rest) :=
          fun _ _ hSame => by simpa [insertRest, takeBlk] using hSame.1
        simp [hLt, hFull, hSplit]
    · simp [hLt, hTaken]

/-- Fifteen parts of a page use fifteen slots and the free rest the last one.  The next allocation
returns 0, and the rest is a part of one page that is allocated. -/
theorem full_list_takes_block :
    let mm := exec memStep (guestMemoryManagerInit 4096 (4096 * 64))
      (List.replicate 15 (.allocate 1 4096))
    let res := allocateGuestMemoryPart mm 2 4096
    mm.blkCount = 16 ∧ mm.blkList 15 = ⟨4096 * 16, 4096 * 49, false, 0⟩ ∧
      res.2 = 0 ∧ res.1.blkList 15 = ⟨4096 * 16, 4096, true, 2⟩ ∧ ¬ Unchanged mm res.1 := by
  intro mm res
  have hBefore : mm.blkCount = 16 ∧ mm.blkList 15 = ⟨4096 * 16, 4096 * 49, false, 0⟩ := by
    decide +kernel
  have hAfter : res.2 = 0 ∧ res.1.blkList 15 = ⟨4096 * 16, 4096, true, 2⟩ := by decide +kernel
  refine ⟨hBefore.1, hBefore.2, hAfter.1, hAfter.2, fun hSame => ?_⟩
  have hBlk := hSame.2 15 (by rw [hBefore.1]; decide)
  rw [hBefore.2, hAfter.2] at hBlk
  cases hBlk

/-! ## Allocating and freeing -/

/-- No allocated block before the one that is taken has its start, which an empty one could. -/
def freshStart (mm : GuestMemoryManager) (size : Nat) : Bool :=
  match firstIdx mm.blkCount (fits mm size) with
  | none => true
  | some i => (firstIdx i (startsAt mm (mm.blkList i).startAddr)).isNone

/-- Freeing searches for the address, and finds the block that was taken or one before it. -/
theorem Regular.sameBlocks_iff (hReg : Regular mm) {osType size : Nat}
    (hOk : (allocateGuestMemoryPart mm osType size).2 ≠ 0) :
    SameBlocks mm (freeGuestMemoryPart (allocateGuestMemoryPart mm osType size).1
        (allocateGuestMemoryPart mm osType size).2) ↔ freshStart mm size = true := by
  unfold freshStart
  revert hOk
  unfold allocateGuestMemoryPart
  cases hFit : firstIdx mm.blkCount (fits mm size) with
  | none => exact fun hOk => absurd rfl hOk
  | some i =>
    obtain ⟨hi, hTest, hFirst⟩ := firstIdx_eq_some.mp hFit
    simp only [fits, Bool.and_eq_true, Bool.not_eq_true', decide_eq_true_eq] at hTest
    have hTake := firstIdx_startsAt_take osType size (mm.blkList i).startAddr hi
    simp only [true_and] at hTake
    rw [Option.isNone_iff_eq_none]
    by_cases hLt : size < (mm.blkList i).size
    · by_cases hFull : blkListLen ≤ mm.blkCount
      · simp only [hLt, hFull, if_true]
        exact fun hOk => absurd rfl hOk
      · simp only [hLt, hFull, if_true, if_false]
        rintro -
        rw [← hTake.2]
        exact ⟨firstIdx_of_sameBlocks_split hi hTest.1 hLt hFirst,
          fun hFound => ((sameList_free_split hReg hi hTest.1 hLt hFirst).mpr hFound).blocks⟩
    · simp only [hLt, if_false]
      rintro -
      rw [← hTake.1]
      exact ⟨firstIdx_of_sameBlocks_exact hi hTest.1,
        fun hFound => ((sameList_free_exact hReg hi hTest.1 (by omega)).mpr hFound).blocks⟩

/-- Blocks that are not empty have different starts. -/
theorem Whole.freshStart (h : Whole baseAddr totalMem mm) (size : Nat) :
    freshStart mm size = true := by
  unfold GuestMemory.freshStart
  cases hFit : firstIdx mm.blkCount (fits mm size) with
  | none => rfl
  | some i =>
    obtain ⟨hi, -⟩ := firstIdx_eq_some.mp hFit
    rw [Option.isNone_iff_eq_none, firstIdx_eq_none]
    have hLayout : Layout mm := by
      refine h.regular.ordered.layout fun k hk _ => ?_
      have hNext := h.regular.ordered.next k hk
      have hPos := h.tiled.pos k (by omega)
      omega
    intro k hk
    have hPos := h.tiled.pos k (by omega)
    have hBefore := (hLayout.order hk hi).1
    have hNe : (mm.blkList k).startAddr ≠ (mm.blkList i).startAddr := by
      intro hEq
      have hOff : off mm k = off mm i := by rw [off, off, hEq]
      omega
    simp [startsAt, hNe]

end Zvm.Os.GuestMemory
