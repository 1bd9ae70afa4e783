import Zvm.Os.GuestMemory

/-!
# The layout invariant of the guest memory manager

Seen from the base of the region, the blocks in use are intervals
`[off, off + size)` in increasing order inside `[0, total)`: this is `Layout`.
No 64-bit sum of the manager wraps in terms of offsets, so the test that two
blocks touch is an equality of numbers (`Layout.adjacent_iff`).

Each operation is described by what it does to the set of allocated ranges,
`AllocatedAt`.  Leaking a block (a full array) adds a range nobody owns, which
is harmless here; a zero-sized allocation breaks the strict order of starts
until it is freed again, which is the subject of `free_splitBlk_zero`.
-/

namespace Zvm.Os.GuestMemory

open Zvm.Verified.FunArray

/-- The offset of the block in slot `i` from the base of the region. -/
def off (mm : GuestMemoryManager) (i : Nat) : Nat :=
  ((mm.blkList i).startAddr + (2 ^ 64 - mm.baseAddr)) % 2 ^ 64

/-- The blocks in use follow each other inside of the region; blocks of size 0 may share
their start with the next one. -/
structure Ordered (mm : GuestMemoryManager) : Prop where
  base_lt : mm.baseAddr < 2 ^ 64
  total_lt : mm.totalMemory < 2 ^ 64
  count_pos : 0 < mm.blkCount
  count_le : mm.blkCount ≤ blkListLen
  start_lt : ∀ i < mm.blkCount, (mm.blkList i).startAddr < 2 ^ 64
  inside : ∀ i < mm.blkCount, off mm i + (mm.blkList i).size ≤ mm.totalMemory
  next : ∀ i, i + 1 < mm.blkCount → off mm i + (mm.blkList i).size ≤ off mm (i + 1)

/-- The blocks in use are disjoint intervals of the region, in order. -/
structure Layout (mm : GuestMemoryManager) : Prop where
  base_lt : mm.baseAddr < 2 ^ 64
  total_lt : mm.totalMemory < 2 ^ 64
  count_pos : 0 < mm.blkCount
  count_le : mm.blkCount ≤ blkListLen
  start_lt : ∀ i < mm.blkCount, (mm.blkList i).startAddr < 2 ^ 64
  inside : ∀ i < mm.blkCount, off mm i + (mm.blkList i).size ≤ mm.totalMemory
  next : ∀ i, i + 1 < mm.blkCount → off mm i + (mm.blkList i).size ≤ off mm (i + 1)
  strict : ∀ i, i + 1 < mm.blkCount → (mm.blkList i).startAddr ≠ 0 →
    off mm i < off mm (i + 1)

/-- Some block in use is allocated and covers exactly `[a, a + n)`. -/
def AllocatedAt (mm : GuestMemoryManager) (a n : Nat) : Prop :=
  ∃ i < mm.blkCount, (mm.blkList i).isAllocated = true ∧
    (mm.blkList i).startAddr = a ∧ (mm.blkList i).size = n

variable {mm mm' : GuestMemoryManager} {i j k : Nat}

theorem Layout.ordered (hL : Layout mm) : Ordered mm :=
  ⟨hL.base_lt, hL.total_lt, hL.count_pos, hL.count_le, hL.start_lt, hL.inside, hL.next⟩

theorem Ordered.layout {mm : GuestMemoryManager} (hO : Ordered mm)
    (hStrict : ∀ i, i + 1 < mm.blkCount → (mm.blkList i).startAddr ≠ 0 → off mm i < off mm (i + 1)) :
    Layout mm :=
  ⟨hO.base_lt, hO.total_lt, hO.count_pos, hO.count_le, hO.start_lt, hO.inside, hO.next, hStrict⟩

theorem ordered_init {baseAddr totalMem : Nat} (hBase : baseAddr < 2 ^ 64)
    (hTotal : totalMem < 2 ^ 64) :
    Ordered (guestMemoryManagerInit baseAddr totalMem) where
  base_lt := hBase
  total_lt := hTotal
  count_pos := Nat.one_pos
  count_le := show 1 ≤ 16 by omega
  start_lt := by
    intro i hi
    have hZero : i = 0 := by simpa [guestMemoryManagerInit] using hi
    simpa [guestMemoryManagerInit, hZero] using hBase
  inside := by
    intro i hi
    have hZero : i = 0 := by simpa [guestMemoryManagerInit] using hi
    subst hZero
    simp only [off, guestMemoryManagerInit, set_same]
    omega
  next := by
    intro i hi
    simp [guestMemoryManagerInit] at hi

theorem layout_init {baseAddr totalMem : Nat} (hBase : baseAddr < 2 ^ 64)
    (hTotal : totalMem < 2 ^ 64) : Layout (guestMemoryManagerInit baseAddr totalMem) := by
  refine (ordered_init hBase hTotal).layout ?_
  intro i hi
  simp [guestMemoryManagerInit] at hi

/-- The wrapping comparison of the merge tests is an equality of offsets. -/
theorem Ordered.adjacent_iff (hL : Ordered mm) (hi : i + 1 < mm.blkCount) :
    adjacent mm i = true ↔ off mm i + (mm.blkList i).size = off mm (i + 1) := by
  have hBase := hL.base_lt
  have hTotal := hL.total_lt
  have hInside := hL.inside i (by omega)
  have hStartI := hL.start_lt i (by omega)
  have hStartJ := hL.start_lt (i + 1) hi
  rw [adjacent, decide_eq_true_iff]
  unfold off add64 at *
  omega

/-- The blocks of `mm'` are those of `mm`, and none is larger. -/
structure Within (mm mm' : GuestMemoryManager) : Prop where
  base : mm'.baseAddr = mm.baseAddr
  total : mm'.totalMemory = mm.totalMemory
  count : mm'.blkCount = mm.blkCount
  start : ∀ k < mm.blkCount, (mm'.blkList k).startAddr = (mm.blkList k).startAddr
  size : ∀ k < mm.blkCount, (mm'.blkList k).size ≤ (mm.blkList k).size

theorem Within.off (h : Within mm mm') (hk : k < mm.blkCount) : off mm' k = off mm k := by
  simp only [GuestMemory.off, h.start k hk, h.base]

theorem Within.ordered (h : Within mm mm') (hL : Ordered mm) :
    Ordered mm' where
  base_lt := h.base ▸ hL.base_lt
  total_lt := h.total ▸ hL.total_lt
  count_pos := h.count ▸ hL.count_pos
  count_le := h.count ▸ hL.count_le
  start_lt := by
    intro k hk
    rw [h.count] at hk
    rw [h.start k hk]
    exact hL.start_lt k hk
  inside := by
    intro k hk
    rw [h.count] at hk
    rw [h.off hk, h.total]
    exact Nat.le_trans (Nat.add_le_add_left (h.size k hk) _) (hL.inside k hk)
  next := by
    intro k hk
    rw [h.count] at hk
    rw [h.off (by omega), h.off hk]
    exact Nat.le_trans (Nat.add_le_add_left (h.size k (by omega)) _) (hL.next k hk)

theorem Within.layout (h : Within mm mm') (hL : Layout mm) : Layout mm' := by
  refine (h.ordered hL.ordered).layout fun k hk => ?_
  rw [h.count] at hk
  rw [h.start k (by omega), h.off (by omega), h.off hk]
  exact hL.strict k hk

namespace Layout

variable {mm : GuestMemoryManager}

/-- A later block starts at or behind the end of an earlier one. -/
theorem order (hL : Layout mm) (hij : i < j) (hj : j < mm.blkCount) :
    off mm i + (mm.blkList i).size ≤ off mm j ∧
      ((mm.blkList i).startAddr ≠ 0 → off mm i < off mm j) := by
  induction j with
  | zero => omega
  | succ j ih =>
    have hNext := hL.next j hj
    have hStrict := hL.strict j hj
    rcases Nat.lt_succ_iff_lt_or_eq.mp hij with hlt | heq
    · have hPrev := ih hlt (by omega)
      refine ⟨by omega, fun hStart => ?_⟩
      have := hPrev.2 hStart
      omega
    · subst heq
      exact ⟨hNext, hStrict⟩

theorem off_eq_iff (hL : Layout mm) (hi : i < mm.blkCount) (hj : j < mm.blkCount) :
    (mm.blkList i).startAddr = (mm.blkList j).startAddr ↔ off mm i = off mm j := by
  have hBase := hL.base_lt
  have hStartI := hL.start_lt i hi
  have hStartJ := hL.start_lt j hj
  unfold off
  omega

/-- Two blocks in use never start at the same address, 0 apart. -/
theorem start_injective (hL : Layout mm) (hi : i < mm.blkCount) (hj : j < mm.blkCount)
    (hStart : (mm.blkList i).startAddr ≠ 0)
    (hEq : (mm.blkList i).startAddr = (mm.blkList j).startAddr) : i = j := by
  have hOff := (hL.off_eq_iff hi hj).mp hEq
  rcases Nat.lt_trichotomy i j with hlt | heq | hgt
  · have := (hL.order hlt hj).2 hStart
    omega
  · exact heq
  · have := (hL.order hgt hi).2 (hEq ▸ hStart)
    omega

end Layout

/-! ## Merging two free neighbours -/

section Coalesce

variable {mm : GuestMemoryManager} {lo k : Nat}

theorem coalesce_blk_self :
    (coalesce mm lo).blkList lo =
      { mm.blkList lo with
        size := add64 (mm.blkList lo).size (mm.blkList (lo + 1)).size } := by
  simp [coalesce, shiftDown_apply]

theorem coalesce_blk_lt (hk : k < lo) : (coalesce mm lo).blkList k = mm.blkList k := by
  have hNe : k ≠ lo := by omega
  simp only [coalesce, shiftDown_apply]
  rw [if_neg (by omega), set_ne _ _ hNe]

theorem coalesce_blk_gt (hlo : lo < k) (hk : k < mm.blkCount - 1) :
    (coalesce mm lo).blkList k = mm.blkList (k + 1) := by
  have hNe : k + 1 ≠ lo := by omega
  simp only [coalesce, shiftDown_apply]
  rw [if_pos (by omega), set_ne _ _ hNe]

theorem coalesce_off_le (hk : k ≤ lo) : off (coalesce mm lo) k = off mm k := by
  rcases Nat.lt_or_eq_of_le hk with hlt | rfl
  · simp [off, coalesce_blk_lt hlt, show (coalesce mm lo).baseAddr = mm.baseAddr from rfl]
  · simp [off, coalesce_blk_self, show (coalesce mm k).baseAddr = mm.baseAddr from rfl]

theorem coalesce_off_gt (hlo : lo < k) (hk : k < mm.blkCount - 1) :
    off (coalesce mm lo) k = off mm (k + 1) := by
  simp [off, coalesce_blk_gt hlo hk, show (coalesce mm lo).baseAddr = mm.baseAddr from rfl]

/-- The merged block ends where its second part ended. -/
theorem coalesce_size (hL : Ordered mm) (hlo : lo + 1 < mm.blkCount)
    (hAdj : adjacent mm lo = true) :
    ((coalesce mm lo).blkList lo).size =
      (mm.blkList lo).size + (mm.blkList (lo + 1)).size := by
  have hTouch := (hL.adjacent_iff hlo).mp hAdj
  have hInside := hL.inside (lo + 1) hlo
  have hTotal := hL.total_lt
  rw [coalesce_blk_self]
  exact Nat.mod_eq_of_lt (by omega)

theorem Ordered.coalesce (hL : Ordered mm) (hlo : lo + 1 < mm.blkCount)
    (hAdj : adjacent mm lo = true) : Ordered (coalesce mm lo) := by
  have hTouch := (hL.adjacent_iff hlo).mp hAdj
  have hSize := coalesce_size hL hlo hAdj
  have hCount : (GuestMemory.coalesce mm lo).blkCount = mm.blkCount - 1 := rfl
  refine ⟨hL.base_lt, hL.total_lt, by omega, ?_, ?_, ?_, ?_⟩
  · have := hL.count_le
    omega
  · intro i hi
    rcases Nat.lt_trichotomy i lo with hlt | rfl | hgt
    · rw [coalesce_blk_lt hlt]
      exact hL.start_lt i (by omega)
    · rw [coalesce_blk_self]
      exact hL.start_lt i (by omega)
    · rw [coalesce_blk_gt hgt (by omega)]
      exact hL.start_lt (i + 1) (by omega)
  · intro i hi
    show _ ≤ mm.totalMemory
    rcases Nat.lt_trichotomy i lo with hlt | rfl | hgt
    · rw [coalesce_blk_lt hlt, coalesce_off_le (by omega)]
      exact hL.inside i (by omega)
    · have := hL.inside (i + 1) hlo
      rw [hSize, coalesce_off_le (Nat.le_refl i)]
      omega
    · rw [coalesce_blk_gt hgt (by omega), coalesce_off_gt hgt (by omega)]
      exact hL.inside (i + 1) (by omega)
  · intro i hi
    rcases Nat.lt_trichotomy i lo with hlt | rfl | hgt
    · rw [coalesce_blk_lt hlt, coalesce_off_le (by omega), coalesce_off_le (by omega)]
      exact hL.next i (by omega)
    · have := hL.next (i + 1) (by omega)
      rw [hSize, coalesce_off_le (Nat.le_refl i), coalesce_off_gt (by omega) (by omega)]
      omega
    · rw [coalesce_blk_gt hgt (by omega), coalesce_off_gt hgt (by omega),
        coalesce_off_gt (by omega) (by omega)]
      exact hL.next (i + 1) (by omega)

theorem Layout.coalesce (hL : Layout mm) (hlo : lo + 1 < mm.blkCount)
    (hAdj : adjacent mm lo = true) : Layout (coalesce mm lo) := by
  have hCount : (GuestMemory.coalesce mm lo).blkCount = mm.blkCount - 1 := rfl
  refine (hL.ordered.coalesce hlo hAdj).layout ?_
  intro i hi
  rcases Nat.lt_trichotomy i lo with hlt | rfl | hgt
  · rw [coalesce_blk_lt hlt, coalesce_off_le (by omega), coalesce_off_le (by omega)]
    exact hL.strict i (by omega)
  · rw [coalesce_blk_self, coalesce_off_le (Nat.le_refl i),
      coalesce_off_gt (by omega) (by omega)]
    exact (hL.order (by omega) (by omega)).2
  · rw [coalesce_blk_gt hgt (by omega), coalesce_off_gt hgt (by omega),
      coalesce_off_gt (by omega) (by omega)]
    exact hL.strict (i + 1) (by omega)

/-- Merging two free blocks leaves the allocated ranges alone. -/
theorem coalesce_allocatedAt (hlo : lo + 1 < mm.blkCount)
    (hFree : (mm.blkList lo).isAllocated = false)
    (hFreeNext : (mm.blkList (lo + 1)).isAllocated = false) (a n : Nat) :
    AllocatedAt (coalesce mm lo) a n ↔ AllocatedAt mm a n := by
  have hCount : (coalesce mm lo).blkCount = mm.blkCount - 1 := rfl
  constructor
  · rintro ⟨i, hi, hAlloc, hBlk⟩
    rcases Nat.lt_trichotomy i lo with hlt | rfl | hgt
    · rw [coalesce_blk_lt hlt] at hAlloc hBlk
      exact ⟨i, by omega, hAlloc, hBlk⟩
    · rw [coalesce_blk_self] at hAlloc
      simp [hFree] at hAlloc
    · rw [coalesce_blk_gt hgt (by omega)] at hAlloc hBlk
      exact ⟨i + 1, by omega, hAlloc, hBlk⟩
  · rintro ⟨i, hi, hAlloc, hBlk⟩
    have hNe : i ≠ lo := by
      rintro rfl
      simp [hFree] at hAlloc
    have hNeNext : i ≠ lo + 1 := by
      rintro rfl
      simp [hFreeNext] at hAlloc
    rcases Nat.lt_or_ge i lo with hlt | hge
    · exact ⟨i, by omega, by rwa [coalesce_blk_lt hlt], by rwa [coalesce_blk_lt hlt]⟩
    · obtain ⟨k, rfl⟩ : ∃ k, i = k + 1 := ⟨i - 1, by omega⟩
      have hBack : (coalesce mm lo).blkList k = mm.blkList (k + 1) :=
        coalesce_blk_gt (by omega) (by omega)
      exact ⟨k, by omega, by rwa [hBack], by rwa [hBack]⟩

end Coalesce

/-! ## Freeing -/

section Free

variable {mm : GuestMemoryManager} {index : Nat}

/-- What merging may do: keep the layout, the allocated ranges and the freed slot. -/
structure MergeSpec (mm mm' : GuestMemoryManager) : Prop where
  layout : Layout mm'
  allocatedAt : ∀ a n, AllocatedAt mm' a n ↔ AllocatedAt mm a n

theorem mergeNext_spec (hL : Layout mm) (hi : index < mm.blkCount)
    (hFree : (mm.blkList index).isAllocated = false) :
    MergeSpec mm (mergeNext mm index) ∧ index < (mergeNext mm index).blkCount ∧
      ((mergeNext mm index).blkList index).isAllocated = false := by
  unfold mergeNext
  split
  case isTrue hTest =>
    simp only [Bool.and_eq_true, decide_eq_true_eq, Bool.not_eq_true'] at hTest
    obtain ⟨⟨hlt, hFreeNext⟩, hAdj⟩ := hTest
    have hlo : index + 1 < mm.blkCount := by omega
    refine ⟨⟨hL.coalesce hlo hAdj, coalesce_allocatedAt hlo hFree hFreeNext⟩, ?_, ?_⟩
    · show index < mm.blkCount - 1
      exact hlt
    · rw [coalesce_blk_self]
      exact hFree
  case isFalse => exact ⟨⟨hL, fun _ _ => Iff.rfl⟩, hi, hFree⟩

theorem mergePrev_spec (hL : Layout mm) (hi : index < mm.blkCount)
    (hFree : (mm.blkList index).isAllocated = false) : MergeSpec mm (mergePrev mm index) := by
  unfold mergePrev
  split
  case h_1 => exact ⟨hL, fun _ _ => Iff.rfl⟩
  case h_2 prev =>
    split
    case isTrue hTest =>
      simp only [Bool.and_eq_true, Bool.not_eq_true'] at hTest
      exact ⟨hL.coalesce hi hTest.2, coalesce_allocatedAt hi hTest.1 hFree⟩
    case isFalse => exact ⟨hL, fun _ _ => Iff.rfl⟩

theorem clearBlk_blk (mm : GuestMemoryManager) (index k : Nat) :
    ((clearBlk mm index).blkList k).startAddr = (mm.blkList k).startAddr ∧
      ((clearBlk mm index).blkList k).size = (mm.blkList k).size ∧
      ((clearBlk mm index).blkList k).isAllocated =
        ((mm.blkList k).isAllocated && decide (k ≠ index)) := by
  simp only [clearBlk, set_apply]
  split
  case isTrue hk => simp [hk]
  case isFalse hk => simp [hk]

theorem within_clearBlk (mm : GuestMemoryManager) (index : Nat) : Within mm (clearBlk mm index) :=
  ⟨rfl, rfl, rfl, fun k _ => (clearBlk_blk mm index k).1,
    fun k _ => Nat.le_of_eq (clearBlk_blk mm index k).2.1⟩

theorem clearBlk_off (k : Nat) : off (clearBlk mm index) k = off mm k := by
  simp only [off, (clearBlk_blk mm index k).1]
  rfl

theorem clearBlk_allocatedAt (hL : Layout mm) (hi : index < mm.blkCount) {a : Nat} (ha : a ≠ 0)
    (n : Nat) :
    AllocatedAt (clearBlk mm index) a n ↔
      AllocatedAt mm a n ∧ a ≠ (mm.blkList index).startAddr := by
  constructor
  · rintro ⟨k, hk, hAlloc, hStart, hSize⟩
    have hBlk := clearBlk_blk mm index k
    rw [hBlk.2.2, Bool.and_eq_true, decide_eq_true_eq] at hAlloc
    rw [hBlk.1] at hStart
    rw [hBlk.2.1] at hSize
    refine ⟨⟨k, hk, hAlloc.1, hStart, hSize⟩, ?_⟩
    intro hEq
    exact hAlloc.2 (hL.start_injective hk hi (hStart ▸ ha) (hStart.trans hEq))
  · rintro ⟨⟨k, hk, hAlloc, hStart, hSize⟩, hNe⟩
    have hBlk := clearBlk_blk mm index k
    have hkNe : k ≠ index := by
      rintro rfl
      exact hNe hStart.symm
    refine ⟨k, hk, ?_, by rw [hBlk.1, hStart], by rw [hBlk.2.1, hSize]⟩
    rw [hBlk.2.2, hAlloc]
    simp [hkNe]

/--
**Freeing**: `free_guest_memory_part(addr)` keeps the layout and removes from
the allocated ranges exactly the one that starts at `addr`, if there is one.
(Address 0, which no caller is ever given, may start several blocks.)
-/
theorem free_spec (hL : Layout mm) (addr : Nat) :
    Layout (freeGuestMemoryPart mm addr) ∧
      ∀ a n, a ≠ 0 → (AllocatedAt (freeGuestMemoryPart mm addr) a n ↔
        AllocatedAt mm a n ∧ a ≠ addr) := by
  unfold freeGuestMemoryPart
  split
  case h_1 hNone =>
    rw [firstIdx_eq_none] at hNone
    refine ⟨hL, fun a n _ => ⟨fun hAt => ⟨hAt, ?_⟩, fun hAt => hAt.1⟩⟩
    rintro rfl
    obtain ⟨i, hi, hAlloc, hStart, _⟩ := hAt
    have := hNone i hi
    simp [startsAt, hStart, hAlloc] at this
  case h_2 index hSome =>
    rw [firstIdx_eq_some] at hSome
    obtain ⟨hi, hTest, _⟩ := hSome
    simp only [startsAt, Bool.and_eq_true, decide_eq_true_eq] at hTest
    have hClear : ((clearBlk mm index).blkList index).isAllocated = false := by
      simp [(clearBlk_blk mm index index).2.2]
    obtain ⟨hNext, hIdx, hNextFree⟩ :=
      mergeNext_spec ((within_clearBlk mm index).layout hL) (show index < _ from hi) hClear
    have hPrev := mergePrev_spec hNext.layout hIdx hNextFree
    refine ⟨hPrev.layout, fun a n ha => ?_⟩
    rw [hPrev.allocatedAt, hNext.allocatedAt, clearBlk_allocatedAt hL hi ha, hTest.1]

end Free

/-! ## Allocating -/

section Allocate

variable {mm : GuestMemoryManager} {osType size i : Nat}

/-- The state after a block was split. -/
def splitBlk (mm : GuestMemoryManager) (osType size i : Nat) : GuestMemoryManager :=
  insertRest (takeBlk mm osType size i) i (add64 (mm.blkList i).startAddr size)
    ((mm.blkList i).size - size)

/-- What a call of `allocate_guest_memory_part` can do. -/
inductive AllocOutcome (mm : GuestMemoryManager) (osType size : Nat) :
    GuestMemoryManager × Nat → Prop
  /-- No free block is large enough. -/
  | noFit (hNone : ∀ i < mm.blkCount, fits mm size i = false) :
      AllocOutcome mm osType size (mm, 0)
  /-- The first free block that is large enough has exactly the size. -/
  | exact (i : Nat) (hi : i < mm.blkCount) (hFree : (mm.blkList i).isAllocated = false)
      (hSize : (mm.blkList i).size = size) :
      AllocOutcome mm osType size (takeBlk mm osType size i, (mm.blkList i).startAddr)
  /-- The block has to be split and there is no slot for the remainder. -/
  | full (i : Nat) (hi : i < mm.blkCount) (hFree : (mm.blkList i).isAllocated = false)
      (hSize : size < (mm.blkList i).size) (hCount : blkListLen ≤ mm.blkCount) :
      AllocOutcome mm osType size (takeBlk mm osType size i, 0)
  /-- The block is split. -/
  | split (i : Nat) (hi : i < mm.blkCount) (hFree : (mm.blkList i).isAllocated = false)
      (hSize : size < (mm.blkList i).size) (hCount : mm.blkCount < blkListLen) :
      AllocOutcome mm osType size (splitBlk mm osType size i, (mm.blkList i).startAddr)

theorem allocate_outcome (mm : GuestMemoryManager) (osType size : Nat) :
    AllocOutcome mm osType size (allocateGuestMemoryPart mm osType size) := by
  unfold allocateGuestMemoryPart
  split
  case h_1 hNone =>
    rw [firstIdx_eq_none] at hNone
    exact .noFit hNone
  case h_2 i hSome =>
    rw [firstIdx_eq_some] at hSome
    obtain ⟨hi, hFits, _⟩ := hSome
    simp only [fits, Bool.and_eq_true, Bool.not_eq_true', decide_eq_true_eq] at hFits
    dsimp only
    split
    case isTrue hLt =>
      split
      case isTrue hFull => exact .full i hi hFits.1 hLt hFull
      case isFalse hSlot => exact .split i hi hFits.1 hLt (by omega)
    case isFalse hGe => exact .exact i hi hFits.1 (by omega)

theorem takeBlk_start (k : Nat) :
    ((takeBlk mm osType size i).blkList k).startAddr = (mm.blkList k).startAddr := by
  simp only [takeBlk, set_apply]
  split
  case isTrue hk => simp [hk]
  case isFalse => rfl

theorem takeBlk_off (k : Nat) : off (takeBlk mm osType size i) k = off mm k := by
  simp only [off, takeBlk_start]
  rfl

theorem takeBlk_size (k : Nat) :
    ((takeBlk mm osType size i).blkList k).size =
      if k = i then size else (mm.blkList k).size := by
  simp only [takeBlk, set_apply]
  split <;> rfl

theorem takeBlk_isAllocated (k : Nat) :
    ((takeBlk mm osType size i).blkList k).isAllocated =
      if k = i then true else (mm.blkList k).isAllocated := by
  simp only [takeBlk, set_apply]
  split <;> rfl

theorem takeBlk_size_le (osType : Nat) (hSize : size ≤ (mm.blkList i).size) (k : Nat) :
    ((takeBlk mm osType size i).blkList k).size ≤ (mm.blkList k).size := by
  rw [takeBlk_size]
  split
  case isTrue hk =>
    subst hk
    exact hSize
  case isFalse => exact Nat.le_refl _

theorem within_takeBlk (osType : Nat) (hSize : size ≤ (mm.blkList i).size) :
    Within mm (takeBlk mm osType size i) :=
  ⟨rfl, rfl, rfl, fun k _ => takeBlk_start k, fun k _ => takeBlk_size_le osType hSize k⟩

/-- Taking a free block adds its reduced range to the allocated ones. -/
theorem takeBlk_allocatedAt (hi : i < mm.blkCount) (hFree : (mm.blkList i).isAllocated = false)
    (a n : Nat) :
    AllocatedAt (takeBlk mm osType size i) a n ↔
      AllocatedAt mm a n ∨ (a = (mm.blkList i).startAddr ∧ n = size) := by
  constructor
  · rintro ⟨k, hk, hAlloc, hStart, hSize⟩
    rw [takeBlk_start] at hStart
    rw [takeBlk_size] at hSize
    rw [takeBlk_isAllocated] at hAlloc
    by_cases hki : k = i
    · subst hki
      rw [if_pos rfl] at hSize
      exact .inr ⟨hStart.symm, hSize.symm⟩
    · rw [if_neg hki] at hSize hAlloc
      exact .inl ⟨k, hk, hAlloc, hStart, hSize⟩
  · rintro (⟨k, hk, hAlloc, hStart, hSize⟩ | ⟨rfl, rfl⟩)
    · have hki : k ≠ i := by
        rintro rfl
        simp [hFree] at hAlloc
      refine ⟨k, hk, ?_, by rw [takeBlk_start, hStart], ?_⟩
      · rw [takeBlk_isAllocated, if_neg hki, hAlloc]
      · rw [takeBlk_size, if_neg hki, hSize]
    · refine ⟨i, hi, ?_, takeBlk_start i, ?_⟩
      · rw [takeBlk_isAllocated, if_pos rfl]
      · rw [takeBlk_size, if_pos rfl]

/-- A free block starts where no allocated range starts. -/
theorem Layout.not_allocatedAt_of_free (hL : Layout mm) (hi : i < mm.blkCount)
    (hFree : (mm.blkList i).isAllocated = false) (hNe : (mm.blkList i).startAddr ≠ 0) (n : Nat) :
    ¬ AllocatedAt mm (mm.blkList i).startAddr n := by
  rintro ⟨k, hk, hAlloc, hStart, _⟩
  have hki := hL.start_injective hk hi (hStart ▸ hNe) hStart
  subst hki
  simp [hFree] at hAlloc

end Allocate

/-! ## Inserting the remainder of a split block -/

section InsertRest

variable {mm : GuestMemoryManager} {i k start size : Nat}

theorem insertRest_blk_le (hk : k ≤ i) : (insertRest mm i start size).blkList k = mm.blkList k := by
  have hNe : k ≠ i + 1 := by omega
  simp only [insertRest]
  rw [set_ne _ _ hNe, shiftUp_apply, if_neg (by omega)]

theorem insertRest_blk_self :
    ((insertRest mm i start size).blkList (i + 1)).startAddr = start ∧
      ((insertRest mm i start size).blkList (i + 1)).size = size ∧
      ((insertRest mm i start size).blkList (i + 1)).isAllocated = false := by
  simp [insertRest]

theorem insertRest_blk_gt (hi : i < k) (hk : k < mm.blkCount) :
    (insertRest mm i start size).blkList (k + 1) = mm.blkList k := by
  have hNe : k + 1 ≠ i + 1 := by omega
  simp only [insertRest]
  rw [set_ne _ _ hNe, shiftUp_apply, if_pos (by omega), Nat.add_sub_cancel]

theorem insertRest_off_le (hk : k ≤ i) : off (insertRest mm i start size) k = off mm k := by
  simp only [off, insertRest_blk_le hk]
  rfl

theorem insertRest_off_gt (hi : i < k) (hk : k < mm.blkCount) :
    off (insertRest mm i start size) (k + 1) = off mm k := by
  simp only [off, insertRest_blk_gt hi hk]
  rfl

/-- The allocated ranges do not change when a free remainder is inserted. -/
theorem insertRest_allocatedAt (hi : i < mm.blkCount) (a n : Nat) :
    AllocatedAt (insertRest mm i start size) a n ↔ AllocatedAt mm a n := by
  have hCount : (insertRest mm i start size).blkCount = mm.blkCount + 1 := rfl
  constructor
  · rintro ⟨k, hk, hAlloc, hBlk⟩
    rcases Nat.lt_trichotomy k (i + 1) with hlt | rfl | hgt
    · rw [insertRest_blk_le (by omega)] at hAlloc hBlk
      exact ⟨k, by omega, hAlloc, hBlk⟩
    · simp [insertRest_blk_self.2.2] at hAlloc
    · obtain ⟨j, rfl⟩ : ∃ j, k = j + 1 := ⟨k - 1, by omega⟩
      rw [insertRest_blk_gt (by omega) (by omega)] at hAlloc hBlk
      exact ⟨j, by omega, hAlloc, hBlk⟩
  · rintro ⟨k, hk, hAlloc, hBlk⟩
    rcases Nat.lt_or_ge i k with hgt | hle
    · have hMoved : (insertRest mm i start size).blkList (k + 1) = mm.blkList k :=
        insertRest_blk_gt hgt hk
      exact ⟨k + 1, by omega, by rwa [hMoved], by rwa [hMoved]⟩
    · have hKept : (insertRest mm i start size).blkList k = mm.blkList k :=
        insertRest_blk_le hle
      exact ⟨k, by omega, by rwa [hKept], by rwa [hKept]⟩

end InsertRest

/-! ## Splitting a block -/

section Split

variable {mm : GuestMemoryManager} {osType size i : Nat}

theorem splitBlk_off_rest (hL : Ordered mm) (osType : Nat) (hi : i < mm.blkCount)
    (hSize : size ≤ (mm.blkList i).size) :
    off (splitBlk mm osType size i) (i + 1) = off mm i + size := by
  have hBase := hL.base_lt
  have hTotal := hL.total_lt
  have hInside := hL.inside i hi
  have hStart := hL.start_lt i hi
  have hRest : ((splitBlk mm osType size i).blkList (i + 1)).startAddr =
      add64 (mm.blkList i).startAddr size := insertRest_blk_self.1
  have hBaseEq : (splitBlk mm osType size i).baseAddr = mm.baseAddr := rfl
  unfold off at *
  rw [hRest, hBaseEq]
  unfold add64
  omega

theorem splitBlk_off_le (hk : k ≤ i) : off (splitBlk mm osType size i) k = off mm k := by
  rw [splitBlk, insertRest_off_le hk, takeBlk_off]

theorem splitBlk_off_gt (hi : i < k) (hk : k < mm.blkCount) :
    off (splitBlk mm osType size i) (k + 1) = off mm k := by
  rw [splitBlk, insertRest_off_gt hi (show k < (takeBlk mm osType size i).blkCount from hk),
    takeBlk_off]

theorem splitBlk_blk_lt (hk : k < i) : (splitBlk mm osType size i).blkList k = mm.blkList k := by
  have hNe : k ≠ i := by omega
  rw [splitBlk, insertRest_blk_le (by omega)]
  exact set_ne _ _ hNe

theorem splitBlk_blk_self :
    (splitBlk mm osType size i).blkList i =
      { mm.blkList i with size := size, isAllocated := true, osType := osType } := by
  rw [splitBlk, insertRest_blk_le (Nat.le_refl i)]
  exact set_same _ _ _

theorem splitBlk_blk_gt (hi : i < k) (hk : k < mm.blkCount) :
    (splitBlk mm osType size i).blkList (k + 1) = mm.blkList k := by
  have hNe : k ≠ i := by omega
  rw [splitBlk, insertRest_blk_gt hi (show k < (takeBlk mm osType size i).blkCount from hk)]
  exact set_ne _ _ hNe

theorem splitBlk_blk_rest (mm : GuestMemoryManager) (osType size i : Nat) :
    ((splitBlk mm osType size i).blkList (i + 1)).startAddr =
        add64 (mm.blkList i).startAddr size ∧
      ((splitBlk mm osType size i).blkList (i + 1)).size = (mm.blkList i).size - size ∧
      ((splitBlk mm osType size i).blkList (i + 1)).isAllocated = false :=
  insertRest_blk_self

/-- The slots after a split: those up to `i`, the remainder in slot `i + 1`, and the slots
moved up by one. -/
theorem splitBlk_slots (i : Nat) (hk : k < (splitBlk mm osType size i).blkCount) :
    k < i ∨ k = i ∨ k = i + 1 ∨ ∃ j, k = j + 1 ∧ i < j ∧ j < mm.blkCount := by
  have hCount : (splitBlk mm osType size i).blkCount = mm.blkCount + 1 := rfl
  rcases Nat.lt_trichotomy k (i + 1) with hlt | heq | hgt
  · omega
  · omega
  · exact .inr (.inr (.inr ⟨k - 1, by omega, by omega, by omega⟩))

theorem Ordered.splitBlk (hL : Ordered mm) (hi : i < mm.blkCount)
    (hSize : size < (mm.blkList i).size) (hCount : mm.blkCount < blkListLen) :
    Ordered (splitBlk mm osType size i) := by
  have hInside := hL.inside i hi
  have hRestOff := splitBlk_off_rest hL osType hi (Nat.le_of_lt hSize)
  have hRest := splitBlk_blk_rest mm osType size i
  have hCountEq : (GuestMemory.splitBlk mm osType size i).blkCount = mm.blkCount + 1 := rfl
  refine ⟨hL.base_lt, hL.total_lt, by omega, by omega, ?_, ?_, ?_⟩
  · intro k hk
    rcases splitBlk_slots i hk with hlt | rfl | rfl | ⟨j, rfl, hgt, hj⟩
    · rw [splitBlk_blk_lt hlt]
      exact hL.start_lt k (by omega)
    · rw [splitBlk_blk_self]
      exact hL.start_lt k hi
    · rw [hRest.1]
      exact Nat.mod_lt _ (by decide)
    · rw [splitBlk_blk_gt hgt hj]
      exact hL.start_lt j hj
  · intro k hk
    show _ ≤ mm.totalMemory
    rcases splitBlk_slots i hk with hlt | rfl | rfl | ⟨j, rfl, hgt, hj⟩
    · rw [splitBlk_blk_lt hlt, splitBlk_off_le (by omega)]
      exact hL.inside k (by omega)
    · rw [splitBlk_blk_self, splitBlk_off_le (Nat.le_refl k)]
      show off mm k + size ≤ _
      omega
    · rw [hRest.2.1, hRestOff]
      omega
    · rw [splitBlk_blk_gt hgt hj, splitBlk_off_gt hgt hj]
      exact hL.inside j hj
  · intro k hk
    rcases splitBlk_slots i (Nat.lt_of_succ_lt hk) with hlt | rfl | rfl | ⟨j, rfl, hgt, hj⟩
    · rw [splitBlk_blk_lt hlt, splitBlk_off_le (by omega), splitBlk_off_le (by omega)]
      exact hL.next k (by omega)
    · rw [splitBlk_blk_self, splitBlk_off_le (Nat.le_refl k), hRestOff]
    · have hNext := hL.next i (by omega)
      rw [hRest.2.1, hRestOff, splitBlk_off_gt (by omega) (by omega)]
      omega
    · rw [splitBlk_blk_gt hgt hj, splitBlk_off_gt hgt hj,
        splitBlk_off_gt (by omega) (by omega)]
      exact hL.next j (by omega)

/-- A split with a part of positive size keeps the layout; at address 0 the
size does not matter. -/
theorem Layout.splitBlk (hL : Layout mm) (hi : i < mm.blkCount)
    (hPos : (mm.blkList i).startAddr ≠ 0 → 0 < size) (hSize : size < (mm.blkList i).size)
    (hCount : mm.blkCount < blkListLen) : Layout (splitBlk mm osType size i) := by
  have hRestOff := splitBlk_off_rest hL.ordered osType hi (Nat.le_of_lt hSize)
  have hCountEq : (GuestMemory.splitBlk mm osType size i).blkCount = mm.blkCount + 1 := rfl
  refine (hL.ordered.splitBlk hi hSize hCount).layout ?_
  intro k hk
  rcases splitBlk_slots i (Nat.lt_of_succ_lt hk) with hlt | rfl | rfl | ⟨j, rfl, hgt, hj⟩
  · rw [splitBlk_blk_lt hlt, splitBlk_off_le (by omega), splitBlk_off_le (by omega)]
    exact hL.strict k (by omega)
  · rw [splitBlk_blk_self, splitBlk_off_le (Nat.le_refl k), hRestOff]
    intro hStart
    have := hPos hStart
    omega
  · have hNext := hL.next i (by omega)
    rw [hRestOff, splitBlk_off_gt (by omega) (by omega)]
    omega
  · rw [splitBlk_blk_gt hgt hj, splitBlk_off_gt hgt hj,
      splitBlk_off_gt (by omega) (by omega)]
    exact hL.strict j (by omega)

theorem splitBlk_allocatedAt (hi : i < mm.blkCount) (hFree : (mm.blkList i).isAllocated = false)
    (a n : Nat) :
    AllocatedAt (splitBlk mm osType size i) a n ↔
      AllocatedAt mm a n ∨ (a = (mm.blkList i).startAddr ∧ n = size) := by
  rw [splitBlk, insertRest_allocatedAt (show i < (takeBlk mm osType size i).blkCount from hi),
    takeBlk_allocatedAt hi hFree]

/-! ## A part that is freed at once -/

/-- The two states have the same blocks, owners apart. -/
structure SameBlocks (mm mm' : GuestMemoryManager) : Prop where
  base : mm'.baseAddr = mm.baseAddr
  total : mm'.totalMemory = mm.totalMemory
  count : mm'.blkCount = mm.blkCount
  start : ∀ k < mm.blkCount, (mm'.blkList k).startAddr = (mm.blkList k).startAddr
  size : ∀ k < mm.blkCount, (mm'.blkList k).size = (mm.blkList k).size
  alloc : ∀ k < mm.blkCount, (mm'.blkList k).isAllocated = (mm.blkList k).isAllocated

theorem SameBlocks.within (hS : SameBlocks mm mm') : Within mm mm' :=
  ⟨hS.base, hS.total, hS.count, hS.start, fun k hk => Nat.le_of_eq (hS.size k hk)⟩

theorem SameBlocks.allocatedAt (hS : SameBlocks mm mm') (a n : Nat) :
    AllocatedAt mm' a n ↔ AllocatedAt mm a n := by
  unfold AllocatedAt
  rw [hS.count]
  constructor
  · rintro ⟨k, hk, hBlk⟩
    exact ⟨k, hk, by rwa [hS.start k hk, hS.size k hk, hS.alloc k hk] at hBlk⟩
  · rintro ⟨k, hk, hBlk⟩
    exact ⟨k, hk, by rwa [hS.start k hk, hS.size k hk, hS.alloc k hk]⟩

/-- The search of `free_guest_memory_part` finds a part just split off. -/
theorem firstIdx_startsAt_splitBlk (hL : Layout mm) (hi : i < mm.blkCount)
    (hNe : (mm.blkList i).startAddr ≠ 0) :
    firstIdx (splitBlk mm osType size i).blkCount
      (startsAt (splitBlk mm osType size i) (mm.blkList i).startAddr) = some i := by
  rw [firstIdx_eq_some]
  refine ⟨show i < mm.blkCount + 1 by omega, ?_, ?_⟩
  · simp [startsAt, splitBlk_blk_self]
  · intro k hk
    rw [startsAt, splitBlk_blk_lt hk, Bool.and_eq_false_imp, decide_eq_true_eq]
    intro hStart
    have hki := hL.start_injective (by omega) hi (hStart ▸ hNe) hStart
    omega

/-- Freeing a part just split off merges it with its own remainder: only the owner
recorded in the slot differs from the state before the split. -/
theorem mergeNext_splitBlk (hL : Ordered mm) (osType : Nat) (hi : i < mm.blkCount)
    (hSize : size ≤ (mm.blkList i).size) (hFree : (mm.blkList i).isAllocated = false) :
    mergeNext (clearBlk (splitBlk mm osType size i) i) i =
        coalesce (clearBlk (splitBlk mm osType size i) i) i ∧
      ∀ k < mm.blkCount, (mergeNext (clearBlk (splitBlk mm osType size i) i) i).blkList k =
        if k = i then { mm.blkList i with osType := osType } else mm.blkList k := by
  set mm₁ := clearBlk (splitBlk mm osType size i) i with hmm₁
  have hCount : mm₁.blkCount = mm.blkCount + 1 := rfl
  have hBlk : ∀ k, k ≠ i → mm₁.blkList k = (splitBlk mm osType size i).blkList k :=
    fun k hk => set_ne _ _ hk
  have hSelf : mm₁.blkList i =
      { mm.blkList i with size := size, isAllocated := false, osType := osType } := by
    simp [hmm₁, clearBlk, splitBlk_blk_self]
  have hRest := splitBlk_blk_rest mm osType size i
  rw [← hBlk (i + 1) (by omega)] at hRest
  have hTest : (decide (i < mm₁.blkCount - 1) && !(mm₁.blkList (i + 1)).isAllocated &&
      adjacent mm₁ i) = true := by
    simp [adjacent, hRest.1, hRest.2.2, hSelf, hCount, hi]
  have hMerge : mergeNext mm₁ i = coalesce mm₁ i := by
    rw [mergeNext, if_pos hTest]
  refine ⟨hMerge, ?_⟩
  intro k hk
  rw [hMerge]
  rcases Nat.lt_trichotomy k i with hlt | rfl | hgt
  · have hNe : k ≠ i := by omega
    rw [coalesce_blk_lt hlt, hBlk k hNe, splitBlk_blk_lt hlt, if_neg hNe]
  · have hSum : add64 size ((mm.blkList k).size - size) = (mm.blkList k).size := by
      have hInside := hL.inside k hi
      have hTotal := hL.total_lt
      rw [add64, Nat.add_sub_cancel' hSize, Nat.mod_eq_of_lt (by omega)]
    rw [coalesce_blk_self, hSelf, hRest.2.1, if_pos rfl, hSum, ← hFree]
  · have hNe : k + 1 ≠ i := by omega
    rw [coalesce_blk_gt hgt (by omega), hBlk (k + 1) hNe, splitBlk_blk_gt hgt hk,
      if_neg (by omega)]

theorem sameBlocks_mergeNext (hL : Ordered mm) (osType : Nat) (hi : i < mm.blkCount)
    (hSize : size ≤ (mm.blkList i).size) (hFree : (mm.blkList i).isAllocated = false) :
    SameBlocks mm (mergeNext (clearBlk (splitBlk mm osType size i) i) i) := by
  obtain ⟨hMerge, hMerged⟩ := mergeNext_splitBlk hL osType hi hSize hFree
  refine ⟨by rw [hMerge]; rfl, by rw [hMerge]; rfl, by rw [hMerge]; rfl, ?_, ?_, ?_⟩
  all_goals
    intro k hk
    rw [hMerged k hk]
    split
    case isTrue hki => rw [hki]
    case isFalse => rfl

/-- Taking a zero-sized part of a free block and freeing it again keeps the
layout and the allocated ranges. -/
theorem free_splitBlk_zero (hL : Layout mm) (osType : Nat) (hi : i < mm.blkCount)
    (hFree : (mm.blkList i).isAllocated = false) (hNe : (mm.blkList i).startAddr ≠ 0) :
    MergeSpec mm
      (freeGuestMemoryPart (splitBlk mm osType 0 i) (mm.blkList i).startAddr) := by
  have hSame := sameBlocks_mergeNext hL.ordered osType hi (Nat.zero_le _) hFree
  have hIdx : i < (mergeNext (clearBlk (splitBlk mm osType 0 i) i) i).blkCount := by
    rw [hSame.count]
    exact hi
  have hPrev := mergePrev_spec (hSame.within.layout hL) hIdx (by rw [hSame.alloc i hi, hFree])
  rw [freeGuestMemoryPart, firstIdx_startsAt_splitBlk hL hi hNe]
  refine ⟨hPrev.layout, fun a n => ?_⟩
  rw [hPrev.allocatedAt, hSame.allocatedAt]

end Split

/-! ## Summary: allocating, failing to allocate, and giving back -/

section Summary

variable {mm : GuestMemoryManager} {osType size : Nat}

/-- The start of the block a first-fit search finds, 0 when it finds none. -/
def firstFitStart (mm : GuestMemoryManager) (size : Nat) : Nat :=
  match firstIdx mm.blkCount (fits mm size) with
  | none => 0
  | some i => (mm.blkList i).startAddr

/-- Whether an allocation of `size` bytes would succeed, decided without
changing the block list. -/
def canAllocate (mm : GuestMemoryManager) (size : Nat) : Bool :=
  allocateGuestMemoryPartCheck mm size && decide (firstFitStart mm size ≠ 0)

theorem canAllocate_iff (mm : GuestMemoryManager) (osType size : Nat) :
    canAllocate mm size = true ↔ (allocateGuestMemoryPart mm osType size).2 ≠ 0 := by
  unfold canAllocate allocateGuestMemoryPartCheck firstFitStart allocateGuestMemoryPart
  cases firstIdx mm.blkCount (fits mm size) with
  | none => simp
  | some i =>
    by_cases hLt : size < (mm.blkList i).size
    · by_cases hFull : blkListLen ≤ mm.blkCount <;> simp [hLt, hFull]
    · simp [hLt]

/-- A failed allocation keeps every allocated range; it may add one. -/
theorem allocate_failed (hL : Layout mm) (hRet : (allocateGuestMemoryPart mm osType size).2 = 0) :
    Layout (allocateGuestMemoryPart mm osType size).1 ∧
      ∀ a n, AllocatedAt mm a n →
        AllocatedAt (allocateGuestMemoryPart mm osType size).1 a n := by
  have hOut := allocate_outcome mm osType size
  generalize allocateGuestMemoryPart mm osType size = res at hOut hRet
  cases hOut with
  | noFit => exact ⟨hL, fun _ _ hAt => hAt⟩
  | exact i hi hFree hSize =>
    refine ⟨(within_takeBlk _ (Nat.le_of_eq hSize.symm)).layout hL, fun a n hAt => ?_⟩
    exact (takeBlk_allocatedAt hi hFree a n).mpr (.inl hAt)
  | full i hi hFree hSize =>
    refine ⟨(within_takeBlk _ (Nat.le_of_lt hSize)).layout hL, fun a n hAt => ?_⟩
    exact (takeBlk_allocatedAt hi hFree a n).mpr (.inl hAt)
  | split i hi hFree hSize hCount =>
    refine ⟨hL.splitBlk hi (fun hNe => absurd hRet hNe) hSize hCount, fun a n hAt => ?_⟩
    exact (splitBlk_allocatedAt hi hFree a n).mpr (.inl hAt)

/-- A successful allocation adds exactly the returned range, at a start that no
allocated range had. -/
theorem allocate_ok (hL : Layout mm) (hSize : size ≠ 0)
    (hRet : (allocateGuestMemoryPart mm osType size).2 ≠ 0) :
    Layout (allocateGuestMemoryPart mm osType size).1 ∧
      (∀ n, ¬ AllocatedAt mm (allocateGuestMemoryPart mm osType size).2 n) ∧
      ∀ a n, AllocatedAt (allocateGuestMemoryPart mm osType size).1 a n ↔
        AllocatedAt mm a n ∨
          (a = (allocateGuestMemoryPart mm osType size).2 ∧ n = size) := by
  have hOut := allocate_outcome mm osType size
  generalize allocateGuestMemoryPart mm osType size = res at hOut hRet
  cases hOut with
  | noFit => exact absurd rfl hRet
  | exact i hi hFree hEq =>
    exact ⟨(within_takeBlk _ (Nat.le_of_eq hEq.symm)).layout hL,
      hL.not_allocatedAt_of_free hi hFree hRet, takeBlk_allocatedAt hi hFree⟩
  | full => exact absurd rfl hRet
  | split i hi hFree hLt hCount =>
    exact ⟨hL.splitBlk hi (fun _ => Nat.pos_of_ne_zero hSize) hLt hCount,
      hL.not_allocatedAt_of_free hi hFree hRet, splitBlk_allocatedAt hi hFree⟩

/-- Freeing what was just allocated leaves the allocated ranges as they were,
whatever the size. -/
theorem allocate_then_free (hL : Layout mm)
    (hRet : (allocateGuestMemoryPart mm osType size).2 ≠ 0) :
    Layout (freeGuestMemoryPart (allocateGuestMemoryPart mm osType size).1
        (allocateGuestMemoryPart mm osType size).2) ∧
      ∀ a n, a ≠ 0 →
        (AllocatedAt (freeGuestMemoryPart (allocateGuestMemoryPart mm osType size).1
          (allocateGuestMemoryPart mm osType size).2) a n ↔ AllocatedAt mm a n) := by
  -- the common argument for every case in which the layout survives
  have hBack : ∀ mm' start, Layout mm' → (∀ n, ¬ AllocatedAt mm start n) →
      (∀ a n, AllocatedAt mm' a n ↔ AllocatedAt mm a n ∨ (a = start ∧ n = size)) →
      Layout (freeGuestMemoryPart mm' start) ∧
        ∀ a n, a ≠ 0 →
          (AllocatedAt (freeGuestMemoryPart mm' start) a n ↔ AllocatedAt mm a n) := by
    intro mm' start hL' hFresh hAt
    obtain ⟨hLayout, hFreed⟩ := free_spec hL' start
    refine ⟨hLayout, fun a n ha => ?_⟩
    rw [hFreed a n ha, hAt a n]
    constructor
    · rintro ⟨hOld | ⟨rfl, _⟩, hNe⟩
      · exact hOld
      · exact absurd rfl hNe
    · intro hOld
      refine ⟨.inl hOld, ?_⟩
      rintro rfl
      exact hFresh n hOld
  have hOut := allocate_outcome mm osType size
  generalize allocateGuestMemoryPart mm osType size = res at hOut hRet
  cases hOut with
  | noFit => exact absurd rfl hRet
  | exact i hi hFree hEq =>
    exact hBack _ _ ((within_takeBlk _ (Nat.le_of_eq hEq.symm)).layout hL)
      (hL.not_allocatedAt_of_free hi hFree hRet) (takeBlk_allocatedAt hi hFree)
  | full => exact absurd rfl hRet
  | split i hi hFree hLt hCount =>
    rcases Nat.eq_zero_or_pos size with rfl | hPos
    · have hSpec := free_splitBlk_zero hL osType hi hFree hRet
      exact ⟨hSpec.layout, fun a n _ => hSpec.allocatedAt a n⟩
    · exact hBack _ _ (hL.splitBlk hi (fun _ => hPos) hLt hCount)
        (hL.not_allocatedAt_of_free hi hFree hRet) (splitBlk_allocatedAt hi hFree)

end Summary

end Zvm.Os.GuestMemory
