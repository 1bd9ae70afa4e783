import Zvm.Heap.Realloc
import Zvm.Verified.Run

/-!
# The heap over whole runs

`sys_heap_init` and then any sequence of the calls of `sys_heap`, together with what the
callers write into their blocks.  The state has the live blocks beside the heap: those that a
call returned and that were not given back since.

`HeapOk` is what the heap keeps about itself, and `GoodBlock` what a caller gets.  Both hold in
every run on a region that `sys_heap_init` accepts, if something is left of the region after its
ends are rounded.  The assertion for that is compiled out unless `CONFIG_SYS_HEAP_VALIDATE` is
set; without it the size of the heap is a difference below zero, and passes the tests for a
minimum (`tiny_region_accepted`).
-/

namespace Zvm.Heap

open Zvm.Verified.FunArray Zvm.Verified.Pieces Zvm.Verified.CircularList Zvm.Verified.Run

/-! ## `sys_heap_init` -/

/-- `ROUND_DOWN(mem + bytes, CHUNK_UNIT)`, after the footer was taken off. -/
def regionEnd (k : HeapConfig) (mem bytes : Nat) : Nat :=
  k.size (mem + (bytes - heapFooterBytes k bytes)) / 8 * 8

/-- The heap that `sys_heap_init` makes of a region. -/
def initRegion (k : HeapConfig) (mem bytes : Nat) : Region where
  cfg := k
  chunkBuf := k.roundUp mem 8
  endChunk := u32 (k.sub (regionEnd k mem bytes) (k.roundUp mem 8) / 8)

/-- The assertions of `sys_heap_init`, with the `CHECK` only if it is compiled in. -/
def accepts (k : HeapConfig) (mem bytes : Nat) : Bool :=
  (if k.smallOnly then decide (bytes / 8 ≤ 0x7fff) else decide (bytes / 8 ≤ 0x7fffffff)) &&
    decide (heapFooterBytes k bytes < bytes) &&
    (!k.validate || decide (k.roundUp mem 8 < regionEnd k mem bytes)) &&
    decide (chunksz k k.sizeofZHeap < (initRegion k mem bytes).endChunk) &&
    decide (u32 (chunk0Size (initRegion k mem bytes) + minChunkSize (initRegion k mem bytes)) ≤
      (initRegion k mem bytes).endChunk)

/-- `struct z_heap` with its counters and buckets cleared, in memory that holds anything. -/
def clearHeap (r : Region) (junk : ZHeap) : ZHeap where
  availBuckets := 0#32
  buckets := fun i => if i < nbBuckets r then 0 else junk.buckets i
  freeBytes := 0
  allocatedBytes := 0
  maxAllocatedBytes := 0
  mem := junk.mem

/-- The three chunks of a new heap: the one with `struct z_heap`, the free one, the end marker. -/
def initChunks (r : Region) (h : ZHeap) : ZHeap :=
  let h := setChunkSize r h 0 (chunk0Size r)
  let h := setLeftChunkSize r h 0 0
  let h := setChunkUsed r h 0 true
  let h := setChunkSize r h (chunk0Size r) (sub32 r.endChunk (chunk0Size r))
  let h := setLeftChunkSize r h (chunk0Size r) (chunk0Size r)
  let h := setChunkSize r h r.endChunk 0
  let h := setLeftChunkSize r h r.endChunk (sub32 r.endChunk (chunk0Size r))
  setChunkUsed r h r.endChunk true

/-- `sys_heap_init`; `none` when an assertion fails. -/
def sysHeapInit (k : HeapConfig) (mem bytes : Nat) (junk : ZHeap) : Option (Region × ZHeap) :=
  if accepts k mem bytes then
    some (initRegion k mem bytes,
      freeListAdd (initRegion k mem bytes)
        (initChunks (initRegion k mem bytes) (clearHeap (initRegion k mem bytes) junk))
        (chunk0Size (initRegion k mem bytes)))
  else none

/-- A region of memory that a heap can be made of: it is not at `NULL`, it lies in the address
space, and something is left when its ends are rounded to units. -/
structure Usable (k : HeapConfig) (mem bytes : Nat) : Prop where
  mem_pos : 0 < mem
  top_le : mem + bytes ≤ 2 ^ k.sizeBits
  rounded : (mem + 7) / 8 < (mem + (bytes - heapFooterBytes k bytes)) / 8

section Init

variable {k : HeapConfig} {mem bytes : Nat}

theorem heapFooterBytes_cases : heapFooterBytes k bytes = 4 ∨ heapFooterBytes k bytes = 8 := by
  unfold heapFooterBytes
  split
  · exact .inr rfl
  · exact .inl rfl

theorem chunk0Size_bounds {r : Region} : 0 < chunk0Size r ∧ chunk0Size r < 2 ^ 31 := by
  have hIdx := bucketIdx_lt (r := r) r.endChunk
  have hStruct : 16 ≤ r.cfg.sizeofZHeap ∧ r.cfg.sizeofZHeap ≤ 40 := by
    unfold HeapConfig.sizeofZHeap
    rcases r.cfg.sizeBits_eq with hk | hk <;> rw [hk] <;> split <;> omega
  have hBig := r.cfg.le_two_pow
  have hSum : r.cfg.sizeofZHeap + nbBuckets r * 4 ≤ 168 := by
    unfold nbBuckets
    omega
  rw [chunk0Size, chunksz, HeapConfig.size_of_lt (by omega), u32_of_lt (by omega)]
  omega

/-- A heap with large headers was given a large footer. -/
theorem bigHeapChunks_mono {x y : Nat} (hxy : x ≤ y) (hx : bigHeapChunks k x = true) :
    bigHeapChunks k y = true := by
  unfold bigHeapChunks at *
  split
  · rename_i hSmall
    rw [if_pos hSmall] at hx
    exact hx
  · rename_i hSmall
    rw [if_neg hSmall] at hx
    split
    · rfl
    · rename_i hBig
      rw [if_neg hBig, decide_eq_true_eq] at hx
      exact decide_eq_true (by omega)

/-- The ends of the region, rounded, and the number of units between them. -/
theorem initRegion_ends (hU : Usable k mem bytes) (hFooter : heapFooterBytes k bytes < bytes)
    (hBytes : bytes / 8 ≤ 0x7fffffff) :
    mem ≤ (initRegion k mem bytes).chunkBuf ∧ (initRegion k mem bytes).chunkBuf % 8 = 0 ∧
      (initRegion k mem bytes).chunkBuf + 8 * (initRegion k mem bytes).endChunk +
        heapFooterBytes k bytes ≤ mem + bytes ∧
      (initRegion k mem bytes).endChunk ≤ bytes / 8 := by
  have hTop := hU.top_le
  have hRounded := hU.rounded
  have hBig := k.le_two_pow
  have hFooter' : heapFooterBytes k bytes = 4 ∨ heapFooterBytes k bytes = 8 :=
    heapFooterBytes_cases
  have hEnd : regionEnd k mem bytes = (mem + (bytes - heapFooterBytes k bytes)) / 8 * 8 := by
    rw [regionEnd, HeapConfig.size_of_lt (by omega)]
  have hStart : k.roundUp mem 8 = (mem + 7) / 8 * 8 := by
    rw [HeapConfig.roundUp_eq (by norm_num) (by omega) k.eight_dvd, Nat.mod_eq_of_lt (by omega)]
  have hUnits : (initRegion k mem bytes).endChunk =
      (regionEnd k mem bytes - k.roundUp mem 8) / 8 := by
    rw [initRegion, HeapConfig.sub_of_le (by omega) (by omega), u32_of_lt (by omega)]
  rw [hUnits, show (initRegion k mem bytes).chunkBuf = k.roundUp mem 8 from rfl]
  omega

theorem accepts_bytes (hAcc : accepts k mem bytes = true) :
    heapFooterBytes k bytes < bytes ∧ bytes / 8 ≤ 0x7fffffff := by
  simp only [accepts, Bool.and_eq_true, decide_eq_true_eq] at hAcc
  obtain ⟨⟨⟨⟨hSize, hFooter⟩, -⟩, -⟩, -⟩ := hAcc
  split at hSize <;> simp only [decide_eq_true_eq] at hSize <;> omega

theorem initRegion_sound (hU : Usable k mem bytes) (hAcc : accepts k mem bytes = true) :
    (initRegion k mem bytes).Sound := by
  obtain ⟨hFooter, hBytes⟩ := accepts_bytes hAcc
  simp only [accepts, Bool.and_eq_true, decide_eq_true_eq] at hAcc
  obtain ⟨⟨⟨⟨hSize, -⟩, -⟩, -⟩, hRoom⟩ := hAcc
  obtain ⟨-, hAligned, hTop, hUnits⟩ := initRegion_ends hU hFooter hBytes
  have hTop' := hU.top_le
  have hEnd : 2 * (initRegion k mem bytes).endChunk + 1 < 256 ^ (initRegion k mem bytes).word := by
    rcases word_cases (r := initRegion k mem bytes) with ⟨hw, -⟩ | ⟨hw, hSmall⟩
    · rw [hw]
      omega
    · rw [hw]
      rw [Region.big, bigHeapChunks, show (initRegion k mem bytes).cfg = k from rfl] at hSmall
      split at hSmall
      · rename_i hOnly
        rw [if_pos hOnly, decide_eq_true_eq] at hSize
        omega
      · split at hSmall
        · cases hSmall
        · rw [decide_eq_false_iff_not] at hSmall
          omega
  have hHdr : chunkHeaderBytes (initRegion k mem bytes) ≤ heapFooterBytes k bytes := by
    unfold chunkHeaderBytes heapFooterBytes
    split
    · rename_i hBig
      have hFoot : bigHeapBytes k bytes = true := by
        rw [bigHeapBytes, u32_of_lt (by omega)]
        exact bigHeapChunks_mono hUnits hBig
      rw [if_pos hFoot]
    · split <;> omega
  refine ⟨hEnd, hAligned, ?_, ?_⟩
  · show (initRegion k mem bytes).chunkBuf + 8 * (initRegion k mem bytes).endChunk +
      chunkHeaderBytes (initRegion k mem bytes) ≤ 2 ^ k.sizeBits
    omega
  · have hMin : minChunkSize (initRegion k mem bytes) ≤ 2 := by
      rw [minChunkSize_eq]
      split <;> omega
    have hChunk0 := chunk0Size_bounds (r := initRegion k mem bytes)
    rwa [u32_of_lt (by omega)] at hRoom

end Init

section NewHeap

variable {r : Region} {h : ZHeap}

/-- The cut points of a new heap. -/
def newCuts (r : Region) : Set Nat := insert (chunk0Size r) {0, r.endChunk}

theorem chunk0Size_pos : 0 < chunk0Size r := chunk0Size_bounds.1

theorem chunk0Size_lt (hr : r.Sound) : chunk0Size r < r.endChunk := by
  have hRoom := hr.room
  have hMin := minChunkSize_pos (r := r)
  omega

/-- The two pieces of a new heap. -/
theorem piece_newCuts (hr : r.Sound) (c d : Nat) :
    Piece (newCuts r) c d ↔
      (c = 0 ∧ d = chunk0Size r) ∨ (c = chunk0Size r ∧ d = r.endChunk) := by
  have hPos := chunk0Size_pos (r := r)
  have hLt := chunk0Size_lt hr
  have hWhole : Piece {0, r.endChunk} 0 r.endChunk := by
    refine ⟨.inl rfl, .inr rfl, by omega, ?_⟩
    rintro e h₁ h₂ (rfl | he)
    · omega
    · have hEq : e = r.endChunk := he
      omega
  rw [newCuts, piece_insert_iff hWhole hPos hLt]
  constructor
  · rintro (⟨hP, hc⟩ | hCase)
    · rcases hP.left_mem with rfl | hEnd
      · exact absurd rfl hc
      · have hEq : c = r.endChunk := hEnd
        have hcd := hP.lt
        rcases hP.right_mem with rfl | hd
        · omega
        · have hEq' : d = r.endChunk := hd
          omega
    · exact hCase
  · exact .inr

theorem initChunks_field (hr : r.Sound) {e : Nat} {g : ChunkField} (he : Slot r (newCuts r) e g) :
    chunkField r (initChunks r h) e g =
      if e = r.endChunk ∧ g = .sizeAndUsed then 1
      else if e = r.endChunk ∧ g = .leftSize then r.endChunk - chunk0Size r
      else if e = chunk0Size r ∧ g = .leftSize then chunk0Size r
      else if e = chunk0Size r ∧ g = .sizeAndUsed then 2 * (r.endChunk - chunk0Size r)
      else if e = 0 ∧ g = .sizeAndUsed then 2 * chunk0Size r + 1
      else if e = 0 ∧ g = .leftSize then 0 else chunkField r h e g := by
  have hPos := chunk0Size_pos (r := r)
  have hLt := chunk0Size_lt hr
  have hEnd := hr.end_lt_u32
  have h0 : (0 : Nat) ∈ newCuts r := .inr (.inl rfl)
  have hc : chunk0Size r ∈ newCuts r := .inl rfl
  have hn : r.endChunk ∈ newCuts r := .inr (.inr rfl)
  have hSub : sub32 r.endChunk (chunk0Size r) = r.endChunk - chunk0Size r :=
    sub32_of_le hLt.le (by omega)
  have hSize0 : u32 (chunk0Size r * 2) = 2 * chunk0Size r := by
    rw [u32_of_lt (by omega), Nat.mul_comm]
  have hSizeC : u32 ((r.endChunk - chunk0Size r) * 2) = 2 * (r.endChunk - chunk0Size r) := by
    rw [u32_of_lt (by omega), Nat.mul_comm]
  have hZero : u32 (0 * 2) = 0 := rfl
  -- the headers are written one after the other
  have hSet : ∀ {c : Nat} {f : ChunkField}, Slot r (newCuts r) c f → ∀ (h : ZHeap) (v : Nat)
      {e : Nat} {g : ChunkField}, Slot r (newCuts r) e g → v ≤ 2 * r.endChunk + 1 →
      chunkField r (chunkSet r h c f v) e g =
        if e = c ∧ g = f then v else chunkField r h e g := by
    intro c f hcf h v e g heg hv
    rw [chunkField_chunkSet_of_slot hcf heg, hr.fits hv]
  -- a flag is set right after the size and the left size of its chunk
  have hFlag : ∀ {c : Nat}, c ∈ newCuts r → ∀ (h : ZHeap) (v w : Nat), v ≤ r.endChunk →
      w ≤ r.endChunk →
      chunkField r (chunkSet r (chunkSet r h c .sizeAndUsed (2 * v)) c .leftSize w) c
        .sizeAndUsed / 2 * 2 + true.toNat = 2 * v + 1 := by
    intro c hc h v w hv hw
    rw [hSet (slot_left hc) _ _ (slot_size hc) (by omega),
      hSet (slot_size hc) _ _ (slot_size hc) (by omega)]
    simp
    omega
  simp only [initChunks, setChunkSize, setLeftChunkSize, setChunkUsed, hSub, hSize0, hSizeC]
  rw [hFlag h0 h (chunk0Size r) 0 (by omega) (by omega),
    show u32 (0 * 2) = 2 * 0 from rfl, hFlag hn _ 0 (r.endChunk - chunk0Size r) (by omega) (by omega),
    hSet (slot_size hn) _ _ he (by omega), hSet (slot_left hn) _ _ he (by omega),
    hSet (slot_size hn) _ _ he (by omega), hSet (slot_left hc) _ _ he (by omega),
    hSet (slot_size hc) _ _ he (by omega), hSet (slot_size h0) _ _ he (by omega),
    hSet (slot_left h0) _ _ he (by omega), hSet (slot_size h0) _ _ he (by omega)]
  split_ifs <;> rfl

/-- Before its free chunk is put into a list, a new heap has no available chunk. -/
theorem initChunks_inv (hr : r.Sound) (junk : ZHeap) :
    Inv r (initChunks r (clearHeap r junk)) (newCuts r) {0, r.endChunk} ∅ (fun _ => []) := by
  have hPos := chunk0Size_pos (r := r)
  have hLt := chunk0Size_lt hr
  have hPieces := piece_newCuts hr
  have h0 : (0 : Nat) ∈ newCuts r := .inr (.inl rfl)
  have hc : chunk0Size r ∈ newCuts r := .inl rfl
  have hn : r.endChunk ∈ newCuts r := .inr (.inr rfl)
  have hMem : ∀ c, c ∈ newCuts r ↔ c = chunk0Size r ∨ c = 0 ∨ c = r.endChunk := by
    intro c
    simp [newCuts]
  have hFields : ∀ e g, Slot r (newCuts r) e g → chunkField r (initChunks r (clearHeap r junk)) e g
      = _ := fun e g he => initChunks_field hr he
  refine ⟨⟨⟨h0, hn, ?_⟩, (hPieces _ _).mpr (.inl ⟨rfl, rfl⟩), ?_, .inl rfl, .inr rfl, ?_, ?_⟩,
    ⟨?_, ?_, ?_⟩, ⟨fun _ => Ring.nil, fun _ => List.nodup_nil, ?_, ?_, ?_⟩⟩
  · intro c hcB
    rcases (hMem c).mp hcB with rfl | rfl | rfl <;> omega
  · exact fun c hcU => .inr hcU
  · exact fun c hcA => absurd hcA (Set.notMem_empty c)
  · exact fun c d _ hcA => absurd hcA (Set.notMem_empty c)
  · intro c d hP
    rw [chunkSize, hFields c _ (slot_size hP.left_mem)]
    rcases (hPieces c d).mp hP with ⟨rfl, rfl⟩ | ⟨rfl, rfl⟩
    · simp [Nat.ne_of_lt (Nat.lt_trans hPos hLt), Nat.ne_of_lt hPos]
      omega
    · simp [Nat.ne_of_lt hLt]
  · intro c d hP
    rw [hFields d _ (slot_left hP.right_mem)]
    rcases (hPieces c d).mp hP with ⟨rfl, rfl⟩ | ⟨rfl, rfl⟩
    · simp [Nat.ne_of_lt hLt]
    · simp
  · intro c hcB
    rw [chunkUsed, hFields c _ (slot_size hcB)]
    rcases (hMem c).mp hcB with rfl | rfl | rfl
    · simp [Nat.ne_of_lt hLt, Nat.ne_of_gt hPos]
    · simp [Nat.ne_of_lt (Nat.lt_trans hPos hLt), Nat.ne_of_lt hPos]
    · simp
  · intro b c
    simp
  · intro b hb
    show (if b < nbBuckets r then 0 else junk.buckets b) = 0
    rw [if_pos (by unfold nbBuckets; omega)]
  · intro b
    show (0#32).getLsbD b = true ↔ _
    simp

/-- A new heap is at rest, with its two ends in use. -/
theorem sysHeapInit_rest {k : HeapConfig} {mem bytes : Nat} {junk : ZHeap}
    (hU : Usable k mem bytes) (hInit : sysHeapInit k mem bytes junk = some (r, h)) :
    r = initRegion k mem bytes ∧ accepts k mem bytes = true ∧ r.Sound ∧
      Rest r h (newCuts r) {0, r.endChunk} := by
  unfold sysHeapInit at hInit
  split at hInit
  · rename_i hAcc
    rw [Option.some.injEq, Prod.mk.injEq] at hInit
    obtain ⟨rfl, rfl⟩ := hInit
    have hr := initRegion_sound hU hAcc
    refine ⟨rfl, hAcc, hr, ?_⟩
    generalize initRegion k mem bytes = r at hr
    have hPos := chunk0Size_pos (r := r)
    have hLt := chunk0Size_lt hr
    have hI := initChunks_inv hr junk
    have hFree : chunk0Size r ∉ ({0, r.endChunk} : Set Nat) := by
      simp only [Set.mem_insert_iff, Set.mem_singleton_iff]
      omega
    obtain ⟨L, hI'⟩ := hI.add hr ((piece_newCuts hr _ _).mpr (.inr ⟨rfl, rfl⟩)) hFree
      (Set.notMem_empty _) (Set.notMem_empty _) (fun _ _ => Set.notMem_empty _)
    refine ⟨L, ?_⟩
    have hA : insert (chunk0Size r) (∅ : Set Nat) = newCuts r \ {0, r.endChunk} := by
      ext c
      simp only [newCuts, Set.mem_insert_iff, Set.mem_sdiff, Set.mem_singleton_iff,
        Set.mem_empty_iff_false, or_false]
      omega
    rwa [hA] at hI'
  · cases hInit

end NewHeap

/-! ## The calls -/

/-- A heap and the blocks that its callers hold. -/
structure Machine where
  heap : ZHeap
  live : List Nat

inductive HeapOp where
  | alloc (bytes : Nat)
  | alignedAlloc (align bytes : Nat)
  | alignedRealloc (ptr align bytes : Nat)
  | free (ptr : Nat)
  /-- A caller writes a byte. -/
  | write (addr : Nat) (byte : UInt8)

section

variable (r : Region)

/-- The live blocks after a call that returned `p` in exchange for the block at `old`. -/
def exchange (live : List Nat) (old p : Nat) : List Nat :=
  if p = 0 then live else p :: live.erase old

/-- One call. -/
def heapStep (m : Machine) : HeapOp → Machine
  | .alloc bytes =>
    ⟨(sysHeapAlloc r m.heap bytes).1, exchange m.live 0 (sysHeapAlloc r m.heap bytes).2⟩
  | .alignedAlloc align bytes =>
    ⟨(sysHeapAlignedAlloc r m.heap align bytes).1,
      exchange m.live 0 (sysHeapAlignedAlloc r m.heap align bytes).2⟩
  | .alignedRealloc ptr align bytes =>
    ⟨(sysHeapAlignedRealloc r m.heap ptr align bytes).1,
      if bytes = 0 then m.live.erase ptr
      else exchange m.live ptr (sysHeapAlignedRealloc r m.heap ptr align bytes).2⟩
  | .free ptr => ⟨sysHeapFree r m.heap ptr, m.live.erase ptr⟩
  | .write addr byte =>
    { m with heap := { m.heap with mem := set m.heap.mem (addr - r.chunkBuf) byte } }

/-- The address after the chunk of a block. -/
def chunkEnd (h : ZHeap) (p : Nat) : Nat :=
  r.chunkBuf + 8 * (memToChunkid r p + chunkSize r h (memToChunkid r p))

/-- The calls of the programs that use the heap: a request fits in the heap with its header and
its padding, only live blocks are given back, and only they are written to. -/
def Proper (m : Machine) : HeapOp → Prop
  | .alloc bytes => chunkHeaderBytes r + bytes ≤ 8 * r.endChunk
  | .alignedAlloc align bytes =>
    IsAlign r.cfg align ∧ requestBytes r align bytes ≤ 8 * r.endChunk
  | .alignedRealloc ptr align bytes =>
    (ptr = 0 ∨ ptr ∈ m.live) ∧ (align = 0 ∨ ∃ a < r.cfg.sizeBits, align = 2 ^ a) ∧
      requestBytes r align bytes ≤ 8 * r.endChunk
  | .free ptr => ptr = 0 ∨ ptr ∈ m.live
  | .write addr _ => ∃ p ∈ m.live, p ≤ addr ∧ addr < chunkEnd r m.heap p

/-- The chunks tile the heap with matching sizes, no two neighbours are free, and the lists and
`avail_buckets` hold exactly the free chunks with room for links. -/
structure HeapOk (h : ZHeap) (B : Set Nat) (L : Nat → List Nat) : Prop where
  cuts : Cuts r.endChunk B
  size : ∀ c d, Piece B c d → chunkSize r h c = d - c
  left : ∀ c d, Piece B c d → chunkField r h d .leftSize = d - c
  apart : ∀ c d, Piece B c d → chunkUsed r h c = true ∨ chunkUsed r h d = true
  lists : Lists r h B {c | c ∈ B ∧ chunkUsed r h c = false} L

/-- The block at `p` is in the heap, after the chunk with `struct z_heap`. -/
def InHeap (h : ZHeap) (p : Nat) : Prop :=
  r.chunkBuf + 8 * chunk0Size r ≤ p ∧ p < chunkEnd r h p ∧
    chunkEnd r h p ≤ r.chunkBuf + 8 * r.endChunk

/-- The blocks at `p` and `q`, up to the ends of their chunks, do not overlap. -/
def BlocksApart (h : ZHeap) (p q : Nat) : Prop := chunkEnd r h p ≤ q ∨ chunkEnd r h q ≤ p

/-- What holds between two calls. -/
def HeapGood (m : Machine) : Prop :=
  (∃ B L, HeapOk r m.heap B L) ∧ (∀ p ∈ m.live, InHeap r m.heap p) ∧
    m.live.Pairwise (BlocksApart r m.heap)

/-- The result `p` of a request is `NULL`, or an aligned block of at least `bytes` bytes that is
apart from the blocks `others`. -/
def GoodBlock (h : ZHeap) (others : List Nat) (align bytes p : Nat) : Prop :=
  p = 0 ∨ (Respects r.cfg align p ∧ InHeap r h p ∧ p + bytes ≤ chunkEnd r h p ∧
    ∀ q ∈ others, BlocksApart r h p q)

/-- The result of a call is good, judged in the heap that it leaves. -/
def ResultOk (m : Machine) : HeapOp → Prop
  | .alloc bytes =>
    GoodBlock r (sysHeapAlloc r m.heap bytes).1 m.live (chunkHeaderBytes r) bytes
      (sysHeapAlloc r m.heap bytes).2
  | .alignedAlloc align bytes =>
    GoodBlock r (sysHeapAlignedAlloc r m.heap align bytes).1 m.live align bytes
      (sysHeapAlignedAlloc r m.heap align bytes).2
  | .alignedRealloc ptr align bytes =>
    GoodBlock r (sysHeapAlignedRealloc r m.heap ptr align bytes).1 (m.live.erase ptr) align bytes
      (sysHeapAlignedRealloc r m.heap ptr align bytes).2
  | .free _ => True
  | .write _ _ => True

end

/-! ## The live blocks -/

section Live

variable {r : Region} {h : ZHeap} {B B' U : Set Nat} {live : List Nat} {c e p bytes : Nat}

/-- Each live block is in a chunk of its own, and no other chunk is in use but the two ends. -/
structure LiveInv (r : Region) (B U : Set Nat) (live : List Nat) : Prop where
  used : ∀ c, c ∈ U ↔ c = 0 ∨ c = r.endChunk ∨ ∃ p ∈ live, memToChunkid r p = c
  inner : ∀ p ∈ live, memToChunkid r p ≠ 0 ∧ memToChunkid r p ≠ r.endChunk
  block : ∀ p ∈ live, ∃ e, BlockAt r B (memToChunkid r p) e p 1
  distinct : (live.map (memToChunkid r)).Nodup

/-- The invariant of the runs. -/
def MachineInv (r : Region) (m : Machine) : Prop :=
  ∃ B U, Rest r m.heap B U ∧ LiveInv r B U m.live

theorem LiveInv.owned (hL : LiveInv r B U live) (hp : p ∈ live) : Owned r U (memToChunkid r p) :=
  ⟨(hL.used _).mpr (.inr (.inr ⟨p, hp, rfl⟩)), (hL.inner p hp).1, (hL.inner p hp).2⟩

theorem LiveInv.nodup (hL : LiveInv r B U live) : live.Nodup := hL.distinct.of_map

theorem LiveInv.zero_not_mem (hL : LiveInv r B U live) : 0 ∉ live := by
  intro h0
  obtain ⟨e, hBlock⟩ := hL.block 0 h0
  exact absurd hBlock.pos (Nat.lt_irrefl 0)

theorem BlockAt.mono {bytes' : Nat} (hBlock : BlockAt r B c e p bytes) (hLe : bytes' ≤ bytes) :
    BlockAt r B c e p bytes' := by
  have hHigh := hBlock.high
  exact ⟨hBlock.piece, hBlock.low, by omega, hBlock.id⟩

/-- Blocks stay where the used chunks stay. -/
theorem LiveInv.keep (hL : LiveInv r B U live) (hKeep : KeepsUsed U B B') :
    LiveInv r B' U live := by
  refine ⟨hL.used, hL.inner, ?_, hL.distinct⟩
  intro p hp
  obtain ⟨e, hBlock⟩ := hL.block p hp
  exact ⟨e, hKeep _ (hL.owned hp).used e hBlock.piece, hBlock.low, hBlock.high, hBlock.id⟩

/-- A new block. -/
theorem LiveInv.add (hL : LiveInv r B U live) (hRest : Rest r h B (insert c U)) (hFree : c ∉ U)
    (hBlock : BlockAt r B c e p bytes) (hPos : 0 < bytes) :
    LiveInv r B (insert c U) (p :: live) := by
  have hId := hBlock.id
  have hEnds : c ≠ 0 ∧ c ≠ r.endChunk := by
    refine ⟨?_, ?_⟩
    · rintro rfl
      exact hFree ((hL.used 0).mpr (.inl rfl))
    · rintro rfl
      exact hFree ((hL.used _).mpr (.inr (.inl rfl)))
  refine ⟨?_, ?_, ?_, ?_⟩
  · intro x
    rw [Set.mem_insert_iff, hL.used x]
    simp only [List.mem_cons, exists_eq_or_imp, hId]
    constructor
    · rintro (rfl | hx | hx | hx)
      · exact .inr (.inr (.inl rfl))
      · exact .inl hx
      · exact .inr (.inl hx)
      · exact .inr (.inr (.inr hx))
    · rintro (hx | hx | hx | hx)
      · exact .inr (.inl hx)
      · exact .inr (.inr (.inl hx))
      · exact .inl hx.symm
      · exact .inr (.inr (.inr hx))
  · intro q hq
    rcases List.mem_cons.mp hq with rfl | hq
    · rwa [hId]
    · exact hL.inner q hq
  · intro q hq
    rcases List.mem_cons.mp hq with rfl | hq
    · rw [hId]
      exact ⟨e, hBlock.mono hPos⟩
    · exact hL.block q hq
  · rw [List.map_cons, List.nodup_cons, hId]
    refine ⟨?_, hL.distinct⟩
    intro hMem
    obtain ⟨q, hq, hEq⟩ := List.mem_map.mp hMem
    exact hFree (hEq ▸ (hL.owned hq).used)

/-- A block that is given back. -/
theorem LiveInv.remove (hL : LiveInv r B U live) (hp : p ∈ live) :
    LiveInv r B (U \ {memToChunkid r p}) (live.erase p) := by
  have hMem : ∀ q, q ∈ live.erase p ↔ q ≠ p ∧ q ∈ live := fun q => hL.nodup.mem_erase_iff
  have hInj : ∀ q ∈ live, memToChunkid r q = memToChunkid r p → q = p :=
    fun q hq hEq => List.inj_on_of_nodup_map hL.distinct hq hp hEq
  refine ⟨?_, ?_, ?_, ?_⟩
  · intro x
    rw [Set.mem_sdiff, Set.mem_singleton_iff, hL.used x]
    constructor
    · rintro ⟨hx | hx | ⟨q, hq, rfl⟩, hNe⟩
      · exact .inl hx
      · exact .inr (.inl hx)
      · refine .inr (.inr ⟨q, (hMem q).mpr ⟨?_, hq⟩, rfl⟩)
        rintro rfl
        exact hNe rfl
    · rintro (rfl | rfl | ⟨q, hq, rfl⟩)
      · exact ⟨.inl rfl, (hL.inner p hp).1.symm⟩
      · exact ⟨.inr (.inl rfl), (hL.inner p hp).2.symm⟩
      · obtain ⟨hNe, hq⟩ := (hMem q).mp hq
        exact ⟨.inr (.inr ⟨q, hq, rfl⟩), fun hEq => hNe (hInj q hq hEq)⟩
  · exact fun q hq => hL.inner q (List.mem_of_mem_erase hq)
  · exact fun q hq => hL.block q (List.mem_of_mem_erase hq)
  · exact hL.distinct.sublist (List.erase_sublist.map _)

/-! ## Blocks are in the heap and apart -/

theorem chunkEnd_eq (hRest : Rest r h B U) (hBlock : BlockAt r B c e p bytes) :
    chunkEnd r h p = r.chunkBuf + 8 * e := by
  obtain ⟨L, hI⟩ := hRest
  have hLt := hBlock.piece.lt
  rw [chunkEnd, hBlock.id, hI.headers.size c e hBlock.piece]
  omega

theorem inHeap_of_block (hRest : Rest r h B U) (hBlock : BlockAt r B c e p bytes) (hc : c ≠ 0)
    (hPos : 0 < bytes) : InHeap r h p := by
  have hEnd := chunkEnd_eq hRest hBlock
  obtain ⟨L, hI⟩ := hRest
  have hFirst := hI.shape.first.right_le hBlock.piece.left_mem (Nat.pos_of_ne_zero hc)
  have hTop := hI.shape.cuts.le_top e hBlock.piece.right_mem
  have hLow := hBlock.low
  have hHigh := hBlock.high
  refine ⟨by omega, by omega, by omega⟩

theorem disjoint_of_blocks {c' e' q bytes' : Nat} (hRest : Rest r h B U)
    (hp : BlockAt r B c e p bytes) (hq : BlockAt r B c' e' q bytes') (hNe : c ≠ c') :
    BlocksApart r h p q := by
  have hLow := hp.low
  have hLow' := hq.low
  rw [BlocksApart, chunkEnd_eq hRest hp, chunkEnd_eq hRest hq]
  rcases hp.piece.apart hq.piece hNe with hOff | hOff
  · left
    omega
  · right
    omega

/-- The invariant gives what is promised between calls. -/
theorem MachineInv.good {m : Machine} (hM : MachineInv r m) : HeapGood r m := by
  obtain ⟨B, U, hRest, hL⟩ := hM
  refine ⟨?_, ?_, ?_⟩
  · obtain ⟨L, hI⟩ := hRest
    have hFree : B \ U = {c | c ∈ B ∧ chunkUsed r m.heap c = false} := by
      ext c
      exact and_congr_right fun hc => (hI.headers.unused_iff hc).symm
    refine ⟨B, L, hI.shape.cuts, hI.headers.size, hI.headers.left, ?_, hFree ▸ hI.lists⟩
    intro c d hP
    by_contra hNot
    rw [not_or] at hNot
    have hcU : c ∉ U := fun hU => hNot.1 ((hI.headers.used c hP.left_mem).mpr hU)
    have hdU : d ∉ U := fun hU => hNot.2 ((hI.headers.used d hP.right_mem).mpr hU)
    exact hI.shape.apart c d hP ⟨hP.left_mem, hcU⟩ ⟨hP.right_mem, hdU⟩
  · intro p hp
    obtain ⟨e, hBlock⟩ := hL.block p hp
    exact inHeap_of_block hRest hBlock (hL.inner p hp).1 Nat.one_pos
  · have hDistinct := hL.distinct
    rw [List.Nodup, List.pairwise_map] at hDistinct
    refine hDistinct.imp_of_mem ?_
    intro p q hp hq hNe
    obtain ⟨e, hBlock⟩ := hL.block p hp
    obtain ⟨e', hBlock'⟩ := hL.block q hq
    exact disjoint_of_blocks hRest hBlock hBlock' hNe

/-- A block that was just handed out is good. -/
theorem goodBlock_of_block {align : Nat} (hRest : Rest r h B U) (hL : LiveInv r B U (p :: live))
    (hBlock : BlockAt r B c e p bytes) (hPos : 0 < bytes) (hAlign : Respects r.cfg align p) :
    GoodBlock r h live align bytes p := by
  have hInner := (hL.inner p List.mem_cons_self).1
  rw [hBlock.id] at hInner
  refine .inr ⟨hAlign, inHeap_of_block hRest hBlock hInner hPos, ?_, ?_⟩
  · rw [chunkEnd_eq hRest hBlock]
    exact hBlock.high
  · intro q hq
    obtain ⟨e', hBlock'⟩ := hL.block q (.tail _ hq)
    apply disjoint_of_blocks hRest hBlock hBlock'
    have hDistinct := hL.distinct
    rw [List.map_cons, List.nodup_cons, hBlock.id] at hDistinct
    intro hEq
    exact hDistinct.1 (hEq ▸ List.mem_map_of_mem hq)

/-! ## One call -/

/-- What a request leaves behind. -/
theorem Outcome.step {ok : Nat → Prop} {res : ZHeap × Nat} {align : Nat}
    (hOut : Outcome r B U bytes ok res) (hL : LiveInv r B U live)
    (hOk : ∀ p, ok p → Respects r.cfg align p) :
    MachineInv r ⟨res.1, exchange live 0 res.2⟩ ∧ GoodBlock r res.1 live align bytes res.2 := by
  cases hOut with
  | none hRest =>
    refine ⟨⟨B, U, hRest, ?_⟩, .inl rfl⟩
    rw [exchange, if_pos rfl]
    exact hL
  | @block h B' c e p hRest hKeep hFree hBlock hPos hp =>
    have hNew := (hL.keep hKeep).add hRest hFree hBlock hPos
    have hLive : exchange live 0 p = p :: live := by
      rw [exchange, if_neg (Nat.pos_iff_ne_zero.mp hBlock.pos),
        List.erase_of_not_mem hL.zero_not_mem]
    refine ⟨⟨B', insert c U, hRest, ?_⟩, goodBlock_of_block hRest hNew hBlock hPos (hOk p hp)⟩
    rw [hLive]
    exact hNew

/-- What a resize leaves behind. -/
theorem ReallocOutcome.step {res : ZHeap × Nat} {align : Nat} (hp : p ∈ live)
    (hOut : ReallocOutcome r B U (memToChunkid r p) p align bytes res) (hL : LiveInv r B U live) :
    MachineInv r ⟨res.1, if bytes = 0 then live.erase p else exchange live p res.2⟩ ∧
      GoodBlock r res.1 (live.erase p) align bytes res.2 := by
  have hRemoved := hL.remove hp
  cases hOut with
  | refused hRest hPos =>
    refine ⟨⟨B, U, hRest, ?_⟩, .inl rfl⟩
    rw [if_neg (Nat.pos_iff_ne_zero.mp hPos), exchange, if_pos rfl]
    exact hL
  | @freed h B' hRest hKeep hZero =>
    refine ⟨⟨B', _, hRest, ?_⟩, .inl rfl⟩
    rw [if_pos hZero]
    exact hRemoved.keep hKeep
  | @inPlace h B' e hRest hKeep hBlock hPos hAlign =>
    have hUsed := (hL.owned hp).used
    have hU : insert (memToChunkid r p) (U \ {memToChunkid r p}) = U :=
      Set.insert_sdiff_self_of_mem hUsed
    have hNew := (hRemoved.keep hKeep).add (hU.symm ▸ hRest) (by simp) hBlock hPos
    rw [hU] at hNew
    refine ⟨⟨B', U, hRest, ?_⟩, goodBlock_of_block hRest hNew hBlock hPos hAlign⟩
    rw [if_neg (Nat.pos_iff_ne_zero.mp hPos), exchange,
      if_neg (Nat.pos_iff_ne_zero.mp hBlock.pos)]
    exact hNew
  | @moved h B' c' e q hRest hKeep hFree hBlock hPos hAlign =>
    have hNew := (hRemoved.keep hKeep).add hRest (fun hMem => hFree hMem.1) hBlock hPos
    refine ⟨⟨B', _, hRest, ?_⟩, goodBlock_of_block hRest hNew hBlock hPos hAlign⟩
    rw [if_neg (Nat.pos_iff_ne_zero.mp hPos), exchange,
      if_neg (Nat.pos_iff_ne_zero.mp hBlock.pos)]
    exact hNew

theorem respects_header (hp : p % chunkHeaderBytes r = 0) :
    Respects r.cfg (chunkHeaderBytes r) p := by
  right
  have hLow : r.cfg.lowBit (chunkHeaderBytes r) = chunkHeaderBytes r := by
    have hBits := r.cfg.sizeBits_eq
    rcases chunkHeaderBytes_cases (r := r) with hk | hk
    · rw [hk]
      exact lowBit_two_pow (a := 2) (by omega)
    · rw [hk]
      exact lowBit_two_pow (a := 3) (by omega)
  rw [hLow, if_pos rfl]
  exact hp

/-- A proper call keeps the invariant, and its result is good. -/
theorem MachineInv.step (hr : r.Sound) (hBase : 0 < r.chunkBuf) {m : Machine}
    (hM : MachineInv r m) {op : HeapOp} (hOp : Proper r m op) :
    MachineInv r (heapStep r m op) ∧ ResultOk r m op := by
  obtain ⟨B, U, hRest, hL⟩ := hM
  cases op with
  | alloc bytes => exact (sysHeapAlloc_spec hr hRest hOp).step hL fun p hp => respects_header hp
  | alignedAlloc align bytes =>
    exact (sysHeapAlignedAlloc_spec hr hRest hOp.1 hOp.2).step hL fun p hp => hp
  | alignedRealloc ptr align bytes =>
    obtain ⟨hPtr, hAlign, hFits⟩ := hOp
    by_cases hZero : ptr = 0
    · subst hZero
      have hIsAlign : IsAlign r.cfg align := by
        rcases hAlign with hEq | hEq
        · exact .inl hEq
        · exact .inr (.inl hEq)
      have hDef : sysHeapAlignedRealloc r m.heap 0 align bytes =
          sysHeapAlignedAlloc r m.heap align bytes := by
        rw [sysHeapAlignedRealloc, if_pos rfl]
      have hOut := sysHeapAlignedAlloc_spec hr hRest hIsAlign hFits
      rw [← hDef] at hOut
      obtain ⟨hInv, hGood⟩ := hOut.step hL fun p hp => hp
      have hErase : m.live.erase 0 = m.live := List.erase_of_not_mem hL.zero_not_mem
      refine ⟨?_, ?_⟩
      · show MachineInv r ⟨_, if bytes = 0 then m.live.erase 0 else _⟩
        by_cases hBytes : bytes = 0
        · -- a request for nothing gets nothing
          rw [if_pos hBytes, hErase]
          generalize sysHeapAlignedRealloc r m.heap 0 align bytes = res at hOut
          cases hOut with
          | none hRest' => exact ⟨B, U, hRest', hL⟩
          | block _ _ _ _ hPos _ => omega
        · rw [if_neg hBytes]
          exact hInv
      · show GoodBlock r _ (m.live.erase 0) align bytes _
        rw [hErase]
        exact hGood
    · have hp := hPtr.resolve_left hZero
      obtain ⟨e, hBlock⟩ := hL.block ptr hp
      exact (sysHeapAlignedRealloc_spec hr hBase hRest (hL.owned hp) hBlock hAlign hFits).step
        hp hL
  | free ptr =>
    refine ⟨?_, trivial⟩
    by_cases hZero : ptr = 0
    · subst hZero
      refine ⟨B, U, ?_, ?_⟩
      · show Rest r (sysHeapFree r m.heap 0) B U
        rw [sysHeapFree, if_pos rfl]
        exact hRest
      · show LiveInv r B U (m.live.erase 0)
        rw [List.erase_of_not_mem hL.zero_not_mem]
        exact hL
    · have hp := hOp.resolve_left hZero
      obtain ⟨B', hRest', hKeep⟩ := sysHeapFree_spec hr hRest (hL.owned hp) hZero rfl
      exact ⟨B', _, hRest', (hL.remove hp).keep hKeep⟩
  | write addr byte =>
    obtain ⟨p, hp, hLow, hHigh⟩ := hOp
    obtain ⟨e, hBlock⟩ := hL.block p hp
    rw [chunkEnd_eq hRest hBlock] at hHigh
    have hLow' := hBlock.low
    refine ⟨⟨B, U, Rest.write (h := m.heap) hBlock.piece (hL.owned hp).used ?_ rfl rfl hRest, hL⟩,
      trivial⟩
    intro k hk
    exact set_ne _ _ (by omega)

end Live

/-! ## Whole runs -/

/-- A step lemma that gives a property of each call gives it along the run. -/
theorem heap_run {r : Region} (hr : r.Sound) (hBase : 0 < r.chunkBuf) (ops : List HeapOp) :
    ∀ m, MachineInv r m → Admissible (heapStep r) (Proper r) m ops →
      Always (heapStep r) (HeapGood r) m ops ∧ Admissible (heapStep r) (ResultOk r) m ops := by
  induction ops with
  | nil =>
    intro m hM _
    exact ⟨hM.good, trivial⟩
  | cons op ops ih =>
    intro m hM hOps
    obtain ⟨hInv, hRes⟩ := hM.step hr hBase hOps.1
    obtain ⟨hAlways, hAdm⟩ := ih _ hInv hOps.2
    exact ⟨⟨hM.good, hAlways⟩, hRes, hAdm⟩

/-- The heap of a usable region at the start, before any block is given out. -/
theorem sysHeapInit_machine {k : HeapConfig} {mem bytes : Nat} {junk : ZHeap} {r : Region}
    {h : ZHeap} (hUsable : Usable k mem bytes)
    (hInit : sysHeapInit k mem bytes junk = some (r, h)) :
    r.Sound ∧ mem ≤ r.chunkBuf ∧ r.chunkBuf + 8 * r.endChunk ≤ mem + bytes ∧
      MachineInv r ⟨h, []⟩ := by
  obtain ⟨rfl, hAcc, hr, hRest⟩ := sysHeapInit_rest hUsable hInit
  obtain ⟨hFooter, hBytes⟩ := accepts_bytes hAcc
  obtain ⟨hStart, -, hTop, -⟩ := initRegion_ends hUsable hFooter hBytes
  refine ⟨hr, hStart, by omega, _, _, hRest, ?_⟩
  exact ⟨fun c => by simp, by simp, by simp, by simp⟩

/-- A heap made of a usable region keeps its structure, and gives out good blocks, in every run
of proper calls. -/
theorem sys_heap_runs (k : HeapConfig) (mem bytes : Nat) (junk : ZHeap) (r : Region) (h : ZHeap)
    (hUsable : Usable k mem bytes) (hInit : sysHeapInit k mem bytes junk = some (r, h))
    (ops : List HeapOp) (hOps : Admissible (heapStep r) (Proper r) ⟨h, []⟩ ops) :
    (mem ≤ r.chunkBuf ∧ r.chunkBuf + 8 * r.endChunk ≤ mem + bytes) ∧
      Always (heapStep r) (HeapGood r) ⟨h, []⟩ ops ∧
      Admissible (heapStep r) (ResultOk r) ⟨h, []⟩ ops := by
  obtain ⟨hr, hStart, hTop, hM⟩ := sysHeapInit_machine hUsable hInit
  have hPos := hUsable.mem_pos
  exact ⟨⟨hStart, hTop⟩, heap_run hr (by omega) ops _ hM hOps⟩

/-- A 32-bit build with the default options. -/
def config32 : HeapConfig := ⟨32, .inl rfl, false, false, false, false, 3⟩

/-- A 64-bit build with the default options. -/
def config64 : HeapConfig := ⟨64, .inr rfl, false, false, false, false, 3⟩

/-- Memory full of zeroes. -/
def zeroHeap : ZHeap := ⟨0#32, fun _ => 0, 0, 0, 0, fun _ => 0⟩

/-- The heap of a region, if it is accepted. -/
def newHeap (k : HeapConfig) (mem bytes : Nat) : ZHeap :=
  freeListAdd (initRegion k mem bytes)
    (initChunks (initRegion k mem bytes) (clearHeap (initRegion k mem bytes) zeroHeap))
    (chunk0Size (initRegion k mem bytes))

theorem sysHeapInit_newHeap {k : HeapConfig} {mem bytes : Nat} (hAcc : accepts k mem bytes = true) :
    sysHeapInit k mem bytes zeroHeap = some (initRegion k mem bytes, newHeap k mem bytes) := by
  rw [sysHeapInit, if_pos hAcc]
  rfl

/-- In a region of 256 bytes: two blocks, the second aligned to 32 with a rewind of 8, a write, a
resize in place and a release. -/
theorem sys_heap_runs_small :
    Always (heapStep (initRegion config32 0x1000 256)) (HeapGood (initRegion config32 0x1000 256))
      ⟨newHeap config32 0x1000 256, []⟩
      [.alloc 10, .alignedAlloc 0x28 20, .write 4145 7, .alignedRealloc 4140 4 12, .free 4140] :=
  (sys_heap_runs config32 0x1000 256 zeroHeap _ _ ⟨by decide, by decide, by decide⟩
    (sysHeapInit_newHeap (by decide +kernel))
    [.alloc 10, .alignedAlloc 0x28 20, .write 4145 7, .alignedRealloc 4140 4 12, .free 4140]
    ⟨by show _ ≤ _; decide +kernel,
      ⟨.inr (.inr ⟨5, by decide, 3, by decide, rfl⟩), by decide +kernel⟩,
      ⟨4140, by decide +kernel, by decide, by decide +kernel⟩,
      ⟨.inr (by decide +kernel), .inr ⟨2, by decide, rfl⟩, by decide +kernel⟩,
      .inr (by decide +kernel), trivial⟩).2.1

/-- Nine bytes at an odd address pass the assertions of a 64-bit build: one byte is left without
the footer, the start is rounded up past the end that is rounded down, and the number of units is
`-8 / 8`, cut to 32 bits.  The size of the free chunk does not fit in its field, and the chunk
after it is not the end marker. -/
theorem tiny_region_accepted :
    sysHeapInit config64 1 9 zeroHeap = some (initRegion config64 1 9, newHeap config64 1 9) ∧
      (initRegion config64 1 9).endChunk = 0xffffffff ∧
      ¬ HeapGood (initRegion config64 1 9) ⟨newHeap config64 1 9, []⟩ := by
  refine ⟨sysHeapInit_newHeap (by decide +kernel), by decide +kernel, ?_⟩
  rintro ⟨⟨B, L, hOk⟩, -⟩
  have hEnd : (initRegion config64 1 9).endChunk = 0xffffffff := by decide +kernel
  obtain ⟨d, hP⟩ := hOk.cuts.exists_right hOk.cuts.zero_mem (by rw [hEnd]; decide)
  have hFirst : d = 18 := by
    have hSize := hOk.size 0 d hP
    rw [show chunkSize (initRegion config64 1 9) (newHeap config64 1 9) 0 = 18 by
      decide +kernel] at hSize
    omega
  subst hFirst
  obtain ⟨e, hP'⟩ := hOk.cuts.exists_right hP.right_mem (by rw [hEnd]; decide)
  have hSecond : e = 0x7fffffff := by
    have hSize := hOk.size 18 e hP'
    rw [show chunkSize (initRegion config64 1 9) (newHeap config64 1 9) 18 = 0x7fffffed by
      decide +kernel] at hSize
    have hLt := hP'.lt
    omega
  subst hSecond
  have hLeft := hOk.left 18 _ hP'
  rw [show chunkField (initRegion config64 1 9) (newHeap config64 1 9) 0x7fffffff .leftSize = 0 by
    decide +kernel] at hLeft
  cases hLeft

end Zvm.Heap
