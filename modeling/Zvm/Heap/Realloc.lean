import Zvm.Heap.Alloc

/-!
# Freeing and resizing

`sys_heap_free` and `sys_heap_aligned_realloc`.  A block is resized where it is if it
has the alignment: its chunk gives up its tail, or takes what it needs from a free right
neighbour.  Otherwise its bytes are copied to a new block.

The callers own the bytes of their blocks.  `Inv.write` says that nothing they write there
changes the heap, which also covers the copy.
-/

namespace Zvm.Heap

open Zvm.Verified.Bytes Zvm.Verified.Pieces

section

variable (r : Region)

/-- `h->allocated_bytes -= ..` with `CONFIG_SYS_HEAP_RUNTIME_STATS`. -/
def subAllocatedBytes (h : ZHeap) (bytes : Nat) : ZHeap :=
  if r.cfg.runtimeStats then
    { h with allocatedBytes := r.cfg.sub h.allocatedBytes bytes }
  else h

/-- `increase_allocated_bytes`. -/
def addAllocatedBytes (h : ZHeap) (bytes : Nat) : ZHeap :=
  if r.cfg.runtimeStats then
    { h with
      allocatedBytes := r.cfg.size (h.allocatedBytes + bytes)
      maxAllocatedBytes := max h.maxAllocatedBytes (r.cfg.size (h.allocatedBytes + bytes)) }
  else h

/-- Mark a chunk as no longer used, and count it. -/
def unclaim (h : ZHeap) (c : Nat) : ZHeap :=
  subAllocatedBytes r (setChunkUsed r h c false)
    (chunkszToBytes r (chunkSize r (setChunkUsed r h c false) c))

/-- `sys_heap_free`. -/
def sysHeapFree (h : ZHeap) (mem : Nat) : ZHeap :=
  if mem = 0 then h else freeChunk r (unclaim r h (memToChunkid r mem)) (memToChunkid r mem)

/-- Shrink in place: the chunk keeps `need` units. -/
def shrink (h : ZHeap) (c need : Nat) : ZHeap :=
  let h := subAllocatedBytes r h (u32 (sub32 (chunkSize r h c) need * 8))
  freeChunk r (setChunkUsed r (splitChunks r h c (u32 (c + need))) c true) (u32 (c + need))

/-- Split the right chunk if it is larger than what is wanted of it. -/
def trim (h : ZHeap) (rc size : Nat) : ZHeap :=
  if size < chunkSize r h rc then splitTail r h rc (u32 (rc + size)) else h

/-- Expand: split the right chunk and append. -/
def expand (h : ZHeap) (c rc need : Nat) : ZHeap :=
  let size := sub32 need (chunkSize r h c)
  let h := addAllocatedBytes r h (u32 (size * 8))
  setChunkUsed r (mergeChunks r (trim r (freeListRemove r h rc) rc size) c rc) c true

/-- Fallback: allocate and copy. -/
def reallocMove (h : ZHeap) (ptr align bytes alignGap : Nat) : ZHeap × Nat :=
  let (h, ptr2) := sysHeapAlignedAlloc r h align bytes
  if ptr2 = 0 then (h, 0)
  else
    let prevSize :=
      r.cfg.sub (chunkszToBytes r (chunkSize r h (memToChunkid r ptr))) alignGap
    let h := { h with
      mem := copy h.mem (ptr2 - r.chunkBuf) (ptr - r.chunkBuf) (min prevSize bytes) }
    (sysHeapFree r h ptr, ptr2)

/-- The part of `sys_heap_aligned_realloc` after its special cases, for the chunk `c`. -/
def resize (h : ZHeap) (ptr align bytes c alignGap need : Nat) : ZHeap × Nat :=
  if align ≠ 0 ∧ ptr &&& (align - 1) ≠ 0 then reallocMove r h ptr align bytes alignGap
  else if chunkSize r h c = need then (h, ptr)
  else if need < chunkSize r h c then (shrink r h c need, ptr)
  else if chunkUsed r h (rightChunk r h c) = false ∧
      need ≤ u32 (chunkSize r h c + chunkSize r h (rightChunk r h c)) then
    (expand r h c (rightChunk r h c) need, ptr)
  else reallocMove r h ptr align bytes alignGap

/-- `sys_heap_aligned_realloc`. -/
def sysHeapAlignedRealloc (h : ZHeap) (ptr align bytes : Nat) : ZHeap × Nat :=
  if ptr = 0 then sysHeapAlignedAlloc r h align bytes
  else if bytes = 0 then (sysHeapFree r h ptr, 0)
  else if sizeTooBig r bytes = true then (h, 0)
  else
    let c := memToChunkid r ptr
    let alignGap := r.cfg.sub ptr (chunkMem r c)
    resize r h ptr align bytes c alignGap (bytesToChunksz r (r.cfg.size (bytes + alignGap)))

end

variable {r : Region} {h h' : ZHeap} {B U A : Set Nat} {L : Nat → List Nat} {c d e p bytes : Nat}

/-! ## Writing into a block -/

section Write

variable (hP : Piece B c d) (hcU : c ∈ U)
  (hMem : ∀ k, k < 8 * c + chunkHeaderBytes r ∨ 8 * d ≤ k → h'.mem k = h.mem k)
  (hBuckets : h'.buckets = h.buckets) (hAvail : h'.availBuckets = h.availBuckets)
include hP hcU hMem hBuckets hAvail

/-- The bytes of a used chunk after its header are no part of the heap's fields. -/
theorem Inv.write (hI : Inv r h B U A L) : Inv r h' B U A L := by
  have hcd := hP.lt
  have hHdr : chunkHeaderBytes r = 2 * r.word := by
    unfold chunkHeaderBytes Region.word
    split <;> rfl
  refine ⟨hI.shape, hI.headers.congr ?_, hI.lists.transfer (fun _ _ _ => Iff.rfl) ?_ hBuckets hAvail⟩
  · -- a header lies before the end of its own, or outside the chunk
    intro e he f hf
    have hf' : f.idx ≤ 1 := by
      cases f <;> simp [ChunkField.IsLink, ChunkField.idx] at hf ⊢
    have hOut : e ≤ c ∨ d ≤ e := by
      by_contra hNot
      exact hP.inside e (by omega) (by omega) he
    apply load_congr
    intro k hk hk'
    apply hMem
    unfold fieldAddr at hk hk'
    rcases word_cases (r := r) with ⟨hw, -⟩ | ⟨hw, -⟩ <;> rw [hw] at hk hk' hHdr <;> omega
  · intro b e he f _
    obtain ⟨heA, e', hPe, hMin, -⟩ := (hI.lists.mem b e).mp he
    have hec : e ≠ c := by
      rintro rfl
      exact (hI.shape.avail_sub heA).2 hcU
    have hOff := hPe.apart hP hec
    have hf : f.idx ≤ 3 := by cases f <;> simp [ChunkField.idx]
    rw [minChunkSize_eq] at hMin
    apply load_congr
    intro k hk hk'
    apply hMem
    unfold fieldAddr at hk hk'
    rcases word_cases (r := r) with ⟨hw, hBig⟩ | ⟨hw, hBig⟩ <;>
      rw [hw] at hk hk' hHdr <;> simp [hBig] at hMin <;> omega

theorem Rest.write (hRest : Rest r h B U) : Rest r h' B U := by
  obtain ⟨L, hI⟩ := hRest
  exact ⟨L, hI.write hP hcU hMem hBuckets hAvail⟩

end Write

/-! ## Freeing -/

theorem subAllocatedBytes_same (h : ZHeap) (bytes : Nat) :
    (subAllocatedBytes r h bytes).mem = h.mem ∧
      (subAllocatedBytes r h bytes).buckets = h.buckets ∧
      (subAllocatedBytes r h bytes).availBuckets = h.availBuckets := by
  unfold subAllocatedBytes
  split <;> exact ⟨rfl, rfl, rfl⟩

theorem addAllocatedBytes_same (h : ZHeap) (bytes : Nat) :
    (addAllocatedBytes r h bytes).mem = h.mem ∧
      (addAllocatedBytes r h bytes).buckets = h.buckets ∧
      (addAllocatedBytes r h bytes).availBuckets = h.availBuckets := by
  unfold addAllocatedBytes
  split <;> exact ⟨rfl, rfl, rfl⟩

/-- A used chunk that is not one of the two ends. -/
structure Owned (r : Region) (U : Set Nat) (c : Nat) : Prop where
  used : c ∈ U
  ne_zero : c ≠ 0
  ne_end : c ≠ r.endChunk

theorem sysHeapFree_spec (hr : r.Sound) (hRest : Rest r h B U) (hc : Owned r U c) (hp : p ≠ 0)
    (hId : memToChunkid r p = c) :
    ∃ B', Rest r (sysHeapFree r h p) B' (U \ {c}) ∧ KeepsUsed (U \ {c}) B B' := by
  obtain ⟨L, hI⟩ := hRest
  have hcB := hI.shape.used_sub hc.used
  have hUnused : Inv r (setChunkUsed r h c false) B (U \ {c}) (B \ U) L :=
    hI.setUsed hr hcB (fun hA => hA.2 hc.used) hc.ne_zero hc.ne_end
      (fun e he => by simp [he]) (by simp)
  obtain ⟨hMem, hBuckets, hAvail⟩ := subAllocatedBytes_same (r := r) (setChunkUsed r h c false)
    (chunkszToBytes r (chunkSize r (setChunkUsed r h c false) c))
  have hA : B \ U = (B \ (U \ {c})) \ {c} := by
    ext e
    have hcU := hc.used
    by_cases hec : e = c <;> simp [hec, hcU]
  rw [hA] at hUnused
  have hLoose : Loose r (unclaim r h c) B (U \ {c}) c :=
    ⟨⟨L, hUnused.of_same hMem hBuckets hAvail⟩, hcB, by simp⟩
  obtain ⟨B', hRest', hKeep⟩ := hLoose.freeChunk hr
  refine ⟨B', ?_, hKeep⟩
  rw [sysHeapFree, if_neg hp, hId]
  exact hRest'

/-! ## Resizing in place -/

/-- Marking a chunk as used again that a split or a merge has cleared. -/
theorem Inv.reclaim (hr : r.Sound) (hI : Inv r h B (U \ {c}) A L) (hc : Owned r U c) (hcB : c ∈ B)
    (hcA : c ∉ A) : Inv r (setChunkUsed r h c true) B U A L :=
  hI.setUsed hr hcB hcA hc.ne_zero hc.ne_end (fun e he => by simp [he]) (by simp [hc.used])

theorem shrink_spec (hr : r.Sound) (hRest : Rest r h B U) (hc : Owned r U c) (hP : Piece B c d)
    {need : Nat} (hPos : 0 < need) (hLess : need < d - c) :
    ∃ B', Rest r (shrink r h c need) B' U ∧ KeepsUsed (U \ {c}) B B' ∧
      Piece B' c (c + need) := by
  obtain ⟨L, hI⟩ := hRest
  have hcd := hP.lt
  have hdTop := hI.shape.cuts.le_top d hP.right_mem
  have hEnd := hr.end_lt_u32
  obtain ⟨hMem, hBuckets, hAvail⟩ := subAllocatedBytes_same (r := r) h
    (u32 (sub32 (chunkSize r h c) need * 8))
  have hI₀ := hI.of_same hMem hBuckets hAvail
  have hcx : c < c + need := by omega
  have hxd : c + need < d := by omega
  have hxB : c + need ∉ B := hP.inside _ hcx hxd
  have hxU : c + need ∉ U := fun hU => hxB (hI.shape.used_sub hU)
  have hSplit := (hI₀.split hr hP hcx hxd (fun hA => hA.2 hc.used) hc.ne_zero).reclaim hr hc
    (.inr hP.left_mem) (fun hA => hA.2 hc.used)
  have hA : B \ U = (insert (c + need) B \ U) \ {c + need} := by
    ext e
    by_cases hex : e = c + need <;> simp [hex, hxB]
  rw [hA] at hSplit
  have hLoose : Loose r (setChunkUsed r (splitChunks r (subAllocatedBytes r h
      (u32 (sub32 (chunkSize r h c) need * 8))) c (c + need)) c true) (insert (c + need) B) U
      (c + need) := ⟨⟨L, hSplit⟩, .inl rfl, hxU⟩
  obtain ⟨B', hRest', hKeep⟩ := hLoose.freeChunk hr
  have hPieces := piece_insert_iff hP hcx hxd
  refine ⟨B', ?_, ?_, ?_⟩
  · rw [shrink]
    simp only [u32_of_lt (show c + need < 2 ^ 32 by omega)]
    exact hRest'
  · intro u hu v hPu
    exact hKeep u hu.1 v ((hPieces u v).mpr (.inl ⟨hPu, hu.2⟩))
  · exact hKeep c hc.used _ ((hPieces c (c + need)).mpr (.inr (.inl ⟨rfl, rfl⟩)))

/-- What is left of the right chunk after the part that is not wanted was given back. -/
theorem trim_spec (hr : r.Sound) (hc : Loose r h B U c) (hRight : ∀ e, Piece B c e → e ∈ U)
    (hP : Piece B c d) {size : Nat} (hPos : 0 < size) (hLe : size ≤ d - c) :
    ∃ B', Loose r (trim r h c size) B' U c ∧ Piece B' c (c + size) ∧ KeepsUsed U B B' ∧
      ∀ e, Piece B e c → Piece B' e c := by
  obtain ⟨L, hI⟩ := hc.inv
  have hcd := hP.lt
  have hdTop := hI.shape.cuts.le_top d hP.right_mem
  have hEnd := hr.end_lt_u32
  rw [trim, hI.headers.size c d hP]
  by_cases hLess : size < d - c
  · rw [if_pos hLess, u32_of_lt (by omega)]
    obtain ⟨hLoose, hPl⟩ := hc.splitTail hr hRight hP (show c < c + size by omega) (by omega)
    refine ⟨_, hLoose, hPl, keepsUsed_insert hP (by omega) (by omega) hc.free, ?_⟩
    intro e hPe
    refine (piece_insert_iff hP (by omega) (by omega) e c).mpr (.inl ⟨hPe, ?_⟩)
    exact Nat.ne_of_lt hPe.lt
  · rw [if_neg hLess]
    have hEq : d = c + size := by omega
    exact ⟨B, hc, hEq ▸ hP, fun _ _ _ hP => hP, fun _ hPe => hPe⟩

theorem expand_spec (hr : r.Sound) (hRest : Rest r h B U) (hc : Owned r U c) (hP : Piece B c d)
    (hPd : Piece B d e) (hdU : d ∉ U) {need : Nat} (hMore : d - c < need) (hLe : need ≤ e - c) :
    ∃ B', Rest r (expand r h c d need) B' U ∧ KeepsUsed (U \ {c}) B B' ∧
      Piece B' c (c + need) := by
  obtain ⟨L, hI⟩ := hRest
  have hcd := hP.lt
  have hde := hPd.lt
  have heTop := hI.shape.cuts.le_top e hPd.right_mem
  have hEnd := hr.end_lt_u32
  obtain ⟨hMem, hBuckets, hAvail⟩ := addAllocatedBytes_same (r := r) h
    (u32 (sub32 need (chunkSize r h c) * 8))
  have hI₀ := hI.of_same hMem hBuckets hAvail
  have hSize : sub32 need (chunkSize r h c) = need - (d - c) := by
    rw [hI.headers.size c d hP, sub32_of_le (by omega) (by omega)]
  -- the right chunk is taken out of its list and cut to what is wanted
  have hdA : d ∈ B \ U := ⟨hPd.left_mem, hdU⟩
  obtain ⟨L₁, hI₁⟩ := hI₀.remove hr hdA
  have hLoose₁ : Loose r (freeListRemove r (addAllocatedBytes r h
      (u32 (sub32 need (chunkSize r h c) * 8))) d) B U d := ⟨⟨L₁, hI₁⟩, hPd.left_mem, hdU⟩
  have hRight : ∀ x, Piece B d x → x ∈ U := by
    intro x hPx
    by_contra hNot
    exact hI.shape.apart d x hPx hdA ⟨hPx.right_mem, hNot⟩
  obtain ⟨B₂, hLoose₂, hPd₂, hKeep₂, hLeft₂⟩ :=
    trim_spec hr hLoose₁ hRight hPd (show 0 < need - (d - c) by omega) (by omega)
  obtain ⟨L₂, hI₂⟩ := hLoose₂.inv
  have hPc₂ : Piece B₂ c d := hLeft₂ c hP
  have hMerged := hI₂.merge hr hPc₂ hPd₂ (fun hA => hA.1.2 hc.used) (by simp) hc.ne_zero
  have hU : U \ {c, d} = U \ {c} := by
    ext x
    by_cases hxd : x = d <;> simp [hxd, hdU]
  rw [hU, sdiff_right_comm] at hMerged
  have hDone := hMerged.reclaim hr hc ⟨hPc₂.left_mem, Nat.ne_of_lt hcd⟩ (fun hA => hA.2 hc.used)
  have hPieces := piece_erase_iff hPc₂ hPd₂
  refine ⟨B₂ \ {d}, ⟨L₂, ?_⟩, ?_, ?_⟩
  · rw [expand, hSize]
    rw [hSize] at hDone
    exact hDone
  · intro u hu v hPu
    refine (hPieces u v).mpr (.inl ⟨hKeep₂ u hu.1 v hPu, hu.2, ?_⟩)
    rintro rfl
    exact hdU hu.1
  · refine (hPieces c (c + need)).mpr (.inr ⟨rfl, ?_⟩)
    omega

/-! ## The outcomes of a resize -/

/-- The outcome of `sys_heap_aligned_realloc` for the block at `ptr` in the chunk `c`. -/
inductive ReallocOutcome (r : Region) (B U : Set Nat) (c ptr align bytes : Nat) :
    ZHeap × Nat → Prop
  | refused {h : ZHeap} (hRest : Rest r h B U) (hPos : 0 < bytes) :
      ReallocOutcome r B U c ptr align bytes (h, 0)
  | freed {h : ZHeap} {B' : Set Nat} (hRest : Rest r h B' (U \ {c}))
      (hKeep : KeepsUsed (U \ {c}) B B') (hZero : bytes = 0) :
      ReallocOutcome r B U c ptr align bytes (h, 0)
  | inPlace {h : ZHeap} {B' : Set Nat} {e : Nat} (hRest : Rest r h B' U)
      (hKeep : KeepsUsed (U \ {c}) B B') (hBlock : BlockAt r B' c e ptr bytes)
      (hPos : 0 < bytes) (hAlign : Respects r.cfg align ptr) :
      ReallocOutcome r B U c ptr align bytes (h, ptr)
  | moved {h : ZHeap} {B' : Set Nat} {c' e p : Nat} (hRest : Rest r h B' (insert c' (U \ {c})))
      (hKeep : KeepsUsed (U \ {c}) B B') (hFree : c' ∉ U) (hBlock : BlockAt r B' c' e p bytes)
      (hPos : 0 < bytes) (hAlign : Respects r.cfg align p) :
      ReallocOutcome r B U c ptr align bytes (h, p)

theorem reallocMove_spec (hr : r.Sound) (hRest : Rest r h B U) (hc : Owned r U c)
    (hId : memToChunkid r p = c) (hp : p ≠ 0) {align : Nat} (hPos : 0 < bytes)
    (hAlign : IsAlign r.cfg align) (hFits : requestBytes r align bytes ≤ 8 * r.endChunk)
    (alignGap : Nat) :
    ReallocOutcome r B U c p align bytes (reallocMove r h p align bytes alignGap) := by
  have hOut := sysHeapAlignedAlloc_spec hr hRest hAlign hFits
  unfold reallocMove
  generalize sysHeapAlignedAlloc r h align bytes = res at hOut
  cases hOut with
  | none hRest' => exact .refused hRest' hPos
  | @block h₁ B₁ c' e q hRest₁ hKeep₁ hFree hBlock _ hOk =>
    have hq : q ≠ 0 := Nat.pos_iff_ne_zero.mp hBlock.pos
    simp only [if_neg hq]
    have hLow := hBlock.low
    have hHigh := hBlock.high
    -- the copy stays inside the new block
    have hCopied : Rest r { h₁ with
        mem := copy h₁.mem (q - r.chunkBuf) (p - r.chunkBuf)
          (min (r.cfg.sub (chunkszToBytes r (chunkSize r h₁ (memToChunkid r p))) alignGap)
            bytes) } B₁ (insert c' U) := by
      refine Rest.write (h := h₁) hBlock.piece (.inl rfl) ?_ rfl rfl hRest₁
      intro k hk
      apply copy_apply_of_outside
      omega
    have hOwned : Owned r (insert c' U) c := ⟨.inr hc.used, hc.ne_zero, hc.ne_end⟩
    obtain ⟨B₂, hRest₂, hKeep₂⟩ := sysHeapFree_spec hr hCopied hOwned hp hId
    have hNe : c' ≠ c := by
      rintro rfl
      exact hFree hc.used
    have hU : insert c' U \ {c} = insert c' (U \ {c}) := by
      rw [Set.insert_sdiff_of_notMem _ (by simpa using hNe)]
    rw [hU] at hRest₂ hKeep₂
    refine .moved hRest₂ ?_ hFree ⟨?_, hLow, hHigh, hBlock.id⟩ hPos hOk
    · intro u hu v hPu
      exact hKeep₂ u (.inr hu) v (hKeep₁ u hu.1 v hPu)
    · exact hKeep₂ c' (.inl rfl) e hBlock.piece

/-- The check of `ptr` against the alignment. -/
theorem respects_of_and_eq_zero {align ptr : Nat}
    (hAlign : align = 0 ∨ ∃ a < r.cfg.sizeBits, align = 2 ^ a)
    (hCheck : ¬ (align ≠ 0 ∧ ptr &&& (align - 1) ≠ 0)) : Respects r.cfg align ptr := by
  rcases hAlign with rfl | ⟨a, ha, rfl⟩
  · exact .inl rfl
  · right
    rw [if_pos (lowBit_two_pow ha).symm, ← Nat.and_two_pow_sub_one_eq_mod]
    by_contra hNot
    exact hCheck ⟨Nat.pos_iff_ne_zero.mp (Nat.two_pow_pos a), hNot⟩

/-- The header is part of the request. -/
theorem le_requestBytes {align : Nat} (hAlign : align = 0 ∨ ∃ a < r.cfg.sizeBits, align = 2 ^ a) :
    chunkHeaderBytes r + bytes ≤ requestBytes r align bytes := by
  have hLow : r.cfg.lowBit align = align := by
    rcases hAlign with rfl | ⟨a, ha, rfl⟩
    · exact lowBit_zero r.cfg
    · exact lowBit_two_pow ha
  rw [requestBytes, hLow, if_neg (by simp)]
  split <;> omega

theorem sysHeapAlignedRealloc_spec (hr : r.Sound) (hBase : 0 < r.chunkBuf) (hRest : Rest r h B U)
    (hc : Owned r U c) (hBlock : BlockAt r B c d p 1) {align : Nat}
    (hAlign : align = 0 ∨ ∃ a < r.cfg.sizeBits, align = 2 ^ a)
    (hFits : requestBytes r align bytes ≤ 8 * r.endChunk) :
    ReallocOutcome r B U c p align bytes (sysHeapAlignedRealloc r h p align bytes) := by
  have hp : p ≠ 0 := Nat.pos_iff_ne_zero.mp hBlock.pos
  have hLow := hBlock.low
  have hHigh := hBlock.high
  have hP := hBlock.piece
  have hcd := hP.lt
  have hId := hBlock.id
  obtain ⟨L, hI⟩ := hRest
  have hdTop := hI.shape.cuts.le_top d hP.right_mem
  rw [sysHeapAlignedRealloc, if_neg hp, hId]
  by_cases hZero : bytes = 0
  · rw [if_pos hZero]
    obtain ⟨B', hRest', hKeep⟩ := sysHeapFree_spec hr ⟨L, hI⟩ hc hp hId
    exact .freed hRest' hKeep hZero
  · have hPos : 0 < bytes := Nat.pos_of_ne_zero hZero
    rw [if_neg hZero]
    by_cases hTooBig : sizeTooBig r bytes = true
    · rw [if_pos hTooBig]
      exact .refused ⟨L, hI⟩ hPos
    · rw [if_neg hTooBig]
      have hIsAlign : IsAlign r.cfg align := by
        rcases hAlign with hEq | hEq
        · exact .inl hEq
        · exact .inr (.inl hEq)
      have hMove := fun gap =>
        reallocMove_spec hr ⟨L, hI⟩ hc hId hp hPos hIsAlign hFits gap
      have hTop := hr.top_lt
      have hEnd := hr.end_lt_u32
      have hAl := hr.aligned
      have hRequest : chunkHeaderBytes r + bytes ≤ requestBytes r align bytes :=
        le_requestBytes hAlign
      have hHdr := chunkHeaderBytes_cases (r := r)
      rw [sizeTooBig, decide_eq_true_eq, Nat.not_le] at hTooBig
      have hGap : r.cfg.sub p (chunkMem r c) = p - (r.chunkBuf + 8 * c + chunkHeaderBytes r) := by
        rw [chunkMem_eq hr (by omega), HeapConfig.sub_of_le hLow (by omega)]
      have hGapLt : p - (r.chunkBuf + 8 * c + chunkHeaderBytes r) < 8 := by
        rw [memToChunkid_eq hr (by omega) (by omega)] at hId
        omega
      have hNeed : bytesToChunksz r (r.cfg.size (bytes + r.cfg.sub p (chunkMem r c))) =
          (p - r.chunkBuf - 8 * c + bytes + 7) / 8 := by
        rw [hGap]
        generalize hg : p - (r.chunkBuf + 8 * c + chunkHeaderBytes r) = g at hGapLt
        have hSum : r.cfg.size (bytes + g) = bytes + g := HeapConfig.size_of_lt (by omega)
        have hSum' : r.cfg.size (chunkHeaderBytes r + (bytes + g)) =
            chunkHeaderBytes r + (bytes + g) := HeapConfig.size_of_lt (by omega)
        rw [bytesToChunksz, chunksz, hSum, hSum', HeapConfig.size_of_lt (by omega),
          u32_of_lt (by omega)]
        omega
      simp only
      rw [hNeed]
      generalize hn : (p - r.chunkBuf - 8 * c + bytes + 7) / 8 = need
      have hSizeC := hI.headers.size c d hP
      have hFit : ∀ {B' : Set Nat} {e : Nat}, Piece B' c e → c + need ≤ e →
          BlockAt r B' c e p bytes := fun hPe he => ⟨hPe, hLow, by omega, hBlock.id⟩
      rw [resize, hI.rightChunk_eq hr hP, hSizeC]
      by_cases hCheck : align ≠ 0 ∧ p &&& (align - 1) ≠ 0
      · rw [if_pos hCheck]
        exact hMove _
      · have hRespects := respects_of_and_eq_zero hAlign hCheck
        rw [if_neg hCheck]
        by_cases hSame : d - c = need
        · rw [if_pos hSame]
          exact .inPlace ⟨L, hI⟩ (fun _ _ _ hP => hP) (hFit hP (by omega)) hPos hRespects
        · rw [if_neg hSame]
          by_cases hLess : need < d - c
          · rw [if_pos hLess]
            obtain ⟨B', hRest', hKeep, hP'⟩ :=
              shrink_spec hr ⟨L, hI⟩ hc hP (show 0 < need by omega) hLess
            exact .inPlace hRest' hKeep (hFit hP' (Nat.le_refl _)) hPos hRespects
          · rw [if_neg hLess]
            by_cases hGrow : chunkUsed r h d = false ∧
                need ≤ u32 (d - c + chunkSize r h d)
            · rw [if_pos hGrow]
              have hdU := (hI.headers.unused_iff hP.right_mem).mp hGrow.1
              obtain ⟨e, hPd⟩ := hI.exists_piece hP.right_mem hdU
              have hde := hPd.lt
              have heTop := hI.shape.cuts.le_top e hPd.right_mem
              have hLe := hGrow.2
              rw [hI.headers.size d e hPd, u32_of_lt (by omega)] at hLe
              obtain ⟨B', hRest', hKeep, hP'⟩ :=
                expand_spec hr ⟨L, hI⟩ hc hP hPd hdU (show d - c < need by omega) (by omega)
              exact .inPlace hRest' hKeep (hFit hP' (Nat.le_refl _)) hPos hRespects
            · rw [if_neg hGrow]
              exact hMove _

end Zvm.Heap
