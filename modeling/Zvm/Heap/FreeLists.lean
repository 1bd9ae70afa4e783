import Zvm.Heap.Chunks
import Zvm.Verified.BitField
import Zvm.Verified.CircularList
import Mathlib.Data.Nat.Log

/-!
# Free lists, splitting and merging

The inner functions of `lib/heap/heap.c`: a free chunk is put into and taken out
of the circular list of its bucket, a chunk is split in two and two neighbours are
merged into one.

Between these calls the heap is not at rest: a chunk that is being worked on is
neither used nor in a list.  `Inv` therefore has three sets, the cut points `B`, the
used chunks `U` and the available chunks `A`, which are those the lists hold.  Each
function below is one step between such states, and a heap is at rest when every
chunk that is not used is available.
-/

namespace Zvm.Heap

open Zvm.Verified.FunArray Zvm.Verified.Pieces Zvm.Verified.CircularList Zvm.Verified.BitField

section

variable (r : Region)

/-! ## The functions -/

/-- `h->free_bytes -= ..` with `CONFIG_SYS_HEAP_RUNTIME_STATS`. -/
def subFreeBytes (h : ZHeap) (c : Nat) : ZHeap :=
  if r.cfg.runtimeStats then
    { h with freeBytes := r.cfg.sub h.freeBytes (chunkszToBytes r (chunkSize r h c)) }
  else h

/-- `h->free_bytes += ..` with `CONFIG_SYS_HEAP_RUNTIME_STATS`. -/
def addFreeBytes (h : ZHeap) (c : Nat) : ZHeap :=
  if r.cfg.runtimeStats then
    { h with freeBytes := r.cfg.size (h.freeBytes + chunkszToBytes r (chunkSize r h c)) }
  else h

/-- The last chunk of a bucket goes: `h->avail_buckets &= ~BIT(bidx); b->next = 0`. -/
def emptyBucket (h : ZHeap) (bidx : Nat) : ZHeap :=
  { h with
    availBuckets := h.availBuckets &&& ~~~(1#32 <<< bidx)
    buckets := set h.buckets bidx 0 }

/-- `b->next = c`. -/
def setBucket (h : ZHeap) (bidx c : Nat) : ZHeap := { h with buckets := set h.buckets bidx c }

/-- The first chunk of a bucket: `h->avail_buckets |= BIT(bidx); b->next = c`. -/
def openBucket (h : ZHeap) (bidx c : Nat) : ZHeap :=
  { h with
    availBuckets := h.availBuckets ||| 1#32 <<< bidx
    buckets := set h.buckets bidx c }

/-- `free_list_remove_bidx`. -/
def freeListRemoveBidx (h : ZHeap) (c bidx : Nat) : ZHeap :=
  subFreeBytes r
    (if nextFreeChunk r h c = c then emptyBucket h bidx
     else
      setPrevFreeChunk r
        (setNextFreeChunk r (setBucket h bidx (nextFreeChunk r h c)) (prevFreeChunk r h c)
          (nextFreeChunk r h c))
        (nextFreeChunk r h c) (prevFreeChunk r h c))
    c

/-- `free_list_remove`. -/
def freeListRemove (h : ZHeap) (c : Nat) : ZHeap :=
  if soloFreeHeader r h c then h else freeListRemoveBidx r h c (bucketIdx r (chunkSize r h c))

/-- The new links when `c` goes in between `first` and `second`. -/
def linkBefore (h : ZHeap) (c first second : Nat) : ZHeap :=
  setPrevFreeChunk r
    (setNextFreeChunk r (setNextFreeChunk r (setPrevFreeChunk r h c first) c second) first c)
    second c

/-- `free_list_add_bidx`. -/
def freeListAddBidx (h : ZHeap) (c bidx : Nat) : ZHeap :=
  addFreeBytes r
    (if h.buckets bidx = 0 then
      setNextFreeChunk r (setPrevFreeChunk r (openBucket h bidx c) c c) c c
     else linkBefore r h c (prevFreeChunk r h (h.buckets bidx)) (h.buckets bidx))
    c

/-- `free_list_add`. -/
def freeListAdd (h : ZHeap) (c : Nat) : ZHeap :=
  if soloFreeHeader r h c then h else freeListAddBidx r h c (bucketIdx r (chunkSize r h c))

/-- The sizes on both sides of the new border in `split_chunks`, before the chunk after it is
told. -/
def splitSizes (h : ZHeap) (lc rc : Nat) : ZHeap :=
  setLeftChunkSize r
    (setChunkSize r (setChunkSize r h lc (sub32 rc lc)) rc
      (sub32 (chunkSize r h lc) (sub32 rc lc)))
    rc (sub32 rc lc)

/-- `split_chunks`. -/
def splitChunks (h : ZHeap) (lc rc : Nat) : ZHeap :=
  setLeftChunkSize r (splitSizes r h lc rc) (rightChunk r (splitSizes r h lc rc) rc)
    (sub32 (chunkSize r h lc) (sub32 rc lc))

/-- `merge_chunks`. -/
def mergeChunks (h : ZHeap) (lc rc : Nat) : ZHeap :=
  setLeftChunkSize r (setChunkSize r h lc (u32 (chunkSize r h lc + chunkSize r h rc)))
    (rightChunk r (setChunkSize r h lc (u32 (chunkSize r h lc + chunkSize r h rc))) rc)
    (u32 (chunkSize r h lc + chunkSize r h rc))

/-- The first half of `free_chunk`: merge with a free right chunk. -/
def mergeRight (h : ZHeap) (c : Nat) : ZHeap :=
  if chunkUsed r h (rightChunk r h c) then h
  else
    mergeChunks r (freeListRemove r h (rightChunk r h c)) c
      (rightChunk r (freeListRemove r h (rightChunk r h c)) c)

/-- The second half of `free_chunk`: merge with a free left chunk, and the chunk that results. -/
def mergeLeft (h : ZHeap) (c : Nat) : ZHeap × Nat :=
  if chunkUsed r h (leftChunk r h c) then (h, c)
  else
    let h' := freeListRemove r h (leftChunk r h c)
    let h'' := mergeChunks r h' (leftChunk r h' c) c
    (h'', leftChunk r h'' c)

/-- `free_chunk`. -/
def freeChunk (h : ZHeap) (c : Nat) : ZHeap :=
  freeListAdd r (mergeLeft r (mergeRight r h c) c).1 (mergeLeft r (mergeRight r h c) c).2

/-! ## The invariant -/

/-- `sizeof(struct z_heap)`. -/
def HeapConfig.sizeofZHeap (k : HeapConfig) : Nat :=
  if k.runtimeStats then 16 + 3 * (k.sizeBits / 8) else 16

/-- `nb_buckets`. -/
def nbBuckets : Nat := bucketIdx r r.endChunk + 1

/-- `chunk0_size`. -/
def chunk0Size : Nat := chunksz r.cfg (r.cfg.sizeofZHeap + nbBuckets r * 4)

/-- The heap lies in the address space, its sizes fit in the fields, and it has a chunk. -/
structure Region.Sound : Prop where
  end_lt : 2 * r.endChunk + 1 < 256 ^ r.word
  aligned : r.chunkBuf % 8 = 0
  top_le : r.chunkBuf + 8 * r.endChunk + chunkHeaderBytes r ≤ 2 ^ r.cfg.sizeBits
  room : chunk0Size r + minChunkSize r ≤ r.endChunk

/-- The bucket lists `L` hold exactly the chunks of `A` that have room for links. -/
structure Lists (h : ZHeap) (B A : Set Nat) (L : Nat → List Nat) : Prop where
  ring : ∀ b, Ring (nextFreeChunk r h) (prevFreeChunk r h) (L b)
  nodup : ∀ b, (L b).Nodup
  mem : ∀ b c, c ∈ L b ↔
    c ∈ A ∧ ∃ d, Piece B c d ∧ minChunkSize r ≤ d - c ∧ bucketIdx r (d - c) = b
  head : ∀ b ≤ bucketIdx r r.endChunk, h.buckets b = (L b).headD 0
  avail : ∀ b, h.availBuckets.getLsbD b = true ↔ L b ≠ []

/-- The headers say what the sets say. -/
structure Headers (h : ZHeap) (B U : Set Nat) : Prop where
  size : ∀ c d, Piece B c d → chunkSize r h c = d - c
  left : ∀ c d, Piece B c d → chunkField r h d .leftSize = d - c
  used : ∀ c ∈ B, chunkUsed r h c = true ↔ c ∈ U

/-- The three sets fit together. -/
structure Shape (B U A : Set Nat) : Prop where
  cuts : Cuts r.endChunk B
  first : Piece B 0 (chunk0Size r)
  used_sub : U ⊆ B
  zero_used : 0 ∈ U
  top_used : r.endChunk ∈ U
  avail_sub : A ⊆ B \ U
  apart : ∀ c d, Piece B c d → c ∈ A → d ∉ A

/-- A state of the heap between two of its functions. -/
structure Inv (h : ZHeap) (B U A : Set Nat) (L : Nat → List Nat) : Prop where
  shape : Shape r B U A
  headers : Headers r h B U
  lists : Lists r h B A L

end

variable {r : Region} {h h' : ZHeap} {B U A : Set Nat} {L : Nat → List Nat}

/-! ## Sizes -/

theorem Region.Sound.end_lt_u32 (hr : r.Sound) : 2 * r.endChunk + 1 < 2 ^ 32 := by
  have hEnd := hr.end_lt
  rcases word_cases (r := r) with ⟨hw, -⟩ | ⟨hw, -⟩ <;> rw [hw] at hEnd <;> omega

/-- A chunk number, a size and a size with its flag fit in a field. -/
theorem Region.Sound.fits (hr : r.Sound) {v : Nat} (hv : v ≤ 2 * r.endChunk + 1) :
    v % 256 ^ r.word = v := Nat.mod_eq_of_lt (by have := hr.end_lt; omega)

theorem minChunkSize_pos : 0 < minChunkSize r := by
  rw [minChunkSize_eq]
  split <;> omega

theorem bucketIdx_of_le {sz : Nat} (hMin : minChunkSize r ≤ sz) (hSz : sz < 2 ^ 32) :
    bucketIdx r sz = Nat.log2 (sz - minChunkSize r + 1) := by
  have hPos := minChunkSize_pos (r := r)
  rw [bucketIdx, sub32_of_le hMin hSz, u32_of_lt (by omega)]

theorem bucketIdx_mono {x y : Nat} (hMin : minChunkSize r ≤ x) (hxy : x ≤ y) (hy : y < 2 ^ 32) :
    bucketIdx r x ≤ bucketIdx r y := by
  rw [bucketIdx_of_le hMin (by omega), bucketIdx_of_le (by omega) hy]
  rw [Nat.log2_eq_log_two, Nat.log2_eq_log_two]
  exact Nat.log_mono_right (by omega)

theorem bucketIdx_lt (sz : Nat) : bucketIdx r sz < 32 := by
  have hLt : u32 (sub32 sz (minChunkSize r) + 1) < 2 ^ 32 := Nat.mod_lt _ (by norm_num)
  rw [bucketIdx]
  by_cases hZero : u32 (sub32 sz (minChunkSize r) + 1) = 0
  · rw [hZero, Nat.log2_zero]
    norm_num
  · exact (Nat.log2_lt hZero).mpr hLt

/-! ## Counters and buckets leave the fields alone -/

@[simp]
theorem subFreeBytes_mem (h : ZHeap) (c : Nat) : (subFreeBytes r h c).mem = h.mem := by
  unfold subFreeBytes
  split <;> rfl

@[simp]
theorem subFreeBytes_buckets (h : ZHeap) (c : Nat) : (subFreeBytes r h c).buckets = h.buckets := by
  unfold subFreeBytes
  split <;> rfl

@[simp]
theorem subFreeBytes_availBuckets (h : ZHeap) (c : Nat) :
    (subFreeBytes r h c).availBuckets = h.availBuckets := by
  unfold subFreeBytes
  split <;> rfl

@[simp]
theorem addFreeBytes_mem (h : ZHeap) (c : Nat) : (addFreeBytes r h c).mem = h.mem := by
  unfold addFreeBytes
  split <;> rfl

@[simp]
theorem addFreeBytes_buckets (h : ZHeap) (c : Nat) : (addFreeBytes r h c).buckets = h.buckets := by
  unfold addFreeBytes
  split <;> rfl

@[simp]
theorem addFreeBytes_availBuckets (h : ZHeap) (c : Nat) :
    (addFreeBytes r h c).availBuckets = h.availBuckets := by
  unfold addFreeBytes
  split <;> rfl

theorem chunkField_of_mem_eq (hMem : h'.mem = h.mem) (c : Nat) (f : ChunkField) :
    chunkField r h' c f = chunkField r h c f := by
  unfold chunkField
  rw [hMem]

/-! ## Frames -/

/-- The headers of the division are the same in both heaps. -/
def SameHeaders (r : Region) (B : Set Nat) (h h' : ZHeap) : Prop :=
  ∀ c ∈ B, ∀ f : ChunkField, ¬ f.IsLink → chunkField r h' c f = chunkField r h c f

theorem Headers.congr (hH : Headers r h B U) (hSame : SameHeaders r B h h') : Headers r h' B U := by
  have hSize : ∀ c ∈ B, chunkField r h' c .sizeAndUsed = chunkField r h c .sizeAndUsed :=
    fun c hc => hSame c hc _ (by simp [ChunkField.IsLink])
  refine ⟨?_, ?_, ?_⟩
  · intro c d hP
    rw [← hH.size c d hP, chunkSize, chunkSize, hSize c hP.left_mem]
  · intro c d hP
    rw [hSame d hP.right_mem _ (by simp [ChunkField.IsLink]), hH.left c d hP]
  · intro c hc
    rw [← hH.used c hc, chunkUsed, chunkUsed, hSize c hc]

variable {b c e d : Nat} {g : ChunkField}

theorem Lists.slot (hL : Lists r h B A L) (hc : c ∈ L b) (f : ChunkField) : Slot r B c f := by
  obtain ⟨-, d, hP, hMin, -⟩ := (hL.mem b c).mp hc
  exact slot_link hP hMin f

/-- A chunk is in the list of one bucket only. -/
theorem Lists.bucket_unique (hL : Lists r h B A L) {b' : Nat} (hc : c ∈ L b) (hc' : c ∈ L b') :
    b' = b := by
  obtain ⟨-, d, hP, -, hIdx⟩ := (hL.mem b c).mp hc
  obtain ⟨-, d', hP', -, hIdx'⟩ := (hL.mem b' c).mp hc'
  rw [← hIdx, ← hIdx', hP.right_unique hP']

/-- Lists are kept when the chunks in them are: their ends, their links, and the bucket array. -/
theorem Lists.transfer {B' : Set Nat} (hL : Lists r h B A L)
    (hPiece : ∀ c ∈ A, ∀ d, Piece B' c d ↔ Piece B c d)
    (hLink : ∀ b, ∀ c ∈ L b, ∀ f : ChunkField, f.IsLink → chunkField r h' c f = chunkField r h c f)
    (hBuckets : h'.buckets = h.buckets) (hAvail : h'.availBuckets = h.availBuckets) :
    Lists r h' B' A L := by
  refine ⟨?_, hL.nodup, ?_, ?_, ?_⟩
  · intro b
    apply (hL.ring b).congr
    · exact fun c hc => hLink b c hc _ (.inr rfl)
    · exact fun c hc => hLink b c hc _ (.inl rfl)
  · intro b c
    rw [hL.mem b c]
    constructor
    · rintro ⟨hA, d, hP, hRest⟩
      exact ⟨hA, d, (hPiece c hA d).mpr hP, hRest⟩
    · rintro ⟨hA, d, hP, hRest⟩
      exact ⟨hA, d, (hPiece c hA d).mp hP, hRest⟩
  · intro b hb
    rw [hBuckets, hL.head b hb]
  · intro b
    rw [hAvail, hL.avail b]

/-! ## Taking a chunk out of its list -/

theorem Lists.lt_32 (hL : Lists r h B A L) (hc : c ∈ L b) : b < 32 := by
  obtain ⟨-, d, -, -, rfl⟩ := (hL.mem b c).mp hc
  exact bucketIdx_lt (d - c)

/-- The fields after `set_next_free_chunk(first, second)`, `set_prev_free_chunk(second, first)`. -/
theorem unlink_field (hr : r.Sound) {first second : Nat} (hFirst : Slot r B first .freeNext)
    (hSecond : Slot r B second .freePrev) (hFirstLe : first ≤ r.endChunk)
    (hSecondLe : second ≤ r.endChunk) (h : ZHeap) (he : Slot r B e g) :
    chunkField r (setPrevFreeChunk r (setNextFreeChunk r h first second) second first) e g =
      if e = second ∧ g = .freePrev then first
      else if e = first ∧ g = .freeNext then second else chunkField r h e g := by
  rw [setPrevFreeChunk, setNextFreeChunk, chunkField_chunkSet_of_slot hSecond he,
    chunkField_chunkSet_of_slot hFirst he, hr.fits (by omega), hr.fits (by omega)]

/-- One list and the slot of its bucket change, and nothing else. -/
theorem Lists.replace {A' : Set Nat} {b : Nat} {l : List Nat} (hL : Lists r h B A L)
    (hRing : Ring (nextFreeChunk r h') (prevFreeChunk r h') l) (hNodup : l.Nodup)
    (hOther : ∀ b', b' ≠ b → ∀ e ∈ L b', ∀ f : ChunkField, f.IsLink →
      chunkField r h' e f = chunkField r h e f)
    (hMem : ∀ b' e, e ∈ set L b l b' ↔
      e ∈ A' ∧ ∃ d, Piece B e d ∧ minChunkSize r ≤ d - e ∧ bucketIdx r (d - e) = b')
    (hBuckets : h'.buckets = set h.buckets b (l.headD 0))
    (hBit : ∀ b', h'.availBuckets.getLsbD b' =
      if b' = b then decide (l ≠ []) else h.availBuckets.getLsbD b') :
    Lists r h' B A' (set L b l) := by
  refine ⟨?_, ?_, hMem, ?_, ?_⟩
  · intro b'
    refine set_elim (fun _ => hRing) fun hb => ?_
    exact (hL.ring b').congr (fun e he => hOther b' hb e he _ (.inr rfl))
      (fun e he => hOther b' hb e he _ (.inl rfl))
  · intro b'
    exact set_elim (fun _ => hNodup) fun _ => hL.nodup b'
  · intro b' hLe
    by_cases hb : b' = b
    · rw [hBuckets, hb, set_same, set_same]
    · rw [hBuckets, set_ne _ _ hb, set_ne _ _ hb, hL.head b' hLe]
  · intro b'
    by_cases hb : b' = b
    · rw [hBit, if_pos hb, hb, set_same, decide_eq_true_eq]
    · rw [hBit, if_neg hb, set_ne _ _ hb, hL.avail b']

/-- The bits of `avail_buckets` when a bucket is emptied. -/
theorem getLsbD_emptyBucket (hb : b < 32) (h : ZHeap) (b' : Nat) :
    (emptyBucket h b).availBuckets.getLsbD b' =
      (h.availBuckets.getLsbD b' && !decide (b' = b)) := by
  by_cases hb' : b' < 32
  · simp only [emptyBucket, BitVec.getLsbD_and, BitVec.getLsbD_not, getLsbD_one_shiftLeft hb, hb',
      decide_true, Bool.true_and]
  · simp [BitVec.getLsbD_of_ge _ b' (Nat.le_of_not_lt hb')]

/-- The ring of a bucket, cut so that a given chunk comes first. -/
theorem Lists.cut (hL : Lists r h B A L) (hc : c ∈ L b) :
    ∃ rest, Ring (nextFreeChunk r h) (prevFreeChunk r h) (c :: rest) ∧ (c :: rest).Nodup ∧
      ∀ e, e ∈ rest ↔ e ∈ L b ∧ e ≠ c := by
  obtain ⟨pre, post, hSplit⟩ := List.append_of_mem hc
  have hRing := hL.ring b
  have hNodup := hL.nodup b
  rw [hSplit] at hRing hNodup
  have hNodup' : (c :: (post ++ pre)).Nodup :=
    (List.perm_append_comm : (pre ++ c :: post).Perm _).nodup_iff.mp hNodup
  refine ⟨post ++ pre, hRing.swap, hNodup', ?_⟩
  intro e
  have hNot := (List.nodup_cons.mp hNodup').1
  rw [hSplit]
  simp only [List.mem_append, List.mem_cons] at hNot ⊢
  constructor
  · intro he
    refine ⟨by tauto, ?_⟩
    rintro rfl
    exact hNot he
  · tauto

/-- What the lists hold without the chunk `c` of bucket `b`, whose other chunks are `rest`. -/
theorem Lists.mem_without (hL : Lists r h B A L) {rest : List Nat} (hc : c ∈ L b)
    (hRest : ∀ e, e ∈ rest ↔ e ∈ L b ∧ e ≠ c) (b' e : Nat) :
    e ∈ set L b rest b' ↔
      e ∈ A \ {c} ∧ ∃ d, Piece B e d ∧ minChunkSize r ≤ d - e ∧ bucketIdx r (d - e) = b' := by
  have hMem : e ∈ set L b rest b' ↔ e ∈ L b' ∧ e ≠ c := by
    by_cases hb : b' = b
    · rw [hb, set_same, hRest]
    · rw [set_ne _ _ hb]
      refine ⟨fun he => ⟨he, ?_⟩, fun he => he.1⟩
      rintro rfl
      exact hb (hL.bucket_unique hc he)
  rw [hMem, hL.mem b' e, Set.mem_sdiff, Set.mem_singleton_iff]
  tauto

theorem Lists.remove (hr : r.Sound) (hTop : ∀ c ∈ B, c ≤ r.endChunk) (hL : Lists r h B A L)
    (hc : c ∈ L b) :
    (∃ L', Lists r (freeListRemoveBidx r h c b) B (A \ {c}) L') ∧
      SameHeaders r B h (freeListRemoveBidx r h c b) := by
  obtain ⟨rest, hRing, hNodup, hRest⟩ := hL.cut hc
  have hb := hL.lt_32 hc
  cases rest with
  | nil =>
    have hSelf : nextFreeChunk r h c = c := (hRing.next_eq_self hNodup).mpr rfl
    have hFields : ∀ e f, chunkField r (freeListRemoveBidx r h c b) e f = chunkField r h e f := by
      intro e f
      apply chunkField_of_mem_eq
      simp [freeListRemoveBidx, hSelf, emptyBucket]
    refine ⟨⟨_, hL.replace Ring.nil List.nodup_nil (fun b' _ e _ f _ => hFields e f)
      (hL.mem_without hc hRest) ?_ ?_⟩, fun e _ f _ => hFields e f⟩
    · simp [freeListRemoveBidx, hSelf, emptyBucket]
    · intro b'
      rw [freeListRemoveBidx, if_pos hSelf, subFreeBytes_availBuckets, getLsbD_emptyBucket hb]
      by_cases hb' : b' = b <;> simp [hb']
  | cons y l =>
    have hNext : nextFreeChunk r h c = y := hRing.next_head
    have hNe : nextFreeChunk r h c ≠ c := by
      intro hEq
      exact List.cons_ne_nil y l ((hRing.next_eq_self hNodup).mp hEq)
    have hPrevMem : prevFreeChunk r h c ∈ y :: l := hRing.prev_mem_tail
    have hNextMem : nextFreeChunk r h c ∈ y :: l := by simp [hNext]
    have hSlot : ∀ e ∈ y :: l, ∀ f, Slot r B e f :=
      fun e he f => hL.slot ((hRest e).mp he).1 f
    have hLe : ∀ e ∈ y :: l, e ≤ r.endChunk := fun e he => hTop e (hSlot e he .leftSize).1
    have hFields : ∀ e f, Slot r B e f → chunkField r (freeListRemoveBidx r h c b) e f =
        if e = nextFreeChunk r h c ∧ f = .freePrev then prevFreeChunk r h c
        else if e = prevFreeChunk r h c ∧ f = .freeNext then nextFreeChunk r h c
        else chunkField r h e f := by
      intro e f hSlotE
      rw [freeListRemoveBidx, if_neg hNe, chunkField_of_mem_eq (subFreeBytes_mem _ _),
        unlink_field hr (hSlot _ hPrevMem _) (hSlot _ hNextMem _) (hLe _ hPrevMem)
          (hLe _ hNextMem) _ hSlotE]
      rfl
    have hCut : Unlinked (nextFreeChunk r h) (prevFreeChunk r h)
        (nextFreeChunk r (freeListRemoveBidx r h c b))
        (prevFreeChunk r (freeListRemoveBidx r h c b)) (y :: l) c := by
      refine ⟨?_, ?_, ?_, ?_⟩
      · rw [nextFreeChunk, hFields _ _ (hSlot _ hPrevMem _)]
        simp
      · rw [prevFreeChunk, hFields _ _ (hSlot _ hNextMem _)]
        simp
      · intro e he hNeFirst
        rw [nextFreeChunk, hFields _ _ (hSlot e he _)]
        simp [hNeFirst, nextFreeChunk]
      · intro e he hNeSecond
        rw [prevFreeChunk, hFields _ _ (hSlot e he _)]
        simp [hNeSecond, prevFreeChunk]
    -- the links of the other lists belong to other chunks
    have hOther : ∀ b', b' ≠ b → ∀ e ∈ L b', ∀ f : ChunkField, f.IsLink →
        chunkField r (freeListRemoveBidx r h c b) e f = chunkField r h e f := by
      intro b' hb' e he f _
      have hNotIn : ∀ x ∈ y :: l, e ≠ x := by
        rintro x hx rfl
        exact hb' (hL.bucket_unique ((hRest e).mp hx).1 he)
      rw [hFields e f (hL.slot he f), if_neg (fun hEq => hNotIn _ hNextMem hEq.1),
        if_neg (fun hEq => hNotIn _ hPrevMem hEq.1)]
    have hAvail : (freeListRemoveBidx r h c b).availBuckets = h.availBuckets := by
      simp [freeListRemoveBidx, hNe, setPrevFreeChunk, setNextFreeChunk, setBucket]
    have hBuckets : (freeListRemoveBidx r h c b).buckets = set h.buckets b y := by
      rw [freeListRemoveBidx, if_neg hNe, subFreeBytes_buckets, hNext]
      rfl
    refine ⟨⟨_, hL.replace (hRing.remove hNodup hCut) (List.nodup_cons.mp hNodup).2 hOther
      (hL.mem_without hc hRest) hBuckets fun b' => ?_⟩, ?_⟩
    · have hOn := (hL.avail b).mpr (List.ne_nil_of_mem hc)
      rw [hAvail]
      by_cases hb' : b' = b <;> simp [hb', hOn]
    · intro e he f hf
      obtain ⟨hPrev, hNextF⟩ := not_or.mp hf
      rw [hFields e f (slot_header he hf), if_neg (fun hEq => hPrev hEq.2),
        if_neg (fun hEq => hNextF hEq.2)]

/-! ## Putting a chunk into its list -/

/-- The fields after the chunk `c` was linked in between `first` and `second`. -/
theorem linkBefore_field (hr : r.Sound) {first second : Nat} (hc : ∀ f, Slot r B c f)
    (hFirst : Slot r B first .freeNext) (hSecond : Slot r B second .freePrev)
    (hcLe : c ≤ r.endChunk) (hFirstLe : first ≤ r.endChunk) (hSecondLe : second ≤ r.endChunk)
    (h : ZHeap) (he : Slot r B e g) :
    chunkField r (linkBefore r h c first second) e g =
      if e = second ∧ g = .freePrev then c
      else if e = first ∧ g = .freeNext then c
      else if e = c ∧ g = .freeNext then second
      else if e = c ∧ g = .freePrev then first else chunkField r h e g := by
  rw [linkBefore, setPrevFreeChunk, setNextFreeChunk, setNextFreeChunk, setPrevFreeChunk,
    chunkField_chunkSet_of_slot hSecond he, chunkField_chunkSet_of_slot hFirst he,
    chunkField_chunkSet_of_slot (hc _) he, chunkField_chunkSet_of_slot (hc _) he,
    hr.fits (v := c) (by omega), hr.fits (v := second) (by omega), hr.fits (v := first) (by omega)]

/-- The bits of `avail_buckets` when a bucket gets its first chunk. -/
theorem getLsbD_openBucket (hb : b < 32) (h : ZHeap) (c b' : Nat) :
    (openBucket h b c).availBuckets.getLsbD b' =
      (h.availBuckets.getLsbD b' || decide (b' = b)) := by
  simp only [openBucket, BitVec.getLsbD_or, getLsbD_one_shiftLeft hb]

/-- What the lists hold with the chunk `c` added to bucket `b`. -/
theorem Lists.mem_with (hL : Lists r h B A L) (hP : Piece B c d) (hMin : minChunkSize r ≤ d - c)
    (hIdx : bucketIdx r (d - c) = b) (b' e : Nat) :
    e ∈ set L b (L b ++ [c]) b' ↔
      e ∈ insert c A ∧
        ∃ d, Piece B e d ∧ minChunkSize r ≤ d - e ∧ bucketIdx r (d - e) = b' := by
  have hMem : e ∈ set L b (L b ++ [c]) b' ↔ e ∈ L b' ∨ e = c ∧ b' = b := by
    by_cases hb : b' = b
    · rw [hb, set_same, List.mem_append, List.mem_singleton]
      tauto
    · rw [set_ne _ _ hb]
      tauto
  rw [hMem, hL.mem b' e, Set.mem_insert_iff]
  constructor
  · rintro (⟨hA, hRest⟩ | ⟨rfl, rfl⟩)
    · exact ⟨.inr hA, hRest⟩
    · exact ⟨.inl rfl, d, hP, hMin, hIdx⟩
  · rintro ⟨rfl | hA, d', hP', hMin', hIdx'⟩
    · rw [← hP.right_unique hP', hIdx] at hIdx'
      exact .inr ⟨rfl, hIdx'.symm⟩
    · exact .inl ⟨hA, d', hP', hMin', hIdx'⟩

theorem Lists.add (hr : r.Sound) (hTop : ∀ c ∈ B, c ≤ r.endChunk) (hL : Lists r h B A L)
    (hZero : 0 ∉ A) (hP : Piece B c d) (hcA : c ∉ A) (hMin : minChunkSize r ≤ d - c)
    (hIdx : bucketIdx r (d - c) = b) :
    (∃ L', Lists r (freeListAddBidx r h c b) B (insert c A) L') ∧
      SameHeaders r B h (freeListAddBidx r h c b) := by
  have hb : b < 32 := hIdx ▸ bucketIdx_lt (d - c)
  have hLeEnd := hTop d hP.right_mem
  have hEnd := hr.end_lt_u32
  have hbEnd : b ≤ bucketIdx r r.endChunk := by
    rw [← hIdx]
    exact bucketIdx_mono hMin (by omega) (by omega)
  have hHead := hL.head b hbEnd
  have hcSlot : ∀ f, Slot r B c f := slot_link hP hMin
  have hcLe : c ≤ r.endChunk := hTop c hP.left_mem
  have hcNot : ∀ b', c ∉ L b' := fun b' hc => hcA ((hL.mem b' c).mp hc).1
  have hNodup : (L b ++ [c]).Nodup := by
    rw [List.nodup_append]
    refine ⟨hL.nodup b, by simp, ?_⟩
    rintro x hx y hy rfl
    rw [List.mem_singleton.mp hy] at hx
    exact hcNot b hx
  cases hList : L b with
  | nil =>
    have hEmpty : h.buckets b = 0 := by rw [hHead, hList, List.headD_nil]
    have hFields : ∀ e f, Slot r B e f → chunkField r (freeListAddBidx r h c b) e f =
        if e = c ∧ f.IsLink then c else chunkField r h e f := by
      intro e f hSlotE
      rw [freeListAddBidx, if_pos hEmpty, chunkField_of_mem_eq (addFreeBytes_mem _ _),
        setNextFreeChunk, setPrevFreeChunk, chunkField_chunkSet_of_slot (hcSlot _) hSlotE,
        chunkField_chunkSet_of_slot (hcSlot _) hSlotE, hr.fits (v := c) (by omega)]
      by_cases hec : e = c
      · cases f <;> simp [hec, ChunkField.IsLink] <;> rfl
      · simp [hec]
        rfl
    have hRing : Ring (nextFreeChunk r (freeListAddBidx r h c b))
        (prevFreeChunk r (freeListAddBidx r h c b)) (L b ++ [c]) := by
      rw [hList, List.nil_append, ring_singleton]
      refine ⟨?_, ?_⟩
      · rw [nextFreeChunk, hFields _ _ (hcSlot _), if_pos ⟨rfl, .inr rfl⟩]
      · rw [prevFreeChunk, hFields _ _ (hcSlot _), if_pos ⟨rfl, .inl rfl⟩]
    refine ⟨⟨_, hL.replace hRing hNodup ?_ (hL.mem_with hP hMin hIdx) ?_ fun b' => ?_⟩, ?_⟩
    · intro b' _ e he f _
      rw [hFields e f (hL.slot he f), if_neg]
      rintro ⟨rfl, -⟩
      exact hcNot b' he
    · rw [freeListAddBidx, if_pos hEmpty, addFreeBytes_buckets, hList]
      rfl
    · rw [freeListAddBidx, if_pos hEmpty, addFreeBytes_availBuckets]
      refine (getLsbD_openBucket hb h c b').trans ?_
      by_cases hb' : b' = b <;> simp [hb']
    · intro e he f hf
      rw [hFields e f (slot_header he hf), if_neg (fun hEq => hf hEq.2)]
  | cons x l =>
    have hx : x ∈ L b := by simp [hList]
    have hFull : h.buckets b = x := by rw [hHead, hList, List.headD_cons]
    have hNe : h.buckets b ≠ 0 := by
      rw [hFull]
      rintro rfl
      exact hZero ((hL.mem b 0).mp hx).1
    have hRingOld : Ring (nextFreeChunk r h) (prevFreeChunk r h) (x :: l) := hList ▸ hL.ring b
    have hPrevMem : prevFreeChunk r h x ∈ L b := by
      rw [hList]
      exact hRingOld.prev_mem
    have hLe : ∀ e ∈ L b, e ≤ r.endChunk := fun e he => hTop e (hL.slot he .leftSize).1
    have hFields : ∀ e f, Slot r B e f → chunkField r (freeListAddBidx r h c b) e f =
        if e = x ∧ f = .freePrev then c
        else if e = prevFreeChunk r h x ∧ f = .freeNext then c
        else if e = c ∧ f = .freeNext then x
        else if e = c ∧ f = .freePrev then prevFreeChunk r h x else chunkField r h e f := by
      intro e f hSlotE
      rw [freeListAddBidx, if_neg hNe, chunkField_of_mem_eq (addFreeBytes_mem _ _), hFull,
        linkBefore_field hr hcSlot (hL.slot hPrevMem _) (hL.slot hx _) hcLe (hLe _ hPrevMem)
          (hLe _ hx) h hSlotE]
    have hcNe : ∀ b', ∀ e ∈ L b', e ≠ c := by
      rintro b' e he rfl
      exact hcNot b' he
    have hPut : Linked (nextFreeChunk r h) (prevFreeChunk r h)
        (nextFreeChunk r (freeListAddBidx r h c b))
        (prevFreeChunk r (freeListAddBidx r h c b)) (x :: l) (prevFreeChunk r h x) x c := by
      refine ⟨?_, ?_, ?_, ?_, ?_, ?_⟩
      · rw [prevFreeChunk, hFields _ _ (hcSlot _)]
        simp [(hcNe b x hx).symm]
      · rw [nextFreeChunk, hFields _ _ (hcSlot _)]
        simp [(hcNe b _ hPrevMem).symm]
      · rw [nextFreeChunk, hFields _ _ (hL.slot hPrevMem _)]
        simp
      · rw [prevFreeChunk, hFields _ _ (hL.slot hx _)]
        simp
      · intro e he hNeFirst
        have he' : e ∈ L b := by rwa [hList]
        rw [nextFreeChunk, hFields _ _ (hL.slot he' _)]
        simp [hNeFirst, hcNe b e he', nextFreeChunk]
      · intro e he hNeSecond
        have he' : e ∈ L b := by rwa [hList]
        rw [prevFreeChunk, hFields _ _ (hL.slot he' _)]
        simp [hNeSecond, hcNe b e he', prevFreeChunk]
    have hRing : Ring (nextFreeChunk r (freeListAddBidx r h c b))
        (prevFreeChunk r (freeListAddBidx r h c b)) (L b ++ [c]) := by
      rw [hList]
      exact hRingOld.add (hList ▸ hL.nodup b) hPut
    have hSame : (freeListAddBidx r h c b).buckets = h.buckets ∧
        (freeListAddBidx r h c b).availBuckets = h.availBuckets := by
      rw [freeListAddBidx, if_neg hNe, addFreeBytes_buckets, addFreeBytes_availBuckets]
      exact ⟨rfl, rfl⟩
    refine ⟨⟨_, hL.replace hRing hNodup ?_ (hL.mem_with hP hMin hIdx) ?_ fun b' => ?_⟩, ?_⟩
    · intro b' hb' e he f _
      have hNotIn : ∀ y ∈ L b, e ≠ y := by
        rintro y hy rfl
        exact hb' (hL.bucket_unique hy he)
      rw [hFields e f (hL.slot he f), if_neg (fun hEq => hNotIn x hx hEq.1),
        if_neg (fun hEq => hNotIn _ hPrevMem hEq.1), if_neg (fun hEq => hcNe b' e he hEq.1),
        if_neg (fun hEq => hcNe b' e he hEq.1)]
    · rw [hSame.1, hList, List.cons_append, List.headD_cons, ← hFull, set_self]
    · have hOn := (hL.avail b).mpr (List.ne_nil_of_mem hx)
      rw [hSame.2]
      by_cases hb' : b' = b <;> simp [hb', hOn]
    · intro e he f hf
      obtain ⟨hPrev, hNextF⟩ := not_or.mp hf
      rw [hFields e f (slot_header he hf)]
      simp [hPrev, hNextF]

/-! ## Steps of the whole invariant -/

theorem Headers.unused_iff (hH : Headers r h B U) (hc : c ∈ B) :
    chunkUsed r h c = false ↔ c ∉ U := by
  rw [← hH.used c hc, Bool.not_eq_true]

theorem Inv.lt_end (hI : Inv r h B U A L) (hc : c ∈ B) (hcU : c ∉ U) : c < r.endChunk := by
  have hLe := hI.shape.cuts.le_top c hc
  rcases Nat.lt_or_eq_of_le hLe with hLt | rfl
  · exact hLt
  · exact absurd hI.shape.top_used hcU

theorem Inv.exists_piece (hI : Inv r h B U A L) (hc : c ∈ B) (hcU : c ∉ U) :
    ∃ d, Piece B c d := hI.shape.cuts.exists_right hc (hI.lt_end hc hcU)

theorem Inv.zero_not_avail (hI : Inv r h B U A L) : 0 ∉ A :=
  fun h0 => (hI.shape.avail_sub h0).2 hI.shape.zero_used

/-- A chunk is solo when it has no room for links. -/
theorem soloFreeHeader_iff (hP : Piece B c d) (hSize : chunkSize r h c = d - c) :
    soloFreeHeader r h c = true ↔ ¬ minChunkSize r ≤ d - c := by
  have hLt := hP.lt
  rw [soloFreeHeader, hSize, minChunkSize_eq]
  cases r.big
  · simp
    omega
  · simp
    omega

/-- A chunk without room for links is in no list, available or not. -/
theorem Lists.ignore_small {A' : Set Nat} (hL : Lists r h B A L)
    (hA : ∀ e, e ≠ c → (e ∈ A' ↔ e ∈ A)) (hSmall : ∀ d, Piece B c d → ¬ minChunkSize r ≤ d - c) :
    Lists r h B A' L := by
  refine ⟨hL.ring, hL.nodup, ?_, hL.head, hL.avail⟩
  intro b e
  rw [hL.mem b e]
  by_cases hec : e = c
  · subst hec
    constructor
    · rintro ⟨-, d, hP, hMin, -⟩
      exact absurd hMin (hSmall d hP)
    · rintro ⟨-, d, hP, hMin, -⟩
      exact absurd hMin (hSmall d hP)
  · rw [hA e hec]

/-- `free_list_add` and `free_list_remove` leave a chunk without room for links alone. -/
theorem Inv.relist {A' : Set Nat} (hI : Inv r h B U A L) (hP : Piece B c d)
    (hShape : Shape r B U A') (hA : ∀ e, e ≠ c → (e ∈ A' ↔ e ∈ A))
    (hBig : minChunkSize r ≤ d - c → (∃ L', Lists r h' B A' L') ∧ SameHeaders r B h h') :
    ∃ L', Inv r (if soloFreeHeader r h c then h else h') B U A' L' := by
  have hSolo := soloFreeHeader_iff hP (hI.headers.size c d hP)
  split
  · rename_i hTrue
    refine ⟨L, hShape, hI.headers, hI.lists.ignore_small hA fun d' hP' => ?_⟩
    rw [hP'.right_unique hP]
    exact hSolo.mp hTrue
  · rename_i hFalse
    obtain ⟨⟨L', hL'⟩, hSame⟩ := hBig (of_not_not fun hSmall => hFalse (hSolo.mpr hSmall))
    exact ⟨L', hShape, hI.headers.congr hSame, hL'⟩

theorem Inv.remove (hr : r.Sound) (hI : Inv r h B U A L) (hc : c ∈ A) :
    ∃ L', Inv r (freeListRemove r h c) B U (A \ {c}) L' := by
  obtain ⟨hcB, hcU⟩ := hI.shape.avail_sub hc
  obtain ⟨d, hP⟩ := hI.exists_piece hcB hcU
  have hShape : Shape r B U (A \ {c}) :=
    { hI.shape with
      avail_sub := fun e he => hI.shape.avail_sub he.1
      apart := fun e e' hP he he' => hI.shape.apart e e' hP he.1 he'.1 }
  refine hI.relist hP hShape (fun e hec => by simp [hec]) fun hMin => ?_
  rw [hI.headers.size c d hP]
  exact hI.lists.remove hr hI.shape.cuts.le_top ((hI.lists.mem _ c).mpr ⟨hc, d, hP, hMin, rfl⟩)

theorem Inv.add (hr : r.Sound) (hI : Inv r h B U A L) (hP : Piece B c d) (hcU : c ∉ U)
    (hcA : c ∉ A) (hRight : d ∉ A) (hLeft : ∀ e, Piece B e c → e ∉ A) :
    ∃ L', Inv r (freeListAdd r h c) B U (insert c A) L' := by
  have hShape : Shape r B U (insert c A) :=
    { hI.shape with
      avail_sub := by
        rintro e (rfl | he)
        · exact ⟨hP.left_mem, hcU⟩
        · exact hI.shape.avail_sub he
      apart := by
        rintro e e' hP' (rfl | he)
        · rw [← hP.right_unique hP']
          rintro (hEq | hd)
          · exact absurd hEq (Nat.ne_of_gt hP.lt)
          · exact hRight hd
        · rintro (rfl | he')
          · exact hLeft e hP' he
          · exact hI.shape.apart e e' hP' he he' }
  refine hI.relist hP hShape (fun e hec => by simp [hec]) fun hMin => ?_
  exact hI.lists.add hr hI.shape.cuts.le_top hI.zero_not_avail hP hcA hMin
    (by rw [hI.headers.size c d hP])

/-! ### Splitting -/

section Split

variable {c x d : Nat}

section Fields

variable (hr : r.Sound) (hTop : d ≤ r.endChunk) (hP : Piece B c d) (hcx : c < x) (hxd : x < d)
  (hSize : chunkSize r h c = d - c)

include hr hTop hcx hxd in
/-- The sizes of the two parts, as the code computes them. -/
theorem split_sizes : sub32 x c = x - c ∧ sub32 (d - c) (x - c) = d - x := by
  have hEnd := hr.end_lt_u32
  rw [sub32_of_le (by omega) (by omega), sub32_of_le (by omega) (by omega)]
  omega

include hr hTop hP hcx hxd hSize

theorem splitSizes_field (he : Slot r (insert x B) e g) :
    chunkField r (splitSizes r h c x) e g =
      if e = x ∧ g = .leftSize then x - c
      else if e = x ∧ g = .sizeAndUsed then 2 * (d - x)
      else if e = c ∧ g = .sizeAndUsed then 2 * (x - c) else chunkField r h e g := by
  have hEnd := hr.end_lt_u32
  obtain ⟨hl, hrest⟩ := split_sizes hr hTop hcx hxd
  have hx : x ∈ insert x B := .inl rfl
  have hc : c ∈ insert x B := .inr hP.left_mem
  rw [splitSizes, setLeftChunkSize, setChunkSize, setChunkSize,
    chunkField_chunkSet_of_slot (slot_left hx) he, chunkField_chunkSet_of_slot (slot_size hx) he,
    chunkField_chunkSet_of_slot (slot_size hc) he, hSize, hl, hrest, u32_of_lt (by omega),
    u32_of_lt (by omega), hr.fits (by omega), hr.fits (by omega), hr.fits (by omega),
    Nat.mul_comm (d - x), Nat.mul_comm (x - c)]

theorem splitChunks_field (he : Slot r (insert x B) e g) :
    chunkField r (splitChunks r h c x) e g =
      if e = d ∧ g = .leftSize then d - x
      else if e = x ∧ g = .leftSize then x - c
      else if e = x ∧ g = .sizeAndUsed then 2 * (d - x)
      else if e = c ∧ g = .sizeAndUsed then 2 * (x - c) else chunkField r h e g := by
  have hEnd := hr.end_lt_u32
  obtain ⟨hl, hrest⟩ := split_sizes hr hTop hcx hxd
  have hx : x ∈ insert x B := .inl rfl
  have hd : d ∈ insert x B := .inr hP.right_mem
  have hRight : rightChunk r (splitSizes r h c x) x = d := by
    have hTag : chunkField r (splitSizes r h c x) x .sizeAndUsed = 2 * (d - x) := by
      rw [splitSizes_field hr hTop hP hcx hxd hSize (slot_size hx)]
      simp
    rw [rightChunk, chunkSize, hTag, u32_of_lt (by omega)]
    omega
  rw [splitChunks, setLeftChunkSize, hRight, chunkField_chunkSet_of_slot (slot_left hd) he, hSize,
    hl, hrest, hr.fits (by omega), splitSizes_field hr hTop hP hcx hxd hSize he]

end Fields

theorem Inv.split (hr : r.Sound) (hI : Inv r h B U A L) (hP : Piece B c d) (hcx : c < x)
    (hxd : x < d) (hcA : c ∉ A) (hc0 : c ≠ 0) :
    Inv r (splitChunks r h c x) (insert x B) (U \ {c}) A L := by
  have hdTop := hI.shape.cuts.le_top d hP.right_mem
  have hSize := hI.headers.size c d hP
  have hxB : x ∉ B := hP.inside x hcx hxd
  have hNeX : ∀ e ∈ B, e ≠ x := by
    rintro e he rfl
    exact hxB he
  have hxA : x ∉ A := fun hx => hxB (hI.shape.avail_sub hx).1
  have hPieces := piece_insert_iff hP hcx hxd
  have hFields : ∀ e g, Slot r (insert x B) e g → chunkField r (splitChunks r h c x) e g = _ :=
    fun e g he => splitChunks_field hr hdTop hP hcx hxd hSize he
  refine ⟨⟨hI.shape.cuts.insert (by omega), ?_, ?_, ⟨hI.shape.zero_used, Ne.symm hc0⟩,
    ⟨hI.shape.top_used, ?_⟩, ?_, ?_⟩, ⟨?_, ?_, ?_⟩, hI.lists.transfer ?_ ?_ rfl rfl⟩
  · exact (hPieces _ _).mpr (.inl ⟨hI.shape.first, Ne.symm hc0⟩)
  · exact fun e he => .inr (hI.shape.used_sub he.1)
  · have hLt := hP.lt
    simp only [Set.mem_singleton_iff]
    omega
  · intro e he
    have heB := hI.shape.avail_sub he
    exact ⟨.inr heB.1, fun heU => heB.2 heU.1⟩
  · intro e e' hP' he he'
    rcases (hPieces e e').mp hP' with ⟨hOld, -⟩ | ⟨rfl, -⟩ | ⟨rfl, -⟩
    · exact hI.shape.apart e e' hOld he he'
    · exact hcA he
    · exact hxA he
  · -- sizes
    intro e e' hP'
    rw [chunkSize, hFields e _ (slot_size hP'.left_mem)]
    rcases (hPieces e e').mp hP' with ⟨hOld, hec⟩ | ⟨rfl, rfl⟩ | ⟨rfl, rfl⟩
    · simp [hec, hNeX e hOld.left_mem]
      exact hI.headers.size e e' hOld
    · simp [Nat.ne_of_lt hcx]
    · simp
  · -- sizes of left neighbours
    intro e e' hP'
    rw [hFields e' _ (slot_left hP'.right_mem)]
    rcases (hPieces e e').mp hP' with ⟨hOld, hec⟩ | ⟨rfl, rfl⟩ | ⟨rfl, rfl⟩
    · have hNe : e' ≠ d := by
        rintro rfl
        exact hec (hOld.left_unique hP)
      simp [hNe, hNeX e' hOld.right_mem]
      exact hI.headers.left e e' hOld
    · simp [Nat.ne_of_lt hxd]
    · simp
  · -- flags
    intro e he
    rw [chunkUsed, hFields e _ (slot_size he)]
    rcases he with rfl | he
    · have hNot : e ∉ U := fun hU => hxB (hI.shape.used_sub hU)
      simp [hNot]
    · by_cases hec : e = c
      · subst hec
        simp [Nat.ne_of_lt hcx]
      · have hUsed := hI.headers.used e he
        rw [chunkUsed] at hUsed
        simp [hec, hNeX e he] at hUsed ⊢
        exact hUsed
  · intro e he e'
    rw [hPieces e e']
    have hec : e ≠ c := by
      rintro rfl
      exact hcA he
    have hex := hNeX e (hI.shape.avail_sub he).1
    simp [hec, hex]
  · intro b e he f hf
    obtain ⟨heA, e', hP', hMin, -⟩ := (hI.lists.mem b e).mp he
    have hec : e ≠ c := by
      rintro rfl
      exact hcA heA
    have hSlot : Slot r (insert x B) e f := slot_link ((hPieces e e').mpr (.inl ⟨hP', hec⟩)) hMin f
    rw [hFields e f hSlot]
    rcases hf with rfl | rfl <;> simp

end Split

/-! ### Merging -/

section Merge

variable {c x d : Nat}

theorem mergeChunks_field (hr : r.Sound) (hTop : d ≤ r.endChunk) (hP : Piece B c x)
    (hP' : Piece B x d) (hSize : chunkSize r h c = x - c) (hSize' : chunkSize r h x = d - x)
    (he : Slot r B e g) :
    chunkField r (mergeChunks r h c x) e g =
      if e = d ∧ g = .leftSize then d - c
      else if e = c ∧ g = .sizeAndUsed then 2 * (d - c) else chunkField r h e g := by
  have hEnd := hr.end_lt_u32
  have hcx := hP.lt
  have hxd := hP'.lt
  have hSum : u32 (chunkSize r h c + chunkSize r h x) = d - c := by
    rw [hSize, hSize', u32_of_lt (by omega)]
    omega
  have hRight : rightChunk r (setChunkSize r h c (d - c)) x = d := by
    have hTag : chunkField r (setChunkSize r h c (d - c)) x .sizeAndUsed =
        chunkField r h x .sizeAndUsed := by
      rw [setChunkSize, chunkField_chunkSet_of_slot (slot_size hP.left_mem)
        (slot_size hP.right_mem), if_neg (by omega)]
    rw [rightChunk, chunkSize, hTag, ← chunkSize, hSize', u32_of_lt (by omega)]
    omega
  rw [mergeChunks, hSum, hRight, setLeftChunkSize, setChunkSize,
    chunkField_chunkSet_of_slot (slot_left hP'.right_mem) he,
    chunkField_chunkSet_of_slot (slot_size hP.left_mem) he, u32_of_lt (by omega),
    hr.fits (by omega), hr.fits (by omega), Nat.mul_comm (d - c)]

theorem Inv.merge (hr : r.Sound) (hI : Inv r h B U A L) (hP : Piece B c x) (hP' : Piece B x d)
    (hcA : c ∉ A) (hxA : x ∉ A) (hc0 : c ≠ 0) :
    Inv r (mergeChunks r h c x) (B \ {x}) (U \ {c, x}) A L := by
  have hdTop := hI.shape.cuts.le_top d hP'.right_mem
  have hcx := hP.lt
  have hxd := hP'.lt
  have hPieces := piece_erase_iff hP hP'
  have hFields : ∀ e g, Slot r B e g → chunkField r (mergeChunks r h c x) e g = _ :=
    fun e g he => mergeChunks_field hr hdTop hP hP' (hI.headers.size c x hP)
      (hI.headers.size x d hP') he
  have hNeA : ∀ e ∈ A, e ≠ c ∧ e ≠ x := by
    intro e he
    exact ⟨by rintro rfl; exact hcA he, by rintro rfl; exact hxA he⟩
  refine ⟨⟨hI.shape.cuts.erase (by omega) (by omega), ?_, ?_, ⟨hI.shape.zero_used, ?_⟩,
    ⟨hI.shape.top_used, ?_⟩, ?_, ?_⟩, ⟨?_, ?_, ?_⟩, hI.lists.transfer ?_ ?_ rfl rfl⟩
  · exact (hPieces _ _).mpr (.inl ⟨hI.shape.first, by omega, by omega⟩)
  · intro e he
    exact ⟨hI.shape.used_sub he.1, fun hex => he.2 (.inr hex)⟩
  · simp only [Set.mem_insert_iff, Set.mem_singleton_iff]
    omega
  · simp only [Set.mem_insert_iff, Set.mem_singleton_iff]
    omega
  · intro e he
    have heB := hI.shape.avail_sub he
    exact ⟨⟨heB.1, (hNeA e he).2⟩, fun heU => heB.2 heU.1⟩
  · intro e e' hPe he he'
    rcases (hPieces e e').mp hPe with ⟨hOld, -⟩ | ⟨rfl, -⟩
    · exact hI.shape.apart e e' hOld he he'
    · exact hcA he
  · intro e e' hPe
    rw [chunkSize, hFields e _ (slot_size hPe.left_mem.1)]
    rcases (hPieces e e').mp hPe with ⟨hOld, hec, -⟩ | ⟨rfl, rfl⟩
    · simp [hec]
      exact hI.headers.size e e' hOld
    · simp
  · intro e e' hPe
    rw [hFields e' _ (slot_left hPe.right_mem.1)]
    rcases (hPieces e e').mp hPe with ⟨hOld, -, hex⟩ | ⟨rfl, rfl⟩
    · have hNe : e' ≠ d := by
        rintro rfl
        exact hex (hOld.left_unique hP')
      simp [hNe]
      exact hI.headers.left e e' hOld
    · simp
  · intro e he
    have hex : e ≠ x := he.2
    rw [chunkUsed, hFields e _ (slot_size he.1)]
    by_cases hec : e = c
    · simp [hec]
    · have hUsed := hI.headers.used e he.1
      rw [chunkUsed] at hUsed
      simp [hec, hex] at hUsed ⊢
      exact hUsed
  · intro e he e'
    rw [hPieces e e']
    simp [hNeA e he]
  · intro b e he f hf
    rw [hFields e f (hI.lists.slot he f)]
    rcases hf with rfl | rfl <;> simp

end Merge

/-! ### The used flag -/

theorem setChunkUsed_field (hr : r.Sound) (hc : c ∈ B) (hSize : chunkSize r h c ≤ r.endChunk)
    (used : Bool) (he : Slot r B e g) :
    chunkField r (setChunkUsed r h c used) e g =
      if e = c ∧ g = .sizeAndUsed then 2 * chunkSize r h c + used.toNat
      else chunkField r h e g := by
  have hBit : used.toNat ≤ 1 := Bool.toNat_le used
  rw [chunkSize] at hSize
  rw [setChunkUsed, chunkField_chunkSet_of_slot (slot_size hc) he, hr.fits (by omega), chunkSize,
    Nat.mul_comm]

theorem Inv.setUsed (hr : r.Sound) (hI : Inv r h B U A L) {U' : Set Nat} {used : Bool}
    (hc : c ∈ B) (hcA : c ∉ A) (hc0 : c ≠ 0) (hcTop : c ≠ r.endChunk)
    (hU : ∀ e, e ≠ c → (e ∈ U' ↔ e ∈ U)) (hUc : used = true ↔ c ∈ U') :
    Inv r (setChunkUsed r h c used) B U' A L := by
  obtain ⟨d, hP⟩ := hI.shape.cuts.exists_right hc
    (Nat.lt_of_le_of_ne (hI.shape.cuts.le_top c hc) hcTop)
  have hdTop := hI.shape.cuts.le_top d hP.right_mem
  have hSizeC := hI.headers.size c d hP
  have hFields : ∀ e g, Slot r B e g → chunkField r (setChunkUsed r h c used) e g = _ :=
    fun e g he => setChunkUsed_field hr hc (by omega) used he
  refine ⟨{ hI.shape with
      used_sub := ?_
      zero_used := (hU 0 (Ne.symm hc0)).mpr hI.shape.zero_used
      top_used := (hU _ (Ne.symm hcTop)).mpr hI.shape.top_used
      avail_sub := ?_ }, ⟨?_, ?_, ?_⟩, hI.lists.transfer (fun _ _ _ => Iff.rfl) ?_ rfl rfl⟩
  · intro e he
    by_cases hec : e = c
    · exact hec ▸ hc
    · exact hI.shape.used_sub ((hU e hec).mp he)
  · intro e he
    have hec : e ≠ c := by
      rintro rfl
      exact hcA he
    have heB := hI.shape.avail_sub he
    exact ⟨heB.1, fun heU => heB.2 ((hU e hec).mp heU)⟩
  · intro e e' hPe
    rw [chunkSize, hFields e _ (slot_size hPe.left_mem)]
    by_cases hec : e = c
    · subst hec
      have hBit : used.toNat ≤ 1 := Bool.toNat_le used
      rw [if_pos ⟨rfl, rfl⟩, ← hI.headers.size e e' hPe]
      omega
    · rw [if_neg (fun hEq => hec hEq.1), ← hI.headers.size e e' hPe, chunkSize]
  · intro e e' hPe
    rw [hFields e' _ (slot_left hPe.right_mem)]
    simp [hI.headers.left e e' hPe]
  · intro e he
    rw [chunkUsed, hFields e _ (slot_size he)]
    by_cases hec : e = c
    · subst hec
      rw [← hUc]
      cases used <;> simp
    · rw [hU e hec, ← hI.headers.used e he, chunkUsed]
      simp [hec]
  · intro b e he f hf
    rw [hFields e f (hI.lists.slot he f)]
    rcases hf with rfl | rfl <;> simp

/-! ## `free_chunk` -/

/-- Used chunks keep their places and their sizes. -/
def KeepsUsed (U B B' : Set Nat) : Prop := ∀ c ∈ U, ∀ d, Piece B c d → Piece B' c d

theorem KeepsUsed.trans {B' B'' : Set Nat} (h : KeepsUsed U B B') (h' : KeepsUsed U B' B'') :
    KeepsUsed U B B'' := fun c hc d hP => h' c hc d (h c hc d hP)

/-- The border between two chunks that are not used may go. -/
theorem keepsUsed_erase {x : Nat} (hP : Piece B c x) (hP' : Piece B x d) (hcU : c ∉ U)
    (hxU : x ∉ U) : KeepsUsed U B (B \ {x}) := fun u hu v hPu =>
  (piece_erase_iff hP hP' u v).mpr (.inl ⟨hPu, fun hEq => hcU (hEq ▸ hu), fun hEq => hxU (hEq ▸ hu)⟩)

theorem Inv.rightChunk_eq (hr : r.Sound) (hI : Inv r h B U A L) (hP : Piece B c d) :
    rightChunk r h c = d := by
  have hEnd := hr.end_lt_u32
  have hTop := hI.shape.cuts.le_top d hP.right_mem
  have hLt := hP.lt
  rw [rightChunk, hI.headers.size c d hP, u32_of_lt (by omega)]
  omega

theorem Inv.leftChunk_eq (hr : r.Sound) (hI : Inv r h B U A L) (hP : Piece B c d) :
    leftChunk r h d = c := by
  have hEnd := hr.end_lt_u32
  have hTop := hI.shape.cuts.le_top d hP.right_mem
  have hLt := hP.lt
  rw [leftChunk, hI.headers.left c d hP, sub32_of_le (by omega) (by omega)]
  omega

/-- The heap is at rest but for the chunk `c`, which is neither used nor available. -/
structure Loose (r : Region) (h : ZHeap) (B U : Set Nat) (c : Nat) : Prop where
  inv : ∃ L, Inv r h B U ((B \ U) \ {c}) L
  mem : c ∈ B
  free : c ∉ U

theorem Loose.ne_zero (hc : Loose r h B U c) : c ≠ 0 := by
  obtain ⟨L, hI⟩ := hc.inv
  rintro rfl
  exact hc.free hI.shape.zero_used

theorem Loose.mergeRight (hr : r.Sound) (hc : Loose r h B U c) :
    ∃ B', Loose r (mergeRight r h c) B' U c ∧ KeepsUsed U B B' ∧ ∀ d, Piece B' c d → d ∈ U := by
  obtain ⟨L, hI⟩ := hc.inv
  obtain ⟨d, hP⟩ := hI.exists_piece hc.mem hc.free
  have hRight := hI.rightChunk_eq hr hP
  have hcd := hP.lt
  by_cases hUsed : chunkUsed r h d = true
  · refine ⟨B, ?_, fun _ _ _ hP => hP, ?_⟩
    · rw [Zvm.Heap.mergeRight, hRight, if_pos hUsed]
      exact hc
    · intro d' hP'
      rw [hP'.right_unique hP]
      exact (hI.headers.used d hP.right_mem).mp hUsed
  · have hdU : d ∉ U := fun hU => hUsed ((hI.headers.used d hP.right_mem).mpr hU)
    have hdA : d ∈ (B \ U) \ {c} := ⟨⟨hP.right_mem, hdU⟩, Nat.ne_of_gt hcd⟩
    obtain ⟨e, hPe⟩ := hI.exists_piece hP.right_mem hdU
    obtain ⟨L', hI'⟩ := hI.remove hr hdA
    have hMerged := hI'.merge hr hP hPe (by simp) (by simp) hc.ne_zero
    have hDef : Zvm.Heap.mergeRight r h c = mergeChunks r (freeListRemove r h d) c d := by
      rw [Zvm.Heap.mergeRight, hRight, if_neg hUsed, hI'.rightChunk_eq hr hP]
    have hU : U \ {c, d} = U := by simp [sdiff_eq_left, hc.free, hdU]
    rw [hU, sdiff_right_comm, sdiff_right_comm B] at hMerged
    refine ⟨B \ {d}, ⟨⟨L', hDef ▸ hMerged⟩, ⟨hc.mem, Nat.ne_of_lt hcd⟩, hc.free⟩,
      keepsUsed_erase hP hPe hc.free hdU, ?_⟩
    · intro d' hP'
      have hd' : d' = e := hP'.right_unique ((piece_erase_iff hP hPe c e).mpr (.inr ⟨rfl, rfl⟩))
      subst hd'
      -- the chunk that went was available, so its right neighbour is not
      by_contra hNot
      exact hI.shape.apart d d' hPe hdA
        ⟨⟨hPe.right_mem, hNot⟩, Nat.ne_of_gt (Nat.lt_trans hcd hPe.lt)⟩

theorem Loose.mergeLeft (hr : r.Sound) (hc : Loose r h B U c) (hRight : ∀ d, Piece B c d → d ∈ U) :
    ∃ B', Loose r (mergeLeft r h c).1 B' U (mergeLeft r h c).2 ∧ KeepsUsed U B B' ∧
      (∀ d, Piece B' (mergeLeft r h c).2 d → d ∈ U) ∧
      ∀ d, Piece B' d (mergeLeft r h c).2 → d ∈ U := by
  obtain ⟨L, hI⟩ := hc.inv
  obtain ⟨b, hP⟩ := hI.shape.cuts.exists_left hc.mem (Nat.pos_of_ne_zero hc.ne_zero)
  obtain ⟨d, hPd⟩ := hI.exists_piece hc.mem hc.free
  have hLeft := hI.leftChunk_eq hr hP
  have hbc := hP.lt
  by_cases hUsed : chunkUsed r h b = true
  · have hDef : Zvm.Heap.mergeLeft r h c = (h, c) := by
      rw [Zvm.Heap.mergeLeft, hLeft, if_pos hUsed]
    rw [hDef]
    refine ⟨B, hc, fun _ _ _ hP => hP, hRight, ?_⟩
    intro d' hP'
    rw [hP'.left_unique hP]
    exact (hI.headers.used b hP.left_mem).mp hUsed
  · have hbU : b ∉ U := fun hU => hUsed ((hI.headers.used b hP.left_mem).mpr hU)
    have hbA : b ∈ (B \ U) \ {c} := ⟨⟨hP.left_mem, hbU⟩, Nat.ne_of_lt hbc⟩
    have hb0 : b ≠ 0 := by
      rintro rfl
      exact hbU hI.shape.zero_used
    obtain ⟨L', hI'⟩ := hI.remove hr hbA
    have hMerged := hI'.merge hr hP hPd (by simp) (by simp) hb0
    -- the border that goes still has the size of its left neighbour
    have hGone : leftChunk r (mergeChunks r (freeListRemove r h b) b c) c = b := by
      have hField : chunkField r (mergeChunks r (freeListRemove r h b) b c) c .leftSize =
          chunkField r (freeListRemove r h b) c .leftSize := by
        rw [mergeChunks_field hr (hI'.shape.cuts.le_top d hPd.right_mem) hP hPd
          (hI'.headers.size b c hP) (hI'.headers.size c d hPd) (slot_left hc.mem)]
        simp [Nat.ne_of_lt hPd.lt]
      rw [leftChunk, hField, ← leftChunk, hI'.leftChunk_eq hr hP]
    have hDef : Zvm.Heap.mergeLeft r h c = (mergeChunks r (freeListRemove r h b) b c, b) := by
      rw [Zvm.Heap.mergeLeft, hLeft, if_neg hUsed]
      simp only [hI'.leftChunk_eq hr hP, hGone]
    have hU : U \ {b, c} = U := by simp [sdiff_eq_left, hbU, hc.free]
    rw [hU, sdiff_right_comm B] at hMerged
    have hPieces := piece_erase_iff hP hPd
    rw [hDef]
    refine ⟨B \ {c}, ⟨⟨L', hMerged⟩, ⟨hP.left_mem, Nat.ne_of_lt hbc⟩, hbU⟩,
      keepsUsed_erase hP hPd hbU hc.free, ?_, ?_⟩
    · intro d' hP'
      rw [hP'.right_unique ((hPieces b d).mpr (.inr ⟨rfl, rfl⟩))]
      exact hRight d hPd
    · intro a hPa
      rcases (hPieces a b).mp hPa with ⟨hOld, -, -⟩ | ⟨rfl, -⟩
      · by_contra hNot
        refine hI.shape.apart a b hOld ⟨⟨hOld.left_mem, hNot⟩, ?_⟩ hbA
        exact Nat.ne_of_lt (Nat.lt_trans hOld.lt hbc)
      · exact absurd hPa.lt (Nat.lt_irrefl a)

/-- The heap is at rest: whatever is not used is available. -/
def Rest (r : Region) (h : ZHeap) (B U : Set Nat) : Prop := ∃ L, Inv r h B U (B \ U) L

/-- `free_chunk` brings the heap to rest. -/
theorem Loose.freeChunk (hr : r.Sound) (hc : Loose r h B U c) :
    ∃ B', Rest r (freeChunk r h c) B' U ∧ KeepsUsed U B B' := by
  obtain ⟨B₁, hLoose₁, hKeep₁, hRight₁⟩ := hc.mergeRight hr
  obtain ⟨B₂, hLoose₂, hKeep₂, hRight₂, hLeft₂⟩ := hLoose₁.mergeLeft hr hRight₁
  refine ⟨B₂, ?_, hKeep₁.trans hKeep₂⟩
  unfold Zvm.Heap.freeChunk
  generalize Zvm.Heap.mergeLeft r (Zvm.Heap.mergeRight r h c) c = m at hLoose₂ hRight₂ hLeft₂
  obtain ⟨L, hI⟩ := hLoose₂.inv
  obtain ⟨d, hP⟩ := hI.exists_piece hLoose₂.mem hLoose₂.free
  obtain ⟨L', hI'⟩ := hI.add hr hP hLoose₂.free (by simp)
    (fun hd => hd.1.2 (hRight₂ d hP)) (fun e hPe he => he.1.2 (hLeft₂ e hPe))
  refine ⟨L', ?_⟩
  have hA : insert m.2 ((B₂ \ U) \ {m.2}) = B₂ \ U :=
    Set.insert_sdiff_self_of_mem ⟨hLoose₂.mem, hLoose₂.free⟩
  rwa [hA] at hI'

end Zvm.Heap
