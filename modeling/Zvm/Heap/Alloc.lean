import Zvm.Heap.FreeLists
import Zvm.Verified.SetBits

/-!
# Allocating

`alloc_chunk` looks through a few chunks of the bucket in which the first that fits
may be, and otherwise takes the first chunk of a bucket whose chunks all fit.
`sys_heap_alloc` gives the rest of the chunk back; `sys_heap_aligned_alloc` asks for
a chunk with enough slack and gives back what lies before and after the aligned block.

A heap that has been divided this way is described by `Loose`: at rest but for the
chunk in hand.  The only step that looks at addresses is the one that finds the
aligned block in the chunk.
-/

namespace Zvm.Heap

open Zvm.Verified.FunArray Zvm.Verified.Pieces Zvm.Verified.CircularList Zvm.Verified.SetBits

section

variable (r : Region)

/-! ## The functions -/

/-- The tries that `do .. while (--i && ..)` makes from `CONFIG_SYS_HEAP_ALLOC_LOOPS` on. -/
def HeapConfig.tries (k : HeapConfig) : Nat := if k.allocLoops = 0 then 2 ^ 32 else k.allocLoops

/-- The `do` loop of `alloc_chunk`: the chunk found, or 0. -/
def tryBucket (sz bi first : Nat) : Nat → ZHeap → ZHeap × Nat
  | 0, h => (h, 0)
  | i + 1, h =>
    if sz ≤ chunkSize r h (h.buckets bi) then
      (freeListRemoveBidx r h (h.buckets bi) bi, h.buckets bi)
    else if nextFreeChunk r h (h.buckets bi) = first then
      (setBucket h bi (nextFreeChunk r h (h.buckets bi)), 0)
    else tryBucket sz bi first i (setBucket h bi (nextFreeChunk r h (h.buckets bi)))

/-- `h->avail_buckets & ~BIT_MASK(bi + 1)`. -/
def bucketsAbove (h : ZHeap) (bi : Nat) : BitVec 32 :=
  h.availBuckets &&& ~~~((1#32 <<< (bi + 1)) - 1#32)

/-- The rest of `alloc_chunk`: the first chunk of the smallest bucket that is guaranteed to fit. -/
def takeAbove (h : ZHeap) (bi : Nat) : ZHeap × Nat :=
  match lowestSet (bucketsAbove h bi) with
  | some minbucket =>
    (freeListRemoveBidx r h (h.buckets minbucket) minbucket, h.buckets minbucket)
  | none => (h, 0)

/-- `alloc_chunk`. -/
def allocChunk (h : ZHeap) (sz : Nat) : ZHeap × Nat :=
  if h.buckets (bucketIdx r sz) = 0 then takeAbove r h (bucketIdx r sz)
  else
    let m := tryBucket r sz (bucketIdx r sz) (h.buckets (bucketIdx r sz)) r.cfg.tries h
    if m.2 = 0 then takeAbove r m.1 (bucketIdx r sz) else m

/-- `chunk_mem`. -/
def chunkMem (c : Nat) : Nat := r.cfg.size (r.chunkBuf + 8 * c + chunkHeaderBytes r)

/-- `mem_to_chunkid`. -/
def memToChunkid (p : Nat) : Nat :=
  u32 (r.cfg.sub (r.cfg.sub p (chunkHeaderBytes r)) r.chunkBuf / 8)

/-- `increase_allocated_bytes(h, chunksz_to_bytes(h, chunk_size(h, c)))`. -/
def increaseAllocatedBytes (h : ZHeap) (c : Nat) : ZHeap :=
  if r.cfg.runtimeStats then
    let allocated := r.cfg.size (h.allocatedBytes + chunkszToBytes r (chunkSize r h c))
    { h with allocatedBytes := allocated, maxAllocatedBytes := max h.maxAllocatedBytes allocated }
  else h

/-- Mark a chunk as used and count it. -/
def claim (h : ZHeap) (c : Nat) : ZHeap :=
  increaseAllocatedBytes r (setChunkUsed r h c true) c

/-- Split a chunk and put the right part into its list. -/
def splitTail (h : ZHeap) (c x : Nat) : ZHeap := freeListAdd r (splitChunks r h c x) x

/-- Split a chunk and put the left part into its list. -/
def splitHead (h : ZHeap) (c x : Nat) : ZHeap := freeListAdd r (splitChunks r h c x) c

/-- `sys_heap_alloc`; 0 is `NULL`. -/
def sysHeapAlloc (h : ZHeap) (bytes : Nat) : ZHeap × Nat :=
  if bytes = 0 ∨ sizeTooBig r bytes = true then (h, 0)
  else
    let (h, c) := allocChunk r h (bytesToChunksz r bytes)
    if c = 0 then (h, 0)
    else
      let h := if bytesToChunksz r bytes < chunkSize r h c then
        splitTail r h c (u32 (c + bytesToChunksz r bytes)) else h
      (claim r h c, chunkMem r c)

/-- `ROUND_UP`. -/
def HeapConfig.roundUp (k : HeapConfig) (x align : Nat) : Nat :=
  k.size (k.size (x + k.sub align 1) / align * align)

/-- Where the block of an aligned request goes in the chunk `c0`. -/
def alignedMem (c0 align rew : Nat) : Nat :=
  r.cfg.sub (r.cfg.roundUp (r.cfg.size (chunkMem r c0 + rew)) align) rew

/-- `end - chunk_buf(h)` for a block of `bytes` bytes at `mem`. -/
def blockEnd (mem bytes : Nat) : Nat :=
  u32 (r.cfg.sub (r.cfg.roundUp (r.cfg.size (mem + bytes)) 8) r.chunkBuf / 8)

/-- The part of `sys_heap_aligned_alloc` after the chunk `c0` was found. -/
def placeAligned (h : ZHeap) (c0 align rew bytes : Nat) : ZHeap × Nat :=
  let mem := alignedMem r c0 align rew
  let c := memToChunkid r mem
  let cEnd := blockEnd r mem bytes
  let h := if c0 < c then splitHead r h c0 c else h
  let h := if cEnd < rightChunk r h c then splitTail r h c cEnd else h
  (claim r h c, mem)

/-- `sys_heap_aligned_alloc` from the assertion on, with the alignment split into its parts. -/
def alignedAllocParts (h : ZHeap) (align rew gap bytes : Nat) : ZHeap × Nat :=
  if bytes = 0 ∨ sizeTooBig r bytes = true then (h, 0)
  else
    let (h, c0) :=
      allocChunk r h (bytesToChunksz r (r.cfg.sub (r.cfg.size (bytes + align)) gap))
    if c0 = 0 then (h, 0) else placeAligned r h c0 align rew bytes

/-- `align & -align`. -/
def HeapConfig.lowBit (k : HeapConfig) (align : Nat) : Nat := align &&& k.sub 0 align

/-- `sys_heap_aligned_alloc`. -/
def sysHeapAlignedAlloc (h : ZHeap) (align bytes : Nat) : ZHeap × Nat :=
  if align ≠ r.cfg.lowBit align then
    alignedAllocParts r h (align - r.cfg.lowBit align) (r.cfg.lowBit align)
      (min (r.cfg.lowBit align) (chunkHeaderBytes r)) bytes
  else if align ≤ chunkHeaderBytes r then sysHeapAlloc r h bytes
  else alignedAllocParts r h align 0 (chunkHeaderBytes r) bytes

end

variable {r : Region} {h h' : ZHeap} {B U A : Set Nat} {L : Nat → List Nat}

/-! ## Finding a chunk -/

variable {b x sz p bytes align a : Nat} {k : HeapConfig}

/-- Turning the ring of a bucket. -/
theorem Inv.rotate (hI : Inv r h B U A L) {l : List Nat} (hList : L b = x :: l) :
    Inv r (setBucket h b (nextFreeChunk r h x)) B U A (set L b (l ++ [x])) := by
  have hRing : Ring (nextFreeChunk r h) (prevFreeChunk r h) (x :: l) := hList ▸ hI.lists.ring b
  have hPerm : (l ++ [x]).Perm (L b) := by
    rw [hList]
    exact List.perm_append_comm
  have hHead : nextFreeChunk r h x = (l ++ [x]).headD 0 := by
    cases l with
    | nil => exact ((ring_singleton x).mp hRing).1
    | cons y l => exact hRing.next_head
  have hMem : ∀ b' e, e ∈ set L b (l ++ [x]) b' ↔ e ∈ L b' := by
    intro b' e
    by_cases hb : b' = b
    · rw [hb, set_same, hPerm.mem_iff]
    · rw [set_ne _ _ hb]
  refine ⟨hI.shape, hI.headers.congr (fun _ _ _ _ => rfl), hI.lists.replace hRing.rotate_one
    (hPerm.nodup_iff.mpr (hI.lists.nodup b)) (fun _ _ _ _ _ _ => rfl) ?_
    (congrArg (set h.buckets b) hHead) fun b' => ?_⟩
  · intro b' e
    rw [hMem, hI.lists.mem]
  · have hOn := (hI.lists.avail b).mpr (by simp [hList])
    by_cases hb' : b' = b <;> simp [hb', hOn, setBucket]

theorem Inv.bucket_le (hr : r.Sound) (hI : Inv r h B U A L) {c : Nat} (hc : c ∈ L b) :
    b ≤ bucketIdx r r.endChunk := by
  obtain ⟨-, d, hP, hMin, rfl⟩ := (hI.lists.mem b c).mp hc
  have hTop := hI.shape.cuts.le_top d hP.right_mem
  have hEnd := hr.end_lt_u32
  exact bucketIdx_mono hMin (by omega) (by omega)

theorem Inv.bucket_head (hr : r.Sound) (hI : Inv r h B U A L) {l : List Nat} (hList : L b = x :: l) :
    h.buckets b = x := by
  rw [hI.lists.head b (hI.bucket_le hr (c := x) (by simp [hList])), hList, List.headD_cons]

theorem setBucket_self (h : ZHeap) (b : Nat) : setBucket h b (h.buckets b) = h := by
  simp [setBucket]

theorem setBucket_setBucket (h : ZHeap) (b x y : Nat) :
    setBucket (setBucket h b x) b y = setBucket h b y := by
  simp [setBucket]

/-- The loop after the chunks of `done` were passed: it ends without a chunk when none of the
next ones fits, and otherwise takes one of them from the head of the list. -/
theorem tryBucket_cases (hr : r.Sound) (bi sz first i : Nat) :
    ∀ (h : ZHeap) (L : Nat → List Nat) (rest done : List Nat), Inv r h B U A L →
      L bi = rest ++ done → rest ≠ [] → (done ++ rest).head? = some first →
      ∃ x L₁, Inv r (setBucket h bi x) B U A L₁ ∧
        ((tryBucket r sz bi first i h = (setBucket h bi x, 0) ∧
            ∀ e ∈ rest.take i, ¬ sz ≤ chunkSize r h e) ∨
          (x ∈ L₁ bi ∧ x ∈ rest.take i ∧ sz ≤ chunkSize r h x ∧
            tryBucket r sz bi first i h =
              (freeListRemoveBidx r (setBucket h bi x) x bi, x))) := by
  induction i with
  | zero =>
    intro h L rest done hI _ _ _
    refine ⟨h.buckets bi, L, ?_, .inl ⟨?_, by simp⟩⟩
    · rwa [setBucket_self]
    · rw [setBucket_self, tryBucket]
  | succ i ih =>
    intro h L rest done hI hList hRest hFirst
    obtain ⟨x, rest, rfl⟩ := List.exists_cons_of_ne_nil hRest
    have hx : x ∈ L bi := by simp [hList]
    have hHead : h.buckets bi = x := hI.bucket_head hr hList
    rw [tryBucket, hHead]
    by_cases hFit : sz ≤ chunkSize r h x
    · rw [if_pos hFit]
      have hSelf : setBucket h bi x = h := by rw [← hHead, setBucket_self]
      exact ⟨x, L, by rwa [hSelf], .inr ⟨hx, by simp, hFit, by rw [hSelf]⟩⟩
    · rw [if_neg hFit]
      have hRing : Ring (nextFreeChunk r h) (prevFreeChunk r h) (x :: (rest ++ done)) := by
        have hWhole := hI.lists.ring bi
        rwa [hList] at hWhole
      have hNodup : (x :: (rest ++ done)).Nodup := by
        have hWhole := hI.lists.nodup bi
        rwa [hList] at hWhole
      have hTurn := hI.rotate (b := bi) (x := x) (l := rest ++ done) hList
      cases rest with
      | nil =>
        -- all chunks were passed, and the list is where it was at first
        have hBack : nextFreeChunk r h x = first := by
          cases done with
          | nil =>
            rw [((ring_singleton x).mp hRing).1]
            simpa using hFirst
          | cons y done =>
            rw [hRing.next_head]
            simpa using hFirst
        rw [if_pos hBack]
        refine ⟨_, _, hTurn, .inl ⟨rfl, ?_⟩⟩
        intro e he
        have hex : e = x := by simpa using List.mem_of_mem_take he
        rwa [hex]
      | cons y rest =>
        have hNext : nextFreeChunk r h x = y := hRing.next_head
        have hNot : nextFreeChunk r h x ≠ first := by
          rw [hNext]
          rintro rfl
          -- the first chunk is in the list once
          cases done <;>
          · simp only [List.nil_append, List.cons_append, List.head?_cons,
              Option.some.injEq] at hFirst
            subst hFirst
            simp at hNodup
        rw [if_neg hNot]
        obtain ⟨x', L₁, hI₁, hCase⟩ := ih _ _ (y :: rest) (done ++ [x]) hTurn
          (by rw [set_same]; simp) (by simp) (by cases done <;> simpa using hFirst)
        rw [setBucket_setBucket] at hI₁ hCase
        refine ⟨x', L₁, hI₁, ?_⟩
        rcases hCase with ⟨hRes, hNone⟩ | ⟨hMem, hTake, hFits, hRes⟩
        · refine .inl ⟨hRes, ?_⟩
          intro e he
          rw [List.take_succ_cons, List.mem_cons] at he
          rcases he with rfl | he
          · exact hFit
          · exact hNone e he
        · exact .inr ⟨hMem, by rw [List.take_succ_cons]; exact .tail _ hTake, hFits, hRes⟩

/-- The bits above a bucket. -/
theorem getLsbD_bucketsAbove (h : ZHeap) {bi : Nat} (hbi : bi < 32) (i : Nat) :
    (bucketsAbove h bi).getLsbD i = (h.availBuckets.getLsbD i && decide (bi < i)) := by
  have hMask : ((1#32 <<< (bi + 1)) - 1#32).toNat = 2 ^ (bi + 1) - 1 := by
    rw [BitVec.toNat_sub, BitVec.toNat_shiftLeft, BitVec.toNat_ofNat, Nat.shiftLeft_eq]
    have hPos := Nat.two_pow_pos (bi + 1)
    rcases Nat.lt_or_eq_of_le (show bi + 1 ≤ 32 by omega) with hlt | heq
    · have hPow : 2 ^ (bi + 1) < 2 ^ 32 := Nat.pow_lt_pow_right (by norm_num) hlt
      rw [show 1 % 2 ^ 32 = 1 by norm_num, Nat.one_mul, Nat.mod_eq_of_lt hPow]
      omega
    · rw [heq]
      norm_num
  by_cases hi : i < 32
  · have hBit : ((1#32 <<< (bi + 1)) - 1#32).getLsbD i = decide (i < bi + 1) := by
      rw [BitVec.getLsbD, hMask, Nat.testBit_two_pow_sub_one]
    rw [bucketsAbove, BitVec.getLsbD_and, BitVec.getLsbD_not, hBit, decide_eq_true hi,
      Bool.true_and]
    by_cases hlt : bi < i
    · rw [decide_eq_false (show ¬ i < bi + 1 by omega), decide_eq_true hlt, Bool.not_false]
    · rw [decide_eq_true (show i < bi + 1 by omega), decide_eq_false hlt, Bool.not_true]
  · rw [BitVec.getLsbD_of_ge _ i (Nat.le_of_not_lt hi),
      BitVec.getLsbD_of_ge _ i (Nat.le_of_not_lt hi), Bool.false_and]

theorem takeAbove_cases (hr : r.Sound) (hI : Inv r h B U A L) {bi : Nat} (hbi : bi < 32) :
    (takeAbove r h bi = (h, 0) ∧ ∀ b, bi < b → L b = []) ∨
      ∃ b c, bi < b ∧ c ∈ L b ∧ takeAbove r h bi = (freeListRemoveBidx r h c b, c) := by
  unfold takeAbove
  cases hLow : lowestSet (bucketsAbove h bi) with
  | none =>
    refine .inl ⟨rfl, ?_⟩
    intro b hb
    by_contra hNe
    have hSet : (bucketsAbove h bi).getLsbD b = true := by
      rw [getLsbD_bucketsAbove h hbi, (hI.lists.avail b).mpr hNe, decide_eq_true hb, Bool.and_self]
    have hAll := firstIdx_eq_none.mp hLow b (BitVec.lt_of_getLsbD hSet)
    rw [hSet] at hAll
    cases hAll
  | some b =>
    obtain ⟨-, hSet, -⟩ := firstIdx_eq_some.mp hLow
    rw [getLsbD_bucketsAbove h hbi, Bool.and_eq_true, decide_eq_true_eq] at hSet
    obtain ⟨c, l, hList⟩ := List.exists_cons_of_ne_nil ((hI.lists.avail b).mp hSet.1)
    have hc : c ∈ L b := by simp [hList]
    refine .inr ⟨b, c, hSet.2, hc, ?_⟩
    simp only [hI.bucket_head hr hList]

/-- The chunks that `alloc_chunk` looks at and that are large enough. -/
def Tried (r : Region) (h : ZHeap) (L : Nat → List Nat) (sz e : Nat) : Prop :=
  (e ∈ (L (bucketIdx r sz)).take r.cfg.tries ∧ sz ≤ chunkSize r h e) ∨
    ∃ b, bucketIdx r sz < b ∧ e ∈ L b

/-- A chunk of a higher bucket is large enough. -/
theorem Inv.fits_above (hI : Inv r h B U A L) {c : Nat} (hsz : sz < 2 ^ 32)
    (hb : bucketIdx r sz < b) (hc : c ∈ L b) : sz ≤ chunkSize r h c := by
  obtain ⟨-, d, hP, hMin, rfl⟩ := (hI.lists.mem b c).mp hc
  rw [hI.headers.size c d hP]
  by_contra hNot
  have hMono := bucketIdx_mono hMin (show d - c ≤ sz by omega) hsz
  omega

/-- What `alloc_chunk` does: it turns the list of the bucket of the size, and then takes out a
chunk that is large enough, or finds that no chunk it looks at is. -/
def AllocOutcome (r : Region) (h : ZHeap) (B U A : Set Nat) (L : Nat → List Nat) (sz : Nat) :
    Prop :=
  ∃ x L₁, Inv r (setBucket h (bucketIdx r sz) x) B U A L₁ ∧
    ((allocChunk r h sz = (setBucket h (bucketIdx r sz) x, 0) ∧ ∀ e, ¬ Tried r h L sz e) ∨
      ∃ b c, c ∈ L₁ b ∧ sz ≤ chunkSize r h c ∧ Tried r h L sz c ∧
        allocChunk r h sz = (freeListRemoveBidx r (setBucket h (bucketIdx r sz) x) c b, c))

/-- The lists hold the same chunks in every state with the same sets. -/
theorem Inv.mem_iff {L₁ : Nat → List Nat} (hI : Inv r h B U A L) (hI₁ : Inv r h' B U A L₁)
    (b c : Nat) : c ∈ L₁ b ↔ c ∈ L b := by
  rw [hI₁.lists.mem, hI.lists.mem]

/-- The second part of `alloc_chunk`, after the list of the bucket was turned in vain. -/
theorem allocOutcome_of_above (hr : r.Sound) (hI : Inv r h B U A L) {L₁ : Nat → List Nat}
    (hsz : sz < 2 ^ 32) (hI₁ : Inv r (setBucket h (bucketIdx r sz) x) B U A L₁)
    (hNone : ∀ e ∈ (L (bucketIdx r sz)).take r.cfg.tries, ¬ sz ≤ chunkSize r h e)
    (hDef : allocChunk r h sz = takeAbove r (setBucket h (bucketIdx r sz) x) (bucketIdx r sz)) :
    AllocOutcome r h B U A L sz := by
  refine ⟨x, L₁, hI₁, ?_⟩
  rw [hDef]
  rcases takeAbove_cases hr hI₁ (bucketIdx_lt sz) with ⟨hRes, hEmpty⟩ | ⟨b, c, hb, hc, hRes⟩
  · refine .inl ⟨hRes, ?_⟩
    rintro e (⟨he, hFit⟩ | ⟨b, hb, he⟩)
    · exact hNone e he hFit
    · rw [← hI.mem_iff hI₁, hEmpty b hb] at he
      simp at he
  · have hc' : c ∈ L b := (hI.mem_iff hI₁ b c).mp hc
    exact .inr ⟨b, c, hc, hI.fits_above hsz hb hc', .inr ⟨b, hb, hc'⟩, hRes⟩

theorem allocChunk_outcome (hr : r.Sound) (hI : Inv r h B U A L) (hsz : sz < 2 ^ 32)
    (hIdx : bucketIdx r sz ≤ bucketIdx r r.endChunk) : AllocOutcome r h B U A L sz := by
  have hHead := hI.lists.head _ hIdx
  cases hList : L (bucketIdx r sz) with
  | nil =>
    have hZero : h.buckets (bucketIdx r sz) = 0 := by rw [hHead, hList, List.headD_nil]
    have hSame : Inv r (setBucket h (bucketIdx r sz) (h.buckets (bucketIdx r sz))) B U A L := by
      rwa [setBucket_self]
    apply allocOutcome_of_above hr hI hsz hSame
    · simp [hList]
    · rw [setBucket_self, allocChunk, if_pos hZero]
  | cons y l =>
    have hNonzero : ∀ {c : Nat}, c ∈ L (bucketIdx r sz) → c ≠ 0 := by
      rintro c hc rfl
      exact hI.zero_not_avail ((hI.lists.mem _ 0).mp hc).1
    have hBucket : h.buckets (bucketIdx r sz) = y := by rw [hHead, hList, List.headD_cons]
    have hNe : h.buckets (bucketIdx r sz) ≠ 0 := by
      rw [hBucket]
      exact hNonzero (by simp [hList])
    obtain ⟨x, L₁, hI₁, hCase⟩ := tryBucket_cases hr (bucketIdx r sz) sz y r.cfg.tries h L
      (y :: l) [] hI (by rw [hList, List.append_nil]) (by simp) rfl
    rcases hCase with ⟨hRes, hNone⟩ | ⟨hx, hTake, hFit, hRes⟩
    · apply allocOutcome_of_above hr hI hsz hI₁
      · rwa [hList]
      · rw [allocChunk, if_neg hNe, hBucket, hRes]
        simp
    · refine ⟨x, L₁, hI₁, .inr ⟨_, x, hx, hFit, .inl ⟨?_, hFit⟩, ?_⟩⟩
      · rwa [hList]
      · rw [allocChunk, if_neg hNe, hBucket, hRes]
        simp [hNonzero ((hI.mem_iff hI₁ _ x).mp hx)]

/-! ## The chunk in hand -/

/-- The invariant does not depend on the counters. -/
theorem Inv.of_same (hI : Inv r h B U A L) (hMem : h'.mem = h.mem)
    (hBuckets : h'.buckets = h.buckets) (hAvail : h'.availBuckets = h.availBuckets) :
    Inv r h' B U A L :=
  ⟨hI.shape, hI.headers.congr (fun c _ f _ => chunkField_of_mem_eq hMem c f),
    hI.lists.transfer (fun _ _ _ => Iff.rfl) (fun _ c _ f _ => chunkField_of_mem_eq hMem c f)
      hBuckets hAvail⟩

theorem increaseAllocatedBytes_same (h : ZHeap) (c : Nat) :
    (increaseAllocatedBytes r h c).mem = h.mem ∧
      (increaseAllocatedBytes r h c).buckets = h.buckets ∧
      (increaseAllocatedBytes r h c).availBuckets = h.availBuckets := by
  unfold increaseAllocatedBytes
  split <;> exact ⟨rfl, rfl, rfl⟩

/-- Both neighbours of the chunk are used. -/
structure Walled (U B : Set Nat) (c : Nat) : Prop where
  right : ∀ d, Piece B c d → d ∈ U
  left : ∀ e, Piece B e c → e ∈ U

variable {c x d : Nat}

/-- A chunk taken out of its list lies between used ones. -/
theorem Inv.take (hr : r.Sound) (hI : Inv r h B U (B \ U) L) (hc : c ∈ L b) :
    Loose r (freeListRemoveBidx r h c b) B U c ∧ Walled U B c := by
  obtain ⟨hcA, -⟩ := (hI.lists.mem b c).mp hc
  obtain ⟨⟨L', hL'⟩, hSame⟩ := hI.lists.remove hr hI.shape.cuts.le_top hc
  have hShape : Shape r B U ((B \ U) \ {c}) :=
    { hI.shape with
      avail_sub := fun e he => he.1
      apart := fun e e' hP he he' => hI.shape.apart e e' hP he.1 he'.1 }
  refine ⟨⟨⟨L', hShape, hI.headers.congr hSame, hL'⟩, hcA.1, hcA.2⟩, ?_, ?_⟩
  · intro d hP
    by_contra hNot
    exact hI.shape.apart c d hP hcA ⟨hP.right_mem, hNot⟩
  · intro e hP
    by_contra hNot
    exact hI.shape.apart e c hP ⟨hP.left_mem, hNot⟩ hcA

/-- Dividing a chunk that is not used keeps the used ones. -/
theorem keepsUsed_insert (hP : Piece B c d) (hcx : c < x) (hxd : x < d) (hcU : c ∉ U) :
    KeepsUsed U B (insert x B) := by
  intro u hu v hPu
  refine (piece_insert_iff hP hcx hxd u v).mpr (.inl ⟨hPu, ?_⟩)
  rintro rfl
  exact hcU hu

section

variable (hr : r.Sound) (hc : Loose r h B U c)
include hr hc

/-- Splitting the chunk in hand, with both parts still out of the lists. -/
theorem Loose.split (hP : Piece B c d) (hcx : c < x) (hxd : x < d) :
    x ∉ B ∧ x ∉ U ∧ Piece (insert x B) c x ∧ Piece (insert x B) x d ∧
      ∃ L, Inv r (splitChunks r h c x) (insert x B) U ((B \ U) \ {c}) L := by
  obtain ⟨L, hI⟩ := hc.inv
  have hxB : x ∉ B := hP.inside x hcx hxd
  have hPieces := piece_insert_iff hP hcx hxd
  have hSplit := hI.split hr hP hcx hxd (by simp) hc.ne_zero
  rw [Set.sdiff_singleton_eq_self hc.free] at hSplit
  exact ⟨hxB, fun hU => hxB (hI.shape.used_sub hU), (hPieces c x).mpr (.inr (.inl ⟨rfl, rfl⟩)),
    (hPieces x d).mpr (.inr (.inr ⟨rfl, rfl⟩)), L, hSplit⟩

theorem Loose.splitTail (hRight : ∀ e, Piece B c e → e ∈ U) (hP : Piece B c d) (hcx : c < x)
    (hxd : x < d) :
    Loose r (splitTail r h c x) (insert x B) U c ∧ Piece (insert x B) c x := by
  obtain ⟨hxB, hxU, hPl, hPr, L, hI⟩ := hc.split hr hP hcx hxd
  obtain ⟨L', hI'⟩ := hI.add hr hPr hxU (fun hx => hxB hx.1.1)
    (fun hd => hd.1.2 (hRight d hP)) (by
      intro e hPe he
      rw [hPe.left_unique hPl] at he
      exact he.2 rfl)
  refine ⟨⟨⟨L', ?_⟩, .inr hc.mem, hc.free⟩, hPl⟩
  have hA : insert x ((B \ U) \ {c}) = (insert x B \ U) \ {c} := by
    ext e
    have hxc := Nat.ne_of_gt hcx
    by_cases hex : e = x <;> simp [hex, hxU, hxc]
  rwa [hA] at hI'

theorem Loose.splitHead (hLeft : ∀ e, Piece B e c → e ∈ U) (hP : Piece B c d) (hcx : c < x)
    (hxd : x < d) :
    Loose r (splitHead r h c x) (insert x B) U x ∧ Piece (insert x B) x d := by
  obtain ⟨hxB, hxU, hPl, hPr, L, hI⟩ := hc.split hr hP hcx hxd
  obtain ⟨L', hI'⟩ := hI.add hr hPl hc.free (by simp) (fun hx => hxB hx.1.1) (by
    intro e hPe he
    rcases (piece_insert_iff hP hcx hxd e c).mp hPe with ⟨hOld, -⟩ | ⟨rfl, -⟩ | ⟨rfl, rfl⟩
    · exact he.1.2 (hLeft e hOld)
    · exact he.2 rfl
    · exact hxB he.1.1)
  refine ⟨⟨⟨L', ?_⟩, .inl rfl, hxU⟩, hPr⟩
  have hA : insert c ((B \ U) \ {c}) = (insert x B \ U) \ {x} := by
    ext e
    have hxc := Nat.ne_of_gt hcx
    by_cases hex : e = x
    · simp [hex, hxB, hxc]
    · by_cases hec : e = c <;> simp [hec, hex, hc.mem, hc.free, hcx.ne]
  rwa [hA] at hI'

end

/-- Marking the chunk in hand as used brings the heap to rest. -/
theorem Loose.claim (hr : r.Sound) (hc : Loose r h B U c) :
    Rest r (claim r h c) B (insert c U) := by
  obtain ⟨L, hI⟩ := hc.inv
  have hcTop : c ≠ r.endChunk := Nat.ne_of_lt (hI.lt_end hc.mem hc.free)
  have hUsed : Inv r (setChunkUsed r h c true) B (insert c U) ((B \ U) \ {c}) L :=
    hI.setUsed hr hc.mem (by simp) hc.ne_zero hcTop (fun e he => by simp [he]) (by simp)
  obtain ⟨hMem, hBuckets, hAvail⟩ := increaseAllocatedBytes_same (r := r)
    (setChunkUsed r h c true) c
  have hA : (B \ U) \ {c} = B \ insert c U := by
    ext e
    simp only [Set.mem_insert_iff, Set.mem_sdiff, Set.mem_singleton_iff]
    tauto
  rw [hA] at hUsed
  exact ⟨L, hUsed.of_same hMem hBuckets hAvail⟩

/-! ## Addresses -/

theorem chunkHeaderBytes_cases : chunkHeaderBytes r = 4 ∨ chunkHeaderBytes r = 8 := by
  unfold chunkHeaderBytes
  split
  · exact .inr rfl
  · exact .inl rfl

theorem HeapConfig.eight_dvd (k : HeapConfig) : 8 ∣ 2 ^ k.sizeBits := by
  rcases k.sizeBits_eq with hk | hk <;> rw [hk] <;> norm_num

/-- The address space goes on for a unit after the heap. -/
theorem Region.Sound.top_lt (hr : r.Sound) :
    r.chunkBuf + 8 * r.endChunk + 8 ≤ 2 ^ r.cfg.sizeBits := by
  have hTop := hr.top_le
  have hAligned := hr.aligned
  have hHdr := chunkHeaderBytes_cases (r := r)
  have hPow := r.cfg.eight_dvd
  omega

theorem chunkMem_eq (hr : r.Sound) (hc : c < r.endChunk) :
    chunkMem r c = r.chunkBuf + 8 * c + chunkHeaderBytes r := by
  have hTop := hr.top_lt
  have hHdr := chunkHeaderBytes_cases (r := r)
  exact HeapConfig.size_of_lt (by omega)

/-- The chunk of an address is the unit that the bytes a header before it lie in. -/
theorem memToChunkid_eq (hr : r.Sound) (hLow : r.chunkBuf + chunkHeaderBytes r ≤ p)
    (hHigh : p ≤ r.chunkBuf + 8 * r.endChunk) :
    memToChunkid r p = (p - chunkHeaderBytes r - r.chunkBuf) / 8 := by
  have hTop := hr.top_lt
  have hEnd := hr.end_lt_u32
  have hBefore : r.cfg.sub p (chunkHeaderBytes r) = p - chunkHeaderBytes r :=
    HeapConfig.sub_of_le (by omega) (by omega)
  rw [memToChunkid, hBefore, HeapConfig.sub_of_le (by omega) (by omega), u32_of_lt (by omega)]

theorem bytesToChunksz_eq (hr : r.Sound) (hFits : chunkHeaderBytes r + bytes ≤ 8 * r.endChunk) :
    bytesToChunksz r bytes = (chunkHeaderBytes r + bytes + 7) / 8 := by
  have hTop := hr.top_lt
  have hEnd := hr.end_lt_u32
  have hBytes : r.cfg.size (chunkHeaderBytes r + bytes) = chunkHeaderBytes r + bytes :=
    HeapConfig.size_of_lt (by omega)
  rw [bytesToChunksz, chunksz, hBytes, HeapConfig.size_of_lt (by omega), u32_of_lt (by omega)]

theorem minChunkSize_le (hr : r.Sound) (hPos : 0 < bytes)
    (hFits : chunkHeaderBytes r + bytes ≤ 8 * r.endChunk) :
    minChunkSize r ≤ bytesToChunksz r bytes := by
  rw [bytesToChunksz_eq hr hFits, minChunkSize_eq]
  cases hBig : r.big <;> simp [chunkHeaderBytes, hBig] <;> omega

/-- A block of `bytes` bytes at `p` in the chunk from `c` to `e`. -/
structure BlockAt (r : Region) (B : Set Nat) (c e p bytes : Nat) : Prop where
  piece : Piece B c e
  low : r.chunkBuf + 8 * c + chunkHeaderBytes r ≤ p
  high : p + bytes ≤ r.chunkBuf + 8 * e
  id : memToChunkid r p = c

/-- The outcome of a request for `bytes` bytes: nothing and the same division as before, or a
block in a chunk that was not used, with all used chunks where they were. -/
inductive Outcome (r : Region) (B U : Set Nat) (bytes : Nat) (ok : Nat → Prop) :
    ZHeap × Nat → Prop
  | none {h : ZHeap} (hRest : Rest r h B U) : Outcome r B U bytes ok (h, 0)
  | block {h : ZHeap} {B' : Set Nat} {c e p : Nat} (hRest : Rest r h B' (insert c U))
      (hKeep : KeepsUsed U B B') (hFree : c ∉ U) (hBlock : BlockAt r B' c e p bytes)
      (hPos : 0 < bytes) (hOk : ok p) : Outcome r B U bytes ok (h, p)

theorem BlockAt.pos {e : Nat} (hBlock : BlockAt r B c e p bytes) : 0 < p := by
  have hLow := hBlock.low
  have hHdr := chunkHeaderBytes_cases (r := r)
  omega

/-- A chunk is found, or the heap is still at rest. -/
theorem Rest.alloc (hr : r.Sound) (hRest : Rest r h B U) (hPos : 0 < bytes)
    (hFits : chunkHeaderBytes r + bytes ≤ 8 * r.endChunk) :
    (∃ h', allocChunk r h (bytesToChunksz r bytes) = (h', 0) ∧ Rest r h' B U) ∨
      ∃ h' c d, allocChunk r h (bytesToChunksz r bytes) = (h', c) ∧ c ≠ 0 ∧ Loose r h' B U c ∧
        Walled U B c ∧ Piece B c d ∧ bytesToChunksz r bytes ≤ d - c ∧ chunkSize r h' c = d - c := by
  obtain ⟨L, hI⟩ := hRest
  have hEnd := hr.end_lt_u32
  have hMin := minChunkSize_le hr hPos hFits
  have hLe : bytesToChunksz r bytes ≤ r.endChunk := by
    rw [bytesToChunksz_eq hr hFits]
    omega
  obtain ⟨x, L₁, hI₁, hCase⟩ : AllocOutcome r h B U (B \ U) L (bytesToChunksz r bytes) :=
    allocChunk_outcome hr hI (by omega) (bucketIdx_mono hMin hLe (by omega))
  rcases hCase with ⟨hRes, -⟩ | ⟨b, c, hc, hFit, -, hRes⟩
  · exact .inl ⟨_, hRes, L₁, hI₁⟩
  · obtain ⟨hLoose, hWall⟩ := hI₁.take hr hc
    obtain ⟨hcA, d, hP, -⟩ := (hI₁.lists.mem b c).mp hc
    have hc0 : c ≠ 0 := by
      rintro rfl
      exact hI₁.zero_not_avail hcA
    rw [hI.headers.size c d hP] at hFit
    obtain ⟨L₂, hI₂⟩ := hLoose.inv
    exact .inr ⟨_, c, d, hRes, hc0, hLoose, hWall, hP, hFit, hI₂.headers.size c d hP⟩

theorem sysHeapAlloc_spec (hr : r.Sound) (hRest : Rest r h B U)
    (hFits : chunkHeaderBytes r + bytes ≤ 8 * r.endChunk) :
    Outcome r B U bytes (fun p => p % chunkHeaderBytes r = 0) (sysHeapAlloc r h bytes) := by
  unfold sysHeapAlloc
  split
  · exact .none hRest
  · rename_i hGuard
    have hPos : 0 < bytes := by omega
    have hSz := bytesToChunksz_eq hr hFits
    rcases hRest.alloc hr hPos hFits with ⟨h', hRes, hRest'⟩ |
      ⟨h', c, d, hRes, hc0, hLoose, hWall, hP, hFit, hSize⟩
    · simp only [hRes, if_pos]
      exact .none hRest'
    · simp only [hRes, if_neg hc0, hSize]
      obtain ⟨L', hI'⟩ := hLoose.inv
      have hcd := hP.lt
      have hdTop := hI'.shape.cuts.le_top d hP.right_mem
      have hTop := hr.top_lt
      have hEnd := hr.end_lt_u32
      have hHdr := chunkHeaderBytes_cases (r := r)
      have hMem := chunkMem_eq hr (show c < r.endChunk by omega)
      have hId : memToChunkid r (chunkMem r c) = c := by
        rw [hMem, memToChunkid_eq hr (by omega) (by omega)]
        omega
      have hAligned : chunkMem r c % chunkHeaderBytes r = 0 := by
        have hBase := hr.aligned
        rw [hMem]
        rcases hHdr with hk | hk <;> rw [hk] <;> omega
      have hBlock : ∀ {B' : Set Nat} {e : Nat}, Piece B' c e →
          e = c + bytesToChunksz r bytes → BlockAt r B' c e (chunkMem r c) bytes := by
        intro B' e hPe he
        exact ⟨hPe, by omega, by omega, hId⟩
      by_cases hMore : bytesToChunksz r bytes < d - c
      · rw [if_pos hMore, u32_of_lt (by omega)]
        obtain ⟨hLoose', hP'⟩ := hLoose.splitTail hr hWall.right hP
          (show c < c + bytesToChunksz r bytes by omega) (by omega)
        exact .block (hLoose'.claim hr) (keepsUsed_insert hP (by omega) (by omega) hLoose.free)
          hLoose.free (hBlock hP' rfl) hPos hAligned
      · rw [if_neg hMore]
        exact .block (hLoose.claim hr) (fun _ _ _ hP => hP) hLoose.free
          (hBlock hP (by omega)) hPos hAligned

/-! ## Aligned blocks -/

/-- The parts of an alignment: the power of two, the rewind, and the slack that a chunk start
always leaves unused. -/
structure AlignParts (r : Region) (align rew gap : Nat) : Prop where
  gap_pos : 0 < gap
  gap_hdr : gap ∣ chunkHeaderBytes r
  gap_rew : gap ∣ rew
  gap_align : gap ∣ align
  align_pos : 0 < align
  align_dvd : align ∣ 2 ^ r.cfg.sizeBits
  rew_lt : rew < align

/-- `ROUND_UP` is exact modulo the width of an address. -/
theorem HeapConfig.roundUp_eq (hPos : 0 < align) (hLt : align ≤ 2 ^ k.sizeBits)
    (hDvd : align ∣ 2 ^ k.sizeBits) :
    k.roundUp x align = (x + (align - 1)) / align * align % 2 ^ k.sizeBits := by
  obtain ⟨q, hq⟩ := hDvd
  have hOne : k.sub align 1 = align - 1 := by
    rcases Nat.lt_or_eq_of_le hLt with hlt | heq
    · exact HeapConfig.sub_of_le hPos hlt
    · have hBig := k.le_two_pow
      rw [HeapConfig.sub, ← heq, Nat.mod_eq_of_lt (show 1 < align by omega),
        show align + align - 1 = align - 1 + align by omega, Nat.add_mod_right,
        Nat.mod_eq_of_lt (by omega)]
  rw [HeapConfig.roundUp, hOne, HeapConfig.size, HeapConfig.size, hq, Nat.mod_mul_right_div_self,
    Nat.mul_comm (_ % q), Nat.mul_mod_mul_left, Nat.mod_mod, Nat.mul_comm (_ / align),
    Nat.mul_mod_mul_left]

/-- A multiple of `g` is rounded up to a multiple of `align` by at most `align - g`. -/
theorem roundUp_le {g : Nat} (hAlign : 0 < align) (hx : g ∣ x) (hg : g ∣ align) :
    x ≤ (x + (align - 1)) / align * align ∧
      (x + (align - 1)) / align * align + g ≤ x + align := by
  have hDiv := Nat.div_add_mod (x + (align - 1)) align
  have hMod := Nat.mod_lt (x + (align - 1)) hAlign
  rw [Nat.mul_comm align] at hDiv
  refine ⟨by omega, ?_⟩
  have hUp : g ∣ (x + (align - 1)) / align * align := Dvd.dvd.mul_left hg _
  obtain ⟨u, hu⟩ := hUp
  obtain ⟨v, hv⟩ := (Nat.dvd_add hx hg)
  have hLt : g * u < g * v := by omega
  have hLe : u + 1 ≤ v := Nat.lt_of_mul_lt_mul_left hLt
  have hMul := Nat.mul_le_mul_left g hLe
  rw [Nat.mul_add, Nat.mul_one] at hMul
  omega

section Aligned

variable {align rew gap bytes : Nat}

/-- The address of an aligned block in the chunk `c`. -/
theorem alignedMem_spec (hr : r.Sound) (hA : AlignParts r align rew gap) (hc : c < r.endChunk)
    (hRoom : 8 * c + chunkHeaderBytes r + bytes + align ≤ 8 * r.endChunk + gap)
    (hBytes : 0 < bytes) :
    r.chunkBuf + 8 * c + chunkHeaderBytes r ≤ alignedMem r c align rew ∧
      alignedMem r c align rew + gap ≤ r.chunkBuf + 8 * c + chunkHeaderBytes r + align ∧
      (alignedMem r c align rew + rew) % align = 0 := by
  have hTop := hr.top_lt
  have hHdr := chunkHeaderBytes_cases (r := r)
  have hBase := hr.aligned
  have hMem := chunkMem_eq hr hc
  have hRew := hA.rew_lt
  have hGapLe : gap ≤ chunkHeaderBytes r := Nat.le_of_dvd (by omega) hA.gap_hdr
  have hAlignLe : align ≤ 2 ^ r.cfg.sizeBits := Nat.le_of_dvd (by omega) hA.align_dvd
  have hHdrDvd : chunkHeaderBytes r ∣ r.chunkBuf + 8 * c + chunkHeaderBytes r := by
    rcases hHdr with hk | hk <;> rw [hk] <;> omega
  have hDvd : gap ∣ r.chunkBuf + 8 * c + chunkHeaderBytes r + rew :=
    Nat.dvd_add (Nat.dvd_trans hA.gap_hdr hHdrDvd) hA.gap_rew
  obtain ⟨hLow, hHigh⟩ := roundUp_le hA.align_pos hDvd hA.gap_align
  have hDef : alignedMem r c align rew =
      (r.chunkBuf + 8 * c + chunkHeaderBytes r + rew + (align - 1)) / align * align - rew := by
    generalize hy : (r.chunkBuf + 8 * c + chunkHeaderBytes r + rew + (align - 1)) / align * align = y
      at hLow hHigh
    have hSum : r.cfg.size (chunkMem r c + rew) =
        r.chunkBuf + 8 * c + chunkHeaderBytes r + rew := by
      rw [hMem]
      exact HeapConfig.size_of_lt (by omega)
    have hRound : r.cfg.roundUp (r.cfg.size (chunkMem r c + rew)) align =
        y % 2 ^ r.cfg.sizeBits := by
      rw [hSum, HeapConfig.roundUp_eq hA.align_pos hAlignLe hA.align_dvd, hy]
    -- the rounded address may lie past the end of the address space, but not after the rewind
    rw [alignedMem, hRound, HeapConfig.sub, Nat.mod_eq_of_lt (show rew < 2 ^ r.cfg.sizeBits by omega)]
    rcases Nat.lt_or_ge y (2 ^ r.cfg.sizeBits) with hlt | hge
    · rw [Nat.mod_eq_of_lt hlt, show y + 2 ^ r.cfg.sizeBits - rew = y - rew + 2 ^ r.cfg.sizeBits by
        omega, Nat.add_mod_right, Nat.mod_eq_of_lt (by omega)]
    · have hWrap : y % 2 ^ r.cfg.sizeBits = y - 2 ^ r.cfg.sizeBits := by
        rw [Nat.mod_eq_sub_mod hge, Nat.mod_eq_of_lt (by omega)]
      rw [hWrap, Nat.sub_add_cancel hge, Nat.mod_eq_of_lt (by omega)]
  have hBack : alignedMem r c align rew + rew =
      (r.chunkBuf + 8 * c + chunkHeaderBytes r + rew + (align - 1)) / align * align := by
    omega
  refine ⟨by omega, by omega, ?_⟩
  rw [hBack]
  exact Nat.mul_mod_left _ _

/-- The end of a block in units. -/
theorem blockEnd_eq (hr : r.Sound) (hLow : r.chunkBuf ≤ p)
    (hHigh : p + bytes ≤ r.chunkBuf + 8 * r.endChunk) :
    blockEnd r p bytes = (p + bytes - r.chunkBuf + 7) / 8 := by
  have hTop := hr.top_lt
  have hEnd := hr.end_lt_u32
  have hBase := hr.aligned
  have hBig := r.cfg.le_two_pow
  have hSum : r.cfg.size (p + bytes) = p + bytes := HeapConfig.size_of_lt (by omega)
  have hRound : r.cfg.roundUp (p + bytes) 8 = (p + bytes + 7) / 8 * 8 := by
    rw [HeapConfig.roundUp_eq (by norm_num) (by omega) r.cfg.eight_dvd, Nat.mod_eq_of_lt (by omega)]
  rw [blockEnd, hSum, hRound, HeapConfig.sub_of_le (by omega) (by omega), u32_of_lt (by omega)]
  omega

theorem placeAligned_spec (hr : r.Sound) (hA : AlignParts r align rew gap)
    (hLoose : Loose r h B U c) (hWall : Walled U B c) (hP : Piece B c d) (hBytes : 0 < bytes)
    (hRoom : 8 * c + chunkHeaderBytes r + bytes + align ≤ 8 * d + gap) :
    Outcome r B U bytes (fun p => (p + rew) % align = 0) (placeAligned r h c align rew bytes) := by
  obtain ⟨L, hI⟩ := hLoose.inv
  have hdTop := hI.shape.cuts.le_top d hP.right_mem
  have hcd := hP.lt
  have hHdr := chunkHeaderBytes_cases (r := r)
  have hGapLe : gap ≤ chunkHeaderBytes r := Nat.le_of_dvd (by omega) hA.gap_hdr
  obtain ⟨hLow, hHigh, hAligned⟩ :=
    alignedMem_spec hr hA (show c < r.endChunk by omega) (by omega) hBytes
  have hAlignPos := hA.align_pos
  simp only [placeAligned]
  generalize alignedMem r c align rew = p at hLow hHigh hAligned
  have hId := memToChunkid_eq hr (show r.chunkBuf + chunkHeaderBytes r ≤ p by omega) (by omega)
  have hEndEq : blockEnd r p bytes = (p + bytes - r.chunkBuf + 7) / 8 :=
    blockEnd_eq hr (by omega) (by omega)
  -- the first chunk after the unused prefix, and the first one after the block
  generalize hx : memToChunkid r p = x at hId
  generalize hy : blockEnd r p bytes = y at hEndEq
  have hBase := hr.aligned
  have hcx : c ≤ x := by omega
  have hxy : x < y := by omega
  have hyd : y ≤ d := by omega
  have hHead : ∃ h₁ B₁, (if c < x then splitHead r h c x else h) = h₁ ∧ Loose r h₁ B₁ U x ∧
      Piece B₁ x d ∧ KeepsUsed U B B₁ := by
    by_cases hlt : c < x
    · obtain ⟨hLoose₁, hP₁⟩ := hLoose.splitHead hr hWall.left hP hlt (by omega)
      exact ⟨_, _, if_pos hlt, hLoose₁, hP₁, keepsUsed_insert hP hlt (by omega) hLoose.free⟩
    · have hEq : x = c := by omega
      subst hEq
      exact ⟨_, B, if_neg hlt, hLoose, hP, fun _ _ _ hP => hP⟩
  obtain ⟨h₁, B₁, hDef₁, hLoose₁, hP₁, hKeep₁⟩ := hHead
  simp only [hDef₁]
  obtain ⟨L₁, hI₁⟩ := hLoose₁.inv
  rw [hI₁.rightChunk_eq hr hP₁]
  have hBlock : ∀ {B' : Set Nat}, Piece B' x y → BlockAt r B' x y p bytes :=
    fun hPe => ⟨hPe, by omega, by omega, hx⟩
  by_cases hlt : y < d
  · rw [if_pos hlt]
    obtain ⟨hLoose₂, hP₂⟩ := hLoose₁.splitTail hr
      (fun e hPe => (hPe.right_unique hP₁) ▸ hWall.right d hP) hP₁ hxy hlt
    exact .block (hLoose₂.claim hr)
      (hKeep₁.trans (keepsUsed_insert hP₁ hxy hlt hLoose₁.free)) hLoose₁.free (hBlock hP₂)
      hBytes hAligned
  · rw [if_neg hlt]
    have hEq : y = d := by omega
    exact .block (hLoose₁.claim hr) hKeep₁ hLoose₁.free (hBlock (hEq ▸ hP₁)) hBytes hAligned

theorem alignedAllocParts_spec (hr : r.Sound) (hRest : Rest r h B U)
    (hA : AlignParts r align rew gap)
    (hFits : chunkHeaderBytes r + bytes + align ≤ 8 * r.endChunk + gap) :
    Outcome r B U bytes (fun p => (p + rew) % align = 0)
      (alignedAllocParts r h align rew gap bytes) := by
  unfold alignedAllocParts
  split
  · exact .none hRest
  · rename_i hGuard
    have hTop := hr.top_lt
    have hHdr := chunkHeaderBytes_cases (r := r)
    have hGapLe : gap ≤ chunkHeaderBytes r := Nat.le_of_dvd (by omega) hA.gap_hdr
    have hGapAlign : gap ≤ align := Nat.le_of_dvd hA.align_pos hA.gap_align
    have hSum : r.cfg.sub (r.cfg.size (bytes + align)) gap = bytes + align - gap := by
      rw [HeapConfig.size_of_lt (by omega), HeapConfig.sub_of_le (by omega) (by omega)]
    have hFits' : chunkHeaderBytes r + (bytes + align - gap) ≤ 8 * r.endChunk := by omega
    have hSz := bytesToChunksz_eq hr hFits'
    rw [hSum]
    rcases hRest.alloc hr (show 0 < bytes + align - gap by omega) hFits' with
      ⟨h', hRes, hRest'⟩ | ⟨h', c, d, hRes, hc0, hLoose, hWall, hP, hFit, -⟩
    · simp only [hRes, if_pos]
      exact .none hRest'
    · simp only [hRes, if_neg hc0]
      have hcd := hP.lt
      exact placeAligned_spec hr hA hLoose hWall hP (by omega) (by omega)

end Aligned

/-! ## The alignment argument -/

/-- An alignment that the callers may pass: none, a power of two, or a power of two with one
lower bit to rewind. -/
def IsAlign (k : HeapConfig) (align : Nat) : Prop :=
  align = 0 ∨ (∃ a < k.sizeBits, align = 2 ^ a) ∨
    ∃ a < k.sizeBits, ∃ b < a, align = 2 ^ a + 2 ^ b

/-- The address has the alignment, after the rewind is taken back. -/
def Respects (k : HeapConfig) (align p : Nat) : Prop :=
  align = 0 ∨
    if align = k.lowBit align then p % align = 0
    else (p + k.lowBit align) % (align - k.lowBit align) = 0

/-- The bytes of a request with its header and the padding for its alignment. -/
def requestBytes (r : Region) (align bytes : Nat) : Nat :=
  if align ≠ r.cfg.lowBit align then
    chunkHeaderBytes r + bytes + (align - r.cfg.lowBit align)
      - min (r.cfg.lowBit align) (chunkHeaderBytes r)
  else if align ≤ chunkHeaderBytes r then chunkHeaderBytes r + bytes
  else bytes + align

/-- `x & -x` is the lowest set bit. -/
theorem HeapConfig.lowBit_eq {j q : Nat} (hLt : 2 ^ (j + 1) * q + 2 ^ j < 2 ^ k.sizeBits) :
    k.lowBit (2 ^ (j + 1) * q + 2 ^ j) = 2 ^ j := by
  have hPos := Nat.two_pow_pos j
  have hj : j < k.sizeBits := by
    apply (Nat.pow_lt_pow_iff_right (a := 2) (by norm_num)).mp
    omega
  obtain ⟨m, hm⟩ : ∃ m, k.sizeBits = j + 1 + m := ⟨k.sizeBits - (j + 1), by omega⟩
  have hPow : 2 ^ k.sizeBits = 2 ^ (j + 1) * 2 ^ m := by rw [hm, Nat.pow_add]
  have hDouble : 2 ^ (j + 1) = 2 ^ j + 2 ^ j := by omega
  have hq : q < 2 ^ m := by
    apply Nat.lt_of_mul_lt_mul_left (a := 2 ^ (j + 1))
    omega
  -- the upper bits of the negated number are the complement of those of the number
  have hNeg : k.sub 0 (2 ^ (j + 1) * q + 2 ^ j) = 2 ^ (j + 1) * (2 ^ m - (q + 1)) + 2 ^ j := by
    have hMul : 2 ^ (j + 1) * (2 ^ m - (q + 1)) = 2 ^ k.sizeBits - 2 ^ (j + 1) * (q + 1) := by
      rw [Nat.mul_sub, hPow]
    have hLe : 2 ^ (j + 1) * (q + 1) ≤ 2 ^ k.sizeBits := by
      rw [hPow]
      exact Nat.mul_le_mul_left _ hq
    rw [Nat.mul_add, Nat.mul_one] at hMul hLe
    rw [HeapConfig.sub, Nat.mod_eq_of_lt hLt, Nat.mod_eq_of_lt (by omega)]
    omega
  rw [HeapConfig.lowBit, hNeg]
  apply Nat.eq_of_testBit_eq
  intro i
  have hLow : 2 ^ j < 2 ^ (j + 1) := by omega
  rw [Nat.testBit_and, Nat.testBit_two_pow_mul_add _ hLow, Nat.testBit_two_pow_mul_add _ hLow]
  by_cases hi : i < j + 1
  · rw [if_pos hi, if_pos hi, Bool.and_self]
  · rw [if_neg hi, if_neg hi, Nat.testBit_two_pow_sub_succ hq, Nat.testBit_two_pow,
      decide_eq_false (show ¬ j = i by omega)]
    cases q.testBit (i - (j + 1)) <;> simp

theorem lowBit_two_pow (ha : a < k.sizeBits) : k.lowBit (2 ^ a) = 2 ^ a := by
  have hLt : 2 ^ a < 2 ^ k.sizeBits := Nat.pow_lt_pow_right (by norm_num) ha
  have hLow := k.lowBit_eq (j := a) (q := 0) (by omega)
  rwa [Nat.mul_zero, Nat.zero_add] at hLow

theorem lowBit_two_pow_add (ha : a < k.sizeBits) (hb : b < a) :
    k.lowBit (2 ^ a + 2 ^ b) = 2 ^ b := by
  obtain ⟨n, rfl⟩ : ∃ n, a = b + 1 + n := ⟨a - (b + 1), by omega⟩
  have hSmall : 2 ^ b < 2 ^ (b + 1 + n) := Nat.pow_lt_pow_right (by norm_num) hb
  have hLarge : 2 ^ (b + 1 + n + 1) ≤ 2 ^ k.sizeBits := Nat.pow_le_pow_right (by norm_num) ha
  have hLt : 2 ^ (b + 1) * 2 ^ n + 2 ^ b < 2 ^ k.sizeBits := by
    rw [← Nat.pow_add]
    omega
  have hLow := k.lowBit_eq hLt
  rwa [← Nat.pow_add] at hLow

theorem lowBit_zero (k : HeapConfig) : k.lowBit 0 = 0 := by
  simp [HeapConfig.lowBit]

theorem chunkHeaderBytes_two_pow : ∃ n, chunkHeaderBytes r = 2 ^ n := by
  rcases chunkHeaderBytes_cases (r := r) with hk | hk
  · exact ⟨2, hk⟩
  · exact ⟨3, hk⟩

/-- An alignment beyond the header, without rewind. -/
theorem alignParts_two_pow (ha : a < r.cfg.sizeBits) (hBig : chunkHeaderBytes r < 2 ^ a) :
    AlignParts r (2 ^ a) 0 (chunkHeaderBytes r) := by
  obtain ⟨n, hn⟩ := chunkHeaderBytes_two_pow (r := r)
  rw [hn] at hBig ⊢
  have hna : n < a := (Nat.pow_lt_pow_iff_right (by norm_num)).mp hBig
  exact
    { gap_pos := Nat.two_pow_pos n
      gap_hdr := hn ▸ dvd_refl _
      gap_rew := dvd_zero _
      gap_align := Nat.pow_dvd_pow 2 hna.le
      align_pos := Nat.two_pow_pos a
      align_dvd := Nat.pow_dvd_pow 2 ha.le
      rew_lt := Nat.two_pow_pos a }

/-- An alignment with rewind. -/
theorem alignParts_rewind (ha : a < r.cfg.sizeBits) (hb : b < a) :
    AlignParts r (2 ^ a) (2 ^ b) (min (2 ^ b) (chunkHeaderBytes r)) := by
  obtain ⟨n, hn⟩ := chunkHeaderBytes_two_pow (r := r)
  have hMin : min (2 ^ b) (chunkHeaderBytes r) = 2 ^ min b n := by
    rw [hn]
    rcases Nat.le_total b n with hle | hle
    · rw [Nat.min_eq_left hle, Nat.min_eq_left (Nat.pow_le_pow_right (by norm_num) hle)]
    · rw [Nat.min_eq_right hle, Nat.min_eq_right (Nat.pow_le_pow_right (by norm_num) hle)]
  rw [hMin]
  exact
    { gap_pos := Nat.two_pow_pos _
      gap_hdr := hn ▸ Nat.pow_dvd_pow 2 (Nat.min_le_right b n)
      gap_rew := Nat.pow_dvd_pow 2 (Nat.min_le_left b n)
      gap_align := Nat.pow_dvd_pow 2 (by omega)
      align_pos := Nat.two_pow_pos a
      align_dvd := Nat.pow_dvd_pow 2 ha.le
      rew_lt := Nat.pow_lt_pow_right (by norm_num) hb }

theorem Outcome.imp {ok ok' : Nat → Prop} {res : ZHeap × Nat} (hOut : Outcome r B U bytes ok res)
    (hImp : ∀ p, ok p → ok' p) : Outcome r B U bytes ok' res := by
  cases hOut with
  | none hRest => exact .none hRest
  | block hRest hKeep hFree hBlock hPos hOk =>
    exact .block hRest hKeep hFree hBlock hPos (hImp _ hOk)

theorem sysHeapAlignedAlloc_spec (hr : r.Sound) (hRest : Rest r h B U)
    (hAlign : IsAlign r.cfg align) (hFits : requestBytes r align bytes ≤ 8 * r.endChunk) :
    Outcome r B U bytes (Respects r.cfg align) (sysHeapAlignedAlloc r h align bytes) := by
  unfold sysHeapAlignedAlloc
  unfold requestBytes at hFits
  have hHdr := chunkHeaderBytes_cases (r := r)
  rcases hAlign with rfl | ⟨a, ha, rfl⟩ | ⟨a, ha, b, hb, rfl⟩
  · rw [lowBit_zero, if_neg (by simp), if_pos (Nat.zero_le _)] at hFits ⊢
    exact (sysHeapAlloc_spec hr hRest hFits).imp fun p _ => .inl rfl
  · have hRespects : ∀ p, p % 2 ^ a = 0 → Respects r.cfg (2 ^ a) p := by
      intro p hp
      right
      rw [if_pos (lowBit_two_pow ha).symm]
      exact hp
    rw [lowBit_two_pow ha, if_neg (by simp)] at hFits ⊢
    by_cases hSmall : 2 ^ a ≤ chunkHeaderBytes r
    · rw [if_pos hSmall] at hFits ⊢
      refine (sysHeapAlloc_spec hr hRest hFits).imp fun p hp => hRespects p ?_
      obtain ⟨n, hn⟩ := chunkHeaderBytes_two_pow (r := r)
      have han : a ≤ n := (Nat.pow_le_pow_iff_right (by norm_num)).mp (hn ▸ hSmall)
      exact Nat.mod_eq_zero_of_dvd
        (Nat.dvd_trans (hn ▸ Nat.pow_dvd_pow 2 han) (Nat.dvd_of_mod_eq_zero hp))
    · rw [if_neg hSmall] at hFits ⊢
      have hParts := alignParts_two_pow ha (Nat.lt_of_not_le hSmall)
      refine (alignedAllocParts_spec hr hRest hParts (by omega)).imp fun p hp => hRespects p ?_
      rwa [Nat.add_zero] at hp
  · have hPos := Nat.two_pow_pos a
    have hNe : ¬ (2 ^ a + 2 ^ b = 2 ^ b) := by omega
    have hSub : 2 ^ a + 2 ^ b - 2 ^ b = 2 ^ a := by omega
    have hLow := lowBit_two_pow_add ha hb
    rw [hLow, if_pos hNe, hSub] at hFits ⊢
    refine (alignedAllocParts_spec hr hRest (alignParts_rewind ha hb) (by omega)).imp ?_
    intro p hp
    right
    rw [hLow, if_neg hNe, hSub]
    exact hp

end Zvm.Heap
