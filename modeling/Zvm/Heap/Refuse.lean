import Zvm.Heap.Runs

/-!
# Requests that cannot be met

A request for which no free chunk has room should be refused and leave the heap as it
was, but for the place where a free list starts.  `size_too_big` is asked first, about the bytes
alone: without the header, without the padding for the alignment, and before the number of units
is cut to 32 bits.  So a request can pass it whose number of units is one more than the heap has,
or larger than 32 bits.

The first goes wrong when the bucket of that size is one past the end of the bucket array, which
is so when the size of the heap is just below a power of two (`bucket_past_end`).  The second goes
wrong when the number that is left fits in a free chunk (`huge_alignment_granted`).  `Harmless` is
the condition under which a request that cannot be met is refused without harm.
-/

namespace Zvm.Heap

open Zvm.Verified.FunArray Zvm.Verified.Pieces Zvm.Verified.CircularList Zvm.Verified.Run
  Zvm.Verified.SetBits

/-- A call of `sys_heap_alloc`, or of `sys_heap_aligned_alloc` with alignment `2 ^ a`. -/
inductive Request where
  | plain (bytes : Nat)
  | aligned (a bytes : Nat)

section

variable (r : Region) (h : ZHeap)

def Request.bytes : Request → Nat
  | .plain bytes => bytes
  | .aligned _ bytes => bytes

/-- The alignment asked for. -/
def Request.align : Request → Nat
  | .plain _ => 1
  | .aligned a _ => 2 ^ a

/-- The call. -/
def Request.run : Request → ZHeap × Nat
  | .plain bytes => sysHeapAlloc r h bytes
  | .aligned a bytes => sysHeapAlignedAlloc r h (2 ^ a) bytes

/-- The number of units that the call asks `alloc_chunk` for. -/
def Request.units (q : Request) : Nat :=
  if q.align ≤ chunkHeaderBytes r then bytesToChunksz r q.bytes
  else bytesToChunksz r (r.cfg.sub (r.cfg.size (q.bytes + q.align)) (chunkHeaderBytes r))

/-- The number of units with header and padding, without any cut. -/
def Request.needed (q : Request) : Nat := (requestBytes r q.align q.bytes + 7) / 8

/-- Where the block goes in the chunk `c`. -/
def Request.place (q : Request) (c : Nat) : Nat :=
  if q.align ≤ chunkHeaderBytes r then chunkMem r c else alignedMem r c q.align 0

/-- The call returns before it looks for a chunk. -/
def Request.early (q : Request) : Prop := q.bytes = 0 ∨ sizeTooBig r q.bytes = true

/-- The units of the heap at which a chunk starts. -/
inductive IsChunk : Nat → Prop
  | first : IsChunk 0
  | right {c : Nat} (hc : IsChunk c) (hLt : c < r.endChunk) : IsChunk (rightChunk r h c)

/-- An aligned block of that many bytes fits between the header of the chunk and its end. -/
def CanHold (c align bytes : Nat) : Prop :=
  ∃ p, r.chunkBuf + 8 * c + chunkHeaderBytes r ≤ p ∧
    p + bytes ≤ r.chunkBuf + 8 * rightChunk r h c ∧ p % align = 0

/-- No free chunk can hold the request. -/
def NoRoom (q : Request) : Prop :=
  ∀ c, IsChunk r h c → c < r.endChunk → chunkUsed r h c = false →
    ¬ CanHold r h c q.align q.bytes

/-- The bucket of a size is defined (`__builtin_clz` of zero is not) and in the array. -/
def InBuckets (sz : Nat) : Prop :=
  u32 (sub32 sz (minChunkSize r) + 1) ≠ 0 ∧ bucketIdx r sz ≤ bucketIdx r r.endChunk

/-- The call reads and writes buckets of the array only. -/
def Request.StaysInBuckets (q : Request) : Prop :=
  q.early r ∨ (InBuckets r (q.units r) ∧
    ∀ b, lowestSet (bucketsAbove h (bucketIdx r (q.units r))) = some b →
      b ≤ bucketIdx r r.endChunk)

/-- Nothing differs but the chunks at which the circular lists start. -/
def Turned (h' : ZHeap) : Prop :=
  { h' with buckets := h.buckets } = h ∧
    ∀ b, ∃ n, h'.buckets b = (nextFreeChunk r h)^[n] (h.buckets b)

/-- The request is refused without harm. -/
def Refused (q : Request) : Prop :=
  (q.run r h).2 = 0 ∧ q.StaysInBuckets r h ∧ Turned r h (q.run r h).1

/-- `alloc_chunk` comes upon no chunk of `sz` units: those it tries in the bucket are smaller, and
the buckets above are empty. -/
def NothingTaken (sz : Nat) : Prop :=
  bucketsAbove h (bucketIdx r sz) = 0#32 ∧
    (h.buckets (bucketIdx r sz) = 0 ∨
      ∀ i < r.cfg.tries,
        chunkSize r h ((nextFreeChunk r h)^[i] (h.buckets (bucketIdx r sz))) < sz)

/-- The call ends without a chunk. -/
def Idle (q : Request) : Prop :=
  q.early r ∨ (InBuckets r (q.units r) ∧ NothingTaken r h (q.units r))

/-- The number of units is in the range of the buckets, and it is the number that is needed or no
chunk is taken for it. -/
def Harmless (q : Request) : Prop :=
  q.early r ∨ (InBuckets r (q.units r) ∧
    (q.units r = q.needed r ∨ NothingTaken r h (q.units r)))

/-- Proper calls, and calls that ask for too much and end without a chunk. -/
def Tame (m : Machine) : HeapOp → Prop
  | .alloc bytes => Proper r m (.alloc bytes) ∨ Idle r m.heap (.plain bytes)
  | .alignedAlloc align bytes => Proper r m (.alignedAlloc align bytes) ∨
      ∃ a < r.cfg.sizeBits, align = 2 ^ a ∧ Idle r m.heap (.aligned a bytes)
  | .alignedRealloc ptr align bytes => Proper r m (.alignedRealloc ptr align bytes) ∨
      (ptr ≠ 0 ∧ bytes ≠ 0 ∧ sizeTooBig r bytes = true)
  | op => Proper r m op

end

variable {r : Region} {h : ZHeap} {B U A : Set Nat} {L : Nat → List Nat}

/-! ## Chunks and lists -/

theorem Inv.isChunk_iff (hr : r.Sound) (hI : Inv r h B U A L) (c : Nat) :
    IsChunk r h c ↔ c ∈ B := by
  constructor
  · intro hc
    induction hc with
    | first => exact hI.shape.cuts.zero_mem
    | @right c hc hLt ih =>
      obtain ⟨d, hP⟩ := hI.shape.cuts.exists_right ih hLt
      rw [hI.rightChunk_eq hr hP]
      exact hP.right_mem
  · -- every cut point ends the piece of a smaller one
    intro hc
    induction c using Nat.strong_induction_on with
    | _ c ih =>
      rcases Nat.eq_zero_or_pos c with rfl | hPos
      · exact .first
      · obtain ⟨b, hP⟩ := hI.shape.cuts.exists_left hc hPos
        have hLe := hI.shape.cuts.le_top c hc
        have hChunk := IsChunk.right (ih b hP.lt hP.left_mem)
          (Nat.lt_of_lt_of_le hP.lt hLe)
        rwa [hI.rightChunk_eq hr hP] at hChunk

theorem bucketsAbove_eq_zero_iff (hI : Inv r h B U A L) {bi : Nat} (hbi : bi < 32) :
    bucketsAbove h bi = 0#32 ↔ ∀ b, bi < b → L b = [] := by
  constructor
  · intro hZero b hb
    by_contra hNe
    have hBit := getLsbD_bucketsAbove h hbi b
    rw [hZero, (hI.lists.avail b).mpr hNe, decide_eq_true hb] at hBit
    simp at hBit
  · intro hEmpty
    apply BitVec.eq_of_getLsbD_eq
    intro b _
    rw [getLsbD_bucketsAbove h hbi]
    by_cases hb : bi < b
    · have hAvail : h.availBuckets.getLsbD b = false := by
        rw [Bool.eq_false_iff, ne_eq, hI.lists.avail b, hEmpty b hb]
        simp
      rw [hAvail]
      simp
    · rw [decide_eq_false hb]
      simp

/-- In terms of the lists: no chunk that is looked at is large enough. -/
theorem nothingTaken_iff (hI : Inv r h B U A L) {sz : Nat}
    (hIdx : bucketIdx r sz ≤ bucketIdx r r.endChunk) :
    NothingTaken r h sz ↔ ∀ e, ¬ Tried r h L sz e := by
  have hHead := hI.lists.head _ hIdx
  have hTake : (h.buckets (bucketIdx r sz) = 0 ∨ ∀ i < r.cfg.tries,
        chunkSize r h ((nextFreeChunk r h)^[i] (h.buckets (bucketIdx r sz))) < sz) ↔
      ∀ e ∈ (L (bucketIdx r sz)).take r.cfg.tries, ¬ sz ≤ chunkSize r h e := by
    cases hList : L (bucketIdx r sz) with
    | nil => simp [hHead, hList]
    | cons x l =>
      have hRing : Ring (nextFreeChunk r h) (prevFreeChunk r h) (x :: l) :=
        hList ▸ hI.lists.ring _
      have hx : h.buckets (bucketIdx r sz) = x := by rw [hHead, hList, List.headD_cons]
      have hNe : x ≠ 0 := by
        rintro rfl
        exact hI.zero_not_avail ((hI.lists.mem (bucketIdx r sz) 0).mp (by simp [hList])).1
      rw [hx]
      constructor
      · intro hAll e he
        obtain ⟨i, hi, rfl⟩ := (hRing.mem_take_iff _ e).mp he
        exact Nat.not_le.mpr ((hAll.resolve_left hNe) i hi)
      · intro hAll
        right
        intro i hi
        exact Nat.lt_of_not_le (hAll _ ((hRing.mem_take_iff _ _).mpr ⟨i, hi, rfl⟩))
  rw [NothingTaken, bucketsAbove_eq_zero_iff hI (bucketIdx_lt sz), hTake]
  constructor
  · rintro ⟨hEmpty, hNone⟩ e (⟨he, hFit⟩ | ⟨b, hb, he⟩)
    · exact hNone e he hFit
    · rw [hEmpty b hb] at he
      simp at he
  · intro hNot
    refine ⟨?_, fun e he hFit => hNot e (.inl ⟨he, hFit⟩)⟩
    intro b hb
    rw [List.eq_nil_iff_forall_not_mem]
    exact fun e he => hNot e (.inr ⟨b, hb, he⟩)

/-! ## What is left when nothing is taken -/

theorem turned_self : Turned r h h := ⟨rfl, fun _ => ⟨0, rfl⟩⟩

/-- A heap whose lists hold the same chunks, with another start for one bucket. -/
theorem Inv.turned {L₁ : Nat → List Nat} {bi x : Nat} (hI : Inv r h B U A L)
    (hI₁ : Inv r (setBucket h bi x) B U A L₁) (hbi : bi ≤ bucketIdx r r.endChunk) :
    Turned r h (setBucket h bi x) := by
  refine ⟨rfl, ?_⟩
  intro b
  by_cases hb : b = bi
  · subst hb
    have hHead := hI.lists.head b hbi
    have hHead₁ := hI₁.lists.head b hbi
    have hx : (setBucket h b x).buckets b = x := set_same _ _ _
    rw [hx] at hHead₁ ⊢
    cases hList₁ : L₁ b with
    | nil =>
      have hEmpty : L b = [] := by
        rw [List.eq_nil_iff_forall_not_mem]
        intro e he
        rw [← hI.mem_iff hI₁, hList₁] at he
        simp at he
      rw [hHead₁, hList₁, hHead, hEmpty]
      exact ⟨0, rfl⟩
    | cons y l₁ =>
      have hxy : x = y := by rw [hHead₁, hList₁, List.headD_cons]
      have hMem : x ∈ L b := by
        rw [← hI.mem_iff hI₁, hList₁, hxy]
        exact List.mem_cons_self
      obtain ⟨z, l, hList⟩ := List.exists_cons_of_ne_nil (List.ne_nil_of_mem hMem)
      have hRing : Ring (nextFreeChunk r h) (prevFreeChunk r h) (z :: l) :=
        hList ▸ hI.lists.ring b
      rw [hHead, hList, List.headD_cons]
      rw [hList, ← List.take_length (l := z :: l), hRing.mem_take_iff] at hMem
      obtain ⟨n, -, hn⟩ := hMem
      exact ⟨n, hn.symm⟩
  · exact ⟨0, set_ne _ _ hb⟩

/-! ## The calls -/

/-- The search that a call makes, in a heap at rest. -/
theorem Inv.search (hr : r.Sound) (hI : Inv r h B U (B \ U) L) {sz : Nat} (hsz : sz < 2 ^ 32)
    (hIdx : bucketIdx r sz ≤ bucketIdx r r.endChunk) :
    (∃ h', allocChunk r h sz = (h', 0) ∧ NothingTaken r h sz ∧ Turned r h h' ∧ Rest r h' B U) ∨
      ∃ h' c, allocChunk r h sz = (h', c) ∧ ¬ NothingTaken r h sz ∧ c ≠ 0 ∧ c < r.endChunk := by
  obtain ⟨x, L₁, hI₁, hCase⟩ := allocChunk_outcome hr hI hsz hIdx
  rcases hCase with ⟨hRes, hNone⟩ | ⟨b, c, hc, -, hTried, hRes⟩
  · exact .inl ⟨_, hRes, (nothingTaken_iff hI hIdx).mpr hNone, hI.turned hI₁ hIdx, _, hI₁⟩
  · have hcA := ((hI₁.lists.mem b c).mp hc).1
    refine .inr ⟨_, c, hRes, fun hNot => (nothingTaken_iff hI hIdx).mp hNot c hTried, ?_,
      hI.lt_end hcA.1 hcA.2⟩
    rintro rfl
    exact hI.zero_not_avail hcA

variable {q : Request} {a c : Nat} {m : Machine}

/-- A free chunk of the size that is needed can hold the request. -/
theorem canHold_of_needed (hr : r.Sound) (hI : Inv r h B U A L) {d : Nat}
    (ha : a < r.cfg.sizeBits) (hAlign : q.align = 2 ^ a) (hP : Piece B c d)
    (hSize : q.needed r ≤ d - c) : CanHold r h c q.align q.bytes := by
  have hcd := hP.lt
  have hLow := lowBit_two_pow ha
  unfold Request.needed requestBytes at hSize
  rw [CanHold, hI.rightChunk_eq hr hP]
  rw [hAlign, hLow, if_neg (by simp)] at hSize
  rw [hAlign]
  have hBase := hr.aligned
  obtain ⟨n, hn⟩ := chunkHeaderBytes_two_pow (r := r)
  have hHdrDvd : chunkHeaderBytes r ∣ r.chunkBuf + 8 * c + chunkHeaderBytes r := by
    rcases chunkHeaderBytes_cases (r := r) with hk | hk <;> rw [hk] <;> omega
  by_cases hSmall : 2 ^ a ≤ chunkHeaderBytes r
  · rw [if_pos hSmall] at hSize
    refine ⟨r.chunkBuf + 8 * c + chunkHeaderBytes r, Nat.le_refl _, by omega, ?_⟩
    have han : a ≤ n := (Nat.pow_le_pow_iff_right (by norm_num)).mp (hn ▸ hSmall)
    exact Nat.mod_eq_zero_of_dvd (Nat.dvd_trans (hn ▸ Nat.pow_dvd_pow 2 han) hHdrDvd)
  · rw [if_neg hSmall] at hSize
    have hParts := alignParts_two_pow ha (Nat.lt_of_not_le hSmall)
    obtain ⟨hUp, hLe⟩ := roundUp_le hParts.align_pos hHdrDvd hParts.gap_align
    exact ⟨_, hUp, by omega, Nat.mul_mod_left _ _⟩

/-- Where no free chunk can hold the request, none is taken for the size that is needed. -/
theorem nothingTaken_of_noRoom (hr : r.Sound) (hI : Inv r h B U (B \ U) L)
    (ha : a < r.cfg.sizeBits) (hAlign : q.align = 2 ^ a) (hRoom : NoRoom r h q)
    (hUnits : q.units r = q.needed r) (hsz : q.units r < 2 ^ 32)
    (hIdx : bucketIdx r (q.units r) ≤ bucketIdx r r.endChunk) : NothingTaken r h (q.units r) := by
  rw [nothingTaken_iff hI hIdx]
  intro e hTried
  have hFit : (∃ b, e ∈ L b) ∧ q.units r ≤ chunkSize r h e := by
    rcases hTried with ⟨he, hFit⟩ | ⟨b, hb, he⟩
    · exact ⟨⟨_, List.mem_of_mem_take he⟩, hFit⟩
    · exact ⟨⟨b, he⟩, hI.fits_above hsz hb he⟩
  obtain ⟨⟨b, he⟩, hFit⟩ := hFit
  obtain ⟨heA, d, hP, -⟩ := (hI.lists.mem b e).mp he
  rw [hI.headers.size e d hP, hUnits] at hFit
  have hFree : chunkUsed r h e = false := (hI.headers.unused_iff heA.1).mpr heA.2
  exact hRoom e ((hI.isChunk_iff hr e).mpr heA.1) (hI.lt_end heA.1 heA.2) hFree
    (canHold_of_needed hr hI ha hAlign hP hFit)

theorem units_lt (q : Request) : q.units r < 2 ^ 32 := by
  unfold Request.units bytesToChunksz chunksz
  split <;> exact Nat.mod_lt _ (by norm_num)

section Align

variable (ha : a < r.cfg.sizeBits) (hAlign : q.align = 2 ^ a)
include ha hAlign

/-- A power of two is its own lowest bit, so the alignment is not taken apart. -/
theorem run_eq : q.run r h = if q.align ≤ chunkHeaderBytes r then sysHeapAlloc r h q.bytes
    else alignedAllocParts r h q.align 0 (chunkHeaderBytes r) q.bytes := by
  cases q with
  | plain bytes =>
    have hHdr := chunkHeaderBytes_cases (r := r)
    exact (if_pos (show 1 ≤ _ by omega)).symm
  | aligned a' bytes =>
    have hLow : r.cfg.lowBit (2 ^ a') = 2 ^ a' := by
      rw [show (2 : Nat) ^ a' = 2 ^ a from hAlign]
      exact lowBit_two_pow ha
    rw [Request.run, sysHeapAlignedAlloc, if_neg (by rw [hLow]; simp)]
    rfl

/-- A call that returns early leaves everything. -/
theorem run_early (hEarly : q.early r) : q.run r h = (h, 0) := by
  rw [run_eq ha hAlign]
  split
  · exact if_pos hEarly
  · exact if_pos hEarly

/-- The other calls ask for a chunk, and return `NULL` only without one or if that is where the
block goes. -/
theorem run_late (hLate : ¬ q.early r) {h' : ZHeap}
    (hRes : allocChunk r h (q.units r) = (h', c)) :
    (c = 0 → q.run r h = (h', 0)) ∧ (c ≠ 0 → (q.run r h).2 = q.place r c) := by
  have hPos : ¬ (q.bytes = 0 ∨ sizeTooBig r q.bytes = true) := hLate
  rw [run_eq ha hAlign, Request.place]
  rw [Request.units] at hRes
  split_ifs at hRes ⊢
  · rw [sysHeapAlloc, if_neg hPos, hRes]
    exact ⟨fun hc => if_pos hc, fun hc => by simp [if_neg hc]⟩
  · rw [alignedAllocParts, if_neg hPos, hRes]
    exact ⟨fun hc => if_pos hc, fun hc => by simp [if_neg hc, placeAligned]⟩

/-- The block does not go to address zero, unless the rounding leaves the address space. -/
theorem place_ne_zero (hr : r.Sound) (hLt : c < r.endChunk)
    (hSpace : r.chunkBuf + 8 * r.endChunk + q.align ≤ 2 ^ r.cfg.sizeBits) :
    q.place r c ≠ 0 := by
  have hHdr := chunkHeaderBytes_cases (r := r)
  have hMem := chunkMem_eq hr hLt
  rw [Request.place]
  split
  · omega
  · rename_i hLarge
    rw [hAlign] at hLarge hSpace ⊢
    have hParts := alignParts_two_pow ha (Nat.lt_of_not_le hLarge)
    have hTop := hr.top_le
    obtain ⟨hUp, hLe⟩ := roundUp_le hParts.align_pos (one_dvd (chunkMem r c)) (one_dvd (2 ^ a))
    have hSize : r.cfg.size (chunkMem r c + 0) = chunkMem r c :=
      HeapConfig.size_of_lt (by omega)
    have hRound : r.cfg.roundUp (chunkMem r c) (2 ^ a) =
        (chunkMem r c + (2 ^ a - 1)) / 2 ^ a * 2 ^ a := by
      rw [HeapConfig.roundUp_eq hParts.align_pos (by omega) hParts.align_dvd]
      exact Nat.mod_eq_of_lt (by omega)
    rw [alignedMem, hSize, hRound, HeapConfig.sub_of_le (Nat.zero_le _) (by omega)]
    omega

/-- A call that ends without a chunk leaves a heap at rest, with the same chunks. -/
theorem Rest.idle (hr : r.Sound) (hRest : Rest r h B U) (hIdle : Idle r h q) :
    Refused r h q ∧ Rest r (q.run r h).1 B U := by
  by_cases hEarly : q.early r
  · have hRun := run_early (h := h) ha hAlign hEarly
    rw [Refused, hRun]
    exact ⟨⟨rfl, .inl hEarly, turned_self⟩, hRest⟩
  · obtain ⟨hIn, hTaken⟩ := hIdle.resolve_left hEarly
    obtain ⟨L, hI⟩ := hRest
    rcases hI.search hr (units_lt q) hIn.2 with ⟨h', hRes, -, hTurned, hRest'⟩ |
      ⟨h', c, -, hNot, -⟩
    · rw [Refused, (run_late ha hAlign hEarly hRes).1 rfl]
      refine ⟨⟨rfl, .inr ⟨hIn, ?_⟩, hTurned⟩, hRest'⟩
      -- no bucket above is looked at, since none has a chunk
      intro b hb
      rw [hTaken.1] at hb
      obtain ⟨-, hBit, -⟩ := firstIdx_eq_some.mp hb
      simp at hBit
    · exact absurd hTaken hNot

/-- In a heap at rest, and for a request that no free chunk can hold: harmless requests are
refused without harm, and only they if the rounding does not leave the address space. -/
theorem Rest.refused (hr : r.Sound) (hRest : Rest r h B U) (hRoom : NoRoom r h q) :
    (Harmless r h q → Refused r h q) ∧
      (r.chunkBuf + 8 * r.endChunk + q.align ≤ 2 ^ r.cfg.sizeBits →
        Refused r h q → Harmless r h q) := by
  obtain ⟨L, hI⟩ := hRest
  constructor
  · intro hHarmless
    refine (Rest.idle ha hAlign hr ⟨L, hI⟩ ?_).1
    rcases hHarmless with hEarly | ⟨hIn, hUnits | hTaken⟩
    · exact .inl hEarly
    · exact .inr ⟨hIn, nothingTaken_of_noRoom hr hI ha hAlign hRoom hUnits (units_lt q) hIn.2⟩
    · exact .inr ⟨hIn, hTaken⟩
  · intro hSpace hRefused
    obtain ⟨hZero, hStays, -⟩ := hRefused
    by_cases hEarly : q.early r
    · exact .inl hEarly
    · obtain ⟨hIn, -⟩ := hStays.resolve_left hEarly
      rcases hI.search hr (units_lt q) hIn.2 with ⟨h', -, hTaken, -⟩ | ⟨h', c, hRes, -, hc, hLt⟩
      · exact .inr ⟨hIn, .inr hTaken⟩
      · rw [(run_late ha hAlign hEarly hRes).2 hc] at hZero
        exact absurd hZero (place_ne_zero ha hAlign hr hLt hSpace)

/-! ## Runs -/

theorem MachineInv.idle (hr : r.Sound) (hM : MachineInv r m) (hIdle : Idle r m.heap q) :
    MachineInv r ⟨(q.run r m.heap).1, exchange m.live 0 (q.run r m.heap).2⟩ := by
  obtain ⟨B, U, hRest, hL⟩ := hM
  obtain ⟨hRefused, hRest'⟩ := hRest.idle ha hAlign hr hIdle
  rw [exchange, if_pos hRefused.1]
  exact ⟨B, U, hRest', hL⟩

end Align

theorem MachineInv.tame (hr : r.Sound) (hBase : 0 < r.chunkBuf) {op : HeapOp}
    (hM : MachineInv r m) (hOp : Tame r m op) : MachineInv r (heapStep r m op) := by
  cases op with
  | alloc bytes =>
    rcases hOp with hOp | hIdle
    · exact (hM.step hr hBase hOp).1
    · have hBits : 0 < r.cfg.sizeBits := by
        rcases r.cfg.sizeBits_eq with hk | hk <;> omega
      exact MachineInv.idle hBits (a := 0) (q := .plain bytes) rfl hr hM hIdle
  | alignedAlloc align bytes =>
    rcases hOp with hOp | ⟨a, ha, rfl, hIdle⟩
    · exact (hM.step hr hBase hOp).1
    · exact MachineInv.idle ha (q := .aligned a bytes) rfl hr hM hIdle
  | alignedRealloc ptr align bytes =>
    rcases hOp with hOp | ⟨hPtr, hPos, hBig⟩
    · exact (hM.step hr hBase hOp).1
    · have hRes : sysHeapAlignedRealloc r m.heap ptr align bytes = (m.heap, 0) := by
        rw [sysHeapAlignedRealloc, if_neg hPtr, if_neg hPos, if_pos hBig]
      rw [heapStep, hRes, if_neg hPos, exchange, if_pos rfl]
      exact hM
  | free ptr =>
    have hProper : Proper r m (.free ptr) := hOp
    exact (hM.step hr hBase hProper).1
  | write addr byte =>
    have hProper : Proper r m (.write addr byte) := hOp
    exact (hM.step hr hBase hProper).1

/-- The state that a run of tame calls reaches. -/
theorem tame_run {k : HeapConfig} {mem bytes : Nat} {junk : ZHeap} {r : Region} {h : ZHeap}
    (hUsable : Usable k mem bytes) (hInit : sysHeapInit k mem bytes junk = some (r, h))
    {ops : List HeapOp} (hOps : Admissible (heapStep r) (Tame r) ⟨h, []⟩ ops) :
    r.Sound ∧ MachineInv r (exec (heapStep r) ⟨h, []⟩ ops) := by
  obtain ⟨hr, hStart, -, hM⟩ := sysHeapInit_machine hUsable hInit
  have hBase : 0 < r.chunkBuf := Nat.lt_of_lt_of_le hUsable.mem_pos hStart
  exact ⟨hr, exec_invariant (fun _ _ hM hOp => MachineInv.tame hr hBase hM hOp) ops _ hM hOps⟩

/-- After any run of tame calls, a request that no free chunk can hold is refused without harm if
it is harmless, and only then if the rounding to its alignment does not leave the address
space. -/
theorem oversized_request_refused (k : HeapConfig) (mem bytes : Nat) (junk : ZHeap) (r : Region)
    (h : ZHeap) (hUsable : Usable k mem bytes)
    (hInit : sysHeapInit k mem bytes junk = some (r, h)) (ops : List HeapOp)
    (hOps : Admissible (heapStep r) (Tame r) ⟨h, []⟩ ops) (q : Request)
    (hAlign : q.align < 2 ^ r.cfg.sizeBits)
    (hRoom : NoRoom r (exec (heapStep r) ⟨h, []⟩ ops).heap q) :
    (Harmless r (exec (heapStep r) ⟨h, []⟩ ops).heap q →
        Refused r (exec (heapStep r) ⟨h, []⟩ ops).heap q) ∧
      (r.chunkBuf + 8 * r.endChunk + q.align ≤ 2 ^ r.cfg.sizeBits →
        Refused r (exec (heapStep r) ⟨h, []⟩ ops).heap q →
        Harmless r (exec (heapStep r) ⟨h, []⟩ ops).heap q) := by
  obtain ⟨hr, B, U, hRest, -⟩ := tame_run hUsable hInit hOps
  have hPow : ∃ a, q.align = 2 ^ a := by
    cases q with
    | plain bytes => exact ⟨0, rfl⟩
    | aligned a bytes => exact ⟨a, rfl⟩
  obtain ⟨a, ha⟩ := hPow
  rw [ha] at hAlign
  exact hRest.refused ((Nat.pow_lt_pow_iff_right (by norm_num)).mp hAlign) ha hr hRoom

/-- A request that does not fit anywhere after the first unit has no room. -/
theorem MachineInv.noRoom (hr : r.Sound) {m : Machine} (hM : MachineInv r m) {q : Request}
    (hAll : ∀ p, r.chunkBuf + 8 + chunkHeaderBytes r ≤ p → p % q.align = 0 →
      r.chunkBuf + 8 * r.endChunk < p + q.bytes) : NoRoom r m.heap q := by
  obtain ⟨B, U, ⟨L, hI⟩, -⟩ := hM
  intro c hc hLt hFree hHold
  obtain ⟨p, hLow, hHigh, hMod⟩ := hHold
  have hcB := (hI.isChunk_iff hr c).mp hc
  -- the first chunk, with `struct z_heap`, is not free
  have hPos : c ≠ 0 := by
    rintro rfl
    exact hI.zero_not_avail ⟨hcB, (hI.headers.unused_iff hcB).mp hFree⟩
  obtain ⟨d, hP⟩ := hI.shape.cuts.exists_right hcB hLt
  rw [hI.rightChunk_eq hr hP] at hHigh
  have hTop := hI.shape.cuts.le_top d hP.right_mem
  have hPast := hAll p (by omega) hMod
  omega

/-- 240 bytes aligned to 8 are refused by a heap of 248, after a block and a call for far too
much. -/
theorem oversized_request_refused_small :
    Refused (initRegion config32 0x1000 256)
      (exec (heapStep (initRegion config32 0x1000 256)) ⟨newHeap config32 0x1000 256, []⟩
        [.alloc 10, .alloc 1000]).heap (.aligned 3 240) := by
  have hUsable : Usable config32 0x1000 256 := ⟨by decide, by decide, by decide⟩
  have hInit := sysHeapInit_newHeap (k := config32) (show accepts config32 0x1000 256 = true by
    decide +kernel)
  have hOps : Admissible (heapStep (initRegion config32 0x1000 256))
      (Tame (initRegion config32 0x1000 256)) ⟨newHeap config32 0x1000 256, []⟩
      [.alloc 10, .alloc 1000] :=
    ⟨.inl (by show _ ≤ _; decide +kernel), .inr (.inl (.inr (by decide +kernel))), trivial⟩
  obtain ⟨hr, hM⟩ := tame_run hUsable hInit hOps
  have hBuf : (initRegion config32 0x1000 256).chunkBuf = 0x1000 := by decide +kernel
  have hEnd : (initRegion config32 0x1000 256).endChunk = 31 := by decide +kernel
  have hHdr := chunkHeaderBytes_cases (r := initRegion config32 0x1000 256)
  have hRoom := hM.noRoom hr (q := .aligned 3 240) (by
    intro p hp hMod
    simp only [Request.align, Request.bytes, hBuf, hEnd] at hp hMod ⊢
    omega)
  refine (oversized_request_refused config32 0x1000 256 zeroHeap _ _ hUsable hInit _ hOps
    (.aligned 3 240) (by decide) hRoom).1 (.inr ⟨⟨by decide +kernel, by decide +kernel⟩, .inl ?_⟩)
  decide +kernel

/-- A heap of 31 units has buckets 0 to 4.  245 bytes pass `size_too_big`, need 32 units with the
header, and are looked for in bucket 5. -/
theorem bucket_past_end :
    NoRoom (initRegion config32 0x1000 256) (newHeap config32 0x1000 256) (.plain 245) ∧
      ¬ Refused (initRegion config32 0x1000 256) (newHeap config32 0x1000 256) (.plain 245) := by
  obtain ⟨hr, -, -, hM⟩ := sysHeapInit_machine (k := config32)
    (show Usable config32 0x1000 256 from ⟨by decide, by decide, by decide⟩)
    (sysHeapInit_newHeap (by decide +kernel))
  have hBuf : (initRegion config32 0x1000 256).chunkBuf = 0x1000 := by decide +kernel
  have hEnd : (initRegion config32 0x1000 256).endChunk = 31 := by decide +kernel
  have hHdr := chunkHeaderBytes_cases (r := initRegion config32 0x1000 256)
  constructor
  · refine hM.noRoom hr ?_
    intro p hp _
    simp only [Request.bytes, hBuf, hEnd] at hp ⊢
    omega
  · rintro ⟨-, (hZero | hBig) | ⟨⟨-, hIdx⟩, -⟩, -⟩
    · exact absurd hZero (by decide)
    · exact absurd hBig (by decide +kernel)
    · exact absurd hIdx (by decide +kernel)

/-- Nine bytes aligned to `2 ^ 35` need more than `2 ^ 32` units, of which two are left after the
cut to 32 bits: the heap of 512 bytes gives them out at the address `2 ^ 35`. -/
theorem huge_alignment_granted :
    NoRoom (initRegion config64 0x1000 512) (newHeap config64 0x1000 512) (.aligned 35 9) ∧
      ((Request.aligned 35 9).run (initRegion config64 0x1000 512)
        (newHeap config64 0x1000 512)).2 = 2 ^ 35 := by
  obtain ⟨hr, -, -, hM⟩ := sysHeapInit_machine (k := config64)
    (show Usable config64 0x1000 512 from ⟨by decide, by decide, by decide⟩)
    (sysHeapInit_newHeap (by decide +kernel))
  refine ⟨hM.noRoom hr ?_, by decide +kernel⟩
  have hBuf : (initRegion config64 0x1000 512).chunkBuf = 0x1000 := by decide +kernel
  have hEnd : (initRegion config64 0x1000 512).endChunk = 63 := by decide +kernel
  intro p hp hMod
  simp only [Request.align, Request.bytes, hBuf, hEnd] at hp hMod ⊢
  omega

end Zvm.Heap
