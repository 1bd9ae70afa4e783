import Zvm.Verified.Bytes
import Zvm.Verified.Pieces

/-!
# The chunks of a `sys_heap`

`lib/heap/heap.h` divides the memory of a heap into chunks, named by their
offset in units of eight bytes.  A chunk starts with four fields: the size of
its left neighbour, its own size with the used flag in bit 0, and, while it is
free, its two neighbours in a free list.  The fields are 16 bits wide in a small
heap and 32 in a big one, where the two links lie in the second unit of the chunk;
a free chunk of one unit has no room for them there, and its links would be the
header of the next chunk.

The memory of the model is the bytes from the start of the heap, and all fields
are read from it and written to it, so that this overlap is part of the model.
The rest of `struct z_heap` (the bucket array and the counters) is kept beside it.
-/

namespace Zvm.Heap

open Zvm.Verified.Bytes Zvm.Verified.Pieces

/-- The build: the width of `size_t`, the Kconfig choices for the heap. -/
structure HeapConfig where
  sizeBits : Nat
  sizeBits_eq : sizeBits = 32 ∨ sizeBits = 64
  smallOnly : Bool
  bigOnly : Bool
  runtimeStats : Bool
  validate : Bool
  allocLoops : Nat

/-- Where a heap lies and how many chunk units it has.  Nothing changes them after
`sys_heap_init`. -/
structure Region where
  cfg : HeapConfig
  chunkBuf : Nat
  endChunk : Nat

/-- What changes: the rest of `struct z_heap`, and the bytes from `chunk_buf` on.  A bucket
with an index beyond the array stands for whatever the memory after it holds. -/
structure ZHeap where
  availBuckets : BitVec 32
  buckets : Nat → Nat
  freeBytes : Nat
  allocatedBytes : Nat
  maxAllocatedBytes : Nat
  mem : Nat → UInt8

inductive ChunkField where
  | leftSize
  | sizeAndUsed
  | freePrev
  | freeNext
deriving DecidableEq, Repr

/-- The value of the enumerator. -/
def ChunkField.idx : ChunkField → Nat
  | .leftSize => 0
  | .sizeAndUsed => 1
  | .freePrev => 2
  | .freeNext => 3

/-- The field is one of the links of a free list. -/
def ChunkField.IsLink (f : ChunkField) : Prop := f = .freePrev ∨ f = .freeNext

instance (f : ChunkField) : Decidable f.IsLink :=
  inferInstanceAs (Decidable (f = .freePrev ∨ f = .freeNext))

/-! ## Machine arithmetic -/

/-- A `chunkid_t` or `chunksz_t`. -/
def u32 (x : Nat) : Nat := x % 2 ^ 32

/-- Subtraction of 32-bit values. -/
def sub32 (x y : Nat) : Nat := (x + 2 ^ 32 - y % 2 ^ 32) % 2 ^ 32

/-- A `size_t`, `uintptr_t` or `unsigned long`. -/
def HeapConfig.size (k : HeapConfig) (x : Nat) : Nat := x % 2 ^ k.sizeBits

/-- Subtraction of `size_t` values. -/
def HeapConfig.sub (k : HeapConfig) (x y : Nat) : Nat :=
  (x + 2 ^ k.sizeBits - y % 2 ^ k.sizeBits) % 2 ^ k.sizeBits

variable {x c d : Nat} {B : Set Nat} {f : ChunkField}

theorem u32_of_lt (h : x < 2 ^ 32) : u32 x = x := Nat.mod_eq_of_lt h

theorem sub32_of_le {y : Nat} (h : y ≤ x) (hx : x < 2 ^ 32) : sub32 x y = x - y := by
  unfold sub32
  omega

theorem HeapConfig.size_of_lt {k : HeapConfig} (h : x < 2 ^ k.sizeBits) :
    k.size x = x := Nat.mod_eq_of_lt h

theorem HeapConfig.sub_of_le {k : HeapConfig} {y : Nat} (h : y ≤ x) (hx : x < 2 ^ k.sizeBits) :
    k.sub x y = x - y := by
  unfold HeapConfig.sub
  rw [Nat.mod_eq_of_lt (show y < 2 ^ k.sizeBits by omega),
    show x + 2 ^ k.sizeBits - y = x - y + 2 ^ k.sizeBits by omega, Nat.add_mod_right,
    Nat.mod_eq_of_lt (by omega)]

theorem HeapConfig.le_two_pow (k : HeapConfig) : 2 ^ 32 ≤ 2 ^ k.sizeBits := by
  apply Nat.pow_le_pow_right (by norm_num)
  rcases k.sizeBits_eq with h | h <;> omega

/-! ## `heap.h` -/

/-- `big_heap_chunks`. -/
def bigHeapChunks (k : HeapConfig) (chunks : Nat) : Bool :=
  if k.smallOnly then false
  else if k.bigOnly || decide (32 < k.sizeBits) then true
  else decide (0x7fff < chunks)

/-- `big_heap_bytes`. -/
def bigHeapBytes (k : HeapConfig) (bytes : Nat) : Bool := bigHeapChunks k (u32 (bytes / 8))

/-- `heap_footer_bytes`. -/
def heapFooterBytes (k : HeapConfig) (size : Nat) : Nat := if bigHeapBytes k size then 8 else 4

/-- `chunksz`. -/
def chunksz (k : HeapConfig) (bytes : Nat) : Nat := u32 (k.size (bytes + 7) / 8)

section

variable (r : Region)

/-- `big_heap`. -/
def Region.big : Bool := bigHeapChunks r.cfg r.endChunk

/-- The bytes of a field. -/
def Region.word : Nat := if r.big then 4 else 2

/-- Where a field is, in bytes from the start of the heap. -/
def fieldAddr (c : Nat) (f : ChunkField) : Nat := 8 * c + r.word * f.idx

/-- `chunk_field`. -/
def chunkField (h : ZHeap) (c : Nat) (f : ChunkField) : Nat :=
  load h.mem r.word (fieldAddr r c f)

/-- `chunk_set`. -/
def chunkSet (h : ZHeap) (c : Nat) (f : ChunkField) (val : Nat) : ZHeap :=
  { h with mem := store h.mem r.word (fieldAddr r c f) val }

/-- `chunk_used`. -/
def chunkUsed (h : ZHeap) (c : Nat) : Bool := chunkField r h c .sizeAndUsed % 2 == 1

/-- `chunk_size`. -/
def chunkSize (h : ZHeap) (c : Nat) : Nat := chunkField r h c .sizeAndUsed / 2

/-- `set_chunk_used`: bit 0 becomes the flag. -/
def setChunkUsed (h : ZHeap) (c : Nat) (used : Bool) : ZHeap :=
  chunkSet r h c .sizeAndUsed (chunkField r h c .sizeAndUsed / 2 * 2 + used.toNat)

/-- `set_chunk_size`. -/
def setChunkSize (h : ZHeap) (c size : Nat) : ZHeap := chunkSet r h c .sizeAndUsed (u32 (size * 2))

/-- `prev_free_chunk`. -/
def prevFreeChunk (h : ZHeap) (c : Nat) : Nat := chunkField r h c .freePrev

/-- `next_free_chunk`. -/
def nextFreeChunk (h : ZHeap) (c : Nat) : Nat := chunkField r h c .freeNext

/-- `set_prev_free_chunk`. -/
def setPrevFreeChunk (h : ZHeap) (c prev : Nat) : ZHeap := chunkSet r h c .freePrev prev

/-- `set_next_free_chunk`. -/
def setNextFreeChunk (h : ZHeap) (c next : Nat) : ZHeap := chunkSet r h c .freeNext next

/-- `left_chunk`. -/
def leftChunk (h : ZHeap) (c : Nat) : Nat := sub32 c (chunkField r h c .leftSize)

/-- `right_chunk`. -/
def rightChunk (h : ZHeap) (c : Nat) : Nat := u32 (c + chunkSize r h c)

/-- `set_left_chunk_size`. -/
def setLeftChunkSize (h : ZHeap) (c size : Nat) : ZHeap := chunkSet r h c .leftSize size

/-- `solo_free_header`. -/
def soloFreeHeader (h : ZHeap) (c : Nat) : Bool := r.big && chunkSize r h c == 1

/-- `chunk_header_bytes`. -/
def chunkHeaderBytes : Nat := if r.big then 8 else 4

/-- `bytes_to_chunksz`. -/
def bytesToChunksz (bytes : Nat) : Nat :=
  chunksz r.cfg (r.cfg.size (chunkHeaderBytes r + bytes))

/-- `min_chunk_size`. -/
def minChunkSize : Nat := bytesToChunksz r 1

/-- `chunksz_to_bytes`. -/
def chunkszToBytes (chunkszIn : Nat) : Nat :=
  r.cfg.sub (u32 (chunkszIn * 8)) (chunkHeaderBytes r)

/-- `bucket_idx`: the place of the highest set bit. -/
def bucketIdx (sz : Nat) : Nat := Nat.log2 (u32 (sub32 sz (minChunkSize r) + 1))

/-- `size_too_big`. -/
def sizeTooBig (bytes : Nat) : Bool := decide (r.endChunk ≤ bytes / 8)

/-! ## Fields in memory -/

variable {r}

theorem word_cases : r.word = 4 ∧ r.big = true ∨ r.word = 2 ∧ r.big = false := by
  cases hBig : r.big <;> simp [Region.word, hBig]

theorem minChunkSize_eq : minChunkSize r = if r.big then 2 else 1 := by
  have hPow := r.cfg.le_two_pow
  cases hBig : r.big
  · have hBytes : chunkHeaderBytes r + 1 = 5 := by simp [chunkHeaderBytes, hBig]
    rw [minChunkSize, bytesToChunksz, hBytes, HeapConfig.size_of_lt (by omega), chunksz,
      HeapConfig.size_of_lt (by omega)]
    rfl
  · have hBytes : chunkHeaderBytes r + 1 = 9 := by simp [chunkHeaderBytes, hBig]
    rw [minChunkSize, bytesToChunksz, hBytes, HeapConfig.size_of_lt (by omega), chunksz,
      HeapConfig.size_of_lt (by omega)]
    rfl

/-- Fields lie at multiples of their width, so two of them are one or do not overlap. -/
theorem fieldAddr_apart (c d : Nat) (f g : ChunkField) (hNe : fieldAddr r d g ≠ fieldAddr r c f) :
    fieldAddr r c f + r.word ≤ fieldAddr r d g ∨ fieldAddr r d g + r.word ≤ fieldAddr r c f := by
  unfold fieldAddr at hNe ⊢
  rcases word_cases (r := r) with ⟨hw, -⟩ | ⟨hw, -⟩ <;> rw [hw] at hNe ⊢ <;> omega

theorem chunkField_chunkSet (h : ZHeap) (c d : Nat) (f g : ChunkField) (val : Nat) :
    chunkField r (chunkSet r h c f val) d g =
      if fieldAddr r d g = fieldAddr r c f then val % 256 ^ r.word else chunkField r h d g := by
  unfold chunkField chunkSet
  by_cases hEq : fieldAddr r d g = fieldAddr r c f
  · rw [if_pos hEq, hEq, load_store_same]
  · rw [if_neg hEq, load_store_of_disjoint _ _ (fieldAddr_apart c d f g hEq)]

@[simp]
theorem chunkSet_buckets (h : ZHeap) (c : Nat) (f : ChunkField) (val : Nat) :
    (chunkSet r h c f val).buckets = h.buckets := rfl

@[simp]
theorem chunkSet_availBuckets (h : ZHeap) (c : Nat) (f : ChunkField) (val : Nat) :
    (chunkSet r h c f val).availBuckets = h.availBuckets := rfl

/-- A field that the division of the heap at `B` has room for: a header at each cut point, and
the links of each chunk that is not too small. -/
def Slot (r : Region) (B : Set Nat) (c : Nat) (f : ChunkField) : Prop :=
  c ∈ B ∧ (f.IsLink → ∃ d, Piece B c d ∧ minChunkSize r ≤ d - c)

theorem slot_header (hc : c ∈ B) (hf : ¬ f.IsLink) :
    Slot r B c f := ⟨hc, fun hLink => absurd hLink hf⟩

theorem slot_left (hc : c ∈ B) : Slot r B c .leftSize :=
  slot_header hc (by simp [ChunkField.IsLink])

theorem slot_size (hc : c ∈ B) : Slot r B c .sizeAndUsed :=
  slot_header hc (by simp [ChunkField.IsLink])

theorem slot_link (hP : Piece B c d) (hMin : minChunkSize r ≤ d - c) (f : ChunkField) :
    Slot r B c f := ⟨hP.left_mem, fun _ => ⟨d, hP, hMin⟩⟩

/-- In a big heap the links of a chunk are in its second unit, which is no cut point. -/
theorem link_unit_not_mem (hSlot : Slot r B c f) (hLink : f.IsLink) (hBig : r.big = true) :
    c + 1 ∉ B := by
  obtain ⟨d, hP, hMin⟩ := hSlot.2 hLink
  rw [minChunkSize_eq, hBig] at hMin
  have hLt := hP.lt
  exact hP.inside (c + 1) (by omega) (by simp at hMin; omega)

/-- No two of these fields share memory. -/
theorem slot_inj {g : ChunkField} (hc : Slot r B c f) (hd : Slot r B d g)
    (hAddr : fieldAddr r d g = fieldAddr r c f) : d = c ∧ g = f := by
  unfold fieldAddr at hAddr
  rcases word_cases (r := r) with ⟨hw, hBig⟩ | ⟨hw, -⟩
  · rw [hw] at hAddr
    have hNotC : f.IsLink → d ≠ c + 1 := by
      rintro hLink rfl
      exact link_unit_not_mem hc hLink hBig hd.1
    have hNotD : g.IsLink → c ≠ d + 1 := by
      rintro hLink rfl
      exact link_unit_not_mem hd hLink hBig hc.1
    cases f <;> cases g <;> simp [ChunkField.idx, ChunkField.IsLink] at * <;> omega
  · rw [hw] at hAddr
    cases f <;> cases g <;> simp [ChunkField.idx] at * <;> omega

theorem chunkField_chunkSet_of_slot {g : ChunkField} (hc : Slot r B c f) (hd : Slot r B d g)
    (h : ZHeap) (val : Nat) :
    chunkField r (chunkSet r h c f val) d g =
      if d = c ∧ g = f then val % 256 ^ r.word else chunkField r h d g := by
  rw [chunkField_chunkSet]
  by_cases hEq : d = c ∧ g = f
  · rw [if_pos hEq, if_pos (by rw [hEq.1, hEq.2])]
  · rw [if_neg hEq, if_neg (fun hAddr => hEq (slot_inj hc hd hAddr))]

end

end Zvm.Heap
