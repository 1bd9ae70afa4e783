import Zvm.Verified.FunArray
import Mathlib.Tactic.NormNum

/-!
# The guest memory manager

`subsys/zvm/os.c` hands out the RAM of guests from one region, described by an
array of at most sixteen consecutive blocks.  Allocation is first fit and
splits the block it takes; freeing marks a block free and merges it with a free
neighbour on either side.

The model keeps the C representation: `blkList` is the whole array, of which
the first `blkCount` slots are in use, and addresses are 64-bit numbers whose
sums wrap.  Reasoning is done on *offsets* from the region's base, where
nothing wraps as long as every block lies inside the region: this is the
invariant `Layout`.  What the rest of the development needs to know about a
block list is only which ranges are allocated (`AllocatedAt`), and how each
operation changes that set.
-/

namespace Zvm.Os.GuestMemory

open Zvm.Verified.FunArray

/-- `struct GuestMemoryPart`. -/
structure GuestMemoryPart where
  startAddr : Nat
  size : Nat
  isAllocated : Bool
  osType : Nat
deriving DecidableEq, Repr

/-- `struct GuestMemoryManager`; the slots from `blkCount` on are stale. -/
structure GuestMemoryManager where
  totalMemory : Nat
  baseAddr : Nat
  blkList : Nat → GuestMemoryPart
  blkCount : Nat

/-- The number of slots of `blk_list`. -/
def blkListLen : Nat := 16

/-- Addition of two `uint64_t` values. -/
def add64 (a b : Nat) : Nat := (a + b) % 2 ^ 64

/-- `guest_memory_manager_init`: one free block over the whole region. -/
def guestMemoryManagerInit (baseAddr totalMem : Nat) : GuestMemoryManager where
  totalMemory := totalMem
  baseAddr := baseAddr
  blkList := set (fun _ => ⟨0, 0, false, 0⟩) 0 ⟨baseAddr, totalMem, false, 0⟩
  blkCount := 1

/-! ## Allocation -/

/-- The test of the first-fit loop: a free block that is large enough. -/
def fits (mm : GuestMemoryManager) (size i : Nat) : Bool :=
  !(mm.blkList i).isAllocated && decide (size ≤ (mm.blkList i).size)

/-- The block taken from slot `i`, still with everything behind it unchanged. -/
def takeBlk (mm : GuestMemoryManager) (osType size i : Nat) : GuestMemoryManager :=
  { mm with
    blkList := set mm.blkList i
      { mm.blkList i with size := size, isAllocated := true, osType := osType } }

/-- Insert the free remainder `[start, start + size)` behind slot `i`.  The
slots behind it move up by one; the owner recorded in slot `i + 1` stays. -/
def insertRest (mm : GuestMemoryManager) (i start size : Nat) : GuestMemoryManager :=
  let moved := shiftUp (i + 1) mm.blkCount mm.blkList
  { mm with
    blkList := set moved (i + 1)
      { moved (i + 1) with startAddr := start, size := size, isAllocated := false }
    blkCount := mm.blkCount + 1 }

/-- `allocate_guest_memory_part`: the new state and the returned address, 0 on
failure.  When the array is full, the taken block keeps its reduced size and
its mark although the call fails. -/
def allocateGuestMemoryPart (mm : GuestMemoryManager) (osType size : Nat) :
    GuestMemoryManager × Nat :=
  match firstIdx mm.blkCount (fits mm size) with
  | none => (mm, 0)
  | some i =>
    let originalStart := (mm.blkList i).startAddr
    let originalSize := (mm.blkList i).size
    let taken := takeBlk mm osType size i
    if size < originalSize then
      if blkListLen ≤ mm.blkCount then (taken, 0)
      else
        (insertRest taken i (add64 originalStart size) (originalSize - size),
          originalStart)
    else (taken, originalStart)

/-- `allocate_guest_memory_part_check`: would an allocation find a block and,
when it has to split it, a slot for the remainder? -/
def allocateGuestMemoryPartCheck (mm : GuestMemoryManager) (size : Nat) : Bool :=
  match firstIdx mm.blkCount (fits mm size) with
  | none => false
  | some i => !(decide (size < (mm.blkList i).size) && decide (blkListLen ≤ mm.blkCount))

/-! ## Freeing -/

/-- Merge slot `lo + 1` into slot `lo` and close the gap behind it. -/
def coalesce (mm : GuestMemoryManager) (lo : Nat) : GuestMemoryManager :=
  let merged := set mm.blkList lo
    { mm.blkList lo with size := add64 (mm.blkList lo).size (mm.blkList (lo + 1)).size }
  { mm with
    blkList := shiftDown (lo + 1) (mm.blkCount - 1 - (lo + 1)) merged
    blkCount := mm.blkCount - 1 }

/-- Slot `lo` ends where slot `lo + 1` starts. -/
def adjacent (mm : GuestMemoryManager) (lo : Nat) : Bool :=
  decide (add64 (mm.blkList lo).startAddr (mm.blkList lo).size =
    (mm.blkList (lo + 1)).startAddr)

/-- Merge the freed block in slot `index` with a free block behind it. -/
def mergeNext (mm : GuestMemoryManager) (index : Nat) : GuestMemoryManager :=
  if decide (index < mm.blkCount - 1) && !(mm.blkList (index + 1)).isAllocated &&
      adjacent mm index then
    coalesce mm index
  else mm

/-- Merge the freed block in slot `index` into a free block before it. -/
def mergePrev (mm : GuestMemoryManager) (index : Nat) : GuestMemoryManager :=
  match index with
  | 0 => mm
  | prev + 1 =>
    if !(mm.blkList prev).isAllocated && adjacent mm prev then coalesce mm prev else mm

/-- `blk_list[index].is_allocated = false`. -/
def clearBlk (mm : GuestMemoryManager) (index : Nat) : GuestMemoryManager :=
  { mm with blkList := set mm.blkList index { mm.blkList index with isAllocated := false } }

/-- The test of the search loop of `free_guest_memory_part`. -/
def startsAt (mm : GuestMemoryManager) (addr i : Nat) : Bool :=
  decide ((mm.blkList i).startAddr = addr) && (mm.blkList i).isAllocated

/-- `free_guest_memory_part`. -/
def freeGuestMemoryPart (mm : GuestMemoryManager) (addr : Nat) : GuestMemoryManager :=
  match firstIdx mm.blkCount (startsAt mm addr) with
  | none => mm
  | some index => mergePrev (mergeNext (clearBlk mm index) index) index

end Zvm.Os.GuestMemory
