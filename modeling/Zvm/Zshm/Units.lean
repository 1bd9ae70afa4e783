import Zvm.Verified.Run
import Zvm.Verified.WordBitmap

/-!
# Units of shared memory

Every VM gets a unit of the shared memory when it is created (`zshm_alloc_vm_shm`) and
gives it back when it is deleted (`vm_zshm_deinit`): the unit with the VM's identifier as
its number if that one is free, otherwise the first free one.  Which units are taken is
kept in a bitmap, and which unit a VM has in a table by identifier.

The number of units follows from the size of the devicetree region.  The bitmap has one
word for each 64 units, rounded *down*, and the table by identifier has as many entries as
there are units, whatever the number of VMs.  The model keeps a log of the indices that
are used; what the memory behind the arrays holds is arbitrary.
-/

namespace Zvm.Zshm

open Zvm.Verified Zvm.Verified.FunArray Zvm.Verified.Run

/-- The devicetree node `zshm`. -/
structure Region where
  start : Nat
  size : Nat

/-- `ZSHM_UNIT_SIZE`. -/
def zshmUnitSize : Nat := 0x200000

/-- `ZSHM_NOTIFY_SPACE_SIZE`. -/
def zshmNotifySpaceSize : Nat := 0x100000

/-- `ZSHM_NOTIFY_INFO_SPACE_SIZE`. -/
def zshmNotifyInfoSpaceSize : Nat := 0x100000

/-- `ZSHM_NOTIFY_UNIT_SIZE`, a page. -/
def zshmNotifyUnitSize : Nat := 0x1000

/-- `ZSHM_NOTIFY_INFO_UNIT_SIZE`, a page. -/
def zshmNotifyInfoUnitSize : Nat := 0x1000

/-- `ZSHM_SIZE`. -/
def zshmSize (r : Region) : Nat := r.size - zshmNotifySpaceSize - zshmNotifyInfoSpaceSize

/-- `ZSHM_UNIT_MAX_NUMS`. -/
def zshmUnitMaxNums (r : Region) : Nat :=
  if zshmSize r / zshmUnitSize < zshmNotifySpaceSize / zshmNotifyUnitSize then
    zshmSize r / zshmUnitSize
  else zshmNotifySpaceSize / zshmNotifyUnitSize

theorem zshmUnitMaxNums_le (r : Region) : zshmUnitMaxNums r ≤ 256 := by
  unfold zshmUnitMaxNums
  split
  case isTrue hLt =>
    have hMax : zshmNotifySpaceSize / zshmNotifyUnitSize = 256 := by decide
    omega
  case isFalse => decide

theorem zshmUnitMaxNums_mul_le (r : Region) : zshmUnitMaxNums r * zshmUnitSize ≤ zshmSize r := by
  have hQuot : zshmUnitMaxNums r ≤ zshmSize r / zshmUnitSize := by
    unfold zshmUnitMaxNums
    split
    case isTrue => exact Nat.le_refl _
    case isFalse hGe => exact Nat.not_lt.mp hGe
  exact Nat.le_trans (Nat.mul_le_mul_right _ hQuot) (Nat.div_mul_le_self _ _)

/-- What the functions know of the region: its start, `ZSHM_SIZE` and `ZSHM_UNIT_MAX_NUMS`. -/
structure Layout where
  start : Nat
  size : Nat
  unitMaxNums : Nat
  nums_le : unitMaxNums ≤ 256
  nums_fit : unitMaxNums * zshmUnitSize ≤ size

/-- The layout of a region. -/
def Region.layout (r : Region) : Layout where
  start := r.start
  size := zshmSize r
  unitMaxNums := zshmUnitMaxNums r
  nums_le := zshmUnitMaxNums_le r
  nums_fit := zshmUnitMaxNums_mul_le r

/-- `ZSHM_NOTIFY_INFO_SPACE_START_PHY_ADDR`. -/
def zshmNotifyInfoSpaceStart (l : Layout) : Nat := l.start + l.unitMaxNums * zshmUnitSize

/-- `ZSHM_NOTIFY_SPACE_START_PHY_ADDR`. -/
def zshmNotifySpaceStart (l : Layout) : Nat :=
  zshmNotifyInfoSpaceStart l + zshmNotifyInfoSpaceSize

/-- `struct zshm_alloc_unit`; the fields have 32 bits. -/
structure AllocUnit where
  id : Nat
  vmId : Nat
  zshmPaddr : Nat
  zshmNotifyAddr : Nat
  zshmNotifyInfoAddr : Nat
  deriving DecidableEq

/-- The record with another `vm_id`. -/
def AllocUnit.forVm (u : AllocUnit) (vmid : Nat) : AllocUnit := { u with vmId := vmid }

/-- `struct zshm_vm_mappings`: whether the two pointers are set, and `is_mapped`. -/
structure VmMappings where
  messageSlotsAddr : Bool
  priorityRings : Bool
  isMapped : Bool
  deriving DecidableEq

/-- The four arrays. -/
inductive ArrayName where
  | zshmBitmap
  | zshmUnits
  | zshmVmMaps
  | vmidToUnitsIndex
  deriving DecidableEq

/-- An index into an array. -/
structure Access where
  array : ArrayName
  index : Int
  deriving DecidableEq

/-- The number of elements of an array. -/
def arraySize (l : Layout) : ArrayName → Nat
  | .zshmBitmap => l.unitMaxNums / 64
  | .zshmUnits | .zshmVmMaps | .vmidToUnitsIndex => l.unitMaxNums

def Access.Inside (l : Layout) (a : Access) : Prop :=
  0 ≤ a.index ∧ a.index < arraySize l a.array

instance (l : Layout) (a : Access) : Decidable (a.Inside l) :=
  inferInstanceAs (Decidable (_ ∧ _))

structure UnitState where
  zshmBitmap : Nat → BitVec 64
  zshmUnits : Int → AllocUnit
  zshmVmMaps : Int → VmMappings
  vmidToUnitsIndex : Nat → Int
  /-- The indices used so far. -/
  log : List Access
  /-- The live VMs that were given a unit, with the unit. -/
  owned : List (Nat × Nat)
  /-- A VM was refused a unit though one was free. -/
  refusedEarly : Bool

/-! ## The functions -/

/-- The index of a number's word. -/
def wordOf (i : Nat) : Access := ⟨.zshmBitmap, (i / 64 : Nat)⟩

def UnitState.use (s : UnitState) (used : List Access) : UnitState :=
  { s with log := s.log ++ used }

/-- `zshm_bitmap_set`. -/
def zshmBitmapSet (l : Layout) (s : UnitState) (index : Nat) : UnitState :=
  if l.unitMaxNums ≤ index then s
  else { s.use [wordOf index] with zshmBitmap := WordBitmap.insert s.zshmBitmap index }

/-- `zshm_bitmap_unset`. -/
def zshmBitmapUnset (l : Layout) (s : UnitState) (index : Nat) : UnitState :=
  if l.unitMaxNums ≤ index then s
  else { s.use [wordOf index] with zshmBitmap := WordBitmap.erase s.zshmBitmap index }

/-- `zshm_bitmap_find_first_free`. -/
def zshmBitmapFindFirstFree (l : Layout) (s : UnitState) : Nat :=
  WordBitmap.firstClear (l.unitMaxNums) s.zshmBitmap

/-- The indices that the search uses: up to the unit it finds, or all. -/
def searchLog (l : Layout) (s : UnitState) : List Access :=
  (List.range (min (zshmBitmapFindFirstFree l s + 1) (l.unitMaxNums))).map wordOf

/-- The first part of `zshm_alloc_vm_shm`: the unit, with the indices that were used. -/
def chooseIndex (l : Layout) (s : UnitState) (vmid : Nat) : Nat × List Access :=
  if vmid < l.unitMaxNums then
    if WordBitmap.test s.zshmBitmap vmid then
      (zshmBitmapFindFirstFree l s, wordOf vmid :: searchLog l s)
    else (vmid, [wordOf vmid])
  else (zshmBitmapFindFirstFree l s, searchLog l s)

/-- `zshm_units[index].vm_id = vm->vmid`. -/
def UnitState.nameUnit (s : UnitState) (vmid index : Nat) : UnitState :=
  { s.use [⟨.zshmUnits, index⟩] with
    zshmUnits := fun i => if i = index then (s.zshmUnits i).forVm vmid else s.zshmUnits i }

/-- `vmid_to_units_index[vm->vmid] = index`. -/
def UnitState.setIndex (s : UnitState) (vmid : Nat) (index : Int) : UnitState :=
  { s.use [⟨.vmidToUnitsIndex, vmid⟩] with
    vmidToUnitsIndex := set s.vmidToUnitsIndex vmid index }

/-- The entry of `zshm_vm_maps` is replaced. -/
def UnitState.setMaps (s : UnitState) (index : Int) (m : VmMappings) : UnitState :=
  { s.use [⟨.zshmVmMaps, index⟩] with
    zshmVmMaps := fun i => if i = index then m else s.zshmVmMaps i }

/-- The second part of `zshm_alloc_vm_shm`: the VM gets the unit. -/
def grantUnit (l : Layout) (s : UnitState) (vmid index : Nat) : UnitState :=
  { ((zshmBitmapSet l (s.nameUnit vmid index) index).setIndex vmid index).setMaps index
      ⟨true, true, true⟩ with
    owned := (vmid, index) :: s.owned }

/-- All units are owned. -/
def UnitState.full (l : Layout) (s : UnitState) : Bool :=
  (List.range (l.unitMaxNums)).all fun i => s.owned.any fun o => o.2 == i

/-- `zshm_alloc_vm_shm`; the allocations from the heap and the mappings succeed. -/
def zshmAllocVmShm (l : Layout) (s : UnitState) (vmid : Nat) : UnitState × Int :=
  if (chooseIndex l s vmid).1 = l.unitMaxNums then
    ({ s.use (chooseIndex l s vmid).2 with
        refusedEarly := s.refusedEarly || !s.full l }, -1)
  else (grantUnit l (s.use (chooseIndex l s vmid).2) vmid (chooseIndex l s vmid).1, 0)

/-- The record of a unit that is given back. -/
def freeUnit (l : Layout) (index : Int) : AllocUnit where
  id := (index % 2 ^ 32).toNat
  vmId := 0
  zshmPaddr := ((l.start + index * zshmUnitSize) % 2 ^ 32).toNat
  zshmNotifyAddr := ((zshmNotifySpaceStart l + index * zshmNotifyUnitSize) % 2 ^ 32).toNat
  zshmNotifyInfoAddr :=
    ((zshmNotifyInfoSpaceStart l + index * zshmNotifyInfoUnitSize) % 2 ^ 32).toNat

/-- The mappings of a unit are removed if there are any. -/
def unmapUnit (s : UnitState) (index : Int) : UnitState :=
  if index = -1 then s
  else if (s.zshmVmMaps index).isMapped then s.setMaps index ⟨false, false, false⟩
  else s.use [⟨.zshmVmMaps, index⟩]

/-- An `int` as a parameter of 16 bits. -/
def toUint16 (i : Int) : Nat := (i % 65536).toNat

/-- `vm_zshm_deinit` for the index that the table has. -/
def releaseUnit (l : Layout) (s : UnitState) (vmid : Nat) (index : Int) : UnitState :=
  { (zshmBitmapUnset l (unmapUnit (s.use [⟨.vmidToUnitsIndex, vmid⟩]) index)
      (toUint16 index)).use [⟨.zshmUnits, index⟩] with
    zshmUnits := fun i => if i = index then freeUnit l index else s.zshmUnits i
    vmidToUnitsIndex := set s.vmidToUnitsIndex vmid (-1)
    owned := s.owned.filter fun o => o.1 != vmid }

/-- `vm_zshm_deinit`. -/
def vmZshmDeinit (l : Layout) (s : UnitState) (vmid : Nat) : UnitState :=
  releaseUnit l s vmid (s.vmidToUnitsIndex vmid)

/-- The records that `zshm_init` makes, each from the one before. -/
def initUnit (l : Layout) : Nat → AllocUnit
  | 0 =>
    { id := 0
      vmId := 0
      zshmPaddr := l.start % 2 ^ 32
      zshmNotifyAddr := zshmNotifySpaceStart l % 2 ^ 32
      zshmNotifyInfoAddr := zshmNotifyInfoSpaceStart l % 2 ^ 32 }
  | i + 1 =>
    { id := i + 1
      vmId := 0
      zshmPaddr := ((initUnit l i).zshmPaddr + zshmUnitSize) % 2 ^ 32
      zshmNotifyAddr := ((initUnit l i).zshmNotifyAddr + zshmNotifyUnitSize) % 2 ^ 32
      zshmNotifyInfoAddr :=
        ((initUnit l i).zshmNotifyInfoAddr + zshmNotifyInfoUnitSize) % 2 ^ 32 }

/-- `zshm_init`; `beyond` says what the memory behind the arrays holds. -/
def zshmInit (l : Layout) (beyond : UnitState) : UnitState where
  zshmBitmap := fun i => if i < l.unitMaxNums / 64 then 0#64 else beyond.zshmBitmap i
  zshmUnits := fun i =>
    if 0 ≤ i ∧ i < l.unitMaxNums then initUnit l i.toNat else beyond.zshmUnits i
  zshmVmMaps := fun i =>
    if 0 ≤ i ∧ i < l.unitMaxNums then ⟨false, false, false⟩ else beyond.zshmVmMaps i
  vmidToUnitsIndex := fun i => if i < l.unitMaxNums then -1 else beyond.vmidToUnitsIndex i
  log := []
  owned := []
  refusedEarly := false

inductive UnitOp where
  | alloc (vmid : Nat)
  | deinit (vmid : Nat)

def unitStep (l : Layout) (s : UnitState) : UnitOp → UnitState
  | .alloc vmid => (zshmAllocVmShm l s vmid).1
  | .deinit vmid => vmZshmDeinit l s vmid

/-! ## Exclusive units -/

/-- The number of units that have a bit in the bitmap. -/
def bitNums (l : Layout) : Nat := 64 * (l.unitMaxNums / 64)

/-- Every index was inside of its array, no unit has two owners, the bitmap and the table
by identifier say who has which unit, and a VM was refused only if all units were owned. -/
structure Exclusive (l : Layout) (s : UnitState) : Prop where
  inside : ∀ a ∈ s.log, a.Inside l
  one_owner : ∀ v w i, (v, i) ∈ s.owned → (w, i) ∈ s.owned → v = w
  bit_iff : ∀ i < bitNums l, WordBitmap.test s.zshmBitmap i = true ↔ ∃ v, (v, i) ∈ s.owned
  named : ∀ v i, (v, i) ∈ s.owned → s.vmidToUnitsIndex v = i
  refused : s.refusedEarly = false

/-- The VM has a unit. -/
def Owns (s : UnitState) (vmid : Nat) : Prop := ∃ i, (vmid, i) ∈ s.owned

def AllOwned (l : Layout) (s : UnitState) : Prop :=
  ∀ i < l.unitMaxNums, ∃ v, (v, i) ∈ s.owned

/-- A VM without a unit whose identifier has a bit asks for one, or all units are owned and
each has a bit; and a VM gives back a unit if it has one. -/
def InOrder (l : Layout) (s : UnitState) : UnitOp → Prop
  | .alloc vmid => (¬ Owns s vmid ∧ vmid < bitNums l) ∨ (64 ∣ l.unitMaxNums ∧ AllOwned l s)
  | .deinit vmid => Owns s vmid

/-- In a run that is in order every VM has the unit of its own number. -/
structure UnitInv (l : Layout) (s : UnitState) : Prop extends Exclusive l s where
  own_number : ∀ v i, (v, i) ∈ s.owned → i = v
  has_bit : ∀ v i, (v, i) ∈ s.owned → v < bitNums l
  free : ∀ v < l.unitMaxNums, ¬ Owns s v → s.vmidToUnitsIndex v = -1

/-! ### Bounds -/

theorem bitNums_le (l : Layout) : bitNums l ≤ l.unitMaxNums :=
  Nat.mul_div_le (l.unitMaxNums) 64

variable {l : Layout} {i : Int} {index vmid : Nat} {s : UnitState}

theorem bitNums_eq (h64 : 64 ∣ l.unitMaxNums) : bitNums l = l.unitMaxNums :=
  Nat.mul_div_cancel' h64

theorem inside_wordOf {i : Nat} : (wordOf i).Inside l ↔ i < bitNums l := by
  simp only [Access.Inside, wordOf, arraySize, bitNums]
  omega

theorem inside_units : Access.Inside l ⟨.zshmUnits, i⟩ ↔ 0 ≤ i ∧ i < l.unitMaxNums := Iff.rfl

theorem inside_vmMaps : Access.Inside l ⟨.zshmVmMaps, i⟩ ↔ 0 ≤ i ∧ i < l.unitMaxNums := Iff.rfl

theorem inside_vmidToUnitsIndex :
    Access.Inside l ⟨.vmidToUnitsIndex, i⟩ ↔ 0 ≤ i ∧ i < l.unitMaxNums := Iff.rfl

/-! ### What the functions leave -/

theorem grantUnit_eq (hIndex : index < l.unitMaxNums) (s : UnitState) (vmid : Nat) :
    grantUnit l s vmid index =
      { zshmBitmap := WordBitmap.insert s.zshmBitmap index
        zshmUnits := fun i => if i = index then (s.zshmUnits i).forVm vmid else s.zshmUnits i
        zshmVmMaps := fun i => if i = index then ⟨true, true, true⟩ else s.zshmVmMaps i
        vmidToUnitsIndex := set s.vmidToUnitsIndex vmid index
        log := s.log ++ [⟨.zshmUnits, index⟩] ++ [wordOf index] ++ [⟨.vmidToUnitsIndex, vmid⟩] ++
          [⟨.zshmVmMaps, index⟩]
        owned := (vmid, index) :: s.owned
        refusedEarly := s.refusedEarly } := by
  simp only [grantUnit, zshmBitmapSet, if_neg (Nat.not_le.mpr hIndex), UnitState.nameUnit,
    UnitState.setIndex, UnitState.setMaps, UnitState.use]

@[simp]
theorem grantUnit_owned (l : Layout) (s : UnitState) (vmid index : Nat) :
    (grantUnit l s vmid index).owned = (vmid, index) :: s.owned := rfl

@[simp]
theorem unmapUnit_zshmBitmap (s : UnitState) (index : Int) :
    (unmapUnit s index).zshmBitmap = s.zshmBitmap := by
  unfold unmapUnit
  split_ifs <;> rfl

@[simp]
theorem unmapUnit_refusedEarly (s : UnitState) (index : Int) :
    (unmapUnit s index).refusedEarly = s.refusedEarly := by
  unfold unmapUnit
  split_ifs <;> rfl

theorem unmapUnit_log {index : Int} (hIndex : index ≠ -1) (s : UnitState) :
    (unmapUnit s index).log = s.log ++ [⟨.zshmVmMaps, index⟩] := by
  unfold unmapUnit
  rw [if_neg hIndex]
  split_ifs <;> rfl

/-- Whatever the index is, both tables by identifier and by unit are used. -/
theorem mem_releaseUnit_log (l : Layout) (s : UnitState) (vmid : Nat) (index : Int) :
    ⟨.vmidToUnitsIndex, vmid⟩ ∈ (releaseUnit l s vmid index).log ∧
      ⟨.zshmUnits, index⟩ ∈ (releaseUnit l s vmid index).log := by
  constructor
  · simp only [releaseUnit, UnitState.use, zshmBitmapUnset, unmapUnit, UnitState.setMaps]
    split_ifs <;> simp [*]
  · simp [releaseUnit, UnitState.use]

theorem toUint16_index (hIndex : index < l.unitMaxNums) : toUint16 index = index := by
  have hMax := l.nums_le
  unfold toUint16
  omega

theorem releaseUnit_zshmBitmap (hIndex : index < l.unitMaxNums) (s : UnitState) (vmid : Nat) :
    (releaseUnit l s vmid index).zshmBitmap = WordBitmap.erase s.zshmBitmap index := by
  simp only [releaseUnit, UnitState.use, toUint16_index hIndex, zshmBitmapUnset,
    if_neg (Nat.not_le.mpr hIndex), unmapUnit_zshmBitmap]

theorem releaseUnit_log (hIndex : index < l.unitMaxNums) (s : UnitState) (vmid : Nat) :
    (releaseUnit l s vmid index).log =
      s.log ++ [⟨.vmidToUnitsIndex, vmid⟩] ++ [⟨.zshmVmMaps, index⟩] ++ [wordOf index] ++
        [⟨.zshmUnits, index⟩] := by
  have hNe : (index : Int) ≠ -1 := by omega
  simp only [releaseUnit, UnitState.use, toUint16_index hIndex, zshmBitmapUnset,
    if_neg (Nat.not_le.mpr hIndex), unmapUnit_log hNe]

@[simp]
theorem releaseUnit_refusedEarly (l : Layout) (s : UnitState) (vmid : Nat) (index : Int) :
    (releaseUnit l s vmid index).refusedEarly = s.refusedEarly := by
  simp only [releaseUnit, UnitState.use, zshmBitmapUnset]
  split_ifs <;> simp

@[simp]
theorem releaseUnit_owned (l : Layout) (s : UnitState) (vmid : Nat) (index : Int) :
    (releaseUnit l s vmid index).owned = s.owned.filter fun o => o.1 != vmid := rfl

@[simp]
theorem releaseUnit_vmidToUnitsIndex (l : Layout) (s : UnitState) (vmid : Nat) (index : Int) :
    (releaseUnit l s vmid index).vmidToUnitsIndex = set s.vmidToUnitsIndex vmid (-1) := rfl

theorem zshmAllocVmShm_refused (hEnd : (chooseIndex l s vmid).1 = l.unitMaxNums) :
    (zshmAllocVmShm l s vmid).1 =
      { s.use (chooseIndex l s vmid).2 with refusedEarly := s.refusedEarly || !s.full l } := by
  rw [zshmAllocVmShm, if_pos hEnd]

theorem zshmAllocVmShm_granted (hIndex : (chooseIndex l s vmid).1 ≠ l.unitMaxNums) :
    (zshmAllocVmShm l s vmid).1 =
      grantUnit l (s.use (chooseIndex l s vmid).2) vmid (chooseIndex l s vmid).1 := by
  rw [zshmAllocVmShm, if_neg hIndex]

theorem full_eq_true : s.full l = true ↔ AllOwned l s := by
  simp [UnitState.full, AllOwned]

/-- The search: the unit found is free and its word was read, or no bit is clear and the
words of all units were read. -/
theorem search_cases (l : Layout) (s : UnitState) :
    (zshmBitmapFindFirstFree l s < l.unitMaxNums ∧
        WordBitmap.test s.zshmBitmap (zshmBitmapFindFirstFree l s) = false ∧
        wordOf (zshmBitmapFindFirstFree l s) ∈ searchLog l s) ∨
      (zshmBitmapFindFirstFree l s = l.unitMaxNums ∧
        (∀ i < l.unitMaxNums, WordBitmap.test s.zshmBitmap i = true) ∧
        ∀ a, a ∈ searchLog l s ↔ ∃ i < l.unitMaxNums, a = wordOf i) := by
  have hMem : ∀ a, a ∈ searchLog l s ↔
      ∃ i < min (zshmBitmapFindFirstFree l s + 1) (l.unitMaxNums), a = wordOf i := by
    intro a
    simp only [searchLog, List.mem_map, List.mem_range]
    constructor <;> rintro ⟨i, hi, hEq⟩ <;> exact ⟨i, hi, hEq.symm⟩
  rcases WordBitmap.firstClear_cases (l.unitMaxNums) s.zshmBitmap with
    ⟨hLt, hClear⟩ | ⟨hEnd, hSet⟩
  · have hFound : zshmBitmapFindFirstFree l s < l.unitMaxNums := hLt
    exact .inl ⟨hFound, hClear, (hMem _).mpr ⟨_, by omega, rfl⟩⟩
  · have hFound : zshmBitmapFindFirstFree l s = l.unitMaxNums := hEnd
    refine .inr ⟨hFound, hSet, ?_⟩
    intro a
    rw [hMem, hFound, Nat.min_eq_right (Nat.le_succ _)]

/-! ### One step -/

/-- A VM takes the unit of its own number. -/
theorem UnitInv.grant (h : UnitInv l s) (hNone : ¬ Owns s vmid) (hBit : vmid < bitNums l) :
    UnitInv l (grantUnit l (s.use [wordOf vmid]) vmid vmid) := by
  have hMax := bitNums_le l
  have hLt : vmid < l.unitMaxNums := by omega
  rw [grantUnit_eq hLt]
  have hOther : ∀ v i, (v, i) ∈ s.owned → v ≠ vmid := by
    rintro v i hOwned rfl
    exact hNone ⟨i, hOwned⟩
  constructor
  · constructor
    case inside =>
      intro a hMem
      simp only [UnitState.use, List.mem_append, List.mem_singleton] at hMem
      rcases hMem with ((((hOld | rfl) | rfl) | rfl) | rfl) | rfl
      · exact h.inside a hOld
      · exact inside_wordOf.mpr hBit
      · exact inside_units.mpr (by omega)
      · exact inside_wordOf.mpr hBit
      · exact inside_vmidToUnitsIndex.mpr (by omega)
      · exact inside_vmMaps.mpr (by omega)
    case one_owner =>
      intro v w i hv hw
      simp only [UnitState.use, List.mem_cons, Prod.mk.injEq] at hv hw
      rcases hv with ⟨rfl, rfl⟩ | hv <;> rcases hw with ⟨rfl, hi⟩ | hw
      · rfl
      · exact h.own_number w _ hw
      · exact absurd (h.own_number v i hv ▸ hi) (hOther v i hv)
      · exact h.one_owner v w i hv hw
    case bit_iff =>
      intro i hi
      simp only [UnitState.use, WordBitmap.test_insert, Bool.or_eq_true, decide_eq_true_eq,
        h.bit_iff i hi, List.mem_cons, Prod.mk.injEq, exists_or, exists_eq_left]
    case named =>
      intro v i hOwned
      simp only [UnitState.use, List.mem_cons, Prod.mk.injEq] at hOwned
      rcases hOwned with ⟨rfl, rfl⟩ | hOld
      · exact set_same _ _ _
      · exact (set_ne _ _ (hOther v i hOld)).trans (h.named v i hOld)
    case refused => exact h.refused
  case own_number =>
    intro v i hOwned
    simp only [UnitState.use, List.mem_cons, Prod.mk.injEq] at hOwned
    rcases hOwned with ⟨rfl, rfl⟩ | hOld
    · rfl
    · exact h.own_number v i hOld
  case has_bit =>
    intro v i hOwned
    simp only [UnitState.use, List.mem_cons, Prod.mk.injEq] at hOwned
    rcases hOwned with ⟨rfl, rfl⟩ | hOld
    · exact hBit
    · exact h.has_bit v i hOld
  case free =>
    intro v hv hFree
    have hNe : v ≠ vmid := by
      rintro rfl
      exact hFree ⟨v, by simp⟩
    have hOld : ¬ Owns s v := by
      rintro ⟨i, hOwned⟩
      exact hFree ⟨i, List.mem_cons_of_mem _ hOwned⟩
    exact (set_ne _ _ hNe).trans (h.free v hv hOld)

/-- A VM gives its unit back. -/
theorem UnitInv.release (h : UnitInv l s) (hOwns : (vmid, vmid) ∈ s.owned) :
    UnitInv l (releaseUnit l s vmid vmid) := by
  have hMax := bitNums_le l
  have hBit := h.has_bit vmid vmid hOwns
  have hLt : vmid < l.unitMaxNums := by omega
  have hMem : ∀ v i, (v, i) ∈ (releaseUnit l s vmid vmid).owned ↔ (v, i) ∈ s.owned ∧ v ≠ vmid := by
    intro v i
    simp
  constructor
  · constructor
    case inside =>
      intro a hUsed
      simp only [releaseUnit_log hLt, List.mem_append, List.mem_singleton] at hUsed
      rcases hUsed with (((hOld | rfl) | rfl) | rfl) | rfl
      · exact h.inside a hOld
      · exact inside_vmidToUnitsIndex.mpr (by omega)
      · exact inside_vmMaps.mpr (by omega)
      · exact inside_wordOf.mpr hBit
      · exact inside_units.mpr (by omega)
    case one_owner =>
      intro v w i hv hw
      exact h.one_owner v w i ((hMem v i).mp hv).1 ((hMem w i).mp hw).1
    case bit_iff =>
      intro i hi
      rw [releaseUnit_zshmBitmap hLt, WordBitmap.test_erase, Bool.and_eq_true, h.bit_iff i hi]
      simp only [hMem, Bool.not_eq_true', decide_eq_false_iff_not]
      constructor
      · rintro ⟨hNe, v, hOwned⟩
        exact ⟨v, hOwned, by rwa [← h.own_number v i hOwned]⟩
      · rintro ⟨v, hOwned, hNe⟩
        exact ⟨by rwa [h.own_number v i hOwned], v, hOwned⟩
    case named =>
      intro v i hOwned
      obtain ⟨hOld, hNe⟩ := (hMem v i).mp hOwned
      rw [releaseUnit_vmidToUnitsIndex, set_ne _ _ hNe]
      exact h.named v i hOld
    case refused =>
      rw [releaseUnit_refusedEarly]
      exact h.refused
  case own_number =>
    intro v i hOwned
    exact h.own_number v i ((hMem v i).mp hOwned).1
  case has_bit =>
    intro v i hOwned
    exact h.has_bit v i ((hMem v i).mp hOwned).1
  case free =>
    intro v hv hFree
    rw [releaseUnit_vmidToUnitsIndex]
    by_cases hEq : v = vmid
    · rw [hEq, set_same]
    · rw [set_ne _ _ hEq]
      refine h.free v hv ?_
      rintro ⟨i, hOwned⟩
      exact hFree ⟨i, (hMem v i).mpr ⟨hOwned, hEq⟩⟩

/-- A VM is refused because all units are owned. -/
theorem UnitInv.refuse (h : UnitInv l s) {used : List Access} (hAll : AllOwned l s)
    (hUsed : ∀ a ∈ used, a.Inside l) :
    UnitInv l { s.use used with refusedEarly := s.refusedEarly || !s.full l } := by
  have hFull : (s.refusedEarly || !s.full l) = false := by
    rw [h.refused, full_eq_true.mpr hAll]
    rfl
  have hInside : ∀ a ∈ s.log ++ used, a.Inside l := List.forall_mem_append.mpr ⟨h.inside, hUsed⟩
  exact ⟨⟨hInside, h.one_owner, h.bit_iff, h.named, hFull⟩, h.own_number, h.has_bit, h.free⟩

theorem owns_iff (h : UnitInv l s) (vmid : Nat) : Owns s vmid ↔ (vmid, vmid) ∈ s.owned := by
  constructor
  · rintro ⟨i, hOwned⟩
    rwa [h.own_number vmid i hOwned] at hOwned
  · intro hOwned
    exact ⟨vmid, hOwned⟩

/-- A VM has a unit exactly if the bit of its number is set. -/
theorem owns_iff_test (h : UnitInv l s) (hBit : vmid < bitNums l) :
    Owns s vmid ↔ WordBitmap.test s.zshmBitmap vmid = true := by
  rw [h.bit_iff vmid hBit]
  constructor
  · intro hOwns
    exact ⟨vmid, (owns_iff h vmid).mp hOwns⟩
  · rintro ⟨v, hOwned⟩
    exact h.own_number v vmid hOwned ▸ ⟨_, hOwned⟩

/-- With all units owned the search runs over every unit and finds none. -/
theorem chooseIndex_full (h : UnitInv l s) (h64 : 64 ∣ l.unitMaxNums) (hAll : AllOwned l s)
    (vmid : Nat) :
    (chooseIndex l s vmid).1 = l.unitMaxNums ∧
      ∀ a ∈ (chooseIndex l s vmid).2, a.Inside l := by
  have hBits := bitNums_eq h64
  have hSet : ∀ i < l.unitMaxNums, WordBitmap.test s.zshmBitmap i = true := by
    intro i hi
    exact (h.bit_iff i (by omega)).mpr (hAll i hi)
  obtain ⟨hEnd, hLog⟩ : zshmBitmapFindFirstFree l s = l.unitMaxNums ∧
      ∀ a ∈ searchLog l s, a.Inside l := by
    rcases search_cases l s with ⟨hLt, hClear, _⟩ | ⟨hEnd, _, hLog⟩
    · exact absurd (hSet _ hLt) (by simp [hClear])
    · refine ⟨hEnd, fun a ha => ?_⟩
      obtain ⟨i, hi, rfl⟩ := (hLog a).mp ha
      exact inside_wordOf.mpr (by omega)
  unfold chooseIndex
  split_ifs with hLt hBit
  · refine ⟨hEnd, fun a ha => ?_⟩
    rcases List.mem_cons.mp ha with rfl | hSearch
    · exact inside_wordOf.mpr (by omega)
    · exact hLog a hSearch
  · exact absurd (hSet vmid hLt) hBit
  · exact ⟨hEnd, hLog⟩

/-- A VM without a unit is given the one of its number. -/
theorem zshmAllocVmShm_own (h : UnitInv l s) (hNone : ¬ Owns s vmid) (hBit : vmid < bitNums l) :
    (zshmAllocVmShm l s vmid).1 = grantUnit l (s.use [wordOf vmid]) vmid vmid := by
  have hLt : vmid < l.unitMaxNums := Nat.lt_of_lt_of_le hBit (bitNums_le l)
  have hClear : ¬ WordBitmap.test s.zshmBitmap vmid = true :=
    fun hSet => hNone ((owns_iff_test h hBit).mpr hSet)
  have hChoice : chooseIndex l s vmid = (vmid, [wordOf vmid]) := by
    rw [chooseIndex, if_pos hLt, if_neg hClear]
  have hIndex : (chooseIndex l s vmid).1 ≠ l.unitMaxNums := by
    rw [hChoice]
    exact Nat.ne_of_lt hLt
  rw [zshmAllocVmShm_granted hIndex, hChoice]

/-- A step in order keeps the invariant. -/
theorem unitStep_keeps {op : UnitOp} (h : UnitInv l s) (hOrder : InOrder l s op) :
    UnitInv l (unitStep l s op) := by
  cases op with
  | alloc vmid =>
    change UnitInv l (zshmAllocVmShm l s vmid).1
    rcases hOrder with ⟨hNone, hBit⟩ | ⟨h64, hAll⟩
    · rw [zshmAllocVmShm_own h hNone hBit]
      exact h.grant hNone hBit
    · obtain ⟨hEnd, hUsed⟩ := chooseIndex_full h h64 hAll vmid
      rw [zshmAllocVmShm_refused hEnd]
      exact h.refuse hAll hUsed
  | deinit vmid =>
    have hOwned := (owns_iff h vmid).mp hOrder
    change UnitInv l (releaseUnit l s vmid (s.vmidToUnitsIndex vmid))
    rw [h.named vmid vmid hOwned]
    exact h.release hOwned

theorem chooseIndex_lt (hIndex : (chooseIndex l s vmid).1 ≠ l.unitMaxNums) :
    (chooseIndex l s vmid).1 < l.unitMaxNums := by
  have hSearch : zshmBitmapFindFirstFree l s ≤ l.unitMaxNums := by
    rcases search_cases l s with ⟨hLt, _⟩ | ⟨hEnd, _⟩
    · exact Nat.le_of_lt hLt
    · exact Nat.le_of_eq hEnd
  have hLe : (chooseIndex l s vmid).1 ≤ l.unitMaxNums := by
    unfold chooseIndex
    split_ifs with hLt
    · exact hSearch
    · exact Nat.le_of_lt hLt
    · exact hSearch
  omega

/-- The choice of a unit is part of the log, whether there is one or not. -/
theorem mem_zshmAllocVmShm_log {a : Access} (hUsed : a ∈ (chooseIndex l s vmid).2) :
    a ∈ (zshmAllocVmShm l s vmid).1.log := by
  by_cases hEnd : (chooseIndex l s vmid).1 = l.unitMaxNums
  · rw [zshmAllocVmShm_refused hEnd]
    exact List.mem_append_right _ hUsed
  · rw [zshmAllocVmShm_granted hEnd, grantUnit_eq (chooseIndex_lt hEnd)]
    simp [UnitState.use, hUsed]

/-- A search in bounds that finds a unit gives it to a VM that is not in order. -/
theorem alloc_found_breaks (h : UnitInv l s) (hP : Exclusive l (zshmAllocVmShm l s vmid).1)
    (hChoice : (chooseIndex l s vmid).1 = zshmBitmapFindFirstFree l s)
    (hFound : zshmBitmapFindFirstFree l s < l.unitMaxNums)
    (hClear : WordBitmap.test s.zshmBitmap (zshmBitmapFindFirstFree l s) = false)
    (hSet : vmid < l.unitMaxNums → vmid < bitNums l ∧ WordBitmap.test s.zshmBitmap vmid = true) :
    False := by
  have hNe : (chooseIndex l s vmid).1 ≠ l.unitMaxNums := by omega
  rw [zshmAllocVmShm_granted hNe, grantUnit_eq (chooseIndex_lt hNe)] at hP
  -- the table by identifier is written, so the identifier is below the number of units
  have hVmid : vmid < l.unitMaxNums := by
    have hInside := inside_vmidToUnitsIndex.mp (hP.inside ⟨.vmidToUnitsIndex, vmid⟩ (by simp))
    omega
  obtain ⟨hBit, hTest⟩ := hSet hVmid
  have hOwned : (vmid, vmid) ∈ s.owned :=
    (owns_iff h vmid).mp ((owns_iff_test h hBit).mpr hTest)
  -- and then names the old and the new unit of the VM
  have hNamed := hP.named vmid vmid (List.mem_cons_of_mem _ hOwned)
  simp only [set_same, hChoice] at hNamed
  have hSame : zshmBitmapFindFirstFree l s = vmid := by omega
  rw [hSame, hTest] at hClear
  exact absurd hClear (by decide)

/-- A search in bounds that finds no unit has seen the bits of all of them. -/
theorem search_end_full (h : UnitInv l s)
    (hSet : ∀ i < l.unitMaxNums, WordBitmap.test s.zshmBitmap i = true)
    (hInside : ∀ i < l.unitMaxNums, (wordOf i).Inside l) : 64 ∣ l.unitMaxNums ∧ AllOwned l s := by
  have hBits : ∀ i < l.unitMaxNums, i < bitNums l :=
    fun i hi => inside_wordOf.mp (hInside i hi)
  constructor
  · have hLast : l.unitMaxNums ≤ bitNums l := by
      by_contra hGt
      exact absurd (hBits (bitNums l) (by omega)) (Nat.lt_irrefl _)
    have hEq : bitNums l = l.unitMaxNums := Nat.le_antisymm (bitNums_le l) hLast
    exact hEq ▸ Nat.dvd_mul_right 64 _
  · intro i hi
    exact (h.bit_iff i (hBits i hi)).mp (hSet i hi)

/-- Only a step in order keeps the units exclusive. -/
theorem unitStep_breaks {op : UnitOp} (h : UnitInv l s) (hP : Exclusive l (unitStep l s op)) :
    InOrder l s op := by
  cases op with
  | alloc vmid =>
    have hLog : ∀ a ∈ (chooseIndex l s vmid).2, a.Inside l :=
      fun a ha => hP.inside a (mem_zshmAllocVmShm_log ha)
    by_cases hFree : vmid < l.unitMaxNums ∧ WordBitmap.test s.zshmBitmap vmid = false
    · have hChoice : chooseIndex l s vmid = (vmid, [wordOf vmid]) := by
        rw [chooseIndex, if_pos hFree.1, if_neg (by simp [hFree.2])]
      have hBit : vmid < bitNums l := inside_wordOf.mp (hLog _ (by simp [hChoice]))
      refine .inl ⟨fun hOwns => ?_, hBit⟩
      exact absurd ((owns_iff_test h hBit).mp hOwns) (by simp [hFree.2])
    · have hSearch : (chooseIndex l s vmid).1 = zshmBitmapFindFirstFree l s ∧
          (∀ a ∈ searchLog l s, a ∈ (chooseIndex l s vmid).2) ∧
          (vmid < l.unitMaxNums → wordOf vmid ∈ (chooseIndex l s vmid).2) := by
        unfold chooseIndex
        split_ifs with hLt hTest
        · exact ⟨rfl, fun a ha => List.mem_cons_of_mem _ ha, fun _ => List.mem_cons_self⟩
        · exact absurd ⟨hLt, by simpa using hTest⟩ hFree
        · exact ⟨rfl, fun a ha => ha, fun hVmid => absurd hVmid hLt⟩
      obtain ⟨hChoice, hSub, hOwn⟩ := hSearch
      rcases search_cases l s with ⟨hFound, hClear, _⟩ | ⟨_, hSet, hAll⟩
      · refine (alloc_found_breaks h hP hChoice hFound hClear ?_).elim
        intro hVmid
        refine ⟨inside_wordOf.mp (hLog _ (hOwn hVmid)), ?_⟩
        by_contra hTest
        exact hFree ⟨hVmid, by simpa using hTest⟩
      · refine .inr (search_end_full h hSet fun i hi => ?_)
        exact hLog _ (hSub _ ((hAll _).mpr ⟨i, hi, rfl⟩))
  | deinit vmid =>
    obtain ⟨hTable, hUnits⟩ := mem_releaseUnit_log l s vmid (s.vmidToUnitsIndex vmid)
    by_contra hNone
    have hVmid := inside_vmidToUnitsIndex.mp (hP.inside _ hTable)
    have hIndex := inside_units.mp (hP.inside _ hUnits)
    have hFree := h.free vmid (by omega) hNone
    omega

/-! ### Every run -/

theorem test_zshmInit {beyond : UnitState} {i : Nat} (hBit : i < bitNums l) :
    WordBitmap.test (zshmInit l beyond).zshmBitmap i = false := by
  have hWord : i / 64 < l.unitMaxNums / 64 := by
    unfold bitNums at hBit
    omega
  simp [WordBitmap.test, zshmInit, hWord]

theorem unitInv_init (l : Layout) (beyond : UnitState) : UnitInv l (zshmInit l beyond) := by
  constructor
  · constructor
    case inside => simp [zshmInit]
    case one_owner => simp [zshmInit]
    case bit_iff =>
      intro i hi
      rw [test_zshmInit hi]
      simp [zshmInit]
    case named => simp [zshmInit]
    case refused => rfl
  case own_number => simp [zshmInit]
  case has_bit => simp [zshmInit]
  case free =>
    intro v hv _
    exact if_pos hv

/--
For every region, whatever the memory behind the arrays holds, the units stay exclusive
over a run exactly if each of its steps is in order.
-/
theorem units_exclusive_iff (r : Region) (beyond : UnitState) (ops : List UnitOp) :
    Always (unitStep r.layout) (Exclusive r.layout) (zshmInit r.layout beyond) ops ↔
      Admissible (unitStep r.layout) (InOrder r.layout) (zshmInit r.layout beyond) ops :=
  always_iff_of_strong (fun _ h => h.toExclusive) (fun _ _ => unitStep_keeps)
    (fun _ _ => unitStep_breaks) ops _ (unitInv_init r.layout beyond)

/-- A region of 128 MiB has 63 units and a bitmap without a word: the first VM already
reads and writes behind it. -/
theorem first_vm_outside_bitmap :
    let r : Region := ⟨0xe7f00000, 0x8000000⟩
    zshmUnitMaxNums r = 63 ∧
      ∀ beyond, ¬ Exclusive r.layout (unitStep r.layout (zshmInit r.layout beyond) (.alloc 0)) := by
  refine ⟨by decide, fun beyond hP => ?_⟩
  rcases unitStep_breaks (unitInv_init _ beyond) hP with ⟨_, hBit⟩ | ⟨h64, _⟩
  · exact absurd hBit (by decide)
  · exact absurd h64 (by decide)

end Zvm.Zshm
