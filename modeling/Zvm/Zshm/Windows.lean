import Zvm.Stage2.Vparts
import Zvm.Zshm.Units

/-!
# Windows into the shared memory

A VM that takes a unit gets five windows into the shared memory: its own unit, its notify
page, its notify-info page, and the memory before and behind its unit, in which the other
VMs leave their messages for it to read.  Each window is a device of the VM, and
`vm_vdev_mem_add` chooses the attributes of its memory by the device's name.

Only the notify page is treated apart.  The two windows for reading get the attributes of
normal memory like the VM's own unit, and with these the write permission: together the
windows let a VM write all units.
-/

namespace Zvm.Zshm

open Zvm.Stage2 Zvm.Verified.Run

/-! ## Devices and their partitions -/

/-- `MT_VM_NORMAL_MEM`: read, write and execute, normal memory. -/
def mtVmNormalMem : BitVec 32 := (1#32 <<< 4) ||| (1#32 <<< 5) ||| (1#32 <<< 6) ||| 4#32

/-- `MT_VM_DEVICE_MEM`: read and write, device memory. -/
def mtVmDeviceMem : BitVec 32 := (1#32 <<< 4) ||| (1#32 <<< 5) ||| 2#32

/-- `MT_S2_ACCESS_OFF`. -/
def mtS2AccessOff : BitVec 32 := 1#32 <<< 7

/-- `VIRT_DEV_NAME_LENGTH`. -/
def virtDevNameLength : Nat := 32

/-- `struct z_virt_dev`: addresses and size have 32 bits. -/
structure VirtDev where
  name : List Char
  devPtFlag : Bool
  shareable : Bool
  zshm : Bool
  vmVdevPaddr : Nat
  vmVdevVaddr : Nat
  vmVdevSize : Nat
  deriving DecidableEq

/-- The attributes that `vm_vdev_mem_add` chooses. -/
def vdevAttrs (vdev : VirtDev) : BitVec 32 :=
  if vdev.zshm then
    if vdev.name = "ZSHMN".toList then mtVmDeviceMem ||| mtS2AccessOff else mtVmNormalMem
  else if vdev.devPtFlag && !vdev.shareable then mtVmDeviceMem
  else mtVmDeviceMem ||| mtS2AccessOff

/-- `vm_vdev_mem_add`: the partition it creates. -/
def vmVdevMemAdd (vdev : VirtDev) : Vpart where
  part := { start := vdev.vmVdevVaddr, size := vdev.vmVdevSize, attrs := vdevAttrs vdev }
  hpaBase := vdev.vmVdevPaddr

/-- `vm_virt_dev_add`: the device; its allocation succeeds. -/
def vmVirtDevAdd (devName : String) (ptFlag shareable : Bool) (devPbase devVbase devSize : Nat) :
    VirtDev where
  name := devName.toList.take virtDevNameLength
  devPtFlag := ptFlag
  shareable := shareable
  zshm := decide ("ZSHM".toList <:+: devName.toList.take virtDevNameLength)
  vmVdevPaddr := devPbase % 2 ^ 32
  vmVdevVaddr := devVbase % 2 ^ 32
  vmVdevSize := devSize % 2 ^ 32

/-! ## The windows of a unit -/

/-- `ZSHM_VM_SHM_RD_START_PHY_ADDR`, behind the unit and the two pages. -/
def zshmVmShmRdStart (l : Layout) : Nat :=
  l.start + zshmUnitSize + zshmNotifyUnitSize + zshmNotifyInfoUnitSize

/-- `zshm_alloc_virt_dev`, by its parameter `type`. -/
def zshmAllocVirtDev (l : Layout) (u : AllocUnit) : Fin 3 → VirtDev
  | 0 => vmVirtDevAdd "ZSHMW" false false u.zshmPaddr l.start zshmUnitSize
  | 1 =>
    vmVirtDevAdd "ZSHMN" false false u.zshmNotifyAddr (l.start + zshmUnitSize)
      zshmNotifyUnitSize
  | 2 =>
    vmVirtDevAdd "ZSHMI" false false u.zshmNotifyInfoAddr
      (l.start + zshmUnitSize + zshmNotifyUnitSize) zshmNotifyInfoUnitSize

/-- A difference, in 32 bits. -/
def sub32 (a b : Nat) : Nat := (((a : Int) - b) % 4294967296).toNat

/-- The size of the window before the unit. -/
def sizeBefore (l : Layout) (u : AllocUnit) : Nat := sub32 u.zshmPaddr l.start

/-- The size of the window behind the unit. -/
def sizeBehind (l : Layout) (u : AllocUnit) : Nat :=
  sub32 (l.size + l.start) (u.zshmPaddr + zshmUnitSize)

/-- `zshm_alloc_read_space`: a window without an address is left out. -/
def zshmAllocReadSpace (l : Layout) (u : AllocUnit) : List VirtDev :=
  (if 0 < sizeBefore l u then
    [vmVirtDevAdd "ZSHMR0" false false (l.start % 2 ^ 32) (zshmVmShmRdStart l % 2 ^ 32)
      (sizeBefore l u)]
  else []) ++
  (if 0 < sizeBehind l u then
    [vmVirtDevAdd "ZSHMR1" false false ((u.zshmPaddr + zshmUnitSize) % 2 ^ 32)
      (sub32 (zshmVmShmRdStart l + u.zshmPaddr) l.start) (sizeBehind l u)]
  else [])

/-- The partitions that `zshm_alloc_vm_shm` gives to the VM. -/
def zshmPartitions (l : Layout) (u : AllocUnit) : List Vpart :=
  ([zshmAllocVirtDev l u 0, zshmAllocVirtDev l u 1, zshmAllocVirtDev l u 2] ++
    zshmAllocReadSpace l u).map vmVdevMemAdd

/-- The descriptor of the partition has the write permission. -/
def CarriesWrite (v : Vpart) : Prop := (getVmRegionDesc v.part.attrs).getLsbD 7 = true

instance (v : Vpart) : Decidable (CarriesWrite v) := inferInstanceAs (Decidable (_ = _))

/-- The host address is in the memory of the partition. -/
def CoversHost (v : Vpart) (a : Nat) : Prop := v.hpaBase ≤ a ∧ a < v.hpaBase + v.part.size

/-- The host address is in the message unit, the notify page or the notify-info page. -/
def InUnit (u : AllocUnit) (a : Nat) : Prop :=
  (u.zshmPaddr ≤ a ∧ a < u.zshmPaddr + zshmUnitSize) ∨
    (u.zshmNotifyAddr ≤ a ∧ a < u.zshmNotifyAddr + zshmNotifyUnitSize) ∨
    (u.zshmNotifyInfoAddr ≤ a ∧ a < u.zshmNotifyInfoAddr + zshmNotifyInfoUnitSize)

/-- With unit `u` a VM can write the host address. -/
def CanWrite (l : Layout) (u : AllocUnit) (a : Nat) : Prop :=
  ∃ v ∈ zshmPartitions l u, CarriesWrite v ∧ CoversHost v a

/-- With unit `u` a VM cannot write to unit `w`. -/
def OwnerOnly (l : Layout) (u w : AllocUnit) : Prop := ∀ a, CanWrite l u a → ¬ InUnit w a

/-! ## The records of the units -/

/-- Every record is the one of its number, but for the VM. -/
def Placed (l : Layout) (s : UnitState) : Prop :=
  ∀ i : Nat, i < l.unitMaxNums → ∃ vmId, s.zshmUnits i = (freeUnit l i).forVm vmId

theorem initUnit_eq (l : Layout) (i : Nat) (hi : i < 2 ^ 32) : initUnit l i = freeUnit l i := by
  induction i with
  | zero =>
    simp only [initUnit, freeUnit, AllocUnit.mk.injEq, Nat.cast_zero, zero_mul, add_zero]
    refine ⟨rfl, trivial, ?_, ?_, ?_⟩ <;> omega
  | succ i ih =>
    rw [initUnit, ih (by omega)]
    simp only [freeUnit, AllocUnit.mk.injEq, Nat.cast_add, Nat.cast_one, zshmUnitSize,
      zshmNotifyUnitSize, zshmNotifyInfoUnitSize]
    refine ⟨?_, trivial, ?_, ?_, ?_⟩ <;> omega

theorem placed_init (l : Layout) (beyond : UnitState) : Placed l (zshmInit l beyond) := by
  intro i hi
  have hMax := l.nums_le
  refine ⟨0, ?_⟩
  have hRange : (0 : Int) ≤ i ∧ (i : Int) < l.unitMaxNums := by omega
  simp only [zshmInit, if_pos hRange, Int.toNat_natCast]
  exact initUnit_eq l i (by omega)

variable {l : Layout} {s : UnitState}

/-- A unit that is given to a VM keeps its addresses. -/
theorem Placed.grant (h : Placed l s) {vmid index : Nat} (hIndex : index < l.unitMaxNums)
    (used : List Access) : Placed l (grantUnit l (s.use used) vmid index) := by
  rw [grantUnit_eq hIndex]
  intro i hi
  obtain ⟨vmId, hOld⟩ := h i hi
  by_cases hEq : (i : Int) = index
  · refine ⟨vmid, ?_⟩
    simp only [UnitState.use, if_pos hEq, hOld, AllocUnit.forVm]
  · refine ⟨vmId, ?_⟩
    simp only [UnitState.use, if_neg hEq, hOld]

/-- A unit that is given back gets its addresses again, whatever the index was. -/
theorem Placed.release (h : Placed l s) (vmid : Nat) (index : Int) :
    Placed l (releaseUnit l s vmid index) := by
  intro i hi
  by_cases hEq : (i : Int) = index
  · refine ⟨0, ?_⟩
    simp only [releaseUnit, hEq, if_true]
    rfl
  · obtain ⟨vmId, hOld⟩ := h i hi
    refine ⟨vmId, ?_⟩
    simp only [releaseUnit, if_neg hEq, hOld]

theorem Placed.step (h : Placed l s) (op : UnitOp) : Placed l (unitStep l s op) := by
  cases op with
  | alloc vmid =>
    change Placed l (zshmAllocVmShm l s vmid).1
    by_cases hEnd : (chooseIndex l s vmid).1 = l.unitMaxNums
    · rw [zshmAllocVmShm_refused hEnd]
      exact h
    · rw [zshmAllocVmShm_granted hEnd]
      exact h.grant (chooseIndex_lt hEnd) _
  | deinit vmid => exact h.release vmid _

/-- In every run, in order or not, the records keep their addresses. -/
theorem exec_placed (l : Layout) (beyond : UnitState) (ops : List UnitOp) :
    Placed l (exec (unitStep l) (zshmInit l beyond) ops) :=
  exec_invariant_of_mem ops (fun op _ _ h => h.step op) _ (placed_init l beyond)

/-! ## What a VM can write -/

/-- The memory of every device has the write permission, emulated or not. -/
theorem carriesWrite_vdev (vdev : VirtDev) : CarriesWrite (vmVdevMemAdd vdev) := by
  change (getVmRegionDesc (vdevAttrs vdev)).getLsbD 7 = true
  unfold vdevAttrs
  split_ifs <;> decide

theorem coversHost_vdev (name : String) (pt sh : Bool) (pbase vbase size a : Nat) :
    CoversHost (vmVdevMemAdd (vmVirtDevAdd name pt sh pbase vbase size)) a ↔
      pbase % 2 ^ 32 ≤ a ∧ a < pbase % 2 ^ 32 + size % 2 ^ 32 := Iff.rfl

theorem sub32_lt (a b : Nat) : sub32 a b < 2 ^ 32 := by
  unfold sub32
  omega

/-- A VM can write its own unit, the memory before it and the memory behind it. -/
theorem canWrite_iff (l : Layout) {u : AllocUnit} (hPaddr : u.zshmPaddr < 2 ^ 32)
    (hNotify : u.zshmNotifyAddr < 2 ^ 32) (hInfo : u.zshmNotifyInfoAddr < 2 ^ 32) (a : Nat) :
    CanWrite l u a ↔ InUnit u a ∨
      (l.start % 2 ^ 32 ≤ a ∧ a < l.start % 2 ^ 32 + sizeBefore l u) ∨
      ((u.zshmPaddr + zshmUnitSize) % 2 ^ 32 ≤ a ∧
        a < (u.zshmPaddr + zshmUnitSize) % 2 ^ 32 + sizeBehind l u) := by
  have hBefore : sizeBefore l u < 2 ^ 32 := sub32_lt _ _
  have hBehind : sizeBehind l u < 2 ^ 32 := sub32_lt _ _
  have hAny : CanWrite l u a ↔ ∃ v ∈ zshmPartitions l u, CoversHost v a := by
    constructor
    · rintro ⟨v, hMem, _, hCovers⟩
      exact ⟨v, hMem, hCovers⟩
    · rintro ⟨v, hMem, hCovers⟩
      obtain ⟨vdev, _, rfl⟩ := List.mem_map.mp hMem
      exact ⟨_, hMem, carriesWrite_vdev vdev, hCovers⟩
  -- a window that is left out would be empty
  have hIf : ∀ (n : Nat) (vdev : VirtDev) (P : VirtDev → Prop), (n = 0 → ¬ P vdev) →
      ((∃ d ∈ (if 0 < n then [vdev] else []), P d) ↔ P vdev) := by
    intro n vdev P hEmpty
    by_cases hn : 0 < n
    · simp [hn]
    · simp [hn, hEmpty (by omega)]
  have hRead : (∃ d ∈ zshmAllocReadSpace l u, CoversHost (vmVdevMemAdd d) a) ↔
      (l.start % 2 ^ 32 ≤ a ∧ a < l.start % 2 ^ 32 + sizeBefore l u) ∨
      ((u.zshmPaddr + zshmUnitSize) % 2 ^ 32 ≤ a ∧
        a < (u.zshmPaddr + zshmUnitSize) % 2 ^ 32 + sizeBehind l u) := by
    simp only [zshmAllocReadSpace, List.mem_append, or_and_right, exists_or]
    rw [hIf _ _ (fun d => CoversHost (vmVdevMemAdd d) a),
      hIf _ _ (fun d => CoversHost (vmVdevMemAdd d) a), coversHost_vdev, coversHost_vdev,
      Nat.mod_eq_of_lt hBefore, Nat.mod_eq_of_lt hBehind, Nat.mod_mod, Nat.mod_mod]
    · rw [coversHost_vdev]
      omega
    · rw [coversHost_vdev]
      omega
  rw [hAny, ← hRead]
  simp only [zshmPartitions, zshmAllocVirtDev, List.map_append, List.map_cons, List.map_nil,
    List.mem_append, List.mem_cons, List.not_mem_nil, or_false, List.mem_map, or_and_right,
    exists_or, exists_eq_left, exists_exists_and_eq_and, coversHost_vdev, Nat.mod_eq_of_lt hPaddr,
    Nat.mod_eq_of_lt hNotify, Nat.mod_eq_of_lt hInfo, InUnit]
  rfl

theorem sub32_of_mod {x b y : Nat} (hMod : x % 2 ^ 32 = (y + b) % 2 ^ 32) :
    sub32 x b = y % 2 ^ 32 := by
  unfold sub32
  omega

/-- The units are inside of the region. -/
theorem unit_fits {i : Nat} (hi : i < l.unitMaxNums) : i * zshmUnitSize + zshmUnitSize ≤ l.size :=
  calc i * zshmUnitSize + zshmUnitSize = (i + 1) * zshmUnitSize := (Nat.succ_mul _ _).symm
    _ ≤ l.unitMaxNums * zshmUnitSize := Nat.mul_le_mul_right _ hi
    _ ≤ l.size := l.nums_fit

theorem freeUnit_zshmPaddr_eq (l : Layout) (i : Nat) :
    (freeUnit l i).zshmPaddr = (l.start + i * zshmUnitSize) % 2 ^ 32 := by
  simp only [freeUnit]
  omega

theorem canWrite_freeUnit (l : Layout) (i : Int) (vmId a : Nat) :
    CanWrite l ((freeUnit l i).forVm vmId) a ↔ InUnit ((freeUnit l i).forVm vmId) a ∨
      (l.start % 2 ^ 32 ≤ a ∧ a < l.start % 2 ^ 32 + sizeBefore l ((freeUnit l i).forVm vmId)) ∨
      (((freeUnit l i).zshmPaddr + zshmUnitSize) % 2 ^ 32 ≤ a ∧
        a < ((freeUnit l i).zshmPaddr + zshmUnitSize) % 2 ^ 32 +
          sizeBehind l ((freeUnit l i).forVm vmId)) := by
  apply canWrite_iff
  · simp only [AllocUnit.forVm, freeUnit]
    omega
  · simp only [AllocUnit.forVm, freeUnit]
    omega
  · simp only [AllocUnit.forVm, freeUnit]
    omega

section BelowLimit

variable {l : Layout} (hFit : l.start + l.size ≤ 2 ^ 32) {i : Nat} (hi : i < l.unitMaxNums)

include hFit hi

/-- The addresses of a region below 4 GiB are not cut off. -/
theorem freeUnit_zshmPaddr : (freeUnit l i).zshmPaddr = l.start + i * zshmUnitSize := by
  have hUnit := unit_fits hi
  have hPos : 0 < zshmUnitSize := by decide
  rw [freeUnit_zshmPaddr_eq, Nat.mod_eq_of_lt (by omega)]

theorem sizeBefore_eq (vmId : Nat) :
    sizeBefore l ((freeUnit l i).forVm vmId) = i * zshmUnitSize := by
  have hUnit := unit_fits hi
  have hPos : 0 < zshmUnitSize := by decide
  change sub32 (freeUnit l i).zshmPaddr l.start = _
  rw [freeUnit_zshmPaddr hFit hi, Nat.add_comm, sub32_of_mod rfl, Nat.mod_eq_of_lt (by omega)]

theorem sizeBehind_eq (vmId : Nat) :
    sizeBehind l ((freeUnit l i).forVm vmId) =
      l.size - (i * zshmUnitSize + zshmUnitSize) := by
  have hUnit := unit_fits hi
  have hPos : 0 < zshmUnitSize := by decide
  change sub32 (l.size + l.start) ((freeUnit l i).zshmPaddr + zshmUnitSize) = _
  rw [freeUnit_zshmPaddr hFit hi, sub32_of_mod (y := l.size - (i * zshmUnitSize + zshmUnitSize))
    (by omega), Nat.mod_eq_of_lt (by omega)]

/-- The windows of a unit of a region below 4 GiB leave nothing out: they are the memory of
all units, and the unit's own pages. -/
theorem canWrite_iff_of_fit (vmId a : Nat) :
    CanWrite l ((freeUnit l i).forVm vmId) a ↔
      (l.start ≤ a ∧ a < l.start + l.size) ∨ InUnit ((freeUnit l i).forVm vmId) a := by
  have hUnit := unit_fits hi
  have hPaddr := freeUnit_zshmPaddr hFit hi
  have hPos : 0 < zshmUnitSize := by decide
  have hStart : l.start % 2 ^ 32 = l.start := Nat.mod_eq_of_lt (by omega)
  rw [canWrite_freeUnit, sizeBefore_eq hFit hi, sizeBehind_eq hFit hi, hStart]
  simp only [InUnit, AllocUnit.forVm, hPaddr]
  -- the window behind the last unit may be empty, and then its start may be 4 GiB
  by_cases hLast : l.start + i * zshmUnitSize + zshmUnitSize < 2 ^ 32
  · rw [Nat.mod_eq_of_lt hLast]
    generalize i * zshmUnitSize = off at *
    omega
  · have hNone : l.size - (i * zshmUnitSize + zshmUnitSize) = 0 := by omega
    rw [hNone]
    generalize i * zshmUnitSize = off at *
    omega

end BelowLimit

/-- With any unit of a region below 4 GiB a VM can write any other. -/
theorem not_ownerOnly_of_fit (hFit : l.start + l.size ≤ 2 ^ 32) (hPlaced : Placed l s) {i j : Nat}
    (hi : i < l.unitMaxNums) (hj : j < l.unitMaxNums) :
    ¬ OwnerOnly l (s.zshmUnits i) (s.zshmUnits j) := by
  obtain ⟨vmA, hA⟩ := hPlaced i hi
  obtain ⟨vmB, hB⟩ := hPlaced j hj
  have hUnit := unit_fits hj
  have hPaddr := freeUnit_zshmPaddr hFit hj
  have hPos : 0 < zshmUnitSize := by decide
  intro hOnly
  refine hOnly (freeUnit l j).zshmPaddr ?_ ?_
  · rw [hA]
    refine (canWrite_iff_of_fit hFit hi vmA _).mpr (.inl ?_)
    rw [hPaddr]
    omega
  · rw [hB]
    exact .inl ⟨Nat.le_refl _, Nat.lt_add_of_pos_right hPos⟩

/-- Wherever the region is, with unit 1 a VM can write unit 0. -/
theorem not_ownerOnly_one_zero (hPlaced : Placed l s) (hTwo : 1 < l.unitMaxNums) :
    ¬ OwnerOnly l (s.zshmUnits (1 : Nat)) (s.zshmUnits (0 : Nat)) := by
  obtain ⟨vmA, hA⟩ := hPlaced 1 hTwo
  obtain ⟨vmB, hB⟩ := hPlaced 0 (by omega)
  have hZero : (freeUnit l (0 : Nat)).zshmPaddr = l.start % 2 ^ 32 := by
    rw [freeUnit_zshmPaddr_eq, Nat.zero_mul, Nat.add_zero]
  have hSize : 0 < sizeBefore l ((freeUnit l (1 : Nat)).forVm vmA) := by
    simp only [sizeBefore, sub32, AllocUnit.forVm, freeUnit_zshmPaddr_eq, zshmUnitSize]
    omega
  intro hOnly
  refine hOnly (l.start % 2 ^ 32) ?_ ?_
  · rw [hA]
    refine (canWrite_freeUnit l _ vmA _).mpr (.inr (.inl ⟨Nat.le_refl _, ?_⟩))
    exact Nat.lt_add_of_pos_right hSize
  · rw [hB]
    have hPos : 0 < zshmUnitSize := by decide
    exact .inl ⟨Nat.le_of_eq hZero, hZero ▸ Nat.lt_add_of_pos_right hPos⟩

/--
In every state of every run the units are written by their owners only exactly if there is
only one; and in a region below 4 GiB every pair of units breaks it.
-/
theorem ownerOnly_iff (r : Region) (beyond : UnitState) (ops : List UnitOp) :
    let s := exec (unitStep r.layout) (zshmInit r.layout beyond) ops
    ((∀ i j : Nat, i < zshmUnitMaxNums r → j < zshmUnitMaxNums r → i ≠ j →
        OwnerOnly r.layout (s.zshmUnits i) (s.zshmUnits j)) ↔ zshmUnitMaxNums r ≤ 1) ∧
      (r.start + r.size ≤ 2 ^ 32 → ∀ i j : Nat, i < zshmUnitMaxNums r →
        j < zshmUnitMaxNums r → i ≠ j →
        ¬ OwnerOnly r.layout (s.zshmUnits i) (s.zshmUnits j)) := by
  intro s
  have hPlaced : Placed r.layout s := exec_placed r.layout beyond ops
  refine ⟨⟨fun hOnly => ?_, fun hOne => ?_⟩, fun hFit => ?_⟩
  · by_contra hMany
    have hTwo : 1 < zshmUnitMaxNums r := by omega
    exact not_ownerOnly_one_zero hPlaced hTwo (hOnly 1 0 hTwo (by omega) (by decide))
  · intro i j hi hj hNe
    omega
  · intro i j hi hj _
    have hSize : r.layout.start + r.layout.size ≤ 2 ^ 32 := by
      have hLe : zshmSize r ≤ r.size := by
        unfold zshmSize
        omega
      exact Nat.le_trans (Nat.add_le_add_left hLe r.start) hFit
    exact not_ownerOnly_of_fit hSize hPlaced hi hj

/-- The first two VMs of a system get the first two units. -/
theorem owned_two (hBits : 1 < bitNums l) (beyond : UnitState) :
    (exec (unitStep l) (zshmInit l beyond) [.alloc 0, .alloc 1]).owned = [(1, 1), (0, 0)] := by
  have hStart : (zshmInit l beyond).owned = [] := rfl
  have hInit := unitInv_init l beyond
  have hNone : ¬ Owns (zshmInit l beyond) 0 := by simp [Owns, hStart]
  have hNext : UnitInv l (unitStep l (zshmInit l beyond) (.alloc 0)) :=
    unitStep_keeps hInit (.inl ⟨hNone, by omega⟩)
  have hFirst : (unitStep l (zshmInit l beyond) (.alloc 0)).owned = [(0, 0)] := by
    rw [unitStep, zshmAllocVmShm_own hInit hNone (by omega), grantUnit_owned]
    rfl
  have hFree : ¬ Owns (unitStep l (zshmInit l beyond) (.alloc 0)) 1 := by simp [Owns, hFirst]
  rw [exec_cons, exec_cons, exec_nil, unitStep, zshmAllocVmShm_own hNext hFree hBits,
    grantUnit_owned]
  simp only [UnitState.use, hFirst]

/-- VMs 0 and 1 have units 0 and 1, and VM 0 can write the unit of VM 1. -/
theorem vm_writes_other_unit :
    let r : Region := ⟨0xe0000000, 0x8200000⟩
    ∀ beyond,
      let s := exec (unitStep r.layout) (zshmInit r.layout beyond) [.alloc 0, .alloc 1]
      s.owned = [(1, 1), (0, 0)] ∧
        ¬ OwnerOnly r.layout (s.zshmUnits (0 : Nat)) (s.zshmUnits (1 : Nat)) := by
  intro r beyond s
  exact ⟨owned_two (by decide) beyond,
    not_ownerOnly_of_fit (by decide) (exec_placed r.layout beyond _) (by decide) (by decide)⟩

/-! ## What a VM is shown for reading -/

/-- The units before unit `i` and those behind it, as a guest is to see them: guest address, size
and host address, without a gap in the guest. -/
def otherUnits (l : Layout) (i : Nat) : List (Nat × Nat × Nat) :=
  [(zshmVmShmRdStart l, i * zshmUnitSize, l.start),
    (zshmVmShmRdStart l + i * zshmUnitSize, (l.unitMaxNums - 1 - i) * zshmUnitSize,
      l.start + i * zshmUnitSize + zshmUnitSize)].filter fun w => 0 < w.2.1

/-- The windows of unit `i` are disjoint, and those for reading show all other units and nothing
else. -/
structure ShowsOthers (l : Layout) (i : Nat) (u : AllocUnit) : Prop where
  disjoint : (zshmPartitions l u).Pairwise fun v w =>
    v.part.start + v.part.size ≤ w.part.start ∨ w.part.start + w.part.size ≤ v.part.start
  shown : (zshmAllocReadSpace l u).map (fun d => (d.vmVdevVaddr, d.vmVdevSize, d.vmVdevPaddr)) =
    otherUnits l i

theorem showsOthers_freeUnit {i : Nat} (hi : i < l.unitMaxNums) (vmId : Nat) :
    ShowsOthers l i ((freeUnit l i).forVm vmId) ↔
      l.size % 2 ^ 32 = l.unitMaxNums * zshmUnitSize ∧ (l.unitMaxNums = 1 ∨
        zshmVmShmRdStart l + (if i + 1 < l.unitMaxNums then i * zshmUnitSize else 0) < 2 ^ 32) := by
  obtain ⟨k, hk⟩ : ∃ k, l.unitMaxNums = i + 1 + k := ⟨_, (Nat.add_sub_cancel' hi).symm⟩
  have hNums : l.unitMaxNums * zshmUnitSize =
      i * zshmUnitSize + zshmUnitSize + k * zshmUnitSize := by
    rw [hk, Nat.add_mul, Nat.succ_mul]
  have hUnits : l.unitMaxNums * zshmUnitSize ≤ 2 ^ 29 :=
    (Nat.mul_le_mul_right _ l.nums_le).trans (by decide)
  have hFit := l.nums_fit
  have hPos : 0 < zshmUnitSize := by decide
  have hBefore : 0 < i * zshmUnitSize ↔ 0 < i := Nat.mul_pos_iff_of_pos_right hPos
  have hBehind : 0 < k * zshmUnitSize ↔ 0 < k := Nat.mul_pos_iff_of_pos_right hPos
  have hPaddr : ((freeUnit l i).forVm vmId).zshmPaddr = (l.start + i * zshmUnitSize) % 2 ^ 32 :=
    freeUnit_zshmPaddr_eq l i
  have hBoth : ShowsOthers l i ((freeUnit l i).forVm vmId) ↔ _ ∧ _ :=
    ⟨fun h => ⟨h.disjoint, h.shown⟩, fun h => ⟨h.1, h.2⟩⟩
  rw [hBoth]
  simp only [zshmPartitions, otherUnits, zshmAllocVirtDev, zshmAllocReadSpace, sizeBefore,
    sizeBehind, hPaddr, show l.unitMaxNums - 1 - i = k by omega, zshmVmShmRdStart,
    zshmNotifyUnitSize, zshmNotifyInfoUnitSize]
  clear hBoth hPaddr
  rw [hNums] at hFit hUnits ⊢
  clear hNums
  -- from here on the sizes are arbitrary numbers
  generalize i * zshmUnitSize = x at *
  generalize k * zshmUnitSize = m at *
  generalize zshmUnitSize = unit at *
  rw [sub32_of_mod (x := (l.start + x) % 2 ^ 32) (y := x) (by omega),
    sub32_of_mod (y := l.size - (x + unit)) (by omega),
    sub32_of_mod (y := l.start + unit + 0x1000 + 0x1000 + x) (by omega),
    Nat.mod_eq_of_lt (show x < 2 ^ 32 by omega), Nat.mod_add_mod]
  generalize hRest : (l.size - (x + unit)) % 2 ^ 32 = rest
  simp only [hk, Nat.lt_add_right_iff_pos, ← hBehind,
    show i + 1 + k = 1 ↔ ¬ 0 < x ∧ ¬ 0 < m by omega]
  constructor
  · rintro ⟨-, hEq⟩
    by_cases hx : 0 < x <;> by_cases hm : 0 < m <;> by_cases hr : 0 < rest <;>
      simp [hx, hm, hr, vmVirtDevAdd] at hEq ⊢ <;> omega
  · rintro ⟨hEven, hBelow⟩
    obtain rfl : rest = m := by omega
    by_cases hx : 0 < x <;> by_cases hr : 0 < rest <;>
      simp [hx, hr, vmVirtDevAdd, vmVdevMemAdd] at hBelow ⊢ <;> omega

/--
In every state of every run the windows of unit `i` are disjoint and show the other units exactly
if the units fill the region, as far as 32 bits tell, and the windows begin below 4 GiB.
-/
theorem showsOthers_iff (r : Region) (beyond : UnitState) (ops : List UnitOp) {i : Nat}
    (hi : i < zshmUnitMaxNums r) :
    ShowsOthers r.layout i ((exec (unitStep r.layout) (zshmInit r.layout beyond) ops).zshmUnits i) ↔
      zshmSize r % 2 ^ 32 = zshmUnitMaxNums r * zshmUnitSize ∧ (zshmUnitMaxNums r = 1 ∨
        zshmVmShmRdStart r.layout +
          (if i + 1 < zshmUnitMaxNums r then i * zshmUnitSize else 0) < 2 ^ 32) := by
  obtain ⟨vmId, hUnit⟩ := exec_placed r.layout beyond ops i hi
  rw [hUnit]
  exact showsOthers_freeUnit hi vmId

/-- 63 units fill the region of 128 MiB. -/
theorem showsOthers_board :
    let r : Region := ⟨0xb0000000, 0x8000000⟩
    ∀ beyond, ShowsOthers r.layout 5
      ((exec (unitStep r.layout) (zshmInit r.layout beyond) [.alloc 5]).zshmUnits (5 : Nat)) :=
  fun beyond => (showsOthers_iff _ beyond _ (by decide)).mpr (by decide)

/-- Of 7 MiB 5 are left for two units: the VM with unit 0 also sees the MiB behind unit 1. -/
theorem rest_shown :
    let r : Region := ⟨0xb0000000, 0x700000⟩
    ∀ beyond, ¬ ShowsOthers r.layout 0
      ((exec (unitStep r.layout) (zshmInit r.layout beyond) [.alloc 0]).zshmUnits (0 : Nat)) := by
  intro r beyond
  obtain ⟨vmId, hUnit⟩ := exec_placed r.layout beyond [.alloc 0] 0 (by decide)
  rw [hUnit, showsOthers_freeUnit (by decide)]
  decide

end Zvm.Zshm
