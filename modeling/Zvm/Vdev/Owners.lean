import Mathlib.Data.BitVec
import Zvm.Verified.FunArray
import Zvm.Verified.Run

/-!
# The owners of physical devices

A physical device that a VM may have is a node of one of two lists, `dev_idle_list` and
`dev_used_list`.  A guest access to the address of an idle device makes a virtual device for
the VM out of it and moves the node to the used list.  When the VM is deleted its virtual
devices are removed one after the other, and `vm_virt_dev_remove` moves a node back.

It looks for the node by the address of the virtual device only.  A virtual device that was not
made out of a physical one has an address too, and so has one that was made out of another
node.  If the first used node with the address is not the device's own, it is taken away from
the VM that has it.
-/

namespace Zvm.Vdev

open Zvm.Verified.Run Zvm.Verified.FunArray

/-! ## The lists -/

/-- A node of the lists. -/
structure PhysDev where
  paddr : BitVec 32
  vaddr : BitVec 32
  size : BitVec 32
  shareable : Bool

/-- The devices that `zvm_devices_list_init` finds. -/
structure PhysDevs where
  num : Nat
  dev : Nat → PhysDev

/-- `priv_data` of a virtual device: the emulation, or the physical device. -/
inductive PrivData where
  | null
  | emulation
  | device (n : Nat)
  deriving DecidableEq

/-- `struct z_virt_dev` of a VM; `ptr` is where it is. -/
structure VirtDev where
  ptr : Nat
  paddr : BitVec 32
  devPtFlag : Bool
  shareable : Bool
  priv : PrivData
  deriving DecidableEq

/-- The physical device that the virtual one was made out of. -/
def VirtDev.dev (v : VirtDev) : Option Nat :=
  match v.priv with
  | .device n => some n
  | _ => none

/-- The two lists, the VMs with their `vdev_list`, and for a VM that is being deleted the rest
of the loop of `vm_device_deinit`. -/
structure DevState where
  idle : List Nat
  used : List Nat
  live : Nat → Bool
  vdevs : Nat → List VirtDev
  /-- `DEV_DATA(dev)->device_data` -/
  deviceData : Nat → Option VirtDev
  deinit : Nat → Option (List VirtDev)
  /-- The address of the next allocation. -/
  next : Nat

/-- The VM may access devices. -/
def DevState.runs (s : DevState) (vm : Nat) : Bool := s.live vm && (s.deinit vm).isNone

/-- `sys_dlist_append(&vm->vdev_list, ...)`. -/
def DevState.append (s : DevState) (vm : Nat) (v : VirtDev) : DevState :=
  { s with vdevs := set s.vdevs vm (s.vdevs vm ++ [v]), next := s.next + 1 }

/-- The address is in the device's window; the sum has 32 bits. -/
def PhysDev.covers (d : PhysDev) (addr : Nat) : Bool :=
  decide (d.vaddr.toNat ≤ addr) && decide (addr < (d.vaddr + d.size).toNat)

/-- The virtual device that `vm_virt_dev_add` makes out of a node. -/
def madeFrom (c : PhysDevs) (s : DevState) (n : Nat) : VirtDev where
  ptr := s.next
  paddr := (c.dev n).paddr
  devPtFlag := true
  shareable := (c.dev n).shareable
  priv := .device n

/-- The node goes to the used list and the VM gets a virtual device made out of it. -/
def DevState.take (c : PhysDevs) (s : DevState) (vm n : Nat) : DevState :=
  { s.append vm (madeFrom c s n) with
    idle := s.idle.erase n
    used := s.used ++ [n]
    deviceData := set s.deviceData n (some (madeFrom c s n)) }

/-- `handle_vm_device_emulate`; `memOk` says that `vm_vdev_mem_add` succeeds, `initOk` that the
`init_fn` of a shareable device does. -/
def handleVmDeviceEmulate (c : PhysDevs) (s : DevState) (vm addr : Nat) (memOk initOk : Bool) :
    DevState × Int :=
  match s.idle.find? fun n => (c.dev n).covers addr with
  | none => (s, -19)
  | some n =>
    if !memOk then (s, -19)
    else (s.take c vm n, if (c.dev n).shareable && !initOk then -14 else 0)

/-- The node that `vm_virt_dev_remove` finds for a virtual device. -/
def foundNode (c : PhysDevs) (s : DevState) (v : VirtDev) : Option Nat :=
  s.used.find? fun n => (c.dev n).paddr == v.paddr

/-- `vm_virt_dev_remove`. -/
def vmVirtDevRemove (c : PhysDevs) (s : DevState) (v : VirtDev) : DevState :=
  let vdevs := fun vm => (s.vdevs vm).filter fun u => u.ptr != v.ptr
  match foundNode c s v with
  | none => { s with vdevs := vdevs }
  | some n => { s with vdevs := vdevs, used := s.used.erase n, idle := s.idle ++ [n] }

/-- The virtual device that a round of `vm_device_deinit` removes.  `removes` says that the
`deinit_fn` of an emulated device comes to that; for a shareable device the one in
`device_data` is removed. -/
def deinitTarget (s : DevState) (v : VirtDev) (removes : Bool) : Option VirtDev :=
  if !v.shareable && !v.devPtFlag then
    if v.priv ≠ .null ∧ removes then some v else none
  else if v.devPtFlag && !v.shareable then some v
  else v.dev.bind s.deviceData

/-- What happens to the devices: a VM is created, gets an emulated device, accesses an address;
and `vm_device_deinit` is entered and goes round. -/
inductive DevOp where
  | create (vm : Nat)
  | emulate (vm : Nat) (paddr : BitVec 32) (hasInstance : Bool)
  | access (vm addr : Nat) (memOk initOk : Bool)
  | enter (vm : Nat)
  | round (vm : Nat) (removes : Bool)

/-- The rest of `vm_delete`, after the last round. -/
def DevState.freed (s : DevState) (vm : Nat) : DevState :=
  { s with
    live := set s.live vm false
    vdevs := set s.vdevs vm []
    deinit := set s.deinit vm none }

/-- A round of the loop of `vm_device_deinit`; after the last one the VM is freed. -/
def deinitRound (c : PhysDevs) (s : DevState) (vm : Nat) (removes : Bool) : DevState :=
  match s.deinit vm with
  | none => s
  | some [] => s.freed vm
  | some (v :: rest) =>
    match deinitTarget s v removes with
    | none => { s with deinit := set s.deinit vm (some rest) }
    | some t => { vmVirtDevRemove c s t with deinit := set s.deinit vm (some rest) }

/-- An emulated device of a VM. -/
def emulated (s : DevState) (paddr : BitVec 32) (hasInstance : Bool) : VirtDev where
  ptr := s.next
  paddr := paddr
  devPtFlag := false
  shareable := false
  priv := if hasInstance then .emulation else .null

def devStep (c : PhysDevs) (s : DevState) : DevOp → DevState
  | .create vm =>
    if s.live vm then s
    else { s with live := set s.live vm true, vdevs := set s.vdevs vm [] }
  | .emulate vm paddr hasInstance =>
    if s.runs vm then s.append vm (emulated s paddr hasInstance) else s
  | .access vm addr memOk initOk =>
    if s.runs vm then (handleVmDeviceEmulate c s vm addr memOk initOk).1 else s
  | .enter vm => if s.runs vm then { s with deinit := set s.deinit vm (some (s.vdevs vm)) } else s
  | .round vm removes => deinitRound c s vm removes

/-- `zvm_devices_list_init`. -/
def zvmDevicesListInit (c : PhysDevs) : DevState where
  idle := List.range c.num
  used := []
  live := fun _ => false
  vdevs := fun _ => []
  deviceData := fun _ => none
  deinit := fun _ => none
  next := 0

/-! ## One owner -/

/-- The VM has a virtual device that was made out of the node. -/
def Holds (s : DevState) (vm n : Nat) : Prop :=
  s.live vm = true ∧ ∃ v ∈ s.vdevs vm, v.dev = some n

/-- Every node is once in one of the lists, and a node is used exactly if one live VM has a
virtual device made out of it. -/
structure OneOwner (c : PhysDevs) (s : DevState) : Prop where
  lists : (s.idle ++ s.used).Perm (List.range c.num)
  owned : ∀ n < c.num, n ∈ s.used ↔ ∃! vm, Holds s vm n

/-- A node that goes back to the idle list is that of the virtual device whose turn it is, in
the VM that is being deleted. -/
def ReleasedByHolder (c : PhysDevs) (s : DevState) (op : DevOp) : Prop :=
  ∀ n ∈ s.used, n ∈ (devStep c s op).idle → ∃ vm removes v rest,
    op = .round vm removes ∧ s.deinit vm = some (v :: rest) ∧ Holds s vm n ∧ v ∈ s.vdevs vm ∧
      v.dev = some n

/-- The first used device with the address of a virtual device that is removed is the one it
was made out of, if any; if it was made out of none, no used device has the address. -/
def RemovesOwn (c : PhysDevs) (s : DevState) : DevOp → Prop
  | .round vm removes => ∀ v rest, s.deinit vm = some (v :: rest) →
      ∀ t, deinitTarget s v removes = some t → foundNode c s t = t.dev
  | _ => True

/-! ## The virtual devices of the VMs -/

/-- The virtual devices of all VMs are at different places, and those that a deletion still has
to remove are known to it. -/
structure VdevInv (s : DevState) : Prop where
  ptrs : ∀ vm vm' v v', v ∈ s.vdevs vm → v' ∈ s.vdevs vm' → v.ptr = v'.ptr → vm = vm' ∧ v = v'
  plain : ∀ vm v, v ∈ s.vdevs vm → v.dev = none → v.devPtFlag = false ∧ v.shareable = false
  fresh : ∀ vm v, v ∈ s.vdevs vm → v.ptr < s.next
  nodup : ∀ vm, (s.vdevs vm).Nodup
  live : ∀ vm v, v ∈ s.vdevs vm → s.live vm = true
  deinit : ∀ vm rest, s.deinit vm = some rest → s.live vm = true ∧
    rest.Nodup ∧ (∀ v ∈ rest, v ∈ s.vdevs vm) ∧ ∀ v ∈ s.vdevs vm, v.dev ≠ none → v ∈ rest

section

variable {c : PhysDevs} {s : DevState} {vm n : Nat} {v : VirtDev} {rest : List VirtDev}

theorem mem_append {vm' : Nat} {w : VirtDev} :
    w ∈ (s.append vm v).vdevs vm' ↔ w ∈ s.vdevs vm' ∨ (vm' = vm ∧ w = v) := by
  by_cases hVm : vm' = vm
  · subst hVm
    simp [DevState.append, set_same]
  · simp [DevState.append, set_ne _ _ hVm, hVm]

/-- What a removal does whatever it finds. -/
theorem remove_frame (c : PhysDevs) (s : DevState) (v : VirtDev) :
    (vmVirtDevRemove c s v).next = s.next ∧ (vmVirtDevRemove c s v).live = s.live ∧
      (vmVirtDevRemove c s v).deviceData = s.deviceData ∧
      (vmVirtDevRemove c s v).vdevs = fun vm => (s.vdevs vm).filter fun u => u.ptr != v.ptr := by
  unfold vmVirtDevRemove
  cases foundNode c s v <;> exact ⟨rfl, rfl, rfl, rfl⟩

theorem mem_remove {vm' : Nat} {w : VirtDev} :
    w ∈ (vmVirtDevRemove c s v).vdevs vm' ↔ w ∈ s.vdevs vm' ∧ w.ptr ≠ v.ptr := by
  simp [(remove_frame c s v).2.2.2]

theorem runs_iff : s.runs vm = true ↔ s.live vm = true ∧ s.deinit vm = none := by
  simp [DevState.runs]

/-- A new virtual device is at a place of its own. -/
theorem VdevInv.append (h : VdevInv s) (hRuns : s.runs vm = true) (hPtr : v.ptr = s.next)
    (hPlain : v.dev = none → v.devPtFlag = false ∧ v.shareable = false) :
    VdevInv (s.append vm v) := by
  obtain ⟨hLive, hNone⟩ := runs_iff.mp hRuns
  have hNew : ∀ vm' w, w ∈ s.vdevs vm' → w.ptr ≠ v.ptr := by
    intro vm' w hw
    have := h.fresh vm' w hw
    omega
  constructor
  · intro vm₁ vm₂ v₁ v₂ h₁ h₂ hSame
    rcases mem_append.mp h₁ with hOld₁ | ⟨hVm₁, hEq₁⟩
    · rcases mem_append.mp h₂ with hOld₂ | ⟨_, hEq₂⟩
      · exact h.ptrs vm₁ vm₂ v₁ v₂ hOld₁ hOld₂ hSame
      · exact absurd (hEq₂ ▸ hSame) (hNew _ _ hOld₁)
    · rcases mem_append.mp h₂ with hOld₂ | ⟨hVm₂, hEq₂⟩
      · exact absurd (hEq₁ ▸ hSame).symm (hNew _ _ hOld₂)
      · exact ⟨hVm₁.trans hVm₂.symm, hEq₁.trans hEq₂.symm⟩
  · intro vm' w hw hDev
    rcases mem_append.mp hw with hw | ⟨rfl, rfl⟩
    · exact h.plain vm' w hw hDev
    · exact hPlain hDev
  · intro vm' w hw
    show w.ptr < s.next + 1
    rcases mem_append.mp hw with hw | ⟨rfl, rfl⟩
    · have := h.fresh vm' w hw
      omega
    · omega
  · intro vm'
    by_cases hVm : vm' = vm
    · subst hVm
      have hNot : v ∉ s.vdevs vm' := fun hv => hNew vm' v hv rfl
      simpa [DevState.append, set_same, List.nodup_append] using
        ⟨h.nodup vm', fun w hw hEq => hNot (hEq ▸ hw)⟩
    · simpa [DevState.append, set_ne _ _ hVm] using h.nodup vm'
  · intro vm' w hw
    rcases mem_append.mp hw with hw | ⟨rfl, rfl⟩
    · exact h.live vm' w hw
    · exact hLive
  · intro vm' rest' hRest
    obtain ⟨hOn, hNodup, hSub, hAll⟩ := h.deinit vm' rest' hRest
    -- the VM itself is not being deleted
    have hVm : vm' ≠ vm := by
      rintro rfl
      exact absurd hRest (by simp [DevState.append, hNone])
    refine ⟨hOn, hNodup, fun w hw => mem_append.mpr (.inl (hSub w hw)), fun w hw hDev => ?_⟩
    rcases mem_append.mp hw with hw | ⟨hEq, _⟩
    · exact hAll w hw hDev
    · exact absurd hEq hVm

/-- A round removes one virtual device and goes on with the others. -/
theorem VdevInv.removed (h : VdevInv s) (hRest : s.deinit vm = some (v :: rest)) :
    VdevInv { vmVirtDevRemove c s v with deinit := set s.deinit vm (some rest) } := by
  obtain ⟨hOn, hNodup, hSub, hAll⟩ := h.deinit vm _ hRest
  have hv : v ∈ s.vdevs vm := hSub v (by simp)
  obtain ⟨hNext, hLive, _, hFilter⟩ := remove_frame c s v
  constructor
  · intro vm₁ vm₂ v₁ v₂ h₁ h₂
    exact h.ptrs vm₁ vm₂ v₁ v₂ (mem_remove.mp h₁).1 (mem_remove.mp h₂).1
  · intro vm' w hw
    exact h.plain vm' w (mem_remove.mp hw).1
  · intro vm' w hw
    show w.ptr < (vmVirtDevRemove c s v).next
    rw [hNext]
    exact h.fresh vm' w (mem_remove.mp hw).1
  · intro vm'
    show ((vmVirtDevRemove c s v).vdevs vm').Nodup
    rw [hFilter]
    exact (h.nodup vm').filter _
  · intro vm' w hw
    show (vmVirtDevRemove c s v).live vm' = true
    rw [hLive]
    exact h.live vm' w (mem_remove.mp hw).1
  · intro vm' rest' hRest'
    show (vmVirtDevRemove c s v).live vm' = true ∧ _
    rw [hLive]
    by_cases hVm : vm' = vm
    · subst hVm
      obtain rfl : rest = rest' := by simpa [set_same] using hRest'
      refine ⟨hOn, hNodup.of_cons, fun w hw => mem_remove.mpr ?_, fun w hw hDev => ?_⟩
      · refine ⟨hSub w (by simp [hw]), fun hPtr => ?_⟩
        obtain ⟨_, rfl⟩ := h.ptrs _ _ _ _ (hSub w (by simp [hw])) hv hPtr
        exact (List.nodup_cons.mp hNodup).1 hw
      · obtain ⟨hw, hPtr⟩ := mem_remove.mp hw
        rcases List.mem_cons.mp (hAll w hw hDev) with rfl | hIn
        · exact absurd rfl hPtr
        · exact hIn
    · obtain ⟨hOn', hNodup', hSub', hAll'⟩ :=
        h.deinit vm' rest' (by simpa [set_ne _ _ hVm] using hRest')
      refine ⟨hOn', hNodup', fun w hw => mem_remove.mpr ⟨hSub' w hw, fun hPtr => ?_⟩,
        fun w hw hDev => hAll' w (mem_remove.mp hw).1 hDev⟩
      exact hVm (h.ptrs _ _ _ _ (hSub' w hw) hv hPtr).1

/-- A round that leaves a virtual device where it is; it has no node. -/
theorem VdevInv.skipped (h : VdevInv s) (hRest : s.deinit vm = some (v :: rest))
    (hDev : v.dev = none) : VdevInv { s with deinit := set s.deinit vm (some rest) } := by
  refine ⟨h.ptrs, h.plain, h.fresh, h.nodup, h.live, fun vm' rest' hRest' => ?_⟩
  by_cases hVm : vm' = vm
  · subst hVm
    obtain rfl : rest = rest' := by simpa [set_same] using hRest'
    obtain ⟨hOn, hNodup, hSub, hAll⟩ := h.deinit vm' _ hRest
    refine ⟨hOn, hNodup.of_cons, fun w hw => hSub w (by simp [hw]), fun w hw hSome => ?_⟩
    rcases List.mem_cons.mp (hAll w hw hSome) with rfl | hIn
    · exact absurd hDev hSome
    · exact hIn
  · exact h.deinit vm' rest' (by simpa [set_ne _ _ hVm] using hRest')

theorem VdevInv.enter (h : VdevInv s) (hLive : s.live vm = true) :
    VdevInv { s with deinit := set s.deinit vm (some (s.vdevs vm)) } := by
  refine ⟨h.ptrs, h.plain, h.fresh, h.nodup, h.live, fun vm' rest' hRest' => ?_⟩
  by_cases hVm : vm' = vm
  · subst hVm
    obtain rfl : s.vdevs vm' = rest' := by simpa [set_same] using hRest'
    exact ⟨hLive, h.nodup vm', fun _ hw => hw, fun _ hw _ => hw⟩
  · exact h.deinit vm' rest' (by simpa [set_ne _ _ hVm] using hRest')

/-- The list of one VM is emptied: it is freed, or created. -/
theorem VdevInv.cleared {d : Nat → Option (List VirtDev)} {l : Nat → Bool} (h : VdevInv s)
    (hDeinit : ∀ vm' rest', d vm' = some rest' → vm' ≠ vm ∧ s.deinit vm' = some rest')
    (hLive : ∀ vm', vm' ≠ vm → l vm' = s.live vm') :
    VdevInv { s with live := l, vdevs := set s.vdevs vm [], deinit := d } := by
  have hMem : ∀ {vm' w}, w ∈ set s.vdevs vm [] vm' → vm' ≠ vm ∧ w ∈ s.vdevs vm' := by
    intro vm' w hw
    by_cases hVm : vm' = vm
    · subst hVm
      simp [set_same] at hw
    · exact ⟨hVm, by simpa [set_ne _ _ hVm] using hw⟩
  constructor
  · intro vm₁ vm₂ v₁ v₂ h₁ h₂
    exact h.ptrs vm₁ vm₂ v₁ v₂ (hMem h₁).2 (hMem h₂).2
  · intro vm' w hw
    exact h.plain vm' w (hMem hw).2
  · intro vm' w hw
    exact h.fresh vm' w (hMem hw).2
  · intro vm'
    by_cases hVm : vm' = vm
    · subst hVm
      simp [set_same]
    · simpa [set_ne _ _ hVm] using h.nodup vm'
  · intro vm' w hw
    exact (hLive vm' (hMem hw).1).trans (h.live vm' w (hMem hw).2)
  · intro vm' rest' hRest'
    obtain ⟨hVm, hOld⟩ := hDeinit vm' rest' hRest'
    simpa [set_ne _ _ hVm, hLive vm' hVm] using h.deinit vm' rest' hOld

/-! ## The nodes -/

/-- Each used node has one virtual device, and only used nodes have one. -/
structure NodeInv (c : PhysDevs) (s : DevState) : Prop where
  lists : (s.idle ++ s.used).Perm (List.range c.num)
  held : ∀ n, n ∈ s.used ↔ ∃ vm, ∃ v ∈ s.vdevs vm, v.dev = some n
  single : ∀ vm vm' v v' n, v ∈ s.vdevs vm → v' ∈ s.vdevs vm' → v.dev = some n →
    v'.dev = some n → v.ptr = v'.ptr
  made : ∀ vm v n, v ∈ s.vdevs vm → v.dev = some n →
    v.paddr = (c.dev n).paddr ∧ v.devPtFlag = true ∧ s.deviceData n = some v

theorem NodeInv.nodup (h : NodeInv c s) : (s.idle ++ s.used).Nodup :=
  h.lists.nodup_iff.mpr List.nodup_range

theorem NodeInv.used_nodup (h : NodeInv c s) : s.used.Nodup :=
  (List.nodup_append.mp h.nodup).2.1

theorem NodeInv.not_both (h : NodeInv c s) (hIdle : n ∈ s.idle) : n ∉ s.used := by
  intro hUsed
  exact (List.nodup_append.mp h.nodup).2.2 n hIdle n hUsed rfl

/-- Virtual devices that have no node do not matter. -/
theorem NodeInv.of_same {s' : DevState} (h : NodeInv c s) (hIdle : s'.idle = s.idle)
    (hUsed : s'.used = s.used) (hData : s'.deviceData = s.deviceData)
    (hSame : ∀ vm v n, v.dev = some n → (v ∈ s'.vdevs vm ↔ v ∈ s.vdevs vm)) : NodeInv c s' := by
  constructor
  · rw [hIdle, hUsed]
    exact h.lists
  · intro n
    rw [hUsed, h.held]
    constructor
    · rintro ⟨vm, v, hv, hDev⟩
      exact ⟨vm, v, (hSame vm v n hDev).mpr hv, hDev⟩
    · rintro ⟨vm, v, hv, hDev⟩
      exact ⟨vm, v, (hSame vm v n hDev).mp hv, hDev⟩
  · intro vm vm' v v' n hv hv' hDev hDev'
    exact h.single vm vm' v v' n ((hSame vm v n hDev).mp hv) ((hSame vm' v' n hDev').mp hv') hDev
      hDev'
  · intro vm v n hv hDev
    rw [hData]
    exact h.made vm v n ((hSame vm v n hDev).mp hv) hDev

theorem mem_take {vm' : Nat} {w : VirtDev} :
    w ∈ (s.take c vm n).vdevs vm' ↔ w ∈ s.vdevs vm' ∨ (vm' = vm ∧ w = madeFrom c s n) :=
  mem_append

/-- An idle node has no virtual device before it is taken. -/
theorem NodeInv.take (h : NodeInv c s) (hIdle : n ∈ s.idle) : NodeInv c (s.take c vm n) := by
  have hNobody : ∀ vm' w, w ∈ s.vdevs vm' → w.dev ≠ some n := by
    intro vm' w hw hDev
    exact h.not_both hIdle ((h.held n).mpr ⟨vm', w, hw, hDev⟩)
  have hOwn : (madeFrom c s n).dev = some n := rfl
  constructor
  · show (s.idle.erase n ++ (s.used ++ [n])).Perm (List.range c.num)
    refine List.Perm.trans ?_ h.lists
    calc s.idle.erase n ++ (s.used ++ [n])
        = (s.idle.erase n ++ s.used) ++ [n] := (List.append_assoc _ _ _).symm
      List.Perm _ (n :: (s.idle.erase n ++ s.used)) := List.perm_append_singleton _ _
      List.Perm _ (s.idle ++ s.used) := ((List.perm_cons_erase hIdle).append_right s.used).symm
  · intro m
    show m ∈ s.used ++ [n] ↔ _
    rw [List.mem_append, List.mem_singleton, h.held]
    constructor
    · rintro (⟨vm', w, hw, hDev⟩ | rfl)
      · exact ⟨vm', w, mem_take.mpr (.inl hw), hDev⟩
      · exact ⟨vm, _, mem_take.mpr (.inr ⟨rfl, rfl⟩), hOwn⟩
    · rintro ⟨vm', w, hw, hDev⟩
      rcases mem_take.mp hw with hw | ⟨_, rfl⟩
      · exact .inl ⟨vm', w, hw, hDev⟩
      · exact .inr (Option.some.inj (hDev.symm.trans hOwn))
  · intro vm₁ vm₂ v₁ v₂ m h₁ h₂ hDev₁ hDev₂
    rcases mem_take.mp h₁ with hOld₁ | ⟨_, hEq₁⟩
    · rcases mem_take.mp h₂ with hOld₂ | ⟨_, hEq₂⟩
      · exact h.single vm₁ vm₂ v₁ v₂ m hOld₁ hOld₂ hDev₁ hDev₂
      · rw [hEq₂, hOwn] at hDev₂
        exact absurd (hDev₁.trans hDev₂.symm) (hNobody _ _ hOld₁)
    · rcases mem_take.mp h₂ with hOld₂ | ⟨_, hEq₂⟩
      · rw [hEq₁, hOwn] at hDev₁
        exact absurd (hDev₂.trans hDev₁.symm) (hNobody _ _ hOld₂)
      · rw [hEq₁, hEq₂]
  · intro vm' w m hw hDev
    show w.paddr = _ ∧ w.devPtFlag = true ∧ set s.deviceData n _ m = some w
    rcases mem_take.mp hw with hOld | ⟨_, rfl⟩
    · have hNe : m ≠ n := fun hEq => hNobody vm' w hOld (hEq ▸ hDev)
      rw [set_ne _ _ hNe]
      exact h.made vm' w m hOld hDev
    · obtain rfl : n = m := Option.some.inj (hOwn.symm.trans hDev)
      exact ⟨rfl, rfl, set_same _ _ _⟩

/-- The node that is found is used and has the address. -/
theorem foundNode_some (hFound : foundNode c s v = some n) :
    n ∈ s.used ∧ (c.dev n).paddr = v.paddr := by
  refine ⟨List.mem_of_find?_eq_some hFound, ?_⟩
  simpa using List.find?_some hFound

/-- A virtual device with a node finds some node. -/
theorem NodeInv.foundNode_ne_none (h : NodeInv c s) (hv : v ∈ s.vdevs vm) (hDev : v.dev = some n) :
    foundNode c s v ≠ none := by
  intro hNone
  have hUsed : n ∈ s.used := (h.held n).mpr ⟨vm, v, hv, hDev⟩
  have hNot := List.find?_eq_none.mp hNone n hUsed
  exact hNot (by simp [(h.made vm v n hv hDev).1])

theorem remove_of_none (hFound : foundNode c s v = none) :
    (vmVirtDevRemove c s v).idle = s.idle ∧ (vmVirtDevRemove c s v).used = s.used := by
  simp [vmVirtDevRemove, hFound]

theorem remove_of_some (hFound : foundNode c s v = some n) :
    (vmVirtDevRemove c s v).idle = s.idle ++ [n] ∧
      (vmVirtDevRemove c s v).used = s.used.erase n := by
  simp [vmVirtDevRemove, hFound]

/-- The removal that finds the device's own node. -/
theorem NodeInv.removed (h : NodeInv c s) (hVdev : VdevInv s) (hv : v ∈ s.vdevs vm)
    (hOwn : foundNode c s v = v.dev) : NodeInv c (vmVirtDevRemove c s v) := by
  cases hDev : v.dev with
  | none =>
    obtain ⟨hIdle, hUsed⟩ := remove_of_none (hOwn.trans hDev)
    refine h.of_same hIdle hUsed (remove_frame c s v).2.2.1 fun vm' w n hw => ?_
    refine mem_remove.trans ⟨And.left, fun hIn => ⟨hIn, fun hPtr => ?_⟩⟩
    obtain ⟨_, rfl⟩ := hVdev.ptrs _ _ _ _ hIn hv hPtr
    exact absurd (hw.symm.trans hDev) (by simp)
  | some n =>
    obtain ⟨hIdle, hUsed⟩ := remove_of_some (hOwn.trans hDev)
    have hIn : n ∈ s.used := (foundNode_some (hOwn.trans hDev)).1
    constructor
    · rw [hIdle, hUsed, List.append_assoc, List.singleton_append]
      exact ((List.perm_cons_erase hIn).symm.append_left s.idle).trans h.lists
    · intro m
      rw [hUsed, h.used_nodup.mem_erase_iff, h.held]
      constructor
      · rintro ⟨hNe, vm', w, hw, hDev'⟩
        refine ⟨vm', w, mem_remove.mpr ⟨hw, fun hPtr => hNe ?_⟩, hDev'⟩
        obtain ⟨_, rfl⟩ := hVdev.ptrs _ _ _ _ hw hv hPtr
        exact Option.some.inj (hDev'.symm.trans hDev)
      · rintro ⟨vm', w, hw, hDev'⟩
        obtain ⟨hw, hPtr⟩ := mem_remove.mp hw
        refine ⟨?_, vm', w, hw, hDev'⟩
        rintro rfl
        exact hPtr (h.single _ _ _ _ m hw hv hDev' hDev)
    · intro vm₁ vm₂ v₁ v₂ m h₁ h₂
      exact h.single vm₁ vm₂ v₁ v₂ m (mem_remove.mp h₁).1 (mem_remove.mp h₂).1
    · intro vm' w m hw
      rw [(remove_frame c s v).2.2.1]
      exact h.made vm' w m (mem_remove.mp hw).1

/-! ## One step -/

structure OwnerInv (c : PhysDevs) (s : DevState) : Prop where
  vdev : VdevInv s
  node : NodeInv c s

/-- What a round can do. -/
inductive RoundCase (c : PhysDevs) (s : DevState) (vm : Nat) (removes : Bool) : Prop
  | idle (hNone : s.deinit vm = none) (hStep : deinitRound c s vm removes = s)
  | last (hNil : s.deinit vm = some []) (hStep : deinitRound c s vm removes = s.freed vm)
  | skip (v : VirtDev) (rest : List VirtDev) (hRest : s.deinit vm = some (v :: rest))
      (hTarget : deinitTarget s v removes = none) (hDev : v.dev = none)
      (hStep : deinitRound c s vm removes = { s with deinit := set s.deinit vm (some rest) })
  | remove (v : VirtDev) (rest : List VirtDev) (hRest : s.deinit vm = some (v :: rest))
      (hTarget : deinitTarget s v removes = some v) (hv : v ∈ s.vdevs vm)
      (hStep : deinitRound c s vm removes =
        { vmVirtDevRemove c s v with deinit := set s.deinit vm (some rest) })

theorem OwnerInv.boot (c : PhysDevs) :
    OwnerInv c (zvmDevicesListInit c) where
  vdev := by constructor <;> simp [zvmDevicesListInit]
  node := by constructor <;> simp [zvmDevicesListInit]

/-- An access does nothing, or takes an idle node. -/
theorem handleVmDeviceEmulate_cases (c : PhysDevs) (s : DevState) (vm addr : Nat)
    (memOk initOk : Bool) :
    (handleVmDeviceEmulate c s vm addr memOk initOk).1 = s ∨
      ∃ n ∈ s.idle, (handleVmDeviceEmulate c s vm addr memOk initOk).1 = s.take c vm n := by
  unfold handleVmDeviceEmulate
  cases hFind : s.idle.find? fun n => (c.dev n).covers addr with
  | none => exact .inl rfl
  | some n =>
    cases memOk with
    | false => exact .inl rfl
    | true => exact .inr ⟨n, List.mem_of_find?_eq_some hFind, rfl⟩

/-- Emptying a list in which no virtual device has a node. -/
theorem NodeInv.cleared {d : Nat → Option (List VirtDev)} {l : Nat → Bool} (h : NodeInv c s)
    (hNone : ∀ w ∈ s.vdevs vm, w.dev = none) :
    NodeInv c { s with live := l, vdevs := set s.vdevs vm [], deinit := d } := by
  refine h.of_same rfl rfl rfl fun vm' w n hw => ?_
  by_cases hVm : vm' = vm
  · subst hVm
    have hNot : w ∉ s.vdevs vm' := fun hIn => by
      have := hNone w hIn
      simp [hw] at this
    simpa [set_same] using hNot
  · simp [set_ne _ _ hVm]

/-- If a virtual device was made out of the node, one VM has it and no other. -/
theorem existsUnique_holds (hVdev : VdevInv s)
    (hSingle : ∀ vm vm' v v' n, v ∈ s.vdevs vm → v' ∈ s.vdevs vm' → v.dev = some n →
      v'.dev = some n → v.ptr = v'.ptr)
    (hv : v ∈ s.vdevs vm) (hDev : v.dev = some n) : ∃! vm, Holds s vm n := by
  refine ⟨vm, ⟨hVdev.live vm v hv, v, hv, hDev⟩, ?_⟩
  rintro vm' ⟨_, v', hv', hDev'⟩
  exact (hVdev.ptrs _ _ _ _ hv' hv (hSingle _ _ _ _ n hv' hv hDev' hDev)).1

theorem NodeInv.used_lt (h : NodeInv c s) (hUsed : n ∈ s.used) : n < c.num := by
  have : n ∈ List.range c.num := h.lists.subset (by simp [hUsed])
  simpa using this

/-- Only a removal adds to the idle list. -/
theorem idle_subset (op : DevOp) (hRound : ∀ vm removes, op ≠ .round vm removes) :
    ∀ n ∈ (devStep c s op).idle, n ∈ s.idle := by
  intro n hn
  cases op with
  | create _ | emulate _ _ _ | enter _ =>
    simp only [devStep] at hn
    split at hn <;> exact hn
  | access vm addr memOk initOk =>
    simp only [devStep] at hn
    split at hn
    · rcases handleVmDeviceEmulate_cases c s vm addr memOk initOk with hSame | ⟨m, _, hTake⟩
      · rwa [hSame] at hn
      · rw [hTake] at hn
        exact List.mem_of_mem_erase hn
    · exact hn
  | round vm removes => exact absurd rfl (hRound vm removes)

section

variable (h : OwnerInv c s)
include h

theorem OwnerInv.mem_of_turn (hRest : s.deinit vm = some (v :: rest)) :
    v ∈ s.vdevs vm := (h.vdev.deinit vm _ hRest).2.2.1 v (by simp)

/-- What a round removes is the virtual device whose turn it is, or nothing. -/
theorem OwnerInv.deinitTarget_eq (hv : v ∈ s.vdevs vm) (removes : Bool) :
    deinitTarget s v removes = some v ∨ (deinitTarget s v removes = none ∧ v.dev = none) := by
  cases hDev : v.dev with
  | none =>
    obtain ⟨hPt, hShare⟩ := h.vdev.plain vm v hv hDev
    by_cases hRem : v.priv ≠ .null ∧ removes = true
    · exact .inl (by simp [deinitTarget, hPt, hShare, hRem])
    · exact .inr ⟨by simp [deinitTarget, hPt, hShare, hRem], rfl⟩
  | some n =>
    obtain ⟨_, hPt, hData⟩ := h.node.made vm v n hv hDev
    left
    cases hShare : v.shareable <;> simp [deinitTarget, hPt, hShare, hDev, hData]

theorem OwnerInv.roundCase (vm : Nat) (removes : Bool) :
    RoundCase c s vm removes := by
  cases hRest : s.deinit vm with
  | none => exact .idle hRest (by simp [deinitRound, hRest])
  | some l =>
    cases l with
    | nil => exact .last hRest (by simp [deinitRound, hRest])
    | cons v rest =>
      have hv := h.mem_of_turn hRest
      rcases h.deinitTarget_eq hv removes with hTarget | ⟨hTarget, hDev⟩
      · exact .remove v rest hRest hTarget hv (by simp [deinitRound, hRest, hTarget])
      · exact .skip v rest hRest hTarget hDev (by simp [deinitRound, hRest, hTarget])

theorem OwnerInv.take (hRuns : s.runs vm = true) (hIdle : n ∈ s.idle) :
    OwnerInv c (s.take c vm n) where
  vdev :=
    have hAppend := h.vdev.append hRuns (v := madeFrom c s n) rfl (fun hDev => by cases hDev)
    { hAppend with }
  node := h.node.take hIdle

theorem OwnerInv.emulate (hRuns : s.runs vm = true) (paddr : BitVec 32)
    (hasInstance : Bool) : OwnerInv c (s.append vm (emulated s paddr hasInstance)) := by
  have hDev : (emulated s paddr hasInstance).dev = none := by
    cases hasInstance <;> rfl
  refine ⟨h.vdev.append hRuns rfl fun _ => ⟨rfl, rfl⟩, h.node.of_same rfl rfl rfl ?_⟩
  intro vm' w n hw
  rw [mem_append]
  refine ⟨fun hIn => hIn.resolve_right ?_, .inl⟩
  rintro ⟨_, rfl⟩
  exact absurd (hw.symm.trans hDev) (by simp)

theorem OwnerInv.create (hDead : ¬ s.live vm = true) :
    OwnerInv c { s with live := set s.live vm true, vdevs := set s.vdevs vm [] } where
  vdev := by
    refine h.vdev.cleared (fun vm' rest' hRest => ⟨?_, hRest⟩) fun vm' hVm => set_ne _ _ hVm
    rintro rfl
    exact hDead (h.vdev.deinit _ rest' hRest).1
  node := h.node.cleared fun w hw => absurd (h.vdev.live vm w hw) hDead

/-- When the loop is over, no virtual device with a node is left. -/
theorem OwnerInv.freed (hNil : s.deinit vm = some []) :
    OwnerInv c (s.freed vm) where
  vdev := by
    exact h.vdev.cleared (fun vm' rest' hRest => of_set_none hRest) fun vm' hVm => set_ne _ _ hVm
  node := by
    refine h.node.cleared fun w hw => ?_
    by_contra hDev
    exact absurd ((h.vdev.deinit vm _ hNil).2.2.2 w hw hDev) (by simp)

theorem OwnerInv.round {removes : Bool}
    (hOwn : RemovesOwn c s (.round vm removes)) : OwnerInv c (deinitRound c s vm removes) := by
  cases h.roundCase vm removes with
  | idle _ hStep =>
    rw [hStep]
    exact h
  | last hNil hStep =>
    rw [hStep]
    exact h.freed hNil
  | skip v rest hRest _ hDev hStep =>
    rw [hStep]
    exact ⟨h.vdev.skipped hRest hDev, h.node.of_same rfl rfl rfl fun _ _ _ _ => Iff.rfl⟩
  | remove v rest hRest hTarget hv hStep =>
    rw [hStep]
    refine ⟨h.vdev.removed hRest, ?_⟩
    exact (h.node.removed h.vdev hv (hOwn v rest hRest v hTarget)).of_same rfl rfl rfl
      fun _ _ _ _ => Iff.rfl

omit h in
theorem OwnerInv.step (op : DevOp) (h : OwnerInv c s) (hOwn : RemovesOwn c s op) :
    OwnerInv c (devStep c s op) := by
  cases op with
  | create vm =>
    simp only [devStep]
    split
    · exact h
    · exact h.create ‹_›
  | emulate vm paddr hasInstance =>
    simp only [devStep]
    split
    · exact h.emulate ‹_› paddr hasInstance
    · exact h
  | access vm addr memOk initOk =>
    simp only [devStep]
    split
    · rcases handleVmDeviceEmulate_cases c s vm addr memOk initOk with hSame | ⟨n, hIdle, hTake⟩
      · rw [hSame]
        exact h
      · rw [hTake]
        exact h.take ‹_› hIdle
    · exact h
  | enter vm =>
    simp only [devStep]
    split
    · exact ⟨h.vdev.enter (runs_iff.mp ‹_›).1, h.node.of_same rfl rfl rfl fun _ _ _ _ => Iff.rfl⟩
    · exact h
  | round vm removes => exact h.round hOwn

theorem OwnerInv.oneOwner :
    OneOwner c s where
  lists := h.node.lists
  owned := by
    intro n _
    rw [h.node.held]
    constructor
    · rintro ⟨vm, v, hv, hDev⟩
      exact existsUnique_holds h.vdev h.node.single hv hDev
    · rintro ⟨vm, ⟨_, v, hv, hDev⟩, _⟩
      exact ⟨vm, v, hv, hDev⟩

/-- A removal that finds another's node: the node is not used any more, and still has an
owner. -/
theorem OwnerInv.stolen (hRest : s.deinit vm = some (v :: rest))
    (hFound : foundNode c s v = some n) (hOther : v.dev ≠ some n) :
    n ∉ (vmVirtDevRemove c s v).used ∧
      ∃! vm', Holds { vmVirtDevRemove c s v with deinit := set s.deinit vm (some rest) } vm' n := by
  have hv := h.mem_of_turn hRest
  constructor
  · rw [(remove_of_some hFound).2]
    exact h.node.used_nodup.not_mem_erase
  · obtain ⟨vm', v', hv', hDev'⟩ := (h.node.held n).mp (foundNode_some hFound).1
    have hPtr : v'.ptr ≠ v.ptr := by
      intro hSame
      obtain ⟨_, rfl⟩ := h.vdev.ptrs _ _ _ _ hv' hv hSame
      exact hOther hDev'
    refine existsUnique_holds (h.vdev.removed hRest) ?_ (mem_remove.mpr ⟨hv', hPtr⟩) hDev'
    intro vm₁ vm₂ v₁ v₂ m h₁ h₂
    exact h.node.single vm₁ vm₂ v₁ v₂ m (mem_remove.mp h₁).1 (mem_remove.mp h₂).1

theorem OwnerInv.removesOwn (op : DevOp) (hNext : OneOwner c (devStep c s op)) :
    RemovesOwn c s op := by
  cases op with
  | round vm removes =>
    intro v rest hRest t hTarget
    have hv := h.mem_of_turn hRest
    obtain rfl : v = t := by
      rcases h.deinitTarget_eq hv removes with hSome | ⟨hNone, _⟩
      · exact Option.some.inj (hSome.symm.trans hTarget)
      · exact absurd (hNone.symm.trans hTarget) (by simp)
    have hStep : devStep c s (.round vm removes) =
        { vmVirtDevRemove c s v with deinit := set s.deinit vm (some rest) } := by
      simp [devStep, deinitRound, hRest, hTarget]
    cases hFound : foundNode c s v with
    | none =>
      cases hDev : v.dev with
      | none => rfl
      | some n => exact absurd hFound (h.node.foundNode_ne_none hv hDev)
    | some n =>
      by_contra hOther
      obtain ⟨hNotUsed, hOwner⟩ := h.stolen hRest hFound (Ne.symm hOther)
      rw [hStep] at hNext
      have hLt : n < c.num := h.node.used_lt (foundNode_some hFound).1
      exact hNotUsed ((hNext.owned n hLt).mpr hOwner)
  | create _ | emulate _ _ _ | access _ _ _ _ | enter _ => trivial

theorem OwnerInv.releasedByHolder (op : DevOp) (hOwn : RemovesOwn c s op) :
    ReleasedByHolder c s op := by
  intro n hUsed hIdle
  have hNotIdle : n ∉ s.idle := fun hIn => h.node.not_both hIn hUsed
  by_cases hRound : ∃ vm removes, op = .round vm removes
  · obtain ⟨vm, removes, rfl⟩ := hRound
    change n ∈ (deinitRound c s vm removes).idle at hIdle
    cases h.roundCase vm removes with
    | idle _ hStep | last _ hStep | skip _ _ _ _ _ hStep =>
      rw [hStep] at hIdle
      exact absurd hIdle hNotIdle
    | remove v rest hRest hTarget hv hStep =>
      rw [hStep] at hIdle
      have hFound := hOwn v rest hRest v hTarget
      cases hDev : v.dev with
      | none =>
        have hSame := (remove_of_none (hFound.trans hDev)).1
        exact absurd (hSame ▸ hIdle) hNotIdle
      | some m =>
        have hMoved := (remove_of_some (hFound.trans hDev)).1
        have hIn : n ∈ s.idle ++ [m] := hMoved ▸ hIdle
        rcases List.mem_append.mp hIn with hOld | hNew
        · exact absurd hOld hNotIdle
        · obtain rfl : n = m := by simpa using hNew
          exact ⟨vm, removes, v, rest, rfl, hRest, ⟨h.vdev.live vm v hv, v, hv, hDev⟩, hv,
            hDev⟩
  · refine absurd (idle_subset op ?_ n hIdle) hNotIdle
    intro vm removes hEq
    exact hRound ⟨vm, removes, hEq⟩

end

end

/-! ## Every run -/

/-- **One owner.**  From the start on, every device has one owner in every state, and goes back
to the idle list only when that VM releases it, exactly if every removal finds the node of the
virtual device that is removed. -/
theorem one_owner_iff (c : PhysDevs) (ops : List DevOp) :
    (Always (devStep c) (OneOwner c) (zvmDevicesListInit c) ops ∧
        Admissible (devStep c) (ReleasedByHolder c) (zvmDevicesListInit c) ops) ↔
      Admissible (devStep c) (RemovesOwn c) (zvmDevicesListInit c) ops := by
  have hKeep : ∀ s a, OwnerInv c s → RemovesOwn c s a → OwnerInv c (devStep c s a) :=
    fun _ a h hOwn => h.step a hOwn
  have hIff := always_iff_of_strong (P := OneOwner c) (fun _ h => OwnerInv.oneOwner h) hKeep
    (fun _ a h hNext => h.removesOwn a hNext) ops _ (OwnerInv.boot c)
  constructor
  · rintro ⟨hAlways, _⟩
    exact hIff.mp hAlways
  · intro hAdm
    refine ⟨hIff.mpr hAdm, ?_⟩
    exact admissible_of_strong hKeep (fun _ a h hOwn => h.releasedByHolder a hOwn) ops _
      (OwnerInv.boot c) hAdm

/-- A pass-through device at the address of the emulated serial device. -/
def serialDev : PhysDevs where
  num := 1
  dev := fun _ => ⟨0x9000000#32, 0x9000000#32, 0x1000#32, false⟩

/-- VM 0 takes the device, and the deletion of VM 1, which has an emulated serial device,
begins. -/
def otherEntered : List DevOp :=
  [.create 0, .create 1, .emulate 1 0x9000000#32 true, .access 0 0x9000018 true true, .enter 1]

/-- After the first round of the deletion the device is idle while VM 0 has it. -/
theorem other_deleted_releases :
    let s := exec (devStep serialDev) (zvmDevicesListInit serialDev)
      (otherEntered ++ [.round 1 true])
    s.used = [] ∧ s.idle = [0] ∧ Holds s 0 0 ∧ ¬ OneOwner serialDev s := by
  intro s
  refine ⟨by decide +kernel, by decide +kernel, ⟨by decide +kernel, by decide +kernel⟩, ?_⟩
  intro hOne
  let before := exec (devStep serialDev) (zvmDevicesListInit serialDev) otherEntered
  have hInv : OwnerInv serialDev before :=
    exec_invariant (fun _ a h hOwn => OwnerInv.step a h hOwn) otherEntered _
      (OwnerInv.boot serialDev) ⟨trivial, trivial, trivial, trivial, trivial, trivial⟩
  -- the serial device of VM 1 has no node, and the node of VM 0 is found for it
  let serial : VirtDev := ⟨0, 0x9000000#32, false, false, .emulation⟩
  have hDeinit : before.deinit 1 = some [serial] := by decide +kernel
  have hTarget : deinitTarget before serial true = some serial := by decide +kernel
  have hFound : foundNode serialDev before serial = some 0 := by decide +kernel
  have hOwn := hInv.removesOwn (.round 1 true) hOne serial [] hDeinit serial hTarget
  exact absurd (hFound.symm.trans hOwn) (by decide)

end Zvm.Vdev
