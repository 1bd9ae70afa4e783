import Zvm.Life.VcpuStates
import Zvm.Verified.Effects

/-!
# Deleting a VM

`z_delete_guest` stops a VM that runs and calls `vm_delete`, which gives back the VM's
devices, its memory, the places of its vCPUs and at last the VM itself.

Two things go wrong.  A vCPU that was never started is halted by deleting the whole VM
from inside of the loop that halts the vCPUs, under the lock that `vm_delete` takes.  And
`vm_delete` frees the VM before it unlocks the VM's lock and reads its identifier to give
it back, and its caller prints the VM after that.

The model is the list of the effects of a call.  Memory that was freed is taken to keep its
contents; a build whose locks can be taken twice (one CPU, no lock validation) is a
parameter.
-/

namespace Zvm.Life

open Zvm.Verified.Effects

/-- What the deletion of a VM does. -/
inductive Event where
  /-- `vm_delete` has the lock and executes its body. -/
  | body
  | releaseDevice (id : Nat)
  | releaseRam
  | releasePcpu (vcpu : Nat)
  | releaseVmid
  /-- `zvm_overall_info->vms[vmid] = NULL`. -/
  | clearSlot
  /-- `k_free(vm)`. -/
  | freeVm
  /-- The memory of the VM is read or written. -/
  | touchVm
  deriving DecidableEq

/-- `struct z_virt_dev`, as far as `vm_device_deinit` reads it: whether `priv_data` is set and
its driver has a `deinit_fn`, and the device in the driver's data. -/
structure Vdev where
  id : Nat
  shareable : Bool
  devPtFlag : Bool
  driver : Option Bool
  deviceData : Nat
  deriving DecidableEq

/-- A VM with its devices. -/
structure Guest where
  vm : Vm
  devices : List Vdev

/-- A round of `vm_device_deinit`.  An emulated device without a driver is passed over;
where the other kinds have none, a null pointer is called. -/
def vdevDeinit (d : Vdev) : Effects Event :=
  if !d.shareable && !d.devPtFlag then
    match d.driver with
    | some true => done [.releaseDevice d.id]
    | _ => done []
  else
    match d.driver with
    | some true =>
      if d.devPtFlag && !d.shareable then done [.releaseDevice d.id]
      else done [.releaseDevice d.deviceData]
    | _ => stops []

/-- `vm_device_deinit`. -/
def vmDeviceDeinit (devices : List Vdev) : Effects Event := seqAll (devices.map vdevDeinit)

/-- `vm_delete`; `held` says that the caller has the VM's lock. -/
def vmDelete (relock : Bool) (g : Guest) (held : Bool) : Effects Event :=
  if held && !relock then stops [.touchVm]
  else
    (done [.touchVm, .body]).andThen
      ((vmDeviceDeinit g.devices).andThen
        (done ([Event.releaseRam] ++ (List.range g.vm.vcpuNum).map Event.releasePcpu ++
          -- the lock and the identifier are those of the freed VM
          [Event.clearSlot, .freeVm, .touchVm, .touchVm, .releaseVmid])))

/-- `vm_vcpu_halt`, that is `vcpu_state_switch` to HALTED. -/
def vmVcpuHalt (relock : Bool) (g : Guest) (i : Nat) : Effects Event :=
  match (g.vm.vcpus i).vcpuState with
  | .halted => done [.touchVm]
  | .ready | .running | .paused => done [.touchVm]
  | .reset | .unknown => (vmDelete relock g true).andThen (done [.touchVm])

/-- `vm_vcpus_halt`. -/
def vmVcpusHalt (relock : Bool) (g : Guest) : Effects Event :=
  (seqAll ((List.range g.vm.vcpuNum).map (vmVcpuHalt relock g))).andThen (done [.touchVm])

/-- `z_delete_guest`. -/
def zDeleteGuest (relock : Bool) (g : Guest) : Effects Event :=
  match g.vm.vmStatus with
  | .running =>
    (done [.touchVm]).andThen ((vmVcpusHalt relock g).andThen
      ((vmDelete relock g false).andThen (done [.touchVm])))
  | .pause | .neverRun => (vmDelete relock g false).andThen (done [.touchVm])
  | .halt | .error => done [.touchVm]

/-! ## Releasing once -/

/-- The body of `vm_delete` is executed once, and everything is given back once. -/
structure ReleasedOnce (g : Guest) (events : List Event) : Prop where
  body : events.count .body = 1
  ram : events.count .releaseRam = 1
  vmid : events.count .releaseVmid = 1
  pcpus : ∀ i < g.vm.vcpuNum, events.count (.releasePcpu i) = 1
  devices : ∀ d ∈ g.devices, events.count (.releaseDevice d.id) = 1
  slot : .clearSlot ∈ events

/-- After the VM was freed its memory is not used. -/
def NoTouchAfterFree (events : List Event) : Prop :=
  ∀ before after, events = before ++ Event.freeVm :: after → .touchVm ∉ after

/-- The whole property of a deletion. -/
def DeletesOnce (g : Guest) (events : List Event) : Prop :=
  ReleasedOnce g events ∧ NoTouchAfterFree events

/-- The vCPU is halted by deleting the VM. -/
def haltDeletes (v : Vcpu) : Bool :=
  match v.vcpuState with
  | .reset | .unknown => true
  | .ready | .running | .paused | .halted => false

/-- A null pointer is called for the device. -/
def deinitFaults (d : Vdev) : Bool := (d.shareable || d.devPtFlag) && d.driver != some true

/-- The device that is given back for a device. -/
def deinitTarget (d : Vdev) : Option Nat :=
  if d.driver = some true then some (if d.shareable then d.deviceData else d.id) else none

/-- The VM can be deleted; if it runs, all its vCPUs have been started; and every device is
given back for exactly one device. -/
structure Deletable (g : Guest) : Prop where
  status : g.vm.vmStatus = .running ∨ g.vm.vmStatus = .pause ∨ g.vm.vmStatus = .neverRun
  started : g.vm.vmStatus = .running → ∀ i < g.vm.vcpuNum, haltDeletes (g.vm.vcpus i) = false
  drivers : ∀ d ∈ g.devices, deinitFaults d = false
  devices : ∀ d ∈ g.devices, (g.devices.filterMap deinitTarget).count d.id = 1

/-! ### Devices -/

theorem vdevDeinit_eq (d : Vdev) :
    vdevDeinit d =
      if deinitFaults d then stops [] else done ((deinitTarget d).toList.map .releaseDevice) := by
  -- three kinds of devices, each with or without a driver
  rcases d with ⟨id, _ | _, _ | _, _ | _ | _, data⟩ <;> rfl

theorem vdevDeinit_returns (d : Vdev) : (vdevDeinit d).returns = !deinitFaults d := by
  rw [vdevDeinit_eq]
  cases deinitFaults d <;> rfl

theorem vdevDeinit_events {d : Vdev} (hOk : deinitFaults d = false) :
    (vdevDeinit d).events = (deinitTarget d).toList.map .releaseDevice := by
  rw [vdevDeinit_eq, hOk]
  rfl

theorem mem_vdevDeinit {d : Vdev} {e : Event} (hMem : e ∈ (vdevDeinit d).events) :
    ∃ id, e = .releaseDevice id := by
  rw [vdevDeinit_eq] at hMem
  split at hMem
  · exact nomatch hMem
  · obtain ⟨id, _, rfl⟩ := List.mem_map.mp hMem
    exact ⟨id, rfl⟩

theorem vmDeviceDeinit_eq {devices : List Vdev} (hOk : ∀ d ∈ devices, deinitFaults d = false) :
    vmDeviceDeinit devices =
      done ((devices.filterMap deinitTarget).map .releaseDevice) := by
  have hRet : ∀ a ∈ devices.map vdevDeinit, a.returns = true := by
    intro a ha
    obtain ⟨d, hd, rfl⟩ := List.mem_map.mp ha
    rw [vdevDeinit_returns, hOk d hd]
    rfl
  rw [vmDeviceDeinit, seqAll_of_returns hRet, done]
  congr 1
  induction devices with
  | nil => rfl
  | cons d devices ih =>
    have hHead := vdevDeinit_events (hOk d List.mem_cons_self)
    have hTail := ih (fun x hx => hOk x (List.mem_cons_of_mem d hx))
      (fun a ha => hRet a (List.mem_cons_of_mem _ ha))
    rw [List.map_cons, List.flatMap_cons, hHead, hTail]
    cases hTarget : deinitTarget d with
    | none => simp [hTarget]
    | some id => simp [hTarget]

theorem vmDeviceDeinit_stops {devices : List Vdev} (hFault : ∃ d ∈ devices, deinitFaults d = true) :
    (vmDeviceDeinit devices).returns = false := by
  obtain ⟨d, hd, hf⟩ := hFault
  refine seqAll_stops ⟨vdevDeinit d, List.mem_map_of_mem hd, ?_⟩
  rw [vdevDeinit_returns, hf]
  rfl

theorem mem_vmDeviceDeinit {devices : List Vdev} {e : Event}
    (hMem : e ∈ (vmDeviceDeinit devices).events) : ∃ id, e = .releaseDevice id := by
  obtain ⟨a, ha, hIn⟩ := mem_seqAll hMem
  obtain ⟨d, _, rfl⟩ := List.mem_map.mp ha
  exact mem_vdevDeinit hIn

/-! ### The body -/

/-- The effects of the body where it is executed to its end. -/
def deleteEvents (g : Guest) : List Event :=
  [Event.touchVm, .body] ++ ((g.devices.filterMap deinitTarget).map Event.releaseDevice ++
    ([Event.releaseRam] ++ (List.range g.vm.vcpuNum).map Event.releasePcpu ++
      [Event.clearSlot, .freeVm, .touchVm, .touchVm, .releaseVmid]))

section Body

variable {relock : Bool} {g : Guest}

theorem vmDelete_eq (hOk : ∀ d ∈ g.devices, deinitFaults d = false) {held : Bool}
    (hLock : (held && !relock) = false) : vmDelete relock g held = done (deleteEvents g) := by
  rw [vmDelete, hLock, vmDeviceDeinit_eq hOk]
  rfl

/-- A body that ends at a null pointer has not given back the memory. -/
theorem vmDelete_faults (relock : Bool) (hFault : ∃ d ∈ g.devices, deinitFaults d = true)
    (held : Bool) :
    (vmDelete relock g held).returns = false ∧
      Event.releaseRam ∉ (vmDelete relock g held).events := by
  unfold vmDelete
  split
  case isTrue => exact ⟨rfl, by simp [stops]⟩
  case isFalse =>
    rw [andThen_of_stops (vmDeviceDeinit_stops hFault), done_andThen]
    refine ⟨vmDeviceDeinit_stops hFault, ?_⟩
    intro hMem
    rcases List.mem_append.mp hMem with hHead | hDev
    · simp at hHead
    · obtain ⟨id, hEq⟩ := mem_vmDeviceDeinit hDev
      exact nomatch hEq

theorem count_deleteEvents_device (id : Nat) :
    (deleteEvents g).count (.releaseDevice id) = (g.devices.filterMap deinitTarget).count id := by
  have hInj : Function.Injective Event.releaseDevice := fun a b h => by injection h
  have hPcpus : ((List.range g.vm.vcpuNum).map Event.releasePcpu).count (.releaseDevice id) = 0 := by
    simp [List.count_eq_zero]
  simp [deleteEvents, List.count_append, List.count_map_of_injective _ _ hInj, hPcpus]

theorem count_deleteEvents_pcpu {i : Nat} (hi : i < g.vm.vcpuNum) :
    (deleteEvents g).count (.releasePcpu i) = 1 := by
  have hInj : Function.Injective Event.releasePcpu := fun a b h => by injection h
  have hDevs : ((g.devices.filterMap deinitTarget).map Event.releaseDevice).count
      (.releasePcpu i) = 0 := by
    simp [List.count_eq_zero]
  have hOne : (List.range g.vm.vcpuNum).count i = 1 :=
    List.count_eq_one_of_mem List.nodup_range (List.mem_range.mpr hi)
  simp [deleteEvents, List.count_append, List.count_map_of_injective _ _ hInj, hDevs, hOne]

/-- Everything else is given back once. -/
theorem count_deleteEvents {e : Event} (hDev : ∀ id, e ≠ .releaseDevice id)
    (hPcpu : ∀ i, e ≠ .releasePcpu i) :
    (deleteEvents g).count e =
      [Event.touchVm, .body, .releaseRam, .clearSlot, .freeVm, .touchVm, .touchVm,
        .releaseVmid].count e := by
  have hDevs : ((g.devices.filterMap deinitTarget).map Event.releaseDevice).count e = 0 := by
    rw [List.count_eq_zero]
    intro hMem
    obtain ⟨id, _, hEq⟩ := List.mem_map.mp hMem
    exact hDev id hEq.symm
  have hPcpus : ((List.range g.vm.vcpuNum).map Event.releasePcpu).count e = 0 := by
    rw [List.count_eq_zero]
    intro hMem
    obtain ⟨i, _, hEq⟩ := List.mem_map.mp hMem
    exact hPcpu i hEq.symm
  simp only [deleteEvents, List.count_append, hDevs, hPcpus, List.count_cons, List.count_nil]
  omega

/-! ### Halting the vCPUs -/

theorem vmVcpuHalt_eq (i : Nat) :
    vmVcpuHalt relock g i =
      if haltDeletes (g.vm.vcpus i) then (vmDelete relock g true).andThen (done [.touchVm])
      else done [.touchVm] := by
  unfold vmVcpuHalt haltDeletes
  cases (g.vm.vcpus i).vcpuState <;> rfl

/-- Started vCPUs are halted without an effect on what is given back. -/
theorem vmVcpusHalt_started (relock : Bool)
    (hStarted : ∀ i < g.vm.vcpuNum, haltDeletes (g.vm.vcpus i) = false) :
    ∃ n, vmVcpusHalt relock g = done (List.replicate n .touchVm) := by
  have hCalls : (List.range g.vm.vcpuNum).map (vmVcpuHalt relock g) =
      List.replicate g.vm.vcpuNum (done [.touchVm]) := by
    rw [List.map_eq_replicate_iff.mpr, List.length_range]
    intro i hi
    rw [vmVcpuHalt_eq, hStarted i (List.mem_range.mp hi)]
    rfl
  refine ⟨g.vm.vcpuNum + 1, ?_⟩
  rw [vmVcpusHalt, hCalls, seqAll_of_returns]
  · rw [andThen_of_returns rfl, done, done, List.replicate_add]
    simp [List.flatMap_replicate]
  · intro a ha
    rw [(List.mem_replicate.mp ha).2]
    rfl

/-- Halting gives back the memory only where a nested deletion does. -/
theorem releaseRam_notMem_halt (hNested : Event.releaseRam ∉ (vmDelete relock g true).events) :
    Event.releaseRam ∉ (vmVcpusHalt relock g).events := by
  have hLoop : Event.releaseRam ∉
      (seqAll ((List.range g.vm.vcpuNum).map (vmVcpuHalt relock g))).events := by
    intro hMem
    obtain ⟨a, ha, hIn⟩ := mem_seqAll hMem
    obtain ⟨i, _, rfl⟩ := List.mem_map.mp ha
    rw [vmVcpuHalt_eq] at hIn
    split at hIn
    · unfold Effects.andThen at hIn
      split at hIn
      · simp [done, hNested] at hIn
      · exact hNested hIn
    · simp [done] at hIn
  intro hMem
  unfold vmVcpusHalt Effects.andThen at hMem
  split at hMem
  · simp [done, hLoop] at hMem
  · exact hLoop hMem

/-- A nested deletion that does not return ends the halting. -/
theorem vmVcpusHalt_stops (hNested : (vmDelete relock g true).returns = false) {i : Nat}
    (hi : i < g.vm.vcpuNum) (hDeletes : haltDeletes (g.vm.vcpus i) = true) :
    (vmVcpusHalt relock g).returns = false := by
  have hCall : (vmVcpuHalt relock g i).returns = false := by
    rw [vmVcpuHalt_eq, hDeletes, if_pos rfl, andThen_of_stops hNested]
    exact hNested
  have hLoop : (seqAll ((List.range g.vm.vcpuNum).map (vmVcpuHalt relock g))).returns = false :=
    seqAll_stops ⟨_, List.mem_map_of_mem (List.mem_range.mpr hi), hCall⟩
  rw [vmVcpusHalt, andThen_of_stops hLoop]
  exact hLoop

/-- A nested deletion that returns has given back the memory already. -/
theorem releaseRam_mem_halt (hOk : ∀ d ∈ g.devices, deinitFaults d = false)
    (hLock : relock = true) {i : Nat} (hi : i < g.vm.vcpuNum)
    (hDeletes : haltDeletes (g.vm.vcpus i) = true) :
    (vmVcpusHalt relock g).returns = true ∧
      Event.releaseRam ∈ (vmVcpusHalt relock g).events := by
  have hDelete : vmDelete relock g true = done (deleteEvents g) :=
    vmDelete_eq hOk (by simp [hLock])
  have hRet : ∀ a ∈ (List.range g.vm.vcpuNum).map (vmVcpuHalt relock g), a.returns = true := by
    intro a ha
    obtain ⟨j, _, rfl⟩ := List.mem_map.mp ha
    rw [vmVcpuHalt_eq, hDelete]
    split <;> rfl
  rw [vmVcpusHalt, seqAll_of_returns hRet, andThen_of_returns rfl]
  refine ⟨rfl, List.mem_append_left _ (List.mem_flatMap.mpr ⟨vmVcpuHalt relock g i, ?_, ?_⟩)⟩
  · exact List.mem_map_of_mem (List.mem_range.mpr hi)
  · rw [vmVcpuHalt_eq, hDeletes, hDelete]
    simp [done, deleteEvents, Effects.andThen]

/-! ### The whole deletion -/

/-- Where the body is executed once: before it the vCPUs are halted, and after it the freed
VM is printed. -/
theorem zDeleteGuest_eq (relock : Bool)
    (hStatus : g.vm.vmStatus = .running ∨ g.vm.vmStatus = .pause ∨ g.vm.vmStatus = .neverRun)
    (hStarted : g.vm.vmStatus = .running → ∀ i < g.vm.vcpuNum, haltDeletes (g.vm.vcpus i) = false)
    (hDrivers : ∀ d ∈ g.devices, deinitFaults d = false) :
    ∃ n, zDeleteGuest relock g =
      done (List.replicate n Event.touchVm ++ (deleteEvents g ++ [Event.touchVm])) := by
  have hDelete : vmDelete relock g false = done (deleteEvents g) := vmDelete_eq hDrivers rfl
  have hOnce : (vmDelete relock g false).andThen (done [.touchVm]) =
      done (deleteEvents g ++ [Event.touchVm]) := by
    rw [hDelete]
    rfl
  unfold zDeleteGuest
  rcases hStatus with hRun | hStop | hStop
  · obtain ⟨n, hHalt⟩ := vmVcpusHalt_started relock (hStarted hRun)
    refine ⟨1 + n, ?_⟩
    simp only [hRun, hHalt, hOnce, done_andThen, List.replicate_add]
    simp [done]
  · exact ⟨0, by simp only [hStop, hOnce, List.replicate_zero, List.nil_append]⟩
  · exact ⟨0, by simp only [hStop, hOnce, List.replicate_zero, List.nil_append]⟩

/-- What is given back then is what the body gives back. -/
theorem count_zDeleteGuest {n : Nat}
    (hEq : zDeleteGuest relock g =
      done (List.replicate n Event.touchVm ++ (deleteEvents g ++ [Event.touchVm]))) {e : Event}
    (hNe : Event.touchVm ≠ e) :
    (zDeleteGuest relock g).events.count e = (deleteEvents g).count e := by
  rw [hEq]
  simp [done, List.count_append, List.count_replicate, hNe]

theorem Deletable.releasedOnce (h : Deletable g) :
    ReleasedOnce g (zDeleteGuest relock g).events := by
  obtain ⟨n, hEq⟩ := zDeleteGuest_eq relock h.status h.started h.drivers
  constructor
  case body =>
    rw [count_zDeleteGuest hEq (by decide), count_deleteEvents (by simp) (by simp)]
    decide
  case ram =>
    rw [count_zDeleteGuest hEq (by decide), count_deleteEvents (by simp) (by simp)]
    decide
  case vmid =>
    rw [count_zDeleteGuest hEq (by decide), count_deleteEvents (by simp) (by simp)]
    decide
  case pcpus =>
    intro i hi
    rw [count_zDeleteGuest hEq (by simp), count_deleteEvents_pcpu hi]
  case devices =>
    intro d hd
    rw [count_zDeleteGuest hEq (by simp), count_deleteEvents_device]
    exact h.devices d hd
  case slot =>
    rw [hEq]
    simp [done, deleteEvents]

/-- Where a device has no driver to call, the memory is not given back. -/
theorem releaseRam_notMem_of_faults (relock : Bool)
    (hFault : ∃ d ∈ g.devices, deinitFaults d = true) :
    Event.releaseRam ∉ (zDeleteGuest relock g).events := by
  obtain ⟨hStop, hRam⟩ := vmDelete_faults relock hFault false
  have hNested := (vmDelete_faults relock hFault true).2
  unfold zDeleteGuest
  split
  · rw [andThen_of_stops hStop]
    unfold Effects.andThen
    simp only [done]
    split
    · split
      · simp [releaseRam_notMem_halt hNested, hRam]
      · simp [releaseRam_notMem_halt hNested]
    · simp
  · rw [andThen_of_stops hStop]
    exact hRam
  · rw [andThen_of_stops hStop]
    exact hRam
  · simp [done]
  · simp [done]

/-- A running VM with a vCPU that was never started: the memory is not given back, or it is
given back twice. -/
theorem releaseRam_count_of_unstarted (hOk : ∀ d ∈ g.devices, deinitFaults d = false)
    (hStatus : g.vm.vmStatus = .running) {i : Nat} (hi : i < g.vm.vcpuNum)
    (hDeletes : haltDeletes (g.vm.vcpus i) = true) :
    (zDeleteGuest relock g).events.count .releaseRam ≠ 1 := by
  have hRun : zDeleteGuest relock g = (done [.touchVm]).andThen ((vmVcpusHalt relock g).andThen
      ((vmDelete relock g false).andThen (done [.touchVm]))) := by
    simp only [zDeleteGuest, hStatus]
  rw [hRun]
  cases hLock : relock with
  | false =>
    have hNested : vmDelete false g true = stops [.touchVm] := rfl
    have hNone : Event.releaseRam ∉ (vmVcpusHalt false g).events :=
      releaseRam_notMem_halt (by simp [hNested, stops])
    rw [andThen_of_stops (vmVcpusHalt_stops (by rw [hNested]; rfl) hi hDeletes)]
    simp [done, Effects.andThen, List.count_eq_zero.mpr hNone]
  | true =>
    obtain ⟨hRet, hMem⟩ := releaseRam_mem_halt hOk rfl hi hDeletes
    have hFirst := List.count_pos_iff.mpr hMem
    have hDelete : vmDelete true g false = done (deleteEvents g) := vmDelete_eq hOk rfl
    have hSecond : (deleteEvents g).count Event.releaseRam = 1 := by
      rw [count_deleteEvents (by simp) (by simp)]
      decide
    rw [andThen_of_returns hRet, hDelete]
    simp only [done_andThen, List.count_append, hSecond]
    omega

theorem ReleasedOnce.deletable (h : ReleasedOnce g (zDeleteGuest relock g).events) :
    Deletable g := by
  have hDrivers : ∀ d ∈ g.devices, deinitFaults d = false := by
    intro d hd
    by_contra hFault
    have hNone := List.count_eq_zero.mpr
      (releaseRam_notMem_of_faults relock ⟨d, hd, by simpa using hFault⟩)
    have hRam := h.ram
    omega
  have hStatus : g.vm.vmStatus = .running ∨ g.vm.vmStatus = .pause ∨
      g.vm.vmStatus = .neverRun := by
    have hBody := h.body
    unfold zDeleteGuest at hBody
    cases hEq : g.vm.vmStatus with
    | running => exact .inl rfl
    | pause => exact .inr (.inl rfl)
    | neverRun => exact .inr (.inr rfl)
    | halt | error =>
      simp only [hEq] at hBody
      exact absurd hBody (by decide)
  have hStarted : g.vm.vmStatus = .running →
      ∀ i < g.vm.vcpuNum, haltDeletes (g.vm.vcpus i) = false := by
    intro hRun i hi
    by_contra hDeletes
    exact releaseRam_count_of_unstarted hDrivers hRun hi (by simpa using hDeletes) h.ram
  refine ⟨hStatus, hStarted, hDrivers, ?_⟩
  intro d hd
  obtain ⟨n, hEq⟩ := zDeleteGuest_eq relock hStatus hStarted hDrivers
  rw [← count_deleteEvents_device, ← count_zDeleteGuest hEq (by simp)]
  exact h.devices d hd

/-- The body frees the VM and then uses it. -/
theorem Deletable.touches (h : Deletable g) :
    ¬ NoTouchAfterFree (zDeleteGuest relock g).events := by
  obtain ⟨n, hEq⟩ := zDeleteGuest_eq relock h.status h.started h.drivers
  intro hNone
  rw [hEq] at hNone
  refine hNone (List.replicate n Event.touchVm ++ ([Event.touchVm, .body] ++
    ((g.devices.filterMap deinitTarget).map Event.releaseDevice ++
      ([Event.releaseRam] ++ (List.range g.vm.vcpuNum).map Event.releasePcpu ++ [Event.clearSlot]))))
    [.touchVm, .touchVm, .releaseVmid, .touchVm] ?_ (by simp)
  simp [done, deleteEvents]

end Body

/--
No deletion has the whole property: a VM that is freed is used after that.  Everything is
given back once exactly if the VM can be deleted, has no vCPU that was never started while
it runs, and has a driver that gives back each of its devices.
-/
theorem deletesOnce_never (relock : Bool) (g : Guest) :
    ¬ DeletesOnce g (zDeleteGuest relock g).events ∧
      (ReleasedOnce g (zDeleteGuest relock g).events ↔ Deletable g) := by
  refine ⟨fun hOnce => ?_, fun hReleased => hReleased.deletable, fun h => h.releasedOnce⟩
  exact hOnce.1.deletable.touches hOnce.2

/-- A VM with two vCPUs that has been run, without any device; its guest has not powered on
the second vCPU. -/
def runningGuest : Guest :=
  ⟨Verified.Run.exec (lifeStep 0xf#64)
    (newVm 2 (fun i => i + 1) (fun i => BitVec.ofNat 64 i))
    [.enter .ready, .next, .next, .next], []⟩

/-- The deletion of that VM ends at the lock it has itself and gives nothing back, and where
the lock can be taken twice it gives the memory back twice.  The deletion of a VM that was
never run frees the VM and then uses it. -/
theorem delete_running_guest :
    ¬ DeletesOnce runningGuest (zDeleteGuest false runningGuest).events ∧
      zDeleteGuest false runningGuest = stops [.touchVm, .touchVm, .touchVm] ∧
      (zDeleteGuest true runningGuest).events.count .releaseRam = 2 ∧
      (zDeleteGuest false ⟨newVm 1 (fun _ => 1) (fun _ => 0#64), []⟩).events =
        [.touchVm, .body, .releaseRam, .releasePcpu 0, .clearSlot, .freeVm, .touchVm, .touchVm,
          .releaseVmid, .touchVm] := by
  have hTrace : zDeleteGuest false runningGuest = stops [.touchVm, .touchVm, .touchVm] := by
    decide +kernel
  refine ⟨fun hOnce => ?_, hTrace, by decide +kernel, by decide +kernel⟩
  have hBody := hOnce.1.body
  rw [hTrace] at hBody
  exact absurd hBody (by decide)

end Zvm.Life
