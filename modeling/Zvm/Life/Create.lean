import Zvm.Os.GuestMemoryUndo
import Zvm.Os.GuestRam
import Zvm.Vcpu.Placement

/-!
# Creating a VM

A create command parses its options, lets `get_os_template_type` take an identifier and
guest RAM, and then builds the VM in stages: `vm_create`, the interrupt block, the vCPUs,
each of which is given a physical CPU, the devices and the memory.

`get_os_template_type` gives back what it took when it refuses, as far as the address it
frees is its own.  No stage behind it gives anything back: a command that fails there leaves
the identifier and the RAM taken, the vCPUs placed so far on their CPUs, and once
`vm_create` has returned a VM in `vms[]` that is not complete.

The stages that are not modelled here take none of these resources; what they return is a
parameter (`Stages`).  Heap allocations do not fail: the code passes their results to
`memset` before it tests them.
-/

namespace Zvm.Life.Create

open Zvm.Verified.FunArray Zvm.Verified.Run
open Zvm.Os.GuestMemory Zvm.Os.Vmid Zvm.Os.Template Zvm.Vcpu

/-- `-ENXIO`, `-ENODEV` and `-ESRCH`. -/
def eNxio : Int := -6
def eNodev : Int := -19
def eSrch : Int := -3

/-! ## The options -/

/-- An option as `getopt` returns it; `-c` and `-m` with the value of `strtol` and whether
the number is the whole argument. -/
inductive CreateOpt where
  | t (optarg : String)
  | c (val : Int) (whole : Bool)
  | m (val : Int) (whole : Bool)
  | other

/-- The local variables of `handle_vm_create_cmd`. -/
structure CreateArgs where
  guestOs : ZOsInfo
  specialCpu : Bool
  specialMem : Bool

/-- `UINT16_MAX`, which stands for no OS type. -/
def noOsType : Nat := 0xffff

def initialArgs : CreateArgs := ⟨⟨noOsType, 0, 0, 0, 0, 0, 0, 0, 0, 0⟩, false, false⟩

/-- `get_os_type_from_args`. -/
def getOsTypeFromArgs (osType : String) : Int :=
  if osType = "zephyr" then osTypeZephyr
  else if osType = "linux" then osTypeLinux
  else if osType = "freertos" then osTypeFreertos
  else eInval

/-- A round of the loop of `handle_vm_create_cmd`.  The vCPUs are checked against the OS type
read so far. -/
def handleOpt (p : Platform) (vcpuUse : Nat → Int) (a : CreateArgs) :
    CreateOpt → Option CreateArgs
  | .t optarg =>
    if getOsTypeFromArgs optarg < 0 then none
    else some { a with guestOs := { a.guestOs with osType := (getOsTypeFromArgs optarg).toNat } }
  | .c val whole =>
    if !whole || decide (val ≤ 0) || decide ((p.maxVcpuPerVm : Int) < val) ||
        !vcpuMarginCheck p vcpuUse a.guestOs.osType val.toNat then none
    else some { a with
      guestOs := { a.guestOs with vcpuNum := val.toNat % 2 ^ 16 }, specialCpu := true }
  | .m val whole =>
    if !whole || decide (val ≤ 0) || decide (1024 < val) then none
    else some { a with
      guestOs := { a.guestOs with vmMemSize := val.toNat * 1024 * 1024 % 2 ^ 32 }
      specialMem := true }
  | .other => none

/-- `handle_vm_create_cmd` up to the call of `get_os_template_type`. -/
def parseCreateCmd (p : Platform) (vcpuUse : Nat → Int) (opts : List CreateOpt) :
    Option CreateArgs :=
  match opts.foldlM (handleOpt p vcpuUse) initialArgs with
  | none => none
  | some a => if a.guestOs.osType = noOsType then none else some a

/-! ## The stages -/

/-- The resources of the host.  A VM is the address of its structure, a vCPU the address of
its VM and its number. -/
structure HostState where
  os : HostOs
  placement : Placement (Nat × Nat)
  vms : Nat → Option Nat

/-- The address of the new VM, and what the other functions return for it. -/
structure Stages where
  vm : Nat
  vmMemDomainCreate : Int
  vmIrqBlockInit : Int
  archVcpuInit : Nat → Int
  vmDeviceInit : Int
  vmMemInit : Int

/-- What `vm_create` leaves in the VM. -/
structure NewVm where
  isRtos : Bool
  vcpuNum : Nat

/-- `vm_os_create`: `is_rtos`, or an error. -/
def vmOsCreate (osType : Nat) : Except Int Bool :=
  if osType = osTypeLinux then .ok false
  else if osType = osTypeZephyr then .ok true
  else if osType = osTypeFreertos then .ok true
  else .error eNxio

/-- The number of vCPUs `vm_vcpus_create` leaves in the VM. -/
def vmVcpusCreate (p : Platform) (vcpuNum : Nat) : Nat :=
  if p.maxVcpuPerVm < vcpuNum then p.maxVcpuPerVm else vcpuNum

/-- `vm_create`. -/
def vmCreate (p : Platform) (st : Stages) (s : HostState) (vmid : Nat) :
    HostState × Except Int NewVm :=
  match vmOsCreate (s.os.zOverallVmInfo vmid).osType with
  | .error ret => (s, .error ret)
  | .ok isRtos =>
    if st.vmMemDomainCreate ≠ 0 then (s, .error st.vmMemDomainCreate)
    else
      ({ s with vms := set s.vms vmid (some st.vm) },
        .ok ⟨isRtos, vmVcpusCreate p (s.os.zOverallVmInfo vmid).vcpuNum⟩)

/-- `vm_vcpu_init`, with a scheduler that can bind threads to CPUs. -/
def vmVcpuInit (p : Platform) (st : Stages) (isRtos : Bool) (pl : Placement (Nat × Nat))
    (i : Nat) : Placement (Nat × Nat) × Bool :=
  match preAllocVcpuSingle p ⟨Prod.fst, fun _ => isRtos⟩ pl (st.vm, i) with
  | (pl', false) => (pl', false)
  | (pl', true) => (pl', st.archVcpuInit i == 0)

/-- The loop of `vm_vcpus_init`, for `n` vCPUs from number `i` on. -/
def vcpusInitFrom (p : Platform) (st : Stages) (isRtos : Bool) :
    Nat → Nat → Placement (Nat × Nat) → Placement (Nat × Nat) × Int
  | 0, _, pl => (pl, 0)
  | n + 1, i, pl =>
    match vmVcpuInit p st isRtos pl i with
    | (pl', false) => (pl', eNodev)
    | (pl', true) => vcpusInitFrom p st isRtos n (i + 1) pl'

/-- `vm_vcpus_init`. -/
def vmVcpusInit (p : Platform) (st : Stages) (vm : NewVm) (pl : Placement (Nat × Nat)) :
    Placement (Nat × Nat) × Int :=
  if p.maxVcpuPerVm < vm.vcpuNum then (pl, eSrch)
  else vcpusInitFrom p st vm.isRtos vm.vcpuNum 0 pl

/-- The part of `z_create_guest` behind `vm_create`. -/
def initGuest (p : Platform) (st : Stages) (s : HostState) (vm : NewVm) : HostState × Int :=
  if st.vmIrqBlockInit < 0 then (s, st.vmIrqBlockInit)
  else
    match vmVcpusInit p st vm s.placement with
    | (pl, ret) =>
      if ret < 0 then ({ s with placement := pl }, eNxio)
      else if st.vmDeviceInit ≠ 0 then ({ s with placement := pl }, st.vmDeviceInit)
      else if st.vmMemInit < 0 then ({ s with placement := pl }, st.vmMemInit)
      else ({ s with placement := pl }, 0)

/-- `z_create_guest`. -/
def zCreateGuest (p : Platform) (st : Stages) (s : HostState) (vmid : Nat) : HostState × Int :=
  match vmCreate p st s vmid with
  | (s', .error ret) => (s', ret)
  | (s', .ok vm) => initGuest p st s' vm

/-- `zvm_vm_operation_template` for a create command: 0, or the error. -/
def createCommand (p : Platform) (st : Stages) (s : HostState) (opts : List CreateOpt) :
    HostState × Int :=
  match parseCreateCmd p s.placement.vcpuUse opts with
  | none => (s, eInval)
  | some a =>
    match getOsTemplateType p s.os s.placement.vcpuUse a.guestOs a.specialCpu a.specialMem with
    | (os, ret) =>
      if ret < 0 then ({ s with os := os }, eInval)
      else zCreateGuest p st { s with os := os } ret.toNat

/-! ## The property and the condition -/

/-- The resources are as before. -/
structure Unchanged (s s' : HostState) : Prop where
  vmids : s'.os.vmids = s.os.vmids
  blocks : SameList s.os.guestMemManager s'.os.guestMemManager
  vcpuUse : s'.placement.vcpuUse = s.placement.vcpuUse
  map : s'.placement.map = s.placement.map
  vms : s'.vms = s.vms

/-- `get_os_template_type` refuses the VM: there is no memory, there are too many vCPUs for a
VM or for the CPUs, or there is no such configuration. -/
def templateRefuses (p : Platform) (s : HostState) (a : CreateArgs) : Bool :=
  !canAllocate s.os.guestMemManager (tempMemSize p a.guestOs a.specialMem) ||
    (a.specialCpu && decide (p.maxVcpuPerVm < tempVcpuNum p a.guestOs a.specialCpu)) ||
    !vcpuMarginCheck p s.placement.vcpuUse a.guestOs.osType
      (tempVcpuNum p a.guestOs a.specialCpu) ||
    (guestConfigAvailable p (tempVcpuNum p a.guestOs a.specialCpu) a.guestOs.osType
      (tempMemSize p a.guestOs a.specialMem)).isNone

/-- The command fails before anything was taken for good: its options are wrong, there is no
identifier, or `get_os_template_type` refuses it and can undo its allocation, given the load
base left in the record of the identifier. -/
def failsClean (p : Platform) (s : HostState) (opts : List CreateOpt) : Bool :=
  match parseCreateCmd p s.placement.vcpuUse opts with
  | none => true
  | some a =>
    decide (p.maxVmNum ≤ (allocateVmid p.maxVmNum s.os.vmids).2) ||
      (templateRefuses p s a &&
        undoable s.os.guestMemManager (tempMemSize p a.guestOs a.specialMem)
          (s.os.zOverallVmInfo (allocateVmid p.maxVmNum s.os.vmids).2).vmLoadBase)

/-! ## What the template does -/

section Template

variable {p : Platform} {s : HostState} {a : CreateArgs} {vmids : VmidPool} {vmid : Nat}

theorem template_noVmid (hVmid : allocateVmid p.maxVmNum s.os.vmids = (vmids, vmid))
    (hFull : p.maxVmNum ≤ vmid) :
    getOsTemplateType p s.os s.placement.vcpuUse a.guestOs a.specialCpu a.specialMem =
      (s.os, eOverflow) := by
  have hPool : vmids = s.os.vmids := by
    rcases allocateVmid_cases p.maxVmNum_le s.os.vmids with hSame | ⟨res, hLt, _, _, _, hEq⟩
    · exact (Prod.mk.inj (hVmid.symm.trans hSame)).1
    · have := (Prod.mk.inj (hVmid.symm.trans hEq)).2
      omega
  simp only [getOsTemplateType, hVmid, if_pos hFull, hPool]

/-- A refused VM: the identifier is given back, and of the memory the address that is freed is
the allocated one, or the one in the record if none was allocated. -/
theorem template_refused (hVmid : allocateVmid p.maxVmNum s.os.vmids = (vmids, vmid))
    (hLt : vmid < p.maxVmNum) (hRefuses : templateRefuses p s a = true) :
    ∃ os records, getOsTemplateType p s.os s.placement.vcpuUse a.guestOs a.specialCpu
        a.specialMem =
      (⟨freeGuestMemoryPart
          (allocateGuestMemoryPart s.os.guestMemManager os
            (tempMemSize p a.guestOs a.specialMem)).1
          (if (allocateGuestMemoryPart s.os.guestMemManager os
              (tempMemSize p a.guestOs a.specialMem)).2 = 0
            then (s.os.zOverallVmInfo vmid).vmLoadBase
            else (allocateGuestMemoryPart s.os.guestMemManager os
              (tempMemSize p a.guestOs a.specialMem)).2),
        s.os.vmids, records⟩, eInval) := by
  have hBack := (freeVmid_allocateVmid p.maxVmNum_le hVmid hLt).2.2
  refine ⟨(p.guestOsTemplate a.guestOs.osType).osType, ?_⟩
  simp only [getOsTemplateType, hVmid, if_neg (Nat.not_le_of_lt hLt), copyTemplate]
  split
  case isTrue hRet => exact ⟨_, by simp only [failPath, set_same, hBack]; rfl⟩
  case isFalse hRet =>
    -- memory was allocated, so one of the other checks failed
    have hCan := (canAllocate_iff s.os.guestMemManager
      (p.guestOsTemplate a.guestOs.osType).osType _).mpr hRet
    simp only [templateRefuses, hCan, Bool.not_true, Bool.false_or, Bool.or_eq_true] at hRefuses
    split
    case isTrue => exact ⟨_, by simp only [failPath, set_same, hBack]; rfl⟩
    case isFalse hNum =>
      split
      case isTrue => exact ⟨_, by simp only [failPath, set_same, hBack]; rfl⟩
      case isFalse hMargin =>
        split
        case h_1 => exact ⟨_, by simp only [failPath, set_same, hBack]; rfl⟩
        case h_2 cfg hCfg =>
          rcases hRefuses with (hBad | hBad) | hBad
          · exact absurd hBad hNum
          · exact absurd hBad hMargin
          · simp [hCfg] at hBad

/-- An accepted VM keeps its identifier. -/
theorem template_accepted (hVmid : allocateVmid p.maxVmNum s.os.vmids = (vmids, vmid))
    (hLt : vmid < p.maxVmNum) (hAccepts : templateRefuses p s a = false) :
    ∃ mm records, getOsTemplateType p s.os s.placement.vcpuUse a.guestOs a.specialCpu
      a.specialMem = (⟨mm, vmids, records⟩, (vmid : Int)) := by
  simp only [templateRefuses, Bool.or_eq_false_iff, Bool.not_eq_false'] at hAccepts
  obtain ⟨⟨⟨hCan, hNum⟩, hMargin⟩, hCfg⟩ := hAccepts
  have hRet := (canAllocate_iff _ (p.guestOsTemplate a.guestOs.osType).osType _).mp hCan
  obtain ⟨cfg, hSome⟩ := Option.isSome_iff_exists.mp (by simpa using hCfg)
  simp only [getOsTemplateType, hVmid, if_neg (Nat.not_le_of_lt hLt), copyTemplate, if_neg hRet,
    hNum, hMargin, hSome]
  exact ⟨_, _, rfl⟩

end Template

/-! ## What the later stages do -/

section Stages

variable {p : Platform} {st : Stages}

/-- The stages behind the template leave the identifiers and the memory alone. -/
theorem initGuest_os (s : HostState) (vm : NewVm) : (initGuest p st s vm).1.os = s.os := by
  unfold initGuest
  split
  · rfl
  · dsimp only
    split
    · rfl
    · split
      · rfl
      · split <;> rfl

theorem zCreateGuest_os (s : HostState) (vmid : Nat) : (zCreateGuest p st s vmid).1.os = s.os := by
  unfold zCreateGuest vmCreate
  split
  case h_1 s' ret hEq =>
    split at hEq
    · rw [← (Prod.mk.inj hEq).1]
    · split at hEq
      · rw [← (Prod.mk.inj hEq).1]
      · cases (Prod.mk.inj hEq).2
  case h_2 s' vm hEq =>
    rw [initGuest_os]
    split at hEq
    · cases (Prod.mk.inj hEq).2
    · split at hEq
      · cases (Prod.mk.inj hEq).2
      · rw [← (Prod.mk.inj hEq).1]

end Stages

/-! ## The whole command -/

section Command

variable {p : Platform} {s : HostState} {a : CreateArgs} {opts : List CreateOpt}

/-- A VM that the template accepts has its identifier afterwards, whatever happens later. -/
theorem accepted_not_unchanged (st : Stages)
    (hParse : parseCreateCmd p s.placement.vcpuUse opts = some a)
    (hLt : (allocateVmid p.maxVmNum s.os.vmids).2 < p.maxVmNum)
    (hAccepts : templateRefuses p s a = false) : ¬ Unchanged s (createCommand p st s opts).1 := by
  cases hVmid : allocateVmid p.maxVmNum s.os.vmids with
  | mk vmids vmid =>
    rw [hVmid] at hLt
    obtain ⟨mm, records, hEq⟩ := template_accepted hVmid hLt hAccepts
    obtain ⟨hClear, hUsed, _⟩ := freeVmid_allocateVmid p.maxVmNum_le hVmid hLt
    intro hSame
    have hPool := hSame.vmids
    simp only [createCommand, hParse, hEq, if_neg (Int.not_lt.mpr (Int.natCast_nonneg vmid)),
      zCreateGuest_os] at hPool
    rw [hPool, hClear] at hUsed
    cases hUsed

/-- A VM that the template refuses leaves only what became of the memory. -/
theorem refused_unchanged_iff (st : Stages) (hReg : Regular s.os.guestMemManager)
    (hParse : parseCreateCmd p s.placement.vcpuUse opts = some a)
    (hLt : (allocateVmid p.maxVmNum s.os.vmids).2 < p.maxVmNum)
    (hRefuses : templateRefuses p s a = true) :
    Unchanged s (createCommand p st s opts).1 ↔
      undoable s.os.guestMemManager (tempMemSize p a.guestOs a.specialMem)
        (s.os.zOverallVmInfo (allocateVmid p.maxVmNum s.os.vmids).2).vmLoadBase = true := by
  cases hVmid : allocateVmid p.maxVmNum s.os.vmids with
  | mk vmids vmid =>
    rw [hVmid] at hLt
    obtain ⟨os, records, hEq⟩ := template_refused hVmid hLt hRefuses
    have hUndo := undo_iff hReg os (tempMemSize p a.guestOs a.specialMem)
      (s.os.zOverallVmInfo vmid).vmLoadBase
    rw [← hUndo]
    simp only [createCommand, hParse, hEq, if_pos (show eInval < 0 by decide)]
    constructor
    · intro hSame
      exact hSame.blocks
    · intro hBlocks
      exact ⟨rfl, hBlocks, rfl, rfl, rfl⟩

end Command

/--
**Creation is atomic only up to the template**: in every state of the host, whose block list
is the result of any calls of the memory manager, a create command leaves the resources as
they were exactly if it fails clean.  One that succeeds does not, and neither does one that
fails in a later stage.
-/
theorem unchanged_iff_failsClean (p : Platform) (st : Stages) {baseAddr totalMem : Nat}
    (hBase : baseAddr < 2 ^ 64) (hTotal : totalMem < 2 ^ 64) (calls : List MemCall)
    (s : HostState)
    (hMem : s.os.guestMemManager = exec memStep (guestMemoryManagerInit baseAddr totalMem) calls)
    (opts : List CreateOpt) :
    Unchanged s (createCommand p st s opts).1 ↔ failsClean p s opts = true := by
  have hReg : Regular s.os.guestMemManager := by
    rw [hMem]
    exact regular_exec hBase hTotal calls
  unfold failsClean
  cases hParse : parseCreateCmd p s.placement.vcpuUse opts with
  | none =>
    simp only [createCommand, hParse, iff_true]
    exact ⟨rfl, SameList.refl _, rfl, rfl, rfl⟩
  | some a =>
    simp only [Bool.or_eq_true, Bool.and_eq_true, decide_eq_true_eq]
    rcases Nat.lt_or_ge (allocateVmid p.maxVmNum s.os.vmids).2 p.maxVmNum with hLt | hFull
    · cases hRefuses : templateRefuses p s a with
      | false =>
        have hChanged := accepted_not_unchanged st hParse hLt hRefuses
        simp [hChanged, Nat.not_le_of_lt hLt]
      | true =>
        rw [refused_unchanged_iff st hReg hParse hLt hRefuses]
        simp [Nat.not_le_of_lt hLt]
    · have hNone := template_noVmid (a := a) (Prod.eta (allocateVmid p.maxVmNum s.os.vmids)).symm
        hFull
      simp only [createCommand, hParse, hNone, if_pos (show eOverflow < 0 by decide), hFull,
        true_or, iff_true]
      exact ⟨rfl, SameList.refl _, rfl, rfl, rfl⟩

/-- A host without VMs. -/
def idleHost : HostState where
  os := (Os.GuestRam.boot 0xa0000000 0x3000000).os
  placement := emptyPlacement fun _ => -1
  vms := fun _ => none

/-- Nothing fails. -/
def noFailure : Stages := ⟨1, 0, 0, fun _ => 0, 0, 0⟩

/-- A VM with more memory than the host has: the command fails and leaves no trace. -/
theorem unchanged_too_large :
    Unchanged idleHost
      (createCommand Os.GuestRam.samplePlatform noFailure idleHost [.t "zephyr", .m 64 true]).1 :=
  (unchanged_iff_failsClean Os.GuestRam.samplePlatform noFailure
    (show 0xa0000000 < 2 ^ 64 by decide) (show 0x3000000 < 2 ^ 64 by decide) [] idleHost rfl
    [.t "zephyr", .m 64 true]).mpr (by decide +kernel)

/-- A VM whose memory cannot be mapped: the command fails, and the identifier, the entry of
`vms[]` and the physical CPU stay taken. -/
theorem failed_mapping_keeps_resources :
    (createCommand Os.GuestRam.samplePlatform { noFailure with vmMemInit := -12 } idleHost
        [.t "zephyr"]).2 = -12 ∧
      ¬ Unchanged idleHost
        (createCommand Os.GuestRam.samplePlatform { noFailure with vmMemInit := -12 } idleHost
          [.t "zephyr"]).1 ∧
      (createCommand Os.GuestRam.samplePlatform { noFailure with vmMemInit := -12 } idleHost
        [.t "zephyr"]).1.vms 0 = some 1 ∧
      (createCommand Os.GuestRam.samplePlatform { noFailure with vmMemInit := -12 } idleHost
        [.t "zephyr"]).1.placement.map 4 = [(1, 0)] := by
  have hVms : (createCommand Os.GuestRam.samplePlatform { noFailure with vmMemInit := -12 }
      idleHost [.t "zephyr"]).1.vms 0 = some 1 := by decide +kernel
  refine ⟨by decide +kernel, fun hSame => ?_, hVms, by decide +kernel⟩
  have hNone : (createCommand Os.GuestRam.samplePlatform { noFailure with vmMemInit := -12 }
      idleHost [.t "zephyr"]).1.vms 0 = none := congrFun hSame.vms 0
  rw [hVms] at hNone
  cases hNone

end Zvm.Life.Create
