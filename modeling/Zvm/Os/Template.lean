import Zvm.Os.GuestMemoryLayout
import Zvm.Os.Vmid

/-!
# Configuring a new guest

`get_os_template_type` (`subsys/zvm/os.c`) turns a create command into a VM
identifier and a filled record `z_overall_vm_info[vmid]`: it takes an
identifier, copies the template of the OS type, allocates guest RAM, checks the
number of vCPUs and looks up the devicetree configuration.  All failures behind
the identifier share one exit, which frees the RAM named by the record, clears
the record and gives the identifier back.

The record is not cleared when a VM is deleted, and `vm_load_base` is the one
field that is not copied from the template.  So the shared exit reads the value
the *previous* owner of the identifier left there, unless this call has already
stored its own allocation: `failPath` below is applied to the record as it is.

Kconfig and devicetree values are parameters (`Platform`).  The template table
is a total function because the code indexes it with an unchecked OS type; the
occupation of the physical CPUs, which other functions maintain, is an argument.
-/

namespace Zvm.Os.Template

open Zvm.Verified.FunArray Zvm.Os.GuestMemory Zvm.Os.Vmid

/-- `struct z_os_info`. -/
structure ZOsInfo where
  osType : Nat
  vcpuNum : Nat
  vmMemBase : Nat
  vmMemSize : Nat
  vmLoadBase : Nat
  vmImageBase : Nat
  vmImageSize : Nat
  entryPoint : Nat
  linuxDtbLoadAddr : Nat
  linuxDtbLoadSize : Nat
deriving DecidableEq, Repr

/-- One entry of `zephyr_cpies_config`, `linux_dtb_cpies_config` or
`freertos_cpies_config`; the three C types have the same fields. -/
structure CpyConfig where
  vcpuNum : Nat
  maxMemSize : Nat
  vmImageBase : Nat
  vmImageSize : Nat
deriving DecidableEq, Repr

/-- Build-time configuration: Kconfig and devicetree. -/
structure Platform where
  maxVmNum : Nat
  /-- The range Kconfig gives `CONFIG_MAX_VM_NUM`. -/
  maxVmNum_le : maxVmNum ≤ 32
  maxVcpuPerVm : Nat
  maxVcpuPercpu : Nat
  mpMaxNumCpus : Nat
  maxGuestNumLinuxPcpu : Nat
  guestOsTemplate : Nat → ZOsInfo
  zephyrCpiesConfig : List CpyConfig
  linuxDtbCpiesConfig : List CpyConfig
  freertosCpiesConfig : List CpyConfig
  linuxCpiesImageAddr : Nat
  linuxCpiesImageSize : Nat
  linuxDtbMemBase : Nat
  linuxDtbMemSize : Nat

def osTypeZephyr : Nat := 0
def osTypeLinux : Nat := 1
def osTypeFreertos : Nat := 2

/-- The state these functions share. -/
structure HostOs where
  guestMemManager : GuestMemoryManager
  vmids : VmidPool
  zOverallVmInfo : Nat → ZOsInfo

/-- `-EOVERFLOW` and `-EINVAL`. -/
def eOverflow : Int := -139
def eInval : Int := -22

/-! ## The checks -/

/-- `guest_os_is_rtos`. -/
def guestOsIsRtos (osType : Nat) : Bool := decide (osType ≠ osTypeLinux)

/-- `get_vcpu_domain_range`: the physical CPUs for guests of one kind. -/
def getVcpuDomainRange (p : Platform) (isRtos : Bool) : Nat × Nat :=
  if isRtos then (1 + p.maxGuestNumLinuxPcpu, p.mpMaxNumCpus)
  else (1, 1 + p.maxGuestNumLinuxPcpu)

/-- `vcpu_margin_check`: enough physical CPUs of the domain have room. -/
def vcpuMarginCheck (p : Platform) (vcpuUse : Nat → Int) (osType num : Nat) : Bool :=
  let range := getVcpuDomainRange p (guestOsIsRtos osType)
  let maxVcpu : Int := if guestOsIsRtos osType then 1 else p.maxVcpuPercpu
  let available := ((List.range range.2).filter
    fun pcpu => decide (range.1 ≤ pcpu) && decide (vcpuUse pcpu < maxVcpu)).length
  decide (num ≤ available)

/-- `guest_config_available`: the first entry for the OS type with this number of
vCPUs and this memory size. -/
def guestConfigAvailable (p : Platform) (vcpuNum osType memSize : Nat) : Option CpyConfig :=
  let hit := fun cfg : CpyConfig =>
    decide (vcpuNum = cfg.vcpuNum) && decide (memSize = cfg.maxMemSize)
  if osType = osTypeZephyr then p.zephyrCpiesConfig.find? hit
  else if osType = osTypeLinux then p.linuxDtbCpiesConfig.find? hit
  else if osType = osTypeFreertos then p.freertosCpiesConfig.find? hit
  else none

/-! ## The create command -/

/-- `temp_mem_size`, a 32-bit variable. -/
def tempMemSize (p : Platform) (guestOs : ZOsInfo) (specialMem : Bool) : Nat :=
  (if specialMem then guestOs.vmMemSize else (p.guestOsTemplate guestOs.osType).vmMemSize)
    % 2 ^ 32

/-- `temp_vcpu_num`. -/
def tempVcpuNum (p : Platform) (guestOs : ZOsInfo) (specialCpu : Bool) : Nat :=
  if specialCpu then guestOs.vcpuNum else (p.guestOsTemplate guestOs.osType).vcpuNum

/-- The record after the template was copied; the load base is the old one. -/
def copyTemplate (p : Platform) (osType : Nat) (old : ZOsInfo) : ZOsInfo :=
  let template := p.guestOsTemplate osType
  { old with
    osType := template.osType
    vcpuNum := template.vcpuNum
    vmMemBase := template.vmMemBase
    vmMemSize := template.vmMemSize
    vmImageBase := template.vmImageBase
    vmImageSize := template.vmImageSize
    entryPoint := template.entryPoint }

/-- The exit `fail:` for identifier `vmid`. -/
def failPath (p : Platform) (s : HostOs) (vmid : Nat) : HostOs × Int :=
  let info := s.zOverallVmInfo vmid
  ({ guestMemManager := freeGuestMemoryPart s.guestMemManager info.vmLoadBase
     vmids := freeVmid p.maxVmNum s.vmids vmid
     zOverallVmInfo := set s.zOverallVmInfo vmid
       { info with
         osType := 0, vcpuNum := 0, vmMemBase := 0, vmMemSize := 0, vmImageBase := 0
         vmImageSize := 0, vmLoadBase := 0, entryPoint := 0 } },
    eInval)

/-- The image the new VM is loaded from. -/
def imageOf (p : Platform) (osType : Nat) (cfg : CpyConfig) (info : ZOsInfo) : Nat × Nat :=
  if osType = osTypeZephyr then (cfg.vmImageBase, cfg.vmImageSize)
  else if osType = osTypeLinux then (p.linuxCpiesImageAddr, p.linuxCpiesImageSize)
  else if osType = osTypeFreertos then (cfg.vmImageBase, cfg.vmImageSize)
  else (info.vmImageBase, info.vmImageSize)

/-- The record of a VM whose configuration was accepted. -/
def acceptedInfo (p : Platform) (guestOs : ZOsInfo) (vmid vcpuNum memSize : Nat)
    (cfg : CpyConfig) (info : ZOsInfo) : ZOsInfo :=
  let image := imageOf p guestOs.osType cfg info
  { info with
    vmImageBase := image.1
    vmImageSize := image.2
    vcpuNum := vcpuNum
    vmMemSize := memSize
    linuxDtbLoadAddr := (p.linuxDtbMemBase + p.linuxDtbMemSize * vmid) % 2 ^ 64
    linuxDtbLoadSize := p.linuxDtbMemSize }

/-- `get_os_template_type`: the new state and the identifier or an error. -/
def getOsTemplateType (p : Platform) (s : HostOs) (vcpuUse : Nat → Int)
    (guestOs : ZOsInfo) (specialCpu specialMem : Bool) : HostOs × Int :=
  let (vmids, tmpVmid) := allocateVmid p.maxVmNum s.vmids
  if p.maxVmNum ≤ tmpVmid then ({ s with vmids := vmids }, eOverflow)
  else
    let info := copyTemplate p guestOs.osType (s.zOverallVmInfo tmpVmid)
    let memSize := tempMemSize p guestOs specialMem
    let (mm, loadBase) := allocateGuestMemoryPart s.guestMemManager info.osType memSize
    if loadBase = 0 then
      failPath p ⟨mm, vmids, set s.zOverallVmInfo tmpVmid info⟩ tmpVmid
    else
      let info := { info with vmLoadBase := loadBase }
      let s' : HostOs := ⟨mm, vmids, set s.zOverallVmInfo tmpVmid info⟩
      let vcpuNum := tempVcpuNum p guestOs specialCpu
      if specialCpu && decide (p.maxVcpuPerVm < vcpuNum) then failPath p s' tmpVmid
      else if !vcpuMarginCheck p vcpuUse guestOs.osType vcpuNum then failPath p s' tmpVmid
      else
        match guestConfigAvailable p vcpuNum guestOs.osType memSize with
        | none => failPath p s' tmpVmid
        | some cfg =>
          ({ s' with
             zOverallVmInfo := set s'.zOverallVmInfo tmpVmid
               (acceptedInfo p guestOs tmpVmid vcpuNum memSize cfg info) },
            tmpVmid)

/-! ## What a call can do -/

/-- The ways a call of `get_os_template_type` can end. -/
inductive TemplateOutcome (p : Platform) (s : HostOs) (guestOs : ZOsInfo)
    (specialCpu specialMem : Bool) : HostOs × Int → Prop
  /-- No identifier is left; nothing has changed. -/
  | noVmid : TemplateOutcome p s guestOs specialCpu specialMem (s, eOverflow)
  /-- Guest RAM could not be allocated: the record still has its old load base. -/
  | noMemory (vmid : Nat) (vmids : VmidPool) (os : Nat)
      (hVmid : allocateVmid p.maxVmNum s.vmids = (vmids, vmid)) (hLt : vmid < p.maxVmNum)
      (hRet : (allocateGuestMemoryPart s.guestMemManager os
        (tempMemSize p guestOs specialMem)).2 = 0) (info : ZOsInfo)
      (hInfo : info.vmLoadBase = (s.zOverallVmInfo vmid).vmLoadBase) :
      TemplateOutcome p s guestOs specialCpu specialMem
        (failPath p ⟨(allocateGuestMemoryPart s.guestMemManager os
          (tempMemSize p guestOs specialMem)).1, vmids, set s.zOverallVmInfo vmid info⟩ vmid)
  /-- The vCPUs or the configuration were refused after the allocation. -/
  | refused (vmid : Nat) (vmids : VmidPool) (os : Nat)
      (hVmid : allocateVmid p.maxVmNum s.vmids = (vmids, vmid)) (hLt : vmid < p.maxVmNum)
      (hRet : (allocateGuestMemoryPart s.guestMemManager os
        (tempMemSize p guestOs specialMem)).2 ≠ 0) (info : ZOsInfo)
      (hInfo : info.vmLoadBase = (allocateGuestMemoryPart s.guestMemManager os
        (tempMemSize p guestOs specialMem)).2) :
      TemplateOutcome p s guestOs specialCpu specialMem
        (failPath p ⟨(allocateGuestMemoryPart s.guestMemManager os
          (tempMemSize p guestOs specialMem)).1, vmids, set s.zOverallVmInfo vmid info⟩ vmid)
  /-- The VM is configured. -/
  | created (vmid : Nat) (vmids : VmidPool) (os : Nat)
      (hVmid : allocateVmid p.maxVmNum s.vmids = (vmids, vmid)) (hLt : vmid < p.maxVmNum)
      (hRet : (allocateGuestMemoryPart s.guestMemManager os
        (tempMemSize p guestOs specialMem)).2 ≠ 0) (records : Nat → ZOsInfo)
      (hBase : (records vmid).vmLoadBase = (allocateGuestMemoryPart s.guestMemManager os
        (tempMemSize p guestOs specialMem)).2)
      (hSize : (records vmid).vmMemSize = tempMemSize p guestOs specialMem)
      (hConfig : guestConfigAvailable p (tempVcpuNum p guestOs specialCpu) guestOs.osType
        (tempMemSize p guestOs specialMem) ≠ none) :
      TemplateOutcome p s guestOs specialCpu specialMem
        (⟨(allocateGuestMemoryPart s.guestMemManager os
          (tempMemSize p guestOs specialMem)).1, vmids, records⟩, vmid)

theorem getOsTemplateType_outcome (p : Platform) (s : HostOs) (vcpuUse : Nat → Int)
    (guestOs : ZOsInfo) (specialCpu specialMem : Bool) :
    TemplateOutcome p s guestOs specialCpu specialMem
      (getOsTemplateType p s vcpuUse guestOs specialCpu specialMem) := by
  unfold getOsTemplateType
  cases hVmid : allocateVmid p.maxVmNum s.vmids with
  | mk vmids vmid =>
    dsimp only
    split
    case isTrue hFull =>
      -- a failed search leaves the identifiers as they were
      rcases allocateVmid_cases p.maxVmNum_le s.vmids with hSame | ⟨res, hLt, _, _, _, hSome⟩
      · obtain ⟨rfl, _⟩ := Prod.mk.inj (hVmid.symm.trans hSame)
        exact .noVmid
      · obtain ⟨_, rfl⟩ := Prod.mk.inj (hVmid.symm.trans hSome)
        omega
    case isFalse hLt =>
      split
      case isTrue hRet => exact .noMemory vmid vmids _ hVmid (by omega) hRet _ rfl
      case isFalse hRet =>
        split
        case isTrue => exact .refused vmid vmids _ hVmid (by omega) hRet _ rfl
        case isFalse =>
          split
          case isTrue => exact .refused vmid vmids _ hVmid (by omega) hRet _ rfl
          case isFalse =>
            split
            case h_1 => exact .refused vmid vmids _ hVmid (by omega) hRet _ rfl
            case h_2 cfg hCfg =>
              refine .created vmid vmids _ hVmid (by omega) hRet _ ?_ ?_ (by simp [hCfg])
              · rw [set_same]
                rfl
              · rw [set_same]
                rfl

end Zvm.Os.Template
