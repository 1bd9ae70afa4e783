import Zvm.Os.Template

/-!
# Guest RAM over the life of the system

The state machine of this module has the two commands that change who owns
guest RAM: creating a VM (`get_os_template_type`, which may fail anywhere) and
deleting one (`free_guest_memory_part` of its load base, then `free_vmid`).  A
live VM is one whose create command returned its identifier and that was not
deleted since; it keeps its own copy of the record, as `vm_os_create` makes it.

`RamPrivate` is what guests rely on: the RAM of a live VM is exactly one block,
allocated, and no address belongs to two of them.

The shared failure exit of `get_os_template_type` can break it.  When the
allocation fails, the exit frees whatever load base the previous owner of the
identifier left in its record, and by then that address may belong to another
live VM (`reused_vmid_frees_live_ram`).  `CreateSafe` is the condition under
which a create command is harmless, and `ramPrivate_of_createSafe` shows that it
is enough over whole runs.
-/

namespace Zvm.Os.GuestRam

open Zvm.Verified.FunArray Zvm.Verified.Run Zvm.Os.GuestMemory Zvm.Os.Vmid Zvm.Os.Template

/-- The shared state, and the record each live VM was started with. -/
structure GuestPool where
  os : HostOs
  live : Nat → Option ZOsInfo

inductive Command where
  /-- A create command, issued while the physical CPUs are used as `vcpuUse` says. -/
  | create (guestOs : ZOsInfo) (specialCpu specialMem : Bool) (vcpuUse : Nat → Int)
  /-- Deletion of a live VM. -/
  | delete (vmid : Nat)

/-- The state after `guest_memory_manager_init`. -/
def boot (baseAddr totalMem : Nat) : GuestPool where
  os :=
    { guestMemManager := guestMemoryManagerInit baseAddr totalMem
      vmids := ⟨0#32, 0#32⟩
      zOverallVmInfo := fun _ => ⟨0, 0, 0, 0, 0, 0, 0, 0, 0, 0⟩ }
  live := fun _ => none

/-- One command. -/
def step (p : Platform) (g : GuestPool) : Command → GuestPool
  | .create guestOs specialCpu specialMem vcpuUse =>
    let (os, ret) := getOsTemplateType p g.os vcpuUse guestOs specialCpu specialMem
    if ret < 0 then { g with os := os }
    else ⟨os, set g.live ret.toNat (some (os.zOverallVmInfo ret.toNat))⟩
  | .delete vmid =>
    match g.live vmid with
    | none => g
    | some info =>
      { os :=
          { g.os with
            guestMemManager := freeGuestMemoryPart g.os.guestMemManager info.vmLoadBase
            vmids := freeVmid p.maxVmNum g.os.vmids vmid }
        live := set g.live vmid none }

/-! ## The property and the condition -/

/-- The address `a` lies in `[start, start + size)`, in 64-bit arithmetic. -/
def InRange (start size a : Nat) : Prop := ∃ o < size, a = add64 start o

/-- Exactly one block is allocated and covers `[start, start + size)`. -/
def OneAllocatedBlock (mm : GuestMemoryManager) (start size : Nat) : Prop :=
  ∃! i, i < mm.blkCount ∧ (mm.blkList i).isAllocated = true ∧
    (mm.blkList i).startAddr = start ∧ (mm.blkList i).size = size

/-- The RAM of every live VM is one allocated block, shared with no other VM. -/
structure RamPrivate (g : GuestPool) : Prop where
  block : ∀ v info, g.live v = some info →
    OneAllocatedBlock g.os.guestMemManager info.vmLoadBase info.vmMemSize
  disjoint : ∀ v w infoV infoW, v ≠ w → g.live v = some infoV → g.live w = some infoW →
    ∀ a, ¬ (InRange infoV.vmLoadBase infoV.vmMemSize a ∧
      InRange infoW.vmLoadBase infoW.vmMemSize a)

/-- Some live VM has its RAM at `a`. -/
def isLiveBase (p : Platform) (g : GuestPool) (a : Nat) : Bool :=
  (List.range p.maxVmNum).any fun v =>
    match g.live v with
    | none => false
    | some info => decide (info.vmLoadBase = a)

/-- A create command is harmless: it gets no identifier; or there is memory for
it, or the load base left over in the record of its identifier is no live VM's,
and a request for no memory at all is refused by the configuration. -/
def createSafe (p : Platform) (g : GuestPool) (guestOs : ZOsInfo)
    (specialCpu specialMem : Bool) : Bool :=
  let size := tempMemSize p guestOs specialMem
  let vmid := (allocateVmid p.maxVmNum g.os.vmids).2
  decide (p.maxVmNum ≤ vmid) ||
    (canAllocate g.os.guestMemManager size ||
      !isLiveBase p g (g.os.zOverallVmInfo vmid).vmLoadBase) &&
    (decide (size ≠ 0) ||
      (guestConfigAvailable p (tempVcpuNum p guestOs specialCpu) guestOs.osType 0).isNone)

/-- The condition on the commands of a run. -/
def CreateSafe (p : Platform) (g : GuestPool) : Command → Prop
  | .create guestOs specialCpu specialMem _ =>
    createSafe p g guestOs specialCpu specialMem = true
  | .delete _ => True

instance (p : Platform) (g : GuestPool) : ∀ c, Decidable (CreateSafe p g c)
  | .create .. => inferInstanceAs (Decidable (_ = true))
  | .delete _ => inferInstanceAs (Decidable True)

/-! ## The invariant -/

/-- What every command keeps: the layout of the blocks, and for each live VM an
allocated range at a load base of its own. -/
structure RamInv (p : Platform) (g : GuestPool) : Prop where
  layout : Layout g.os.guestMemManager
  used : ∀ v info, g.live v = some info → v < p.maxVmNum ∧ g.os.vmids.used v = true
  base_ne : ∀ v info, g.live v = some info → info.vmLoadBase ≠ 0
  allocated : ∀ v info, g.live v = some info →
    AllocatedAt g.os.guestMemManager info.vmLoadBase info.vmMemSize
  apart : ∀ v w infoV infoW, v ≠ w → g.live v = some infoV → g.live w = some infoW →
    infoV.vmLoadBase ≠ infoW.vmLoadBase

theorem ramInv_boot (p : Platform) {baseAddr totalMem : Nat} (hBase : baseAddr < 2 ^ 64)
    (hTotal : totalMem < 2 ^ 64) :
    RamInv p (boot baseAddr totalMem) where
  layout := layout_init hBase hTotal
  used := by simp [boot]
  base_ne := by simp [boot]
  allocated := by simp [boot]
  apart := by simp [boot]

/-- Two different blocks share no address. -/
theorem blocks_disjoint {mm : GuestMemoryManager} (hL : Layout mm) {i j : Nat} (hij : i < j)
    (hj : j < mm.blkCount) (a : Nat) :
    ¬ (InRange (mm.blkList i).startAddr (mm.blkList i).size a ∧
      InRange (mm.blkList j).startAddr (mm.blkList j).size a) := by
  rintro ⟨⟨oi, hoi, hai⟩, ⟨oj, hoj, haj⟩⟩
  have hOrder := (hL.order hij hj).1
  have hInI := hL.inside i (by omega)
  have hInJ := hL.inside j hj
  have hTotal := hL.total_lt
  have hBase := hL.base_lt
  have hStartI := hL.start_lt i (by omega)
  have hStartJ := hL.start_lt j hj
  have hEq := hai.symm.trans haj
  unfold off add64 at *
  omega

theorem RamInv.ramPrivate {p : Platform} {g : GuestPool} (hInv : RamInv p g) :
    RamPrivate g where
  block := by
    intro v info hLive
    obtain ⟨i, hi, hAlloc, hStart, hSize⟩ := hInv.allocated v info hLive
    refine ⟨i, ⟨hi, hAlloc, hStart, hSize⟩, ?_⟩
    rintro j ⟨hj, _, hStartJ, _⟩
    have hNe := hInv.base_ne v info hLive
    exact hInv.layout.start_injective hj hi (hStartJ ▸ hNe) (hStartJ.trans hStart.symm)
  disjoint := by
    intro v w infoV infoW hvw hLiveV hLiveW a
    obtain ⟨i, hi, _, hStartI, hSizeI⟩ := hInv.allocated v infoV hLiveV
    obtain ⟨j, hj, _, hStartJ, hSizeJ⟩ := hInv.allocated w infoW hLiveW
    have hNe := hInv.apart v w infoV infoW hvw hLiveV hLiveW
    rw [← hStartI, ← hSizeI, ← hStartJ, ← hSizeJ]
    rcases Nat.lt_trichotomy i j with hlt | rfl | hgt
    · exact blocks_disjoint hInv.layout hlt hj a
    · exact absurd (hStartI.symm.trans hStartJ) hNe
    · rw [and_comm]
      exact blocks_disjoint hInv.layout hgt hi a

/-! ## One command -/

section Step

variable {p : Platform} {g : GuestPool}

/-- A command that leaves the live VMs and their ranges alone keeps the invariant. -/
theorem RamInv.keep (hInv : RamInv p g) {os : HostOs} (hLayout : Layout os.guestMemManager)
    (hUsed : ∀ v info, g.live v = some info → os.vmids.used v = true)
    (hKept : ∀ v info, g.live v = some info →
      AllocatedAt g.os.guestMemManager info.vmLoadBase info.vmMemSize →
      AllocatedAt os.guestMemManager info.vmLoadBase info.vmMemSize) :
    RamInv p { g with os := os } where
  layout := hLayout
  used := fun v info hLive => ⟨(hInv.used v info hLive).1, hUsed v info hLive⟩
  base_ne := hInv.base_ne
  allocated := fun v info hLive => hKept v info hLive (hInv.allocated v info hLive)
  apart := hInv.apart

/-- Taking an identifier and giving it back leaves the others in use. -/
theorem used_after_fail (hInv : RamInv p g) {vmids : VmidPool} {vmid : Nat}
    (hVmid : allocateVmid p.maxVmNum g.os.vmids = (vmids, vmid)) (hLt : vmid < p.maxVmNum)
    (v : Nat) (info : ZOsInfo) (hLive : g.live v = some info) :
    v ≠ vmid ∧ vmids.used v = true ∧
      (freeVmid p.maxVmNum vmids vmid).used v = true := by
  have hBack := (freeVmid_allocateVmid p.maxVmNum_le hVmid hLt).2.2
  have hUsed : (freeVmid p.maxVmNum vmids vmid).used v = true :=
    hBack ▸ (hInv.used v info hLive).2
  have hKept := hUsed
  rw [used_freeVmid p.maxVmNum_le _ hLt, Bool.and_eq_true, decide_eq_true_eq] at hKept
  exact ⟨hKept.2, hKept.1, hUsed⟩

theorem not_isLiveBase {a : Nat} (hInv : RamInv p g) (hNot : isLiveBase p g a = false) (v : Nat)
    (info : ZOsInfo) (hLive : g.live v = some info) : info.vmLoadBase ≠ a := by
  intro hEq
  have hMem : isLiveBase p g a = true := by
    rw [isLiveBase, List.any_eq_true]
    refine ⟨v, List.mem_range.mpr (hInv.used v info hLive).1, ?_⟩
    simp [hLive, hEq]
  simp [hNot] at hMem

/-- A new VM with an allocated range at a fresh load base keeps the invariant. -/
theorem RamInv.add (hInv : RamInv p g) {os : HostOs} {vmid : Nat} (hLt : vmid < p.maxVmNum)
    (hLayout : Layout os.guestMemManager) (hUsed : os.vmids.used vmid = true)
    (hKeep : ∀ v info, g.live v = some info → v ≠ vmid ∧ os.vmids.used v = true)
    (hNe : (os.zOverallVmInfo vmid).vmLoadBase ≠ 0)
    (hFresh : ∀ n, ¬ AllocatedAt g.os.guestMemManager (os.zOverallVmInfo vmid).vmLoadBase n)
    (hAt : ∀ a n, AllocatedAt os.guestMemManager a n ↔
      AllocatedAt g.os.guestMemManager a n ∨
        (a = (os.zOverallVmInfo vmid).vmLoadBase ∧ n = (os.zOverallVmInfo vmid).vmMemSize)) :
    RamInv p ⟨os, set g.live vmid (some (os.zOverallVmInfo vmid))⟩ := by
  -- a live VM is the new one or an old one with another identifier
  have hCases : ∀ v info, set g.live vmid (some (os.zOverallVmInfo vmid)) v = some info →
      (v = vmid ∧ info = os.zOverallVmInfo vmid) ∨ (v ≠ vmid ∧ g.live v = some info) := by
    intro v info hLive
    by_cases hv : v = vmid
    · subst hv
      rw [set_same] at hLive
      exact .inl ⟨rfl, (Option.some.inj hLive).symm⟩
    · rw [set_ne _ _ hv] at hLive
      exact .inr ⟨hv, hLive⟩
  have hOther : ∀ v info, g.live v = some info →
      info.vmLoadBase ≠ (os.zOverallVmInfo vmid).vmLoadBase := by
    intro v info hLive hEq
    exact hFresh _ (hEq ▸ hInv.allocated v info hLive)
  refine ⟨hLayout, ?_, ?_, ?_, ?_⟩
  · intro v info hLive
    rcases hCases v info hLive with ⟨rfl, rfl⟩ | ⟨_, hOld⟩
    · exact ⟨hLt, hUsed⟩
    · exact ⟨(hInv.used v info hOld).1, (hKeep v info hOld).2⟩
  · intro v info hLive
    rcases hCases v info hLive with ⟨rfl, rfl⟩ | ⟨_, hOld⟩
    · exact hNe
    · exact hInv.base_ne v info hOld
  · intro v info hLive
    rcases hCases v info hLive with ⟨rfl, rfl⟩ | ⟨_, hOld⟩
    · exact (hAt _ _).mpr (.inr ⟨rfl, rfl⟩)
    · exact (hAt _ _).mpr (.inl (hInv.allocated v info hOld))
  · intro v w infoV infoW hvw hLiveV hLiveW
    rcases hCases v infoV hLiveV with ⟨rfl, rfl⟩ | ⟨_, hOldV⟩
    · rcases hCases w infoW hLiveW with ⟨rfl, rfl⟩ | ⟨_, hOldW⟩
      · exact absurd rfl hvw
      · exact (hOther w infoW hOldW).symm
    · rcases hCases w infoW hLiveW with ⟨rfl, rfl⟩ | ⟨_, hOldW⟩
      · exact hOther v infoV hOldV
      · exact hInv.apart v w infoV infoW hvw hOldV hOldW

/-- A harmless create command keeps the invariant. -/
theorem ramInv_create (hInv : RamInv p g) (guestOs : ZOsInfo) (specialCpu specialMem : Bool)
    (vcpuUse : Nat → Int) (hSafe : createSafe p g guestOs specialCpu specialMem = true) :
    RamInv p (step p g (.create guestOs specialCpu specialMem vcpuUse)) := by
  have hOut := getOsTemplateType_outcome p g.os vcpuUse guestOs specialCpu specialMem
  dsimp only [step]
  generalize getOsTemplateType p g.os vcpuUse guestOs specialCpu specialMem = res at hOut ⊢
  simp only [createSafe, Bool.or_eq_true, Bool.and_eq_true, decide_eq_true_eq,
    Bool.not_eq_true', Option.isNone_iff_eq_none] at hSafe
  cases hOut with
  | noVmid => exact hInv
  | noMemory vmid vmids os hVmid hLt hRet info hInfo =>
    obtain ⟨hLayout, hGrow⟩ := allocate_failed hInv.layout hRet
    obtain ⟨hFreeL, hFreed⟩ := free_spec hLayout info.vmLoadBase
    have hStale : isLiveBase p g info.vmLoadBase = false := by
      rcases hSafe with hFull | ⟨hCan | hStale, _⟩
      · rw [hVmid] at hFull
        omega
      · exact absurd hRet ((canAllocate_iff _ os _).mp hCan)
      · rwa [hVmid, ← hInfo] at hStale
    simp only [failPath, set_same]
    rw [if_pos (by decide)]
    refine hInv.keep hFreeL (fun v i hLive => (used_after_fail hInv hVmid hLt v i hLive).2.2) ?_
    intro v i hLive hAt
    exact (hFreed _ _ (hInv.base_ne v i hLive)).mpr
      ⟨hGrow _ _ hAt, not_isLiveBase hInv hStale v i hLive⟩
  | refused vmid vmids os hVmid hLt hRet info hInfo =>
    obtain ⟨hFreeL, hFreed⟩ := allocate_then_free hInv.layout hRet
    simp only [failPath, set_same, hInfo]
    rw [if_pos (by decide)]
    refine hInv.keep hFreeL (fun v i hLive => (used_after_fail hInv hVmid hLt v i hLive).2.2) ?_
    intro v i hLive hAt
    exact (hFreed _ _ (hInv.base_ne v i hLive)).mpr hAt
  | created vmid vmids os hVmid hLt hRet records hBase hSize hConfig =>
    have hPos : tempMemSize p guestOs specialMem ≠ 0 := by
      rcases hSafe with hFull | ⟨_, hPos | hNone⟩
      · rw [hVmid] at hFull
        omega
      · exact hPos
      · intro hZero
        rw [hZero] at hConfig
        exact hConfig hNone
    obtain ⟨hLayout, hFresh, hAt⟩ := allocate_ok hInv.layout hPos hRet
    rw [if_neg (Int.not_lt.mpr (Int.natCast_nonneg vmid)), Int.toNat_natCast]
    have hNew := (freeVmid_allocateVmid p.maxVmNum_le hVmid hLt).2.1
    refine hInv.add hLt hLayout hNew ?_ (hBase ▸ hRet) (hBase ▸ hFresh) ?_
    · intro v i hLive
      have hUsed := used_after_fail hInv hVmid hLt v i hLive
      exact ⟨hUsed.1, hUsed.2.1⟩
    · intro a n
      rw [hAt, hBase, hSize]

/-- Deleting a VM keeps the invariant. -/
theorem ramInv_delete (hInv : RamInv p g) (vmid : Nat) : RamInv p (step p g (.delete vmid)) := by
  unfold step
  dsimp only
  split
  case h_1 => exact hInv
  case h_2 info hGone =>
    obtain ⟨hLayout, hFreed⟩ := free_spec hInv.layout info.vmLoadBase
    have hLt := (hInv.used vmid info hGone).1
    have hOld : ∀ v i, set g.live vmid none v = some i → v ≠ vmid ∧ g.live v = some i := by
      intro v i hLive
      by_cases hv : v = vmid
      · subst hv
        simp at hLive
      · rw [set_ne _ _ hv] at hLive
        exact ⟨hv, hLive⟩
    refine ⟨hLayout, ?_, ?_, ?_, ?_⟩
    · intro v i hLive
      obtain ⟨hv, hLive⟩ := hOld v i hLive
      refine ⟨(hInv.used v i hLive).1, ?_⟩
      rw [used_freeVmid p.maxVmNum_le _ hLt, (hInv.used v i hLive).2]
      simp [hv]
    · intro v i hLive
      exact hInv.base_ne v i (hOld v i hLive).2
    · intro v i hLive
      obtain ⟨hv, hLive⟩ := hOld v i hLive
      exact (hFreed _ _ (hInv.base_ne v i hLive)).mpr
        ⟨hInv.allocated v i hLive, hInv.apart v vmid i info hv hLive hGone⟩
    · intro v w infoV infoW hvw hLiveV hLiveW
      exact hInv.apart v w infoV infoW hvw (hOld v _ hLiveV).2 (hOld w _ hLiveW).2

end Step

/-! ## Whole runs -/

/--
**Guest RAM is private**: after every run whose create commands are harmless in
the sense of `CreateSafe`, the RAM of each live VM is exactly one allocated block
and no two live VMs share an address.
-/
theorem ramPrivate_of_createSafe (p : Platform) {baseAddr totalMem : Nat}
    (hBase : baseAddr < 2 ^ 64) (hTotal : totalMem < 2 ^ 64) (cmds : List Command)
    (hSafe : Admissible (step p) (CreateSafe p) (boot baseAddr totalMem) cmds) :
    RamPrivate (exec (step p) (boot baseAddr totalMem) cmds) := by
  have hStep : ∀ g c, RamInv p g → CreateSafe p g c → RamInv p (step p g c) := by
    intro g c hInv hCond
    cases c with
    | create guestOs specialCpu specialMem vcpuUse =>
      exact ramInv_create hInv guestOs specialCpu specialMem vcpuUse hCond
    | delete vmid => exact ramInv_delete hInv vmid
  exact (exec_invariant hStep cmds _ (ramInv_boot p hBase hTotal) hSafe).ramPrivate

/-- A platform with three VMs and Zephyr configurations of 16 MiB and 32 MiB. -/
def samplePlatform : Platform where
  maxVmNum := 3
  maxVmNum_le := by decide
  maxVcpuPerVm := 4
  maxVcpuPercpu := 1
  mpMaxNumCpus := 8
  maxGuestNumLinuxPcpu := 3
  guestOsTemplate := fun os =>
    ⟨os, 1, 0x40000000, 0x1000000, 0xa0000000, 0xa0000000, 0x100000, 0x40000000, 0, 0⟩
  zephyrCpiesConfig := [⟨1, 0x1000000, 0xab000000, 0x100000⟩, ⟨1, 0x2000000, 0xac000000, 0x100000⟩]
  linuxDtbCpiesConfig := []
  freertosCpiesConfig := []
  linuxCpiesImageAddr := 0
  linuxCpiesImageSize := 0
  linuxDtbMemBase := 0
  linuxDtbMemSize := 0

/-- A create command for a Zephyr VM with `memSize` bytes, on idle CPUs. -/
def createZephyr (memSize : Nat) : Command :=
  .create ⟨0, 1, 0, memSize, 0, 0, 0, 0, 0, 0⟩ false true fun _ => 0

/-- A run with a deletion and a failed create command that reuses its identifier. -/
theorem ramPrivate_sample :
    RamPrivate (exec (step samplePlatform) (boot 0xa0000000 0x3000000)
      [createZephyr 0x1000000, createZephyr 0x1000000, .delete 0, createZephyr 0x2000000]) :=
  ramPrivate_of_createSafe samplePlatform (by decide) (by decide) _ (by decide)

/-- Three VMs of 16 MiB are deleted and replaced by one of 32 MiB and one of
16 MiB, the latter where VM 2 was before; then a third VM finds no memory left. -/
def reuseTrace : List Command :=
  [createZephyr 0x1000000, createZephyr 0x1000000, createZephyr 0x1000000,
    .delete 0, .delete 1, .delete 2,
    createZephyr 0x2000000, createZephyr 0x1000000, createZephyr 0x1000000]

/-- The failed create command frees the RAM of the live VM 1: identifier 2 still
had the load base of its previous owner in its record. -/
theorem reused_vmid_frees_live_ram :
    ¬ RamPrivate (exec (step samplePlatform) (boot 0xa0000000 0x3000000) reuseTrace) := by
  intro hPrivate
  have hLive : (exec (step samplePlatform) (boot 0xa0000000 0x3000000) reuseTrace).live 1 =
      some ⟨0, 1, 0x40000000, 0x1000000, 0xa2000000, 0xab000000, 0x100000, 0x40000000, 0, 0⟩ := by
    decide
  obtain ⟨i, ⟨hi, hAlloc, hStart, _⟩, _⟩ := hPrivate.block 1 _ hLive
  have hFree : ∀ j < (exec (step samplePlatform) (boot 0xa0000000 0x3000000)
      reuseTrace).os.guestMemManager.blkCount,
      ((exec (step samplePlatform) (boot 0xa0000000 0x3000000)
        reuseTrace).os.guestMemManager.blkList j).isAllocated = true →
      ((exec (step samplePlatform) (boot 0xa0000000 0x3000000)
        reuseTrace).os.guestMemManager.blkList j).startAddr ≠ 0xa2000000 := by
    decide
  exact hFree i hi hAlloc hStart

end Zvm.Os.GuestRam
