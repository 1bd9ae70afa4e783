import Zvm.Os.Vmid
import Zvm.Vcpu.Registers
import Zvm.Verified.FunArray

/-!
# Translation tags

`VTTBR_EL2` has the VMID in bits 63:48, the address of the base table below, and the
bit CnP at position 0.  `arch_vcpu_init` stores `vmid | vm_pgd_base`, so the identifier
ends up in the low bits and the VMID field of every VM is 0.  The tables are aligned to
4 KiB and identifiers are below 32: the value is the right one for identifier 0 only.

Entry installs the stored value and exit reads it back; that round trip is faithful.
-/

namespace Zvm.Vcpu

open Zvm.Os.Vmid Zvm.Verified.Run Zvm.Verified

/-- `vm_xlat_tables` and the limits of the build. -/
structure TablePool where
  maxVmNum : Nat
  tablesPerVm : Nat
  poolBase : Nat
  cpuNum : Nat
  maxVmNum_le : maxVmNum ≤ 32
  aligned : 4096 ∣ poolBase
  fits : poolBase + maxVmNum * tablesPerVm * 4096 ≤ 2 ^ 48

/-- The address of table `k` of `vm_xlat_tables[vmid]`. -/
def tableAddr (c : TablePool) (vmid k : Nat) : Nat :=
  c.poolBase + (vmid * c.tablesPerVm + k) * 4096

/-- `live` says which entries of `zvm_overall_info->vms` are set, `baseTable` is the base
table of a VM's memory domain, and `guestOf` the VM whose guest a CPU runs. -/
structure TagState where
  pool : VmidPool
  live : Nat → Bool
  baseTable : Nat → Nat
  vm : Nat → VmArch
  hw : Nat → HwRegs
  guestOf : Nat → Option Nat

/-- The part of `arch_vcpu_init` that fills `struct vm_arch`. -/
def archVcpuInit (vmid : Nat) (vm : VmArch) : VmArch :=
  { vm with
    vtcrEl2 := 0x20#64 ||| bit64 6 ||| bit64 8 ||| bit64 10 ||| bit64 12 ||| bit64 13 ||| bit64 31
    vttbr := BitVec.ofNat 64 vmid ||| vm.vmPgdBase }

/-- What happens to VMs; a creation that gets an identifier may still fail (`ok`), and
`vcpuInit` is `arch_vcpu_init` of a further or a reset vCPU. -/
inductive TagOp where
  | create (table : Nat) (ok : Bool)
  | delete (vmid : Nat)
  | vcpuInit (vmid : Nat)
  | enter (p vmid : Nat) (a : VcpuArch)
  | run (p : Nat) (h : HwRegs)
  | exit (p : Nat) (a : VcpuArch)

/-- `vm_create` with the initialisation of the first vCPU. -/
def createVm (c : TablePool) (s : TagState) (table : Nat) (ok : Bool) : TagState :=
  let (pool, vmid) := allocateVmid c.maxVmNum s.pool
  if vmid = c.maxVmNum then s
  else if ok && decide (table < c.tablesPerVm) then
    let pgd : VmArch := ⟨BitVec.ofNat 64 (tableAddr c vmid table), 0#64, 0#64⟩
    { s with
      pool := pool
      live := FunArray.set s.live vmid true
      baseTable := FunArray.set s.baseTable vmid table
      vm := FunArray.set s.vm vmid (archVcpuInit vmid pgd) }
  else { s with pool := pool }

/-- Entry of a guest of `vmid` on `p`. -/
def enterVm (s : TagState) (p vmid : Nat) (a : VcpuArch) : TagState :=
  let (a, h) := switchToGuestSysreg (s.vm vmid) a (s.hw p)
  { s with
    hw := FunArray.set s.hw p (guestVmEntry a h).2
    guestOf := FunArray.set s.guestOf p (some vmid) }

/-- Exit of the guest of `vmid` on `p`. -/
def exitVm (s : TagState) (p vmid : Nat) (a : VcpuArch) : TagState :=
  let (a, h) := guestVmExit a (s.hw p)
  let (vm, _, h) := switchToHostSysreg (s.vm vmid) a h
  { s with
    vm := FunArray.set s.vm vmid vm
    hw := FunArray.set s.hw p h
    guestOf := FunArray.set s.guestOf p none }

/-- An operation that is not possible does nothing; a VM is deleted after its vCPU
threads have ended, so no CPU is in its guest. -/
def tagStep (c : TablePool) (s : TagState) : TagOp → TagState
  | .create table ok => createVm c s table ok
  | .delete vmid =>
    if s.live vmid = true ∧ ∀ p < c.cpuNum, s.guestOf p ≠ some vmid then
      { s with pool := freeVmid c.maxVmNum s.pool vmid, live := FunArray.set s.live vmid false }
    else s
  | .vcpuInit vmid =>
    if s.live vmid then { s with vm := FunArray.set s.vm vmid (archVcpuInit vmid (s.vm vmid)) }
    else s
  | .enter p vmid a =>
    if p < c.cpuNum ∧ s.guestOf p = none ∧ s.live vmid = true then enterVm s p vmid a else s
  | .run p h =>
    -- neither a guest nor host code outside of entry writes the stage-2 registers
    { s with
      hw := FunArray.set s.hw p
        { h with vtcrEl2 := (s.hw p).vtcrEl2, vttbrEl2 := (s.hw p).vttbrEl2 } }
  | .exit p a =>
    match s.guestOf p with
    | some vmid => exitVm s p vmid a
    | none => s

/-- No VM, no guest. -/
def tagBoot (hw : Nat → HwRegs) : TagState where
  pool := ⟨0#32, 0#32⟩
  live := fun _ => false
  baseTable := fun _ => 0
  vm := fun _ => ⟨0#64, 0#64, 0#64⟩
  hw := hw
  guestOf := fun _ => none

/-! ## What is wanted -/

/-- `VTTBR_EL2` after `switch_to_guest_sysreg`. -/
def installed (s : TagState) (vmid : Nat) (a : VcpuArch) (h : HwRegs) : Word :=
  (switchToGuestSysreg (s.vm vmid) a h).2.vttbrEl2

def vmidField (vttbr : Word) : Nat := vttbr.toNat / 2 ^ 48

/-- The table address field with the bits below it, CnP included. -/
def tableField (vttbr : Word) : Nat := vttbr.toNat % 2 ^ 48

def TagOp.isRoundTrip : TagOp → Bool
  | .enter _ _ _ | .exit _ _ => true
  | _ => false

/-- Each live VM runs under a tag of its own. -/
structure TagsPrivate (c : TablePool) (s : TagState) : Prop where
  vmids : ∀ i j, s.live i = true → s.live j = true → i ≠ j →
    ∀ a b h h', vmidField (installed s i a h) ≠ vmidField (installed s j b h')
  table : ∀ i, s.live i = true → ∀ a h,
    tableField (installed s i a h) = tableAddr c i (s.baseTable i)
  roundTrip : ∀ op, op.isRoundTrip = true → ∀ i, s.live i = true →
    ((tagStep c s op).vm i).vttbr = (s.vm i).vttbr

/-! ## The value stored for a VM -/

section Address

variable (c : TablePool) {vmid k : Nat}

theorem tableAddr_dvd (vmid k : Nat) : 4096 ∣ tableAddr c vmid k :=
  Nat.dvd_add c.aligned (Nat.dvd_mul_left 4096 _)

/-- A table of the pool ends below `2 ^ 48`. -/
theorem tableAddr_add_le (hVmid : vmid < c.maxVmNum) (hk : k < c.tablesPerVm) :
    tableAddr c vmid k + 4096 ≤ 2 ^ 48 := by
  have hRow : vmid * c.tablesPerVm + k + 1 ≤ (vmid + 1) * c.tablesPerVm := by
    rw [Nat.succ_mul]
    omega
  have hAll : (vmid + 1) * c.tablesPerVm ≤ c.maxVmNum * c.tablesPerVm :=
    Nat.mul_le_mul_right _ hVmid
  have hFits := c.fits
  unfold tableAddr
  omega

/-- The identifier stands in the low bits of the stored value. -/
theorem vttbr_toNat (hVmid : vmid < c.maxVmNum) (hk : k < c.tablesPerVm) :
    (BitVec.ofNat 64 vmid ||| BitVec.ofNat 64 (tableAddr c vmid k)).toNat =
      tableAddr c vmid k + vmid := by
  have hEnd := tableAddr_add_le c hVmid hk
  have hMax := c.maxVmNum_le
  obtain ⟨q, hq⟩ := tableAddr_dvd c vmid k
  have hLow : vmid < 2 ^ 12 := by omega
  rw [BitVec.toNat_or, BitVec.toNat_ofNat, BitVec.toNat_ofNat, Nat.mod_eq_of_lt (by omega),
    Nat.mod_eq_of_lt (by omega), Nat.or_comm, hq]
  exact (Nat.two_pow_add_eq_or_of_lt hLow q).symm

end Address

/-- What holds after any sequence of operations. -/
structure TagInv (c : TablePool) (s : TagState) : Prop where
  vmid_lt : ∀ i, s.live i = true → i < c.maxVmNum
  used : ∀ i, s.live i = true → s.pool.used i = true
  table_lt : ∀ i, s.live i = true → s.baseTable i < c.tablesPerVm
  pgd : ∀ i, s.live i = true →
    (s.vm i).vmPgdBase = BitVec.ofNat 64 (tableAddr c i (s.baseTable i))
  vttbr : ∀ i, s.live i = true → (s.vm i).vttbr = BitVec.ofNat 64 i ||| (s.vm i).vmPgdBase
  guest : ∀ p i, s.guestOf p = some i →
    p < c.cpuNum ∧ s.live i = true ∧ (s.hw p).vttbrEl2 = (s.vm i).vttbr

theorem tagInv_boot (c : TablePool) (hw : Nat → HwRegs) : TagInv c (tagBoot hw) := by
  refine ⟨?_, ?_, ?_, ?_, ?_, ?_⟩ <;> simp [tagBoot]

section Invariant

variable {c : TablePool} {s : TagState}

section

variable (hInv : TagInv c s)
include hInv

theorem TagInv.installed_toNat {i : Nat} (hi : s.live i = true) (a : VcpuArch) (h : HwRegs) :
    (installed s i a h).toNat = tableAddr c i (s.baseTable i) + i := by
  have hStored : installed s i a h = (s.vm i).vttbr := rfl
  rw [hStored, hInv.vttbr i hi, hInv.pgd i hi]
  exact vttbr_toNat c (hInv.vmid_lt i hi) (hInv.table_lt i hi)

theorem TagInv.tableField_installed {i : Nat} (hi : s.live i = true) (a : VcpuArch) (h : HwRegs) :
    tableField (installed s i a h) = tableAddr c i (s.baseTable i) + i := by
  have hEnd := tableAddr_add_le c (hInv.vmid_lt i hi) (hInv.table_lt i hi)
  have hLt := hInv.vmid_lt i hi
  have hMax := c.maxVmNum_le
  rw [tableField, hInv.installed_toNat hi]
  exact Nat.mod_eq_of_lt (by omega)

/-- What an exit reads back is what the entry installed. -/
theorem TagInv.exitVm_vttbr {p vmid : Nat} (hp : s.guestOf p = some vmid) (a : VcpuArch) (i : Nat) :
    ((exitVm s p vmid a).vm i).vttbr = (s.vm i).vttbr := by
  by_cases hi : i = vmid
  · subst hi
    simpa [exitVm, switchToHostSysreg, guestVmExit, loadRegistersContext] using
      (hInv.guest p i hp).2.2
  · simp [exitVm, FunArray.set_ne, hi]

theorem TagInv.roundTrip {op : TagOp} (hOp : op.isRoundTrip = true) (i : Nat) :
    ((tagStep c s op).vm i).vttbr = (s.vm i).vttbr := by
  cases op with
  | enter p vmid a =>
    simp only [tagStep]
    split <;> rfl
  | exit p a =>
    simp only [tagStep]
    split
    case h_1 vmid hp => exact hInv.exitVm_vttbr hp a i
    case h_2 => rfl
  | create _ _ | delete _ | vcpuInit _ | run _ _ => cases hOp

/-- The tags are right exactly when identifier 0 is the only one that is live. -/
theorem TagInv.tagsPrivate_iff : TagsPrivate c s ↔ ∀ i, s.live i = true → i = 0 := by
  constructor
  · intro hTags i hi
    have hWant := hTags.table i hi default default
    rw [hInv.tableField_installed hi] at hWant
    omega
  · intro hZero
    refine ⟨?_, ?_, ?_⟩
    · intro i j hi hj hNe
      exact absurd ((hZero i hi).trans (hZero j hj).symm) hNe
    · intro i hi a h
      rw [hInv.tableField_installed hi, hZero i hi, Nat.add_zero]
    · intro op hOp i _
      exact hInv.roundTrip hOp i

theorem TagInv.create (table : Nat) (ok : Bool) : TagInv c (createVm c s table ok) := by
  unfold createVm
  rcases allocateVmid_cases c.maxVmNum_le s.pool with hFail | ⟨vmid, hLt, hMax, hFree, _, hAlloc⟩
  · simp only [hFail, ↓reduceIte]
    exact hInv
  · have hVmid : vmid < 32 := by omega
    have hNot : s.live vmid ≠ true := by
      intro hLive
      rw [hInv.used vmid hLive] at hFree
      cases hFree
    have hNe : ∀ {i}, s.live i = true → i ≠ vmid := fun hi hEq => hNot (hEq ▸ hi)
    have hUsed : ∀ i, s.live i = true →
        VmidPool.used ⟨s.pool.allocedVmid ||| 1#32 <<< vmid, s.pool.vmTotalNum + 1#32⟩ i = true := by
      intro i hi
      rw [used_mark s.pool hVmid]
      simp [hInv.used i hi]
    simp only [hAlloc, if_neg (Nat.ne_of_lt hLt)]
    split
    case isTrue hOk =>
      have hTable : table < c.tablesPerVm := by
        rw [Bool.and_eq_true, decide_eq_true_eq] at hOk
        exact hOk.2
      -- a live VM afterwards is the new one or an old one
      refine ⟨?_, ?_, ?_, ?_, ?_, ?_⟩
      · intro i hi
        by_cases hEq : i = vmid
        · rw [hEq]
          exact hLt
        · exact hInv.vmid_lt i (by simpa [FunArray.set, hEq] using hi)
      · intro i hi
        by_cases hEq : i = vmid
        · simp [used_mark s.pool hVmid, hEq]
        · exact hUsed i (by simpa [FunArray.set, hEq] using hi)
      · intro i hi
        by_cases hEq : i = vmid
        · simpa [FunArray.set, hEq] using hTable
        · simpa [FunArray.set, hEq] using hInv.table_lt i (by simpa [FunArray.set, hEq] using hi)
      · intro i hi
        by_cases hEq : i = vmid
        · simp [FunArray.set, hEq, archVcpuInit]
        · simpa [FunArray.set, hEq] using hInv.pgd i (by simpa [FunArray.set, hEq] using hi)
      · intro i hi
        by_cases hEq : i = vmid
        · simp [FunArray.set, hEq, archVcpuInit]
        · simpa [FunArray.set, hEq] using hInv.vttbr i (by simpa [FunArray.set, hEq] using hi)
      · intro p i hp
        obtain ⟨hCpu, hLive, hVttbr⟩ := hInv.guest p i hp
        have hOld := hNe hLive
        exact ⟨hCpu, by simpa [FunArray.set, hOld] using hLive,
          by simpa [FunArray.set, hOld] using hVttbr⟩
    case isFalse =>
      exact ⟨hInv.vmid_lt, hUsed, hInv.table_lt, hInv.pgd, hInv.vttbr, hInv.guest⟩

theorem TagInv.delete {vmid : Nat} (hLive : s.live vmid = true)
    (hIdle : ∀ p < c.cpuNum, s.guestOf p ≠ some vmid) :
    TagInv c { s with
      pool := freeVmid c.maxVmNum s.pool vmid, live := FunArray.set s.live vmid false } := by
  have hOld : ∀ {i}, FunArray.set s.live vmid false i = true → s.live i = true ∧ i ≠ vmid := by
    intro i hi
    by_cases hEq : i = vmid
    · simp [FunArray.set, hEq] at hi
    · exact ⟨by simpa [FunArray.set, hEq] using hi, hEq⟩
  refine ⟨fun i hi => hInv.vmid_lt i (hOld hi).1, ?_, fun i hi => hInv.table_lt i (hOld hi).1,
    fun i hi => hInv.pgd i (hOld hi).1, fun i hi => hInv.vttbr i (hOld hi).1, ?_⟩
  · intro i hi
    obtain ⟨hi, hNe⟩ := hOld hi
    simp [used_freeVmid c.maxVmNum_le s.pool (hInv.vmid_lt vmid hLive), hInv.used i hi, hNe]
  · intro p i hp
    obtain ⟨hCpu, hLiveI, hVttbr⟩ := hInv.guest p i hp
    have hNe : i ≠ vmid := by
      intro hEq
      exact hIdle p hCpu (hEq ▸ hp)
    exact ⟨hCpu, by simpa [FunArray.set, hNe] using hLiveI, hVttbr⟩

/-- Writing a VM's record without changing base table and stored value. -/
theorem TagInv.setVm {vmid : Nat} {vm : VmArch} (hPgd : vm.vmPgdBase = (s.vm vmid).vmPgdBase)
    (hVttbr : vm.vttbr = (s.vm vmid).vttbr) :
    TagInv c { s with vm := FunArray.set s.vm vmid vm } := by
  have hPgdAll : ∀ i, (FunArray.set s.vm vmid vm i).vmPgdBase = (s.vm i).vmPgdBase := by
    intro i
    by_cases hEq : i = vmid <;> simp [FunArray.set, hEq, hPgd]
  have hVttbrAll : ∀ i, (FunArray.set s.vm vmid vm i).vttbr = (s.vm i).vttbr := by
    intro i
    by_cases hEq : i = vmid <;> simp [FunArray.set, hEq, hVttbr]
  refine ⟨hInv.vmid_lt, hInv.used, hInv.table_lt, ?_, ?_, ?_⟩
  · intro i hi
    exact (hPgdAll i).trans (hInv.pgd i hi)
  · intro i hi
    rw [hPgdAll, hVttbrAll]
    exact hInv.vttbr i hi
  · intro p i hp
    rw [hVttbrAll]
    exact hInv.guest p i hp

/-- Writing a CPU's registers and guest. -/
theorem TagInv.setHw {p : Nat} {h : HwRegs} {guest : Option Nat}
    (hGuest : ∀ i, guest = some i → p < c.cpuNum ∧ s.live i = true ∧ h.vttbrEl2 = (s.vm i).vttbr) :
    TagInv c { s with
      hw := FunArray.set s.hw p h, guestOf := FunArray.set s.guestOf p guest } := by
  refine ⟨hInv.vmid_lt, hInv.used, hInv.table_lt, hInv.pgd, hInv.vttbr, ?_⟩
  intro q i hq
  by_cases hEq : q = p
  · subst hEq
    simpa [FunArray.set] using hGuest i (by simpa [FunArray.set] using hq)
  · simpa [FunArray.set, hEq] using hInv.guest q i (by simpa [FunArray.set, hEq] using hq)

theorem TagInv.step (op : TagOp) : TagInv c (tagStep c s op) := by
  cases op with
  | create table ok => exact hInv.create table ok
  | delete vmid =>
    simp only [tagStep]
    split
    case isTrue hGuard => exact hInv.delete hGuard.1 hGuard.2
    case isFalse => exact hInv
  | vcpuInit vmid =>
    simp only [tagStep]
    split
    case isTrue hLive => exact hInv.setVm rfl (hInv.vttbr vmid hLive).symm
    case isFalse => exact hInv
  | enter p vmid a =>
    simp only [tagStep]
    split
    case isTrue hGuard =>
      apply hInv.setHw
      intro i hi
      obtain rfl := Option.some.inj hi
      exact ⟨hGuard.1, hGuard.2.2, rfl⟩
    case isFalse => exact hInv
  | run p h =>
    have hSame : FunArray.set s.guestOf p (s.guestOf p) = s.guestOf := by
      funext q
      by_cases hEq : q = p <;> simp [FunArray.set, hEq]
    have hSet : TagInv c { s with
        hw := (tagStep c s (.run p h)).hw
        guestOf := FunArray.set s.guestOf p (s.guestOf p) } :=
      hInv.setHw fun i hi => hInv.guest p i hi
    rw [hSame] at hSet
    exact hSet
  | exit p a =>
    simp only [tagStep]
    split
    case h_1 vmid hp =>
      have hRead : (s.hw p).vttbrEl2 = (s.vm vmid).vttbr := (hInv.guest p vmid hp).2.2
      have hVm : TagInv c { s with vm := (exitVm s p vmid a).vm } := hInv.setVm rfl hRead
      apply hVm.setHw
      intro i hi
      cases hi
    case h_2 => exact hInv

end

end Invariant

/-! ## The runs with private tags -/

/-- A creation that succeeds gets identifier 0: it is not in use. -/
def CreatesFirst (c : TablePool) (s : TagState) : TagOp → Prop
  | .create table ok =>
    s.pool.used 0 = false ∨ ok = false ∨ c.tablesPerVm ≤ table ∨
      c.maxVmNum = 32 ∨ ∀ k < c.maxVmNum, s.pool.used k = true
  | _ => True

/-- Creating a VM keeps the tags private exactly if it gets identifier 0. -/
theorem only_zero_create_iff {c : TablePool} {s : TagState} (hZero : ∀ i, s.live i = true → i = 0)
    (table : Nat) (ok : Bool) :
    (∀ i, (createVm c s table ok).live i = true → i = 0) ↔ CreatesFirst c s (.create table ok) := by
  unfold createVm
  rcases allocateVmid_cases c.maxVmNum_le s.pool with hFail | ⟨vmid, hLt, hMax, hFree, hLow, hAlloc⟩
  · simp only [hFail, ↓reduceIte]
    refine iff_of_true hZero ?_
    rcases Nat.lt_or_eq_of_le c.maxVmNum_le with hFew | hMany
    · have hAll : ∀ k < c.maxVmNum, s.pool.used k = true := fun k hk =>
        used_of_allocateVmid_fail hFew (by rw [hFail]) hk
      exact .inr (.inr (.inr (.inr hAll)))
    · exact .inr (.inr (.inr (.inl hMany)))
  · -- the lowest free identifier is 0 exactly if 0 is free
    have hFirst : vmid = 0 ↔ s.pool.used 0 = false := by
      constructor
      · intro hEq
        rw [← hEq]
        exact hFree
      · intro hFree0
        by_contra hNe
        rw [hLow 0 (Nat.pos_of_ne_zero hNe)] at hFree0
        cases hFree0
    simp only [hAlloc, if_neg (Nat.ne_of_lt hLt)]
    split
    case isTrue hOk =>
      rw [Bool.and_eq_true, decide_eq_true_eq] at hOk
      constructor
      · intro hAfter
        exact .inl (hFirst.mp (hAfter vmid (FunArray.set_same _ _ _)))
      · intro hCond i hi
        have hNew : vmid = 0 := by
          rcases hCond with hFree0 | hNotOk | hTable | hMany | hAll
          · exact hFirst.mpr hFree0
          · rw [hOk.1] at hNotOk
            cases hNotOk
          · omega
          · omega
          · rw [hAll vmid hLt] at hFree
            cases hFree
        by_cases hEq : i = vmid
        · exact hEq.trans hNew
        · exact hZero i (by simpa [FunArray.set, hEq] using hi)
    case isFalse hOk =>
      refine iff_of_true hZero ?_
      rw [Bool.and_eq_true, decide_eq_true_eq, not_and_or] at hOk
      rcases hOk with hNotOk | hTable
      · exact .inr (.inl (by simpa using hNotOk))
      · exact .inr (.inr (.inl (by omega)))

/-- No other operation makes a VM live. -/
theorem live_of_live_step {c : TablePool} {s : TagState} {op : TagOp} {i : Nat}
    (hOp : ∀ table ok, op ≠ .create table ok) (hi : (tagStep c s op).live i = true) :
    s.live i = true := by
  cases op with
  | create table ok => exact absurd rfl (hOp table ok)
  | delete vmid =>
    simp only [tagStep] at hi
    split at hi
    · by_cases hEq : i = vmid
      · simp [FunArray.set, hEq] at hi
      · simpa [FunArray.set, hEq] using hi
    · exact hi
  | run p h => exact hi
  | vcpuInit _ | enter _ _ _ | exit _ _ =>
    simp only [tagStep] at hi
    split at hi <;> exact hi

theorem only_zero_step_iff {c : TablePool} {s : TagState} (hZero : ∀ i, s.live i = true → i = 0)
    (op : TagOp) : (∀ i, (tagStep c s op).live i = true → i = 0) ↔ CreatesFirst c s op := by
  cases op with
  | create table ok => exact only_zero_create_iff hZero table ok
  | delete _ | vcpuInit _ | enter _ _ _ | run _ _ | exit _ _ =>
    refine iff_of_true ?_ trivial
    intro i hi
    exact hZero i (live_of_live_step (fun _ _ hEq => by cases hEq) hi)

/--
**Translation tags**: from boot on, the tags are private in every state of a run
exactly if every successful creation of the run finds identifier 0 free.
-/
theorem tags_private_iff (c : TablePool) (hw : Nat → HwRegs) (ops : List TagOp) :
    Always (tagStep c) (TagsPrivate c) (tagBoot hw) ops ↔
      Admissible (tagStep c) (CreatesFirst c) (tagBoot hw) ops := by
  refine always_iff_admissible (fun s op (hInv : TagInv c s) => hInv.step op) ?_ ops _ ?_ ?_
  · intro s op hInv hTags
    rw [(hInv.step op).tagsPrivate_iff]
    exact only_zero_step_iff (hInv.tagsPrivate_iff.mp hTags) op
  · exact tagInv_boot c hw
  · rw [(tagInv_boot c hw).tagsPrivate_iff]
    intro i hi
    cases hi

theorem samplePool_le : 4 ≤ 32 := by decide

/-- Four VMs of four tables each. -/
def samplePool : TablePool where
  maxVmNum := 4
  tablesPerVm := 4
  poolBase := 0x40000000
  cpuNum := 2
  maxVmNum_le := samplePool_le
  aligned := by decide
  fits := by decide

/-- Two VMs: both have VMID field 0, and the second one has CnP set. -/
theorem two_vms_share_vmid :
    let s := exec (tagStep samplePool) (tagBoot fun _ => default) [.create 0 true, .create 0 true]
    s.live 0 = true ∧ s.live 1 = true ∧
      vmidField (installed s 0 default default) = 0 ∧
      vmidField (installed s 1 default default) = 0 ∧
      tableAddr samplePool 1 (s.baseTable 1) = 0x40004000 ∧
      tableField (installed s 1 default default) = 0x40004001 ∧ ¬ TagsPrivate samplePool s := by
  refine ⟨by decide, by decide, by decide, by decide, by decide, by decide, ?_⟩
  intro hTags
  exact absurd (hTags.table 1 (by decide) default default) (by decide)

end Zvm.Vcpu
