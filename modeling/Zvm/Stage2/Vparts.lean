import Zvm.Stage2.Domain
import Mathlib.Data.List.Pairwise

/-!
# Guest addresses in software

The hypervisor translates guest addresses itself by a search of the VM's mapped
partitions, `vm_gpa_to_hpa`.  The partitions are those that
`vm_mem_domain_partitions_add` has mapped, so that the search and the walk of the tables
should agree.  They do inside a partition and away from all of them, but the search
counts the first address after a partition as part of it.
-/

namespace Zvm.Stage2

open Zvm.Verified.FunArray Zvm.Verified.Run

/-- `struct vm_mem_partition`. -/
structure Vpart where
  part : Partition
  hpaBase : Nat
  deriving DecidableEq

/-- `struct vm_mem_domain`. -/
structure VmMemDomain where
  dom : Domain
  idle : List Vpart
  mapped : List Vpart

/-- `create_vm_mem_vpart`. -/
def createVmMemVpart (m : VmMemDomain) (v : Vpart) : VmMemDomain :=
  { m with idle := m.idle ++ [v] }

/-- The loop of `vm_mem_domain_partitions_add`; it ends at the first partition that cannot
be mapped, which stays idle. -/
def addVparts (c : PoolConfig) (maxPartitions : Nat) :
    List Vpart → VmMemDomain → Option (VmMemDomain × AddRet)
  | [], m => some (m, .mapped .ok)
  | v :: idle, m =>
    match vmMemDomainPartitionAdd c maxPartitions m.dom v.part v.hpaBase with
    | none => none
    | some (dom, .mapped .ok) =>
      addVparts c maxPartitions idle { dom := dom, idle := idle, mapped := m.mapped ++ [v] }
    | some (dom, ret) => some ({ m with dom := dom }, ret)

/-- `vm_mem_domain_partitions_add`; `none` is a failed assertion. -/
def vmMemDomainPartitionsAdd (c : PoolConfig) (maxPartitions : Nat) (m : VmMemDomain) :
    Option (VmMemDomain × AddRet) :=
  addVparts c maxPartitions m.idle m

/-- The end of a partition, in 64 bits. -/
def Vpart.gpaEnd (v : Vpart) : Nat := (v.part.start + v.part.size) % 2 ^ 64

/-- The test of `vm_gpa_to_hpa`. -/
def Vpart.matches (v : Vpart) (gpa : Nat) : Bool :=
  decide (v.part.start ≤ gpa) && decide (gpa ≤ v.gpaEnd)

/-- `-ESRCH` as a `uint64_t`. -/
def noHpa : Nat := 2 ^ 64 - 3

/-- `vm_gpa_to_hpa`. -/
def vmGpaToHpa (mapped : List Vpart) (gpa : Nat) : Nat :=
  match mapped.find? (·.matches gpa) with
  | none => noHpa
  | some v => (gpa - v.part.start + v.hpaBase) % 2 ^ 64

/-- What happens to the partitions of a VM. -/
inductive MemOp where
  | createVpart (v : Vpart)
  | addPartitions

def memStep (c : PoolConfig) (maxPartitions : Nat) : Option VmMemDomain → MemOp → Option VmMemDomain
  | none, _ => none
  | some m, .createVpart v => some (createVmMemVpart m v)
  | some m, .addPartitions => (vmMemDomainPartitionsAdd c maxPartitions m).map Prod.fst

/-- The fields are 64-bit values and the host memory is in the 48-bit address range. -/
structure Vpart.InRange (v : Vpart) : Prop where
  start_lt : v.part.start < 2 ^ 64
  size_lt : v.part.size < 2 ^ 64
  hpa_le : v.hpaBase + v.part.size ≤ 2 ^ 48

/-- The partition is page-aligned, in the guest's 39-bit and the host's 48-bit address
range, and its descriptors are not all zero. -/
structure Vpart.Mappable (v : Vpart) : Prop where
  start_aligned : 2 ^ 12 ∣ v.part.start
  size_aligned : 2 ^ 12 ∣ v.part.size
  hpa_aligned : 2 ^ 12 ∣ v.hpaBase
  gpa_le : v.part.start + v.part.size ≤ 2 ^ 39
  hpa_le : v.hpaBase + v.part.size ≤ 2 ^ 48
  desc_ne : getVmRegionDesc v.part.attrs ≠ 0#64

/-- The operation creates no partition but such with `P`. -/
def MemOp.Creates (P : Vpart → Prop) : MemOp → Prop
  | .createVpart v => P v
  | .addPartitions => True

theorem MemOp.Creates.mono {P Q : Vpart → Prop} {op : MemOp} (hOp : op.Creates P)
    (hImp : ∀ v, P v → Q v) : op.Creates Q := by
  cases op with
  | createVpart v => exact hImp v hOp
  | addPartitions => trivial

/-- The guest addresses of a partition. -/
def Vpart.Contains (v : Vpart) (gpa : Nat) : Prop :=
  v.part.start ≤ gpa ∧ gpa < v.part.start + v.part.size

/-! ## The list of mapped partitions -/

/-- The guest address is in a recorded partition. -/
def Recorded (dom : Domain) (ipa : Nat) : Prop :=
  ∃ i, i < dom.numPartitions ∧ (dom.partitions i).start ≤ ipa ∧
    ipa < (dom.partitions i).start + (dom.partitions i).size

/-- The recorded partitions are in the first slots. -/
structure SlotInv (dom : Domain) : Prop where
  used : ∀ i, (dom.partitions i).size ≠ 0 ↔ i < dom.numPartitions
  end_lt : ∀ i, (dom.partitions i).start + (dom.partitions i).size < 2 ^ 64

/-- A partition that has been mapped. -/
structure Listed (dom : Domain) (v : Vpart) : Prop where
  inRange : v.InRange
  size_pos : 0 < v.part.size
  end_lt : v.part.start + v.part.size < 2 ^ 64
  recorded : ∀ gpa, v.Contains gpa → Recorded dom gpa

structure ListInv (m : VmMemDomain) : Prop where
  slots : SlotInv m.dom
  idle : ∀ v ∈ m.idle, v.InRange
  listed : ∀ v ∈ m.mapped, Listed m.dom v
  disjoint : m.mapped.Pairwise fun v w => ∀ gpa, ¬ (v.Contains gpa ∧ w.Contains gpa)

/-- The domain with one more partition and new tables. -/
def recordPart (dom : Domain) (part : Partition) (pool : XlatPool) : Domain :=
  { dom with
    partitions := set dom.partitions dom.numPartitions part
    numPartitions := dom.numPartitions + 1
    pool := pool }

/-- The call returns before it records the partition. -/
def Refused (maxPartitions : Nat) (dom : Domain) (part : Partition) : Prop :=
  checkVmAddPartition dom part = false ∨
    firstIdx maxPartitions (fun i => (dom.partitions i).size == 0) = none

section List

variable {c : PoolConfig} {maxPartitions : Nat} {dom : Domain} {m : VmMemDomain} {v : Vpart}

theorem Vpart.Mappable.inRange (hv : v.Mappable) : v.InRange := by
  have hLe := hv.gpa_le
  exact ⟨by omega, by omega, hv.hpa_le⟩

/-- A partition that passes the check is not empty, does not wrap around and meets no
recorded one. -/
theorem fresh_of_check (hSlots : SlotInv dom) (hv : v.InRange)
    (hCheck : checkVmAddPartition dom v.part = true) :
    0 < v.part.size ∧ v.part.start + v.part.size < 2 ^ 64 ∧
      ∀ gpa, v.Contains gpa → ¬ Recorded dom gpa := by
  have hStart := hv.start_lt
  have hSize := hv.size_lt
  unfold checkVmAddPartition at hCheck
  simp only at hCheck
  split at hCheck
  case isTrue => cases hCheck
  case isFalse hPos =>
    split at hCheck
    case isTrue => cases hCheck
    case isFalse hOrder =>
      refine ⟨Nat.pos_of_ne_zero hPos, by omega, ?_⟩
      rintro gpa ⟨hLow, hHigh⟩ ⟨i, hi, hFrom, hTo⟩
      have hApart := of_decide_eq_true (List.all_eq_true.mp hCheck i (List.mem_range.mpr hi))
      have hEnd := hSlots.end_lt i
      have hUsed := (hSlots.used i).mpr hi
      rw [Nat.mod_eq_of_lt hEnd] at hApart
      omega

/-- The slot that is used is the one after the recorded partitions. -/
theorem freeSlot_eq (hUsed : ∀ i, (dom.partitions i).size ≠ 0 ↔ i < dom.numPartitions) {i : Nat}
    (hSlot : firstIdx maxPartitions (fun i => (dom.partitions i).size == 0) = some i) :
    i = dom.numPartitions := by
  obtain ⟨_, hFree, hBelow⟩ := firstIdx_eq_some.mp hSlot
  have hNot : ¬ i < dom.numPartitions := by
    rw [← hUsed i]
    simpa using hFree
  by_contra hNe
  have hSize : (dom.partitions dom.numPartitions).size ≠ 0 := by
    simpa using hBelow dom.numPartitions (by omega)
  exact absurd ((hUsed _).mp hSize) (Nat.lt_irrefl _)

theorem partitionAdd_refused (hRefused : Refused maxPartitions dom v.part) :
    ∃ ret, vmMemDomainPartitionAdd c maxPartitions dom v.part v.hpaBase = some (dom, ret) ∧
      ret ≠ .mapped .ok := by
  unfold vmMemDomainPartitionAdd
  by_cases hCheck : checkVmAddPartition dom v.part = false
  · exact ⟨.eInval, by simp [hCheck], nofun⟩
  · exact ⟨.eNoSpc, by simp [hCheck, hRefused.resolve_left hCheck], nofun⟩

/-- A partition that is not refused is recorded after the others, and `vm_add_map` maps it. -/
theorem partitionAdd_record (hUsed : ∀ i, (dom.partitions i).size ≠ 0 ↔ i < dom.numPartitions)
    (hNot : ¬ Refused maxPartitions dom v.part) :
    checkVmAddPartition dom v.part = true ∧
      vmMemDomainPartitionAdd c maxPartitions dom v.part v.hpaBase =
        (vmAddMap c dom.pool dom.base v.hpaBase v.part.start v.part.size v.part.attrs).map
          fun r => (recordPart dom v.part r.1, .mapped r.2) := by
  obtain ⟨hCheck, hFull⟩ := not_or.mp hNot
  refine ⟨by simpa using hCheck, ?_⟩
  rw [vmMemDomainPartitionAdd, if_neg hCheck]
  obtain ⟨i, hSlot⟩ := Option.ne_none_iff_exists'.mp hFull
  rw [hSlot, freeSlot_eq hUsed hSlot]
  cases vmAddMap c dom.pool dom.base v.hpaBase v.part.start v.part.size v.part.attrs <;> rfl

/-- What `vm_mem_domain_partition_add` does: nothing, or it records a partition that meets
no other and lets `vm_add_map` map it. -/
theorem partitionAdd_cases (hSlots : SlotInv dom) (hv : v.InRange) :
    (∃ ret, vmMemDomainPartitionAdd c maxPartitions dom v.part v.hpaBase = some (dom, ret) ∧
      ret ≠ .mapped .ok) ∨
    (0 < v.part.size ∧ v.part.start + v.part.size < 2 ^ 64 ∧
      (∀ gpa, v.Contains gpa → ¬ Recorded dom gpa) ∧
      vmMemDomainPartitionAdd c maxPartitions dom v.part v.hpaBase =
        (vmAddMap c dom.pool dom.base v.hpaBase v.part.start v.part.size v.part.attrs).map
          fun r => (recordPart dom v.part r.1, .mapped r.2)) := by
  by_cases hRefused : Refused maxPartitions dom v.part
  · exact .inl (partitionAdd_refused hRefused)
  · obtain ⟨hCheck, hAdd⟩ := partitionAdd_record hSlots.used hRefused
    obtain ⟨hPos, hEnd, hFresh⟩ := fresh_of_check hSlots hv hCheck
    exact .inr ⟨hPos, hEnd, hFresh, hAdd⟩

theorem recorded_recordPart (dom : Domain) (part : Partition) (pool : XlatPool) (ipa : Nat) :
    Recorded (recordPart dom part pool) ipa ↔
      Recorded dom ipa ∨ (part.start ≤ ipa ∧ ipa < part.start + part.size) := by
  constructor
  · rintro ⟨i, hi, hRange⟩
    by_cases hEq : i = dom.numPartitions
    · subst hEq
      simp only [recordPart, set_same] at hRange
      exact .inr hRange
    · simp only [recordPart, set_ne _ _ hEq] at hi hRange
      exact .inl ⟨i, by omega, hRange⟩
  · rintro (⟨i, hi, hRange⟩ | hNew)
    · refine ⟨i, Nat.lt_succ_of_lt hi, ?_⟩
      simp only [recordPart, set_ne _ _ (Nat.ne_of_lt hi)]
      exact hRange
    · refine ⟨dom.numPartitions, Nat.lt_succ_self _, ?_⟩
      simp only [recordPart, set_same]
      exact hNew

theorem used_recordPart (hUsed : ∀ i, (dom.partitions i).size ≠ 0 ↔ i < dom.numPartitions)
    {part : Partition} (hPos : 0 < part.size) (pool : XlatPool) (j : Nat) :
    ((recordPart dom part pool).partitions j).size ≠ 0 ↔
      j < (recordPart dom part pool).numPartitions := by
  by_cases hj : j = dom.numPartitions
  · simp only [recordPart, hj, set_same]
    omega
  · simp only [recordPart, set_ne _ _ hj]
    rw [hUsed j]
    omega

theorem SlotInv.record (hSlots : SlotInv dom) {part : Partition} (hPos : 0 < part.size)
    (hEnd : part.start + part.size < 2 ^ 64) (pool : XlatPool) :
    SlotInv (recordPart dom part pool) := by
  refine ⟨used_recordPart hSlots.used hPos pool, fun j => ?_⟩
  simp only [recordPart]
  exact set_elim (fun _ => hEnd) fun _ => hSlots.end_lt j

theorem Listed.record {w : Vpart} (hw : Listed dom w) (part : Partition) (pool : XlatPool) :
    Listed (recordPart dom part pool) w where
  inRange := hw.inRange
  size_pos := hw.size_pos
  end_lt := hw.end_lt
  recorded gpa hIn := (recorded_recordPart dom part pool gpa).mpr (.inl (hw.recorded gpa hIn))

/-- The lists after a partition has been recorded, mapped or not. -/
theorem ListInv.record (hInv : ListInv m) {idle : List Vpart} (hIdle : m.idle = v :: idle)
    (hPos : 0 < v.part.size) (hEnd : v.part.start + v.part.size < 2 ^ 64)
    (hFresh : ∀ gpa, v.Contains gpa → ¬ Recorded m.dom gpa) (pool : XlatPool) :
    ListInv { m with dom := recordPart m.dom v.part pool } ∧
      ListInv { dom := recordPart m.dom v.part pool, idle := idle, mapped := m.mapped ++ [v] } := by
  have hSlots := hInv.slots.record hPos hEnd pool
  have hOld : ∀ w ∈ m.mapped, Listed (recordPart m.dom v.part pool) w :=
    fun w hw => (hInv.listed w hw).record v.part pool
  have hNew : Listed (recordPart m.dom v.part pool) v :=
    ⟨hInv.idle v (by simp [hIdle]), hPos, hEnd,
      fun gpa hIn => (recorded_recordPart m.dom v.part pool gpa).mpr (.inr hIn)⟩
  refine ⟨⟨hSlots, hInv.idle, hOld, hInv.disjoint⟩,
    ⟨hSlots, fun w hw => hInv.idle w (by simp [hIdle, hw]), ?_, ?_⟩⟩
  · exact List.forall_mem_append.mpr ⟨hOld, List.forall_mem_singleton.mpr hNew⟩
  · refine List.pairwise_append.mpr ⟨hInv.disjoint, List.pairwise_singleton _ _, ?_⟩
    intro w hw u hu gpa hBoth
    rw [List.mem_singleton.mp hu] at hBoth
    exact hFresh gpa hBoth.2 ((hInv.listed w hw).recorded gpa hBoth.1)

/-- The rule for the loop: what a partition that is recorded, or recorded and mapped,
leaves of `P`, the loop leaves of it. -/
theorem addVparts_rule {P : VmMemDomain → Prop} {stop : Prop} (hList : ∀ m, P m → ListInv m)
    (hRecord : ∀ m v idle, P m → m.idle = v :: idle → 0 < v.part.size →
      v.part.start + v.part.size < 2 ^ 64 → (∀ gpa, v.Contains gpa → ¬ Recorded m.dom gpa) →
      (vmAddMap c m.dom.pool m.dom.base v.hpaBase v.part.start v.part.size v.part.attrs = none →
        stop) ∧
      ∀ pool ret, vmAddMap c m.dom.pool m.dom.base v.hpaBase v.part.start v.part.size
          v.part.attrs = some (pool, ret) →
        P { m with dom := recordPart m.dom v.part pool } ∧
        (ret = .ok →
          P { dom := recordPart m.dom v.part pool, idle := idle, mapped := m.mapped ++ [v] }))
    (idle : List Vpart) : ∀ m, m.idle = idle → P m →
      (addVparts c maxPartitions idle m = none → stop) ∧
        ∀ r, addVparts c maxPartitions idle m = some r → P r.1 := by
  induction idle with
  | nil =>
    intro m _ hP
    exact outcome_some hP
  | cons v idle ih =>
    intro m hIdle hP
    have hInv := hList m hP
    have hv : v.InRange := hInv.idle v (by simp [hIdle])
    rw [addVparts]
    rcases partitionAdd_cases (c := c) hInv.slots hv with
      ⟨ret, hAdd, hNot⟩ | ⟨hPos, hEnd, hFresh, hAdd⟩
    · rw [hAdd]
      cases ret with
      | eInval => exact outcome_some hP
      | eNoSpc => exact outcome_some hP
      | mapped r =>
        cases r with
        | ok => exact absurd rfl hNot
        | eBusy => exact outcome_some hP
        | eNoMem => exact outcome_some hP
    · obtain ⟨hStop, hGo⟩ := hRecord m v idle hP hIdle hPos hEnd hFresh
      rw [hAdd]
      cases hMap : vmAddMap c m.dom.pool m.dom.base v.hpaBase v.part.start v.part.size
          v.part.attrs with
      | none => exact outcome_none (hStop hMap)
      | some r =>
        obtain ⟨pool, ret⟩ := r
        obtain ⟨hKeep, hMore⟩ := hGo pool ret hMap
        cases ret with
        | ok => exact ih _ rfl (hMore rfl)
        | eBusy => exact outcome_some hKeep
        | eNoMem => exact outcome_some hKeep

theorem ListInv.create (hInv : ListInv m) (hv : v.InRange) : ListInv (createVmMemVpart m v) := by
  refine ⟨hInv.slots, ?_, hInv.listed, hInv.disjoint⟩
  exact List.forall_mem_append.mpr ⟨hInv.idle, List.forall_mem_singleton.mpr hv⟩

/-- Every operation keeps the list in order, whatever it maps and where. -/
theorem memStep_listInv (hInv : ListInv m) {op : MemOp} (hOp : op.Creates Vpart.InRange)
    {m' : VmMemDomain} (hStep : memStep c maxPartitions (some m) op = some m') : ListInv m' := by
  cases op with
  | createVpart v =>
    obtain rfl := Option.some.inj hStep
    exact hInv.create hOp
  | addPartitions =>
    obtain ⟨r, hAdd, rfl⟩ := Option.map_eq_some_iff.mp hStep
    have hLoop : (addVparts c maxPartitions m.idle m = none → True) ∧
        ∀ r, addVparts c maxPartitions m.idle m = some r → ListInv r.1 := by
      apply addVparts_rule (fun _ hInv => hInv) _ m.idle m rfl hInv
      intro m v idle hInv hIdle hPos hEnd hFresh
      refine ⟨fun _ => trivial, fun pool ret _ => ?_⟩
      obtain ⟨hKeep, hMore⟩ := hInv.record hIdle hPos hEnd hFresh pool
      exact ⟨hKeep, fun _ => hMore⟩
    exact hLoop.2 r hAdd

theorem exec_listInv (ops : List MemOp) (hInv : ListInv m)
    (hOps : ∀ op ∈ ops, op.Creates Vpart.InRange) {m' : VmMemDomain}
    (hRun : exec (memStep c maxPartitions) (some m) ops = some m') : ListInv m' := by
  have hAll : ∀ m', exec (memStep c maxPartitions) (some m) ops = some m' → ListInv m' := by
    let Inv : Option VmMemDomain → Prop := fun s => ∀ m, s = some m → ListInv m
    have hStep : ∀ op ∈ ops, ∀ s, Inv s → Inv (memStep c maxPartitions s op) := by
      intro op hOp s hs m' hStep
      cases s with
      | none => cases hStep
      | some m => exact memStep_listInv (hs m rfl) (hOps op hOp) hStep
    refine exec_invariant_of_mem ops hStep (some m) ?_
    rintro m' ⟨⟩
    exact hInv
  exact hAll m' hRun

end List

/-! ## The tables -/

/-- The walk agrees with the mapped partitions and finds nothing outside of the recorded
ones. -/
structure MemInv (c : PoolConfig) (m : VmMemDomain) : Prop where
  list : ListInv m
  wf : WellFormed c m.dom.pool m.dom.base
  recorded : ∀ ipa, ipa < 2 ^ 39 → translate c m.dom.pool m.dom.base ipa ≠ none →
    Recorded m.dom ipa
  idle : ∀ v ∈ m.idle, v.Mappable
  mappable : ∀ v ∈ m.mapped, v.Mappable
  exact : ∀ v ∈ m.mapped, ExactOn c m.dom.pool m.dom.base v.part.start v.part.size v.hpaBase
    (getVmRegionDesc v.part.attrs)

section Tables

variable {c : PoolConfig} {maxPartitions : Nat} {dom : Domain} {m : VmMemDomain} {v : Vpart}

theorem Vpart.Mappable.alignToPage_eq (hv : v.Mappable) :
    alignToPage v.part.size = v.part.size := by
  obtain ⟨q, hq⟩ := hv.size_aligned
  have hLe := hv.gpa_le
  unfold alignToPage
  omega

/-- What `vm_add_map` does with a mappable partition that meets no recorded one: it maps
all of it or, when the tables run out, a part, and nothing else changes. -/
theorem MemInv.addMap (hInv : MemInv c m) (hv : v.Mappable)
    (hFresh : ∀ gpa, v.Contains gpa → ¬ Recorded m.dom gpa) :
    ∃ pool ret, vmAddMap c m.dom.pool m.dom.base v.hpaBase v.part.start v.part.size v.part.attrs =
        some (pool, ret) ∧ WellFormed c pool m.dom.base ∧
      SameOutside c m.dom.pool pool m.dom.base v.part.start v.part.size ∧
      (ret = .ok → ExactOn c pool m.dom.base v.part.start v.part.size v.hpaBase
        (getVmRegionDesc v.part.attrs)) := by
  have hAlign := hv.alignToPage_eq
  have hIpa : v.part.start + alignToPage v.part.size ≤ 2 ^ 39 := by
    rw [hAlign]
    exact hv.gpa_le
  obtain ⟨pool, ret, k, hEq, hMapped⟩ := vmAddMap_mapped v.hpaBase v.part.start v.part.size
    v.part.attrs hInv.wf hv.start_aligned hv.hpa_aligned hIpa
    (.inr (by rw [hAlign]; exact hv.hpa_le)) hv.desc_ne
  have hUnmapped : UnmappedOn c m.dom.pool m.dom.base v.part.start v.part.size := by
    intro ipa hLow hHigh
    by_contra hSome
    have hLe := hv.gpa_le
    exact hFresh ipa ⟨hLow, hHigh⟩ (hInv.recorded ipa (by omega) hSome)
  rw [hAlign] at hMapped hIpa
  obtain ⟨hOutside, hRet⟩ := hMapped.exact_of_unmapped hIpa hUnmapped
  refine ⟨pool, ret, hEq, hMapped.wf, hOutside, ?_⟩
  rintro rfl
  rcases hRet with ⟨_, hExact⟩ | ⟨hNoMem, _⟩
  · exact hExact
  · cases hNoMem

/-- A partition that meets no recorded one is recorded, and mapped if the tables last. -/
theorem MemInv.record (hInv : MemInv c m) {idle : List Vpart} (hIdle : m.idle = v :: idle)
    (hPos : 0 < v.part.size) (hEnd : v.part.start + v.part.size < 2 ^ 64)
    (hFresh : ∀ gpa, v.Contains gpa → ¬ Recorded m.dom gpa) :
    ∃ pool ret, vmAddMap c m.dom.pool m.dom.base v.hpaBase v.part.start v.part.size v.part.attrs =
        some (pool, ret) ∧
      MemInv c { m with dom := recordPart m.dom v.part pool } ∧
      (ret = .ok → MemInv c
        { dom := recordPart m.dom v.part pool, idle := idle, mapped := m.mapped ++ [v] }) := by
  have hv : v.Mappable := hInv.idle v (by simp [hIdle])
  obtain ⟨pool, ret, hEq, hWf, hOutside, hOk⟩ := hInv.addMap hv hFresh
  obtain ⟨hKeep, hMore⟩ := hInv.list.record hIdle hPos hEnd hFresh pool
  have hRecorded : ∀ ipa, ipa < 2 ^ 39 → translate c pool m.dom.base ipa ≠ none →
      Recorded (recordPart m.dom v.part pool) ipa := by
    intro ipa hLt hSome
    rw [recorded_recordPart]
    by_cases hNew : v.part.start ≤ ipa ∧ ipa < v.part.start + v.part.size
    · exact .inr hNew
    · left
      apply hInv.recorded ipa hLt
      rw [← hOutside ipa hLt hNew]
      exact hSome
  -- the partitions mapped before are recorded, so that the new one leaves them alone
  have hOld : ∀ w ∈ m.mapped, ExactOn c pool m.dom.base w.part.start w.part.size w.hpaBase
      (getVmRegionDesc w.part.attrs) := by
    intro w hw gpa hLow hHigh
    have hLe := (hInv.mappable w hw).gpa_le
    have hNot : ¬ v.Contains gpa := fun hNew =>
      hFresh gpa hNew ((hInv.list.listed w hw).recorded gpa ⟨hLow, hHigh⟩)
    rw [hOutside gpa (by omega) hNot]
    exact hInv.exact w hw gpa hLow hHigh
  refine ⟨pool, ret, hEq, ⟨hKeep, hWf, hRecorded, hInv.idle, hInv.mappable, hOld⟩, ?_⟩
  intro hRet
  refine ⟨hMore, hWf, hRecorded, fun w hw => hInv.idle w (by simp [hIdle, hw]), ?_, ?_⟩
  · exact List.forall_mem_append.mpr ⟨hInv.mappable, List.forall_mem_singleton.mpr hv⟩
  · exact List.forall_mem_append.mpr ⟨hOld, List.forall_mem_singleton.mpr (hOk hRet)⟩

theorem memStep_inv (maxPartitions : Nat) (hInv : MemInv c m) {op : MemOp}
    (hOp : op.Creates Vpart.Mappable) :
    ∃ m', memStep c maxPartitions (some m) op = some m' ∧ MemInv c m' := by
  cases op with
  | createVpart v =>
    have hList : ListInv (createVmMemVpart m v) :=
      hInv.list.create (Vpart.Mappable.inRange hOp)
    refine ⟨createVmMemVpart m v, rfl, hList, hInv.wf, hInv.recorded, ?_, hInv.mappable,
      hInv.exact⟩
    exact List.forall_mem_append.mpr ⟨hInv.idle, List.forall_mem_singleton.mpr hOp⟩
  | addPartitions =>
    have hLoop : (addVparts c maxPartitions m.idle m = none → False) ∧
        ∀ r, addVparts c maxPartitions m.idle m = some r → MemInv c r.1 := by
      apply addVparts_rule (fun _ hInv => hInv.list) _ m.idle m rfl hInv
      intro m v idle hInv hIdle hPos hEnd hFresh
      obtain ⟨pool, ret, hEq, hKeep, hMore⟩ := hInv.record hIdle hPos hEnd hFresh
      rw [hEq]
      refine ⟨(nomatch ·), ?_⟩
      rintro _ _ ⟨⟩
      exact ⟨hKeep, hMore⟩
    obtain ⟨r, hAdd⟩ := Option.ne_none_iff_exists'.mp hLoop.1
    refine ⟨r.1, ?_, hLoop.2 r hAdd⟩
    simp only [memStep, vmMemDomainPartitionsAdd, hAdd, Option.map_some]

/-- Every run of mappable partitions returns and keeps the invariant. -/
theorem exec_memInv (maxPartitions : Nat) (ops : List MemOp) (hInv : MemInv c m)
    (hOps : ∀ op ∈ ops, op.Creates Vpart.Mappable) :
    ∃ m', exec (memStep c maxPartitions) (some m) ops = some m' ∧ MemInv c m' := by
  let Inv : Option VmMemDomain → Prop := fun s => ∃ m, s = some m ∧ MemInv c m
  have hStep : ∀ op ∈ ops, ∀ s, Inv s → Inv (memStep c maxPartitions s op) := by
    rintro op hOp _ ⟨m, rfl, hInv⟩
    exact memStep_inv maxPartitions hInv (hOps op hOp)
  exact exec_invariant_of_mem ops hStep (some m) ⟨m, rfl, hInv⟩

/-- `vm_mem_domain_create`: a domain with nothing mapped. -/
def newVmMem (dom : Domain) : VmMemDomain := { dom := dom, idle := [], mapped := [] }

theorem listInv_init {st : XlatPool} (hInit : vmDomainInit c st = some dom) :
    ListInv (newVmMem dom) := by
  have hParts : dom.partitions = (fun _ => ⟨0, 0, 0#32⟩) ∧ dom.numPartitions = 0 := by
    unfold vmDomainInit at hInit
    split at hInit
    case h_1 => cases hInit
    case h_2 =>
      obtain rfl := Option.some.inj hInit
      exact ⟨rfl, rfl⟩
  refine ⟨⟨?_, ?_⟩, List.forall_mem_nil _, List.forall_mem_nil _, List.Pairwise.nil⟩
  · intro i
    simp [newVmMem, hParts]
  · intro i
    simp [newVmMem, hParts]

theorem memInv_init {st : XlatPool} (hZero : ∀ u < c.maxTables, ∀ j < 512, st.word u j = 0#64)
    (hInit : vmDomainInit c st = some dom) : MemInv c (newVmMem dom) := by
  have hWf := (domainInv_init 0 hZero hInit).wf
  obtain ⟨hBase, hTables, _⟩ := vmDomainInit_spec hInit
  refine ⟨listInv_init hInit, hWf, ?_, List.forall_mem_nil _, List.forall_mem_nil _,
    List.forall_mem_nil _⟩
  intro ipa _ hSome
  have hNone : translate c dom.pool dom.base ipa = none := by
    apply translate_empty
    intro j hj
    unfold XlatPool.word
    rw [hTables]
    exact hZero dom.base hBase j hj
  exact absurd hNone hSome

/-! ## The search -/

/-- The software's translation is that of the walk in a mapped partition, and an error
outside of all of them. -/
def Agrees (c : PoolConfig) (m : VmMemDomain) (gpa : Nat) : Prop :=
  (∀ v ∈ m.mapped, v.Contains gpa →
    ∃ attrs, translate c m.dom.pool m.dom.base gpa = some (vmGpaToHpa m.mapped gpa, attrs)) ∧
  ((∀ v ∈ m.mapped, ¬ v.Contains gpa) → vmGpaToHpa m.mapped gpa = noHpa)

/-- If the search ends at a partition that ends at `gpa`, another one starts there and
continues it in host memory. -/
def EndsContinued (m : VmMemDomain) (gpa : Nat) : Prop :=
  ∀ v, m.mapped.find? (·.matches gpa) = some v → gpa = v.part.start + v.part.size →
    ∃ w ∈ m.mapped, w.part.start = gpa ∧ w.hpaBase = v.hpaBase + v.part.size

theorem ListInv.matches_iff (hInv : ListInv m) (hv : v ∈ m.mapped) (gpa : Nat) :
    v.matches gpa = true ↔ v.Contains gpa ∨ gpa = v.part.start + v.part.size := by
  have hEnd : v.gpaEnd = v.part.start + v.part.size :=
    Nat.mod_eq_of_lt (hInv.listed v hv).end_lt
  have hPos := (hInv.listed v hv).size_pos
  unfold Vpart.matches Vpart.Contains
  rw [hEnd, Bool.and_eq_true, decide_eq_true_iff, decide_eq_true_iff]
  omega

theorem ListInv.apart (hInv : ListInv m) {w : Vpart} (hv : v ∈ m.mapped) (hw : w ∈ m.mapped)
    (hNe : v ≠ w) (gpa : Nat) : ¬ (v.Contains gpa ∧ w.Contains gpa) := by
  have hSymm : Std.Symm fun v w : Vpart => ∀ gpa, ¬ (v.Contains gpa ∧ w.Contains gpa) :=
    ⟨fun _ _ hApart gpa hBoth => hApart gpa hBoth.symm⟩
  exact hInv.disjoint.forall hv hw hNe gpa

/-- A partition with the first address after another one starts there. -/
theorem ListInv.start_of_end (hInv : ListInv m) {w : Vpart} (hv : v ∈ m.mapped)
    (hw : w ∈ m.mapped) (hIn : w.Contains (v.part.start + v.part.size)) :
    w.part.start = v.part.start + v.part.size := by
  have hPos := (hInv.listed v hv).size_pos
  have hNe : v ≠ w := by
    rintro rfl
    exact absurd hIn.2 (Nat.lt_irrefl _)
  by_contra hStart
  apply hInv.apart hv hw hNe (v.part.start + v.part.size - 1)
  unfold Vpart.Contains at hIn ⊢
  omega

theorem MemInv.translate_eq (hInv : MemInv c m) (hv : v ∈ m.mapped) {gpa : Nat}
    (hIn : v.Contains gpa) :
    translate c m.dom.pool m.dom.base gpa =
      some (gpa - v.part.start + v.hpaBase, getVmRegionDesc v.part.attrs) := by
  rw [hInv.exact v hv gpa hIn.1 hIn.2, Nat.add_comm]

/-- The address that the search computes from a partition does not wrap around. -/
theorem ListInv.hpa_lt (hInv : ListInv m) (hv : v ∈ m.mapped) {gpa : Nat}
    (hMatch : v.matches gpa = true) : gpa - v.part.start + v.hpaBase ≤ 2 ^ 48 := by
  have hLe := (hInv.listed v hv).inRange.hpa_le
  rcases (hInv.matches_iff hv gpa).mp hMatch with hIn | hEnd
  · unfold Vpart.Contains at hIn
    omega
  · omega

theorem MemInv.agrees_iff (hInv : MemInv c m) (gpa : Nat) :
    Agrees c m gpa ↔ EndsContinued m gpa := by
  unfold Agrees EndsContinued vmGpaToHpa
  cases hFind : m.mapped.find? (·.matches gpa) with
  | none =>
    -- nothing matches
    have hNone : ∀ v ∈ m.mapped, ¬ v.Contains gpa := by
      intro v hv hIn
      have hNot := List.find?_eq_none.mp hFind v hv
      exact hNot ((hInv.list.matches_iff hv gpa).mpr (.inl hIn))
    refine iff_of_true ⟨fun v hv hIn => absurd hIn (hNone v hv), fun _ => rfl⟩ ?_
    intro v hSome
    cases hSome
  | some v =>
    have hv : v ∈ m.mapped := List.mem_of_find?_eq_some hFind
    have hMatch : v.matches gpa = true := by simpa using List.find?_some hFind
    have hLe := hInv.list.hpa_lt hv hMatch
    have hWrap : (gpa - v.part.start + v.hpaBase) % 2 ^ 64 = gpa - v.part.start + v.hpaBase :=
      Nat.mod_eq_of_lt (by omega)
    simp only [hWrap]
    rcases (hInv.list.matches_iff hv gpa).mp hMatch with hIn | hEnd
    · refine iff_of_true ⟨fun _ _ _ => ⟨_, hInv.translate_eq hv hIn⟩, ?_⟩ ?_
      · intro hNone
        exact absurd hIn (hNone v hv)
      · intro u hSome hEq
        obtain rfl := Option.some.inj hSome
        unfold Vpart.Contains at hIn
        omega
    · constructor
      · intro ⟨hWalk, hError⟩ u hSome _
        obtain rfl := Option.some.inj hSome
        by_cases hNone : ∀ w ∈ m.mapped, ¬ w.Contains gpa
        · have hAddr := hError hNone
          unfold noHpa at hAddr
          omega
        · push Not at hNone
          obtain ⟨w, hw, hIn⟩ := hNone
          obtain ⟨attrs, hTranslate⟩ := hWalk w hw hIn
          have hStart : w.part.start = gpa := by
            rw [hEnd] at hIn ⊢
            exact hInv.list.start_of_end hv hw hIn
          refine ⟨w, hw, hStart, ?_⟩
          rw [hInv.translate_eq hw hIn] at hTranslate
          have hAddr := (Prod.mk.inj (Option.some.inj hTranslate)).1
          omega
      · intro hCont
        obtain ⟨w, hw, hStart, hHpa⟩ := hCont v rfl hEnd
        have hIn : w.Contains gpa := by
          have hPos := (hInv.list.listed w hw).size_pos
          unfold Vpart.Contains
          omega
        have hAddr : gpa - w.part.start + w.hpaBase = gpa - v.part.start + v.hpaBase := by omega
        refine ⟨fun _ _ _ => ⟨getVmRegionDesc w.part.attrs, ?_⟩, fun hNone => absurd hIn (hNone w hw)⟩
        rw [← hAddr]
        exact hInv.translate_eq hw hIn

end Tables

/--
**Software and hardware translation**: after any creation and mapping of page-aligned
partitions in the address ranges, the search gives the address of the walk, or an error
outside of the mapped partitions, exactly if it does not end at a partition that ends at
the address and is not continued there in host memory.
-/
theorem gpaToHpa_agrees_iff {c : PoolConfig} {maxPartitions : Nat} {st : XlatPool} {dom : Domain}
    (hZero : ∀ u < c.maxTables, ∀ j < 512, st.word u j = 0#64)
    (hInit : vmDomainInit c st = some dom) (ops : List MemOp)
    (hOps : ∀ op ∈ ops, op.Creates Vpart.Mappable) :
    ∃ m, exec (memStep c maxPartitions) (some (newVmMem dom)) ops = some m ∧
      ∀ gpa, Agrees c m gpa ↔ EndsContinued m gpa := by
  obtain ⟨m, hRun, hInv⟩ := exec_memInv maxPartitions ops (memInv_init hZero hInit) hOps
  exact ⟨m, hRun, hInv.agrees_iff⟩

/-- Two pages that are adjacent for the guest and not for the host. -/
def sampleVparts : List Vpart :=
  [⟨⟨0x200000, 0x1000, sampleAttrs⟩, 0x40200000⟩, ⟨⟨0x201000, 0x1000, sampleAttrs⟩, 0x50000000⟩]

def sampleMemOps : List MemOp := sampleVparts.map MemOp.createVpart ++ [MemOp.addPartitions]

theorem mappable_sampleMemOps : ∀ op ∈ sampleMemOps, op.Creates Vpart.Mappable := by
  intro op hOp
  simp only [sampleMemOps, sampleVparts, List.map_cons, List.map_nil, List.cons_append,
    List.nil_append, List.mem_cons, List.not_mem_nil, or_false] at hOp
  rcases hOp with rfl | rfl | rfl
  · exact ⟨by decide, by decide, by decide, by decide, by decide, by decide⟩
  · exact ⟨by decide, by decide, by decide, by decide, by decide, by decide⟩
  · trivial

theorem mapped_sampleMemOps {dom : Domain} {m : VmMemDomain}
    (hInit : vmDomainInit samplePoolConfig blankPool = some dom)
    (hRun : exec (memStep samplePoolConfig 4) (some (newVmMem dom)) sampleMemOps = some m) :
    m.mapped = sampleVparts := by
  have hMapped : ((vmDomainInit samplePoolConfig blankPool).bind fun dom =>
      exec (memStep samplePoolConfig 4) (some (newVmMem dom)) sampleMemOps).map (·.mapped) =
        some sampleVparts := by decide
  rw [hInit, Option.bind_some, hRun] at hMapped
  exact Option.some.inj hMapped

theorem gpaToHpa_agrees_first :
    ∃ m : VmMemDomain, m.mapped = sampleVparts ∧ Agrees samplePoolConfig m 0x200fff := by
  obtain ⟨dom, hInit⟩ : ∃ dom, vmDomainInit samplePoolConfig blankPool = some dom :=
    exists_vmDomainInit (u := 0) (by decide) rfl
  obtain ⟨m, hRun, hAgrees⟩ := gpaToHpa_agrees_iff (fun _ _ _ _ => rfl) hInit sampleMemOps
    mappable_sampleMemOps
  have hList := mapped_sampleMemOps hInit hRun
  refine ⟨m, hList, (hAgrees 0x200fff).mpr ?_⟩
  intro v hFind hEnd
  have hFirst : sampleVparts.find? (·.matches 0x200fff) =
      some ⟨⟨0x200000, 0x1000, sampleAttrs⟩, 0x40200000⟩ := by decide
  rw [hList, hFirst] at hFind
  obtain rfl := Option.some.inj hFind
  exact absurd hEnd (by decide)

/-- At the border the search still gives the end of the first page, and after the second
page it gives an address where nothing is mapped. -/
theorem gpaToHpa_wrong_at_end :
    ((vmDomainInit samplePoolConfig blankPool).bind fun dom =>
      exec (memStep samplePoolConfig 4) (some (newVmMem dom)) sampleMemOps).map
        (fun m => (m.mapped == sampleVparts, vmGpaToHpa m.mapped 0x201000,
          (translate samplePoolConfig m.dom.pool m.dom.base 0x201000).map Prod.fst,
          vmGpaToHpa m.mapped 0x202000,
          (translate samplePoolConfig m.dom.pool m.dom.base 0x202000).map Prod.fst)) =
      some (true, 0x40201000, some 0x50000000, 0x50001000, none) := by
  decide

end Zvm.Stage2
