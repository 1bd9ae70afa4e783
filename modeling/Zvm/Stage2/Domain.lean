import Zvm.Stage2.AddMap
import Zvm.Stage2.DelMapping
import Zvm.Verified.Run

/-!
# Memory domains and the reuse of a VM identifier

A domain takes its base table from the pool of the VM's identifier, without clearing
it, and gives back the pool when the VM is deleted.  What the next VM of the same
identifier can see is what `vm_mem_domain_partition_remove` leaves behind, whatever
partitions were added, successfully or not, and whatever was unmapped in between.
-/

namespace Zvm.Stage2

open Zvm.Verified.FunArray Zvm.Verified.RadixTree Zvm.Verified.Run

/-- `struct k_mem_partition`. -/
structure Partition where
  start : Nat
  size : Nat
  attrs : BitVec 32
  deriving DecidableEq

/-- `struct k_mem_domain`, with the pool of its VM. -/
structure Domain where
  pool : XlatPool
  base : Nat
  partitions : Nat → Partition
  numPartitions : Nat

/-- What `vm_mem_domain_partition_add` returns. -/
inductive AddRet where
  | eInval
  | eNoSpc
  | mapped (ret : MapRet)
  deriving DecidableEq

/-- `vm_domain_init` with `arch_vm_mem_domain_init`; `none` is `-ENOMEM`. -/
def vmDomainInit (c : PoolConfig) (st : XlatPool) : Option Domain :=
  match vmNewTable c st with
  | none => none
  | some (pool, base) =>
    some { pool := pool, base := base, partitions := fun _ => ⟨0, 0, 0#32⟩, numPartitions := 0 }

/-- `check_vm_add_partition`. -/
def checkVmAddPartition (dom : Domain) (part : Partition) : Bool :=
  let pstart := part.start
  let pend := (part.start + part.size) % 2 ^ 64
  if part.size = 0 then false
  else if pend ≤ pstart then false
  else
    (List.range dom.numPartitions).all fun i =>
      let dpart := dom.partitions i
      let dend := (dpart.start + dpart.size) % 2 ^ 64
      decide (dpart.size = 0 ∨ ¬ (pend > dpart.start ∧ dend > pstart))

/-- `vm_mem_domain_partition_add`; `none` is a failed assertion.  The partition is
recorded before it is mapped, and stays recorded when mapping it fails. -/
def vmMemDomainPartitionAdd (c : PoolConfig) (maxPartitions : Nat) (dom : Domain)
    (part : Partition) (physStart : Nat) : Option (Domain × AddRet) :=
  if checkVmAddPartition dom part = false then some (dom, .eInval)
  else
    match firstIdx maxPartitions (fun i => (dom.partitions i).size == 0) with
    | none => some (dom, .eNoSpc)
    | some i =>
      let recorded :=
        { dom with
          partitions := set dom.partitions i part
          numPartitions := dom.numPartitions + 1 }
      match vmAddMap c dom.pool dom.base physStart part.start part.size part.attrs with
      | none => none
      | some (pool, ret) => some ({ recorded with pool := pool }, .mapped ret)

/-- `vm_remove_dev_map`; `none` is a failed assertion. -/
def vmRemoveDevMap (c : PoolConfig) (st : XlatPool) (base virt size : Nat) :
    Option (XlatPool × MapRet) :=
  if virt % 2 ^ 12 = 0 ∧ size % 2 ^ 12 = 0 then vmSetMapping c st base virt size 0#64 true
  else none

/-- `arch_vm_mem_table_count_clean`. -/
def archVmMemTableCountClean (c : PoolConfig) (st : XlatPool) : XlatPool :=
  { st with useCount := fun i => if i < c.maxTables then 0 else st.useCount i }

/-- The loop of `vm_mem_domain_partition_remove` over the first `n` slots. -/
def removePartitions (c : PoolConfig) (dom : Domain) : Nat → XlatPool
  | 0 => dom.pool
  | n + 1 =>
    let st := removePartitions c dom n
    if (dom.partitions n).size ≠ 0 then
      vmRemoveMap c st dom.base (dom.partitions n).start (dom.partitions n).size
    else st

/-- `vm_mem_domain_partition_remove`: the pool it leaves. -/
def vmMemDomainPartitionRemove (c : PoolConfig) (maxPartitions : Nat) (dom : Domain) : XlatPool :=
  archVmMemTableCountClean c (removePartitions c dom maxPartitions)

/-- What happens to a domain while its VM lives. -/
inductive DomainOp where
  | addPartition (part : Partition) (physStart : Nat)
  | unmapDevice (virt size : Nat)

/-- The addresses meet the assertions of `vm_add_map` and `vm_remove_dev_map`. -/
def DomainOp.Aligned : DomainOp → Prop
  | .addPartition part physStart => part.start % 2 ^ 12 = 0 ∧ physStart % 2 ^ 12 = 0
  | .unmapDevice virt size => virt % 2 ^ 12 = 0 ∧ size % 2 ^ 12 = 0

/-- One operation; a failed assertion stops the system. -/
def domainStep (c : PoolConfig) (maxPartitions : Nat) : Option Domain → DomainOp → Option Domain
  | none, _ => none
  | some dom, .addPartition part physStart =>
    (vmMemDomainPartitionAdd c maxPartitions dom part physStart).map Prod.fst
  | some dom, .unmapDevice virt size =>
    (vmRemoveDevMap c dom.pool dom.base virt size).map fun r => { dom with pool := r.1 }

/-! ## The invariant -/

/-- The pages of the partitions recorded in the slots from `n` on. -/
def RecordedFrom (maxPartitions : Nat) (partitions : Nat → Partition) (n p : Nat) : Prop :=
  ∃ i, n ≤ i ∧ i < maxPartitions ∧ (partitions i).size ≠ 0 ∧
    RangePages (partitions i).start (partitions i).size p

/-- The tables map only pages of recorded partitions. -/
structure DomainInv (c : PoolConfig) (maxPartitions : Nat) (dom : Domain) : Prop where
  wf : WellFormed c dom.pool dom.base
  confined : Confined c dom.pool dom.base (RecordedFrom maxPartitions dom.partitions 0) 0 0

section Steps

variable {c : PoolConfig} {maxPartitions : Nat} {dom dom' : Domain} {st : XlatPool}

theorem vmDomainInit_spec (hInit : vmDomainInit c st = some dom) :
    dom.base < c.maxTables ∧ dom.pool.xlatTables = st.xlatTables ∧
      dom.pool.useCount dom.base = 1 := by
  unfold vmDomainInit at hInit
  split at hInit
  case h_1 => cases hInit
  case h_2 pool base hNew =>
    obtain ⟨hLt, _, rfl⟩ := vmNewTable_eq_some hNew
    obtain rfl := Option.some.inj hInit
    exact ⟨hLt, rfl, set_same _ _ _⟩

/-- With a free table the initialisation succeeds. -/
theorem exists_vmDomainInit {u : Nat} (hu : u < c.maxTables) (hFree : st.useCount u = 0) :
    ∃ dom, vmDomainInit c st = some dom := by
  unfold vmDomainInit vmNewTable
  cases hFirst : firstIdx c.maxTables fun i => st.useCount i == 0 with
  | none =>
    have := firstIdx_eq_none.mp hFirst u hu
    simp [hFree] at this
  | some i => exact ⟨_, rfl⟩

/-- A domain whose tables are all empty. -/
theorem domainInv_init (maxPartitions : Nat)
    (hZero : ∀ u < c.maxTables, ∀ j < 512, st.word u j = 0#64)
    (hInit : vmDomainInit c st = some dom) : DomainInv c maxPartitions dom := by
  obtain ⟨hBase, hTables, hCount⟩ := vmDomainInit_spec hInit
  have hZero' : ∀ u < c.maxTables, ∀ j < 512, dom.pool.word u j = 0#64 := by
    intro u hu j hj
    unfold XlatPool.word
    rw [hTables]
    exact hZero u hu j hj
  refine ⟨wellFormed_empty hBase hZero' hCount, ⟨fun u hu _ => hZero' u hu, ?_, ?_⟩⟩
  · intro d ρ e _ hLook _ hNe
    obtain ⟨u, hAt, hWord⟩ := look_eq_some hLook
    obtain ⟨_, rfl⟩ := tableAt_empty (hZero' _ hBase) hAt
    exact absurd (hWord.symm.trans (hZero' _ hBase _ (mod_fan_lt (R := stage2Radix c) _))) hNe
  · intro d ρ e u _ hLook hLink
    obtain ⟨w, hAt, hWord⟩ := look_eq_some hLook
    obtain ⟨_, rfl⟩ := tableAt_empty (hZero' _ hBase) hAt
    rw [← hWord, show dom.pool.xlatTables (slot (stage2Radix c) dom.base _) = 0#64 from
      hZero' _ hBase _ (mod_fan_lt (R := stage2Radix c) _), link_zero] at hLink
    cases hLink

/-- An operation that returned. -/
theorem outcome_some {α : Type} {stop : Prop} {good : α → Prop} {x : α} (hx : good x) :
    (some x = none → stop) ∧ ∀ r, some x = some r → good r :=
  ⟨(fun h => nomatch h), fun _ hr => Option.some.inj hr ▸ hx⟩

/-- An operation that was stopped. -/
theorem outcome_none {α : Type} {stop : Prop} {good : α → Prop} (hStop : stop) :
    ((none : Option α) = none → stop) ∧ ∀ r, none = some r → good r :=
  ⟨fun _ => hStop, fun _ hr => nomatch hr⟩

/-- Recording a partition in a free slot only adds pages. -/
theorem recorded_set {partitions : Nat → Partition} {i : Nat} (part : Partition)
    (hFree : (partitions i).size = 0) {p : Nat} (hIn : RecordedFrom maxPartitions partitions 0 p) :
    RecordedFrom maxPartitions (set partitions i part) 0 p := by
  obtain ⟨k, hk, hLt, hSize, hRange⟩ := hIn
  have hNe : k ≠ i := by
    rintro rfl
    exact hSize hFree
  exact ⟨k, hk, hLt, by rw [set_ne _ _ hNe]; exact hSize, by rw [set_ne _ _ hNe]; exact hRange⟩

/-- Rounding the size up to pages adds no page. -/
theorem rangePages_alignToPage {start size k : Nat} (hStart : start % 2 ^ 12 = 0)
    (hk : k < alignToPage size) : RangePages start size (pageOf (start + k)) := by
  unfold alignToPage at hk
  refine ⟨k / 2 ^ 12 * 2 ^ 12, by omega, ?_⟩
  unfold pageOf
  omega

/-- Adding a partition stops only at an assertion, and keeps the invariant. -/
theorem partitionAdd_inv (hInv : DomainInv c maxPartitions dom) (part : Partition)
    (physStart : Nat) :
    (vmMemDomainPartitionAdd c maxPartitions dom part physStart = none →
        ¬ (part.start % 2 ^ 12 = 0 ∧ physStart % 2 ^ 12 = 0)) ∧
      ∀ r, vmMemDomainPartitionAdd c maxPartitions dom part physStart = some r →
        DomainInv c maxPartitions r.1 := by
  unfold vmMemDomainPartitionAdd
  by_cases hCheck : checkVmAddPartition dom part = false
  · simp only [hCheck, if_true]
    exact outcome_some hInv
  · simp only [hCheck, Bool.true_eq_false, if_false]
    cases hSlot : firstIdx maxPartitions fun i => (dom.partitions i).size == 0 with
    | none => exact outcome_some hInv
    | some i =>
      obtain ⟨hLt, hFree, _⟩ := firstIdx_eq_some.mp hSlot
      have hFree' : (dom.partitions i).size = 0 := by simpa using hFree
      by_cases hAligned : part.start % 2 ^ 12 = 0 ∧ physStart % 2 ^ 12 = 0
      · have hC := hInv.confined.mono fun p hp => recorded_set part hFree' hp
        have hPhys : 2 ^ 12 ∣ physStart := Nat.dvd_of_mod_eq_zero hAligned.2
        have hVirt : 2 ^ 12 ∣ part.start := Nat.dvd_of_mod_eq_zero hAligned.1
        have hCov : ∀ k < alignToPage part.size, RecordedFrom maxPartitions
            (set dom.partitions i part) 0 (pageOf (part.start + k)) := by
          intro k hk
          refine ⟨i, Nat.zero_le _, hLt, ?_, ?_⟩
          · rw [set_same]
            intro hZero
            simp [hZero, alignToPage] at hk
          · rw [set_same]
            exact rangePages_alignToPage hAligned.1 hk
        obtain ⟨st', ret, hEq, hWF, hC'⟩ := vmSetMapping_confined (!noOverwrite part.attrs) hInv.wf hVirt
          (alignToPage_aligned part.size)
          (type_mkDesc (isAttrs_getVmRegionDesc part.attrs) hPhys) hC (fun _ => hCov)
        simp only [vmAddMap_eq hVirt hPhys, hEq]
        exact outcome_some ⟨hWF, hC'⟩
      · have hNone : vmAddMap c dom.pool dom.base physStart part.start part.size part.attrs =
            none := if_neg fun h => hAligned ⟨h.1, h.2.1⟩
        rw [hNone]
        exact outcome_none hAligned

/-- Unmapping stops only at an assertion, and keeps the invariant. -/
theorem removeDevMap_inv (hInv : DomainInv c maxPartitions dom) (virt size : Nat) :
    (vmRemoveDevMap c dom.pool dom.base virt size = none →
        ¬ (virt % 2 ^ 12 = 0 ∧ size % 2 ^ 12 = 0)) ∧
      ∀ r, vmRemoveDevMap c dom.pool dom.base virt size = some r →
        DomainInv c maxPartitions { dom with pool := r.1 } := by
  unfold vmRemoveDevMap
  by_cases hAligned : virt % 2 ^ 12 = 0 ∧ size % 2 ^ 12 = 0
  · obtain ⟨st', ret, hEq, hWF, hC⟩ := vmSetMapping_confined true hInv.wf
      (Nat.dvd_of_mod_eq_zero hAligned.1) (Nat.dvd_of_mod_eq_zero hAligned.2)
      (show 0#64 &&& 3#64 = 0#64 by decide) hInv.confined (fun h => absurd rfl h)
    rw [if_pos hAligned, hEq]
    exact outcome_some ⟨hWF, hC⟩
  · rw [if_neg hAligned]
    exact outcome_none hAligned

/-- One operation. -/
theorem domainStep_inv (hInv : DomainInv c maxPartitions dom) (op : DomainOp) :
    (domainStep c maxPartitions (some dom) op = none → ¬ op.Aligned) ∧
      ∀ dom', domainStep c maxPartitions (some dom) op = some dom' →
        DomainInv c maxPartitions dom' := by
  cases op with
  | addPartition part physStart =>
    obtain ⟨hStop, hGo⟩ := partitionAdd_inv hInv part physStart
    refine ⟨fun h => hStop (Option.map_eq_none_iff.mp h), fun dom' h => ?_⟩
    obtain ⟨r, hr, rfl⟩ := Option.map_eq_some_iff.mp h
    exact hGo r hr
  | unmapDevice virt size =>
    obtain ⟨hStop, hGo⟩ := removeDevMap_inv hInv virt size
    refine ⟨fun h => hStop (Option.map_eq_none_iff.mp h), fun dom' h => ?_⟩
    obtain ⟨r, hr, rfl⟩ := Option.map_eq_some_iff.mp h
    exact hGo r hr

theorem exec_stopped (ops : List DomainOp) : exec (domainStep c maxPartitions) none ops = none := by
  induction ops with
  | nil => rfl
  | cons op ops ih => exact ih

/-- Every run stops at an assertion or keeps the invariant. -/
theorem exec_domainInv (ops : List DomainOp) :
    ∀ dom, DomainInv c maxPartitions dom →
    (exec (domainStep c maxPartitions) (some dom) ops = none → ∃ op ∈ ops, ¬ op.Aligned) ∧
      ∀ dom', exec (domainStep c maxPartitions) (some dom) ops = some dom' →
        DomainInv c maxPartitions dom' := by
  induction ops with
  | nil =>
    intro dom hInv
    exact outcome_some hInv
  | cons op ops ih =>
    intro dom hInv
    obtain ⟨hStop, hGo⟩ := domainStep_inv hInv op
    rw [exec_cons]
    cases hStep : domainStep c maxPartitions (some dom) op with
    | none =>
      refine ⟨fun _ => ⟨op, List.mem_cons_self, hStop hStep⟩, fun dom' h => ?_⟩
      rw [exec_stopped] at h
      cases h
    | some dom₁ =>
      obtain ⟨hLater, hKeep⟩ := ih dom₁ (hGo dom₁ hStep)
      refine ⟨fun h => ?_, hKeep⟩
      obtain ⟨op', hMem, hNot⟩ := hLater h
      exact ⟨op', List.mem_cons_of_mem _ hMem, hNot⟩

/-! ## Removing the partitions -/

/-- After the first `n` slots only pages of later ones are left. -/
theorem removePartitions_confined (hInv : DomainInv c maxPartitions dom) (n : Nat) :
    WellFormed c (removePartitions c dom n) dom.base ∧
      Confined c (removePartitions c dom n) dom.base
        (RecordedFrom maxPartitions dom.partitions n) 0 0 := by
  induction n with
  | zero => exact ⟨hInv.wf, hInv.confined⟩
  | succ n ih =>
    obtain ⟨hWF, hC⟩ := ih
    unfold removePartitions
    by_cases hSize : (dom.partitions n).size ≠ 0
    · simp only [if_pos hSize]
      obtain ⟨hWF', hC'⟩ := vmRemoveMap_confined (dom.partitions n).start
        (dom.partitions n).size hWF hC
      refine ⟨hWF', hC'.mono ?_⟩
      rintro p ⟨⟨i, hi, hLt, hUsed, hRange⟩, hNot⟩
      refine ⟨i, ?_, hLt, hUsed, hRange⟩
      by_contra hle
      obtain rfl : i = n := by omega
      exact hNot hRange
    · simp only [if_neg hSize]
      refine ⟨hWF, hC.mono ?_⟩
      rintro p ⟨i, hi, hLt, hUsed, hRange⟩
      refine ⟨i, ?_, hLt, hUsed, hRange⟩
      by_contra hle
      obtain rfl : i = n := by omega
      exact hSize hUsed

/--
**A reused identifier inherits nothing.**  A domain whose tables are all empty is
initialised, partitions are added and devices unmapped in any way, and the partitions
are removed: then every table is empty, every use count is 0, and the next domain of
the same identifier translates no address.  A run ends early only at an assertion
about the alignment of its addresses.
-/
theorem reused_vmid_inherits_nothing (hZero : ∀ u < c.maxTables, ∀ j < 512, st.word u j = 0#64)
    (hInit : vmDomainInit c st = some dom) (ops : List DomainOp) :
    (exec (domainStep c maxPartitions) (some dom) ops = none → ∃ op ∈ ops, ¬ op.Aligned) ∧
      ∀ dom', exec (domainStep c maxPartitions) (some dom) ops = some dom' →
        let pool := vmMemDomainPartitionRemove c maxPartitions dom'
        (∀ u < c.maxTables, ∀ j < 512, pool.word u j = 0#64) ∧
          (∀ u < c.maxTables, pool.useCount u = 0) ∧
          ∃ next, vmDomainInit c pool = some next ∧
            ∀ ipa, translate c next.pool next.base ipa = none := by
  obtain ⟨hStop, hKeep⟩ := exec_domainInv ops dom (domainInv_init maxPartitions hZero hInit)
  refine ⟨hStop, fun dom' hRun => ?_⟩
  obtain ⟨_, hC⟩ := removePartitions_confined (hKeep dom' hRun) maxPartitions
  have hEmpty : ∀ u < c.maxTables, ∀ j < 512,
      (vmMemDomainPartitionRemove c maxPartitions dom').word u j = 0#64 :=
    hC.empty fun p ⟨i, hle, hlt, _⟩ => by omega
  have hCounts : ∀ u < c.maxTables,
      (vmMemDomainPartitionRemove c maxPartitions dom').useCount u = 0 := by
    intro u hu
    simp [vmMemDomainPartitionRemove, archVmMemTableCountClean, hu]
  have hBase := (vmDomainInit_spec hInit).1
  obtain ⟨next, hNext⟩ := exists_vmDomainInit hBase (hCounts dom.base hBase)
  refine ⟨hEmpty, hCounts, next, hNext, fun ipa => translate_empty (fun j hj => ?_) ipa⟩
  obtain ⟨hNextBase, hTables, _⟩ := vmDomainInit_spec hNext
  unfold XlatPool.word
  rw [hTables]
  exact hEmpty next.base hNextBase j hj

end Steps

/-- A pool of empty tables, all of them free. -/
def blankPool : XlatPool := ⟨fun _ => 0#64, fun _ => 0⟩

/-- A block is mapped, a page of it unmapped, and a second partition runs out of tables. -/
def sampleOps : List DomainOp :=
  [.addPartition ⟨0x200000, 0x200000, sampleAttrs⟩ 0x40200000, .unmapDevice 0x201000 0x1000,
    .addPartition ⟨0x40000000, 0x3000, sampleAttrs⟩ 0x80000000]

theorem reused_vmid_inherits_nothing_sample :
    ∃ dom dom', vmDomainInit samplePoolConfig blankPool = some dom ∧
      exec (domainStep samplePoolConfig 4) (some dom) sampleOps = some dom' ∧
      ∀ u < 4, ∀ j < 512, (vmMemDomainPartitionRemove samplePoolConfig 4 dom').word u j = 0#64 := by
  obtain ⟨dom, hInit⟩ : ∃ dom, vmDomainInit samplePoolConfig blankPool = some dom :=
    exists_vmDomainInit (u := 0) (by decide) rfl
  have hRuns : ((vmDomainInit samplePoolConfig blankPool).bind fun dom =>
      exec (domainStep samplePoolConfig 4) (some dom) sampleOps).isSome = true := by decide
  rw [hInit] at hRuns
  obtain ⟨dom', hRun⟩ := Option.isSome_iff_exists.mp hRuns
  exact ⟨dom, dom', hInit, hRun, ((reused_vmid_inherits_nothing (fun _ _ _ _ => rfl) hInit
    sampleOps).2 dom' hRun).1⟩

end Zvm.Stage2
