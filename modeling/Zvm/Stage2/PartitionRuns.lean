import Mathlib
import Zvm.Stage2.Vparts

/-!
# Adding partitions, one call after the other

`vm_mem_domain_partition_add` records a partition before it maps it.  While every
partition lies in the 39-bit range of the tables and the tables last, the record is the
list of the accepted partitions, and no call changes the translation of one.  A partition
beyond the range is mapped over another one; one that runs out of tables stays recorded,
and the call can never be repeated with success.
-/

namespace Zvm.Stage2

open Zvm.Verified.FunArray Zvm.Verified.Run

/-! ## The tables a mapping needs -/

/-- The number of tables `vm_new_table` can hand out. -/
def freeTables (c : PoolConfig) (st : XlatPool) : Nat :=
  ((Finset.range c.maxTables).filter fun t => st.useCount t = 0).card

/-- Two tables for each page that is left, less those on the path already. -/
def Enough (c : PoolConfig) (s : SetLoop) : Prop :=
  2 * (s.size / 2 ^ 12) + 1 ≤ freeTables c s.pool + s.level

section Tables

variable {c : PoolConfig} {st st' : XlatPool} {base d phys : Nat} {mayOverwrite : Bool}
  {s : SetLoop} {attrs : Word}

theorem freeTables_le_succ (t' : Nat)
    (hKeep : ∀ t, t ≠ t' → st.useCount t = 0 → st'.useCount t = 0) :
    freeTables c st ≤ freeTables c st' + 1 := by
  refine (Finset.card_le_card ?_).trans (Finset.card_insert_le t' _)
  intro t ht
  obtain ⟨hLt, hZero⟩ := Finset.mem_filter.mp ht
  by_cases hEq : t = t'
  · exact hEq ▸ Finset.mem_insert_self _ _
  · exact Finset.mem_insert_of_mem (Finset.mem_filter.mpr ⟨hLt, hKeep t hEq hZero⟩)

theorem freeTables_mono (hKeep : ∀ t, st.useCount t = 0 → st'.useCount t = 0) :
    freeTables c st ≤ freeTables c st' :=
  Finset.card_le_card (Finset.monotone_filter_right _ fun t _ => hKeep t)

/-- Storing a descriptor takes no table, and leaves the table it is in in use. -/
theorem freeTables_store (hP : OnPath c base s d)
    (hLeaf : (stage2Radix c).link d (s.entry d) = none)
    (hAlign : 2 ^ regionShift d ∣ outAddr s.desc) (hDesc : s.desc ≠ 0#64) (ptes : Nat → Nat) :
    freeTables c s.pool ≤ freeTables c (freeUnused
      (storeEntry s.pool (s.table * 512 + regionOf s.virt d % 512) (d + 1) s.desc) ptes (d + 1)
      (s.table * 512 + regionOf s.virt d % 512)) := by
  have hS := storeEntry_stored hP.wf hP.place hLeaf hP.type hAlign
  have hIdx := vmTableIndex_slot (u := s.table) hP.place.index_lt
  have hUsed : (storeEntry s.pool (s.table * 512 + regionOf s.virt d % 512) (d + 1)
      s.desc).useCount s.table ≠ 1 := by
    intro hOne
    have hIn : InTree c _ base s.table :=
      ⟨d, _, hP.place.region_lt, (hS.keep_of_le hP.place.region_lt (Nat.le_refl d)).trans hP.table⟩
    have hZero := empty_of_unused hS.wellFormed hIn hOne _ hP.place.index_lt
    have hWord : (storeEntry s.pool (s.table * 512 + regionOf s.virt d % 512) (d + 1)
        s.desc).word s.table (regionOf s.virt d % 512) = blockDesc s.desc (d + 1) :=
      set_same _ _ _
    exact hDesc ((blockDesc_eq_zero_iff hP.type).mp (hWord.symm.trans hZero))
  rw [freeUnused, if_neg (by simp [vmIsTableUnused, hIdx, hUsed])]
  refine freeTables_mono fun t hZero => ?_
  have hNe : t ≠ s.table := by
    rintro rfl
    exact not_inTree_of_count_zero hP.wf hZero hP.place.inTree
  exact (storeEntry_useCount hP.place.index_lt hNe).trans hZero

/-- With enough tables an iteration leaves enough, and does not run out of them. -/
theorem setStep_enough (mayOverwrite : Bool) (hP : OnPath c base s d) (hSize : s.size ≠ 0)
    (hDesc : s.desc ≠ 0#64) (hEnough : Enough c s) :
    (∃ s', setStep c base mayOverwrite s = .inl s' ∧ Enough c s') ∨
      setStep c base mayOverwrite s = .inr (s.pool, .eBusy) := by
  have hIdx := hP.slot_eq
  have hDepth := hP.depth_le
  have hPages := hP.size_aligned
  unfold Enough at hEnough ⊢
  rw [hP.level] at hEnough
  unfold setStep
  simp only [hP.level, hIdx]
  rw [show s.pool.xlatTables (s.table * 512 + regionOf s.virt d % 512) = s.entry d from rfl]
  split
  case isTrue =>
    refine .inl ⟨_, rfl, ?_⟩
    dsimp only
    omega
  case isFalse hTable =>
    have hLeaf : (stage2Radix c).link d (s.entry d) = none := by
      simp [stage2Radix, hTable]
    split
    case isTrue => exact .inr rfl
    case isFalse =>
      split
      case isTrue =>
        obtain ⟨hPos, hLe, hAligned⟩ := chunk_spec hP hSize
        refine .inl ⟨_, rfl, ?_⟩
        show 2 * ((s.size - chunk s d) / 2 ^ 12) + 1 ≤ freeTables c s.pool + 1
        omega
      case isFalse =>
        split
        case isTrue hFit =>
          have hd : d < 2 := by
            by_contra hLast
            obtain rfl : d = 2 := by omega
            exact absurd hFit (fits_last hP hSize)
          rcases vmExpandToTable_cases hP.wf hP.place hd hLeaf with hNone | ⟨st', t', mem, hEq, hL⟩
          · exfalso
            obtain ⟨t, ht⟩ := Finset.card_pos.mp (show 0 < freeTables c s.pool by omega)
            obtain ⟨hLt, hZero⟩ := Finset.mem_filter.mp ht
            obtain ⟨dom, hDom⟩ := exists_vmDomainInit (Finset.mem_range.mp hLt) hZero
            unfold vmExpandToTable at hNone
            unfold vmDomainInit at hDom
            cases hNew : vmNewTable c s.pool with
            | none => simp [hNew] at hDom
            | some new => simp [hNew] at hNone
          · rw [hEq]
            have hLoss : freeTables c s.pool ≤ freeTables c st' + 1 := by
              refine freeTables_le_succ t' fun t hNe hZero => ?_
              have hOther : t ≠ s.table := by
                rintro rfl
                exact not_inTree_of_count_zero hP.wf hZero hP.place.inTree
              rw [hL.countOther t hOther hNe, hZero]
            refine .inl ⟨_, rfl, ?_⟩
            dsimp only
            omega
        case isFalse hFit =>
          simp only [not_or, Nat.not_lt, not_not, Bool.not_eq_false] at hFit
          obtain ⟨hBig, _, hBlock⟩ := hFit
          have hAlign : 2 ^ regionShift d ∣ outAddr s.desc :=
            (vmIsDescBlockAligned_iff _ (by have := regionShift_le d; omega)).mp hBlock
          have hFree := freeTables_store hP hLeaf hAlign hDesc
            (set s.ptes (d + 1) (s.table * 512 + regionOf s.virt d % 512))
          have hPage := Nat.le_of_dvd (Nat.two_pow_pos _) (page_dvd_region d)
          have hBig' : 2 ^ regionShift d ≤ s.size := hBig
          refine .inl ⟨_, rfl, ?_⟩
          simp only [moveOn]
          show 2 * ((s.size - 2 ^ regionShift d) / 2 ^ 12) + 1 ≤ _ + 1
          omega

/-- With enough tables the loop does not run out of them. -/
theorem setLoop_enough (fuel : Nat) :
    ∀ s d phys, OnPath c base s d → Request s phys attrs →
    Enough c s → ∀ st', setLoop c base mayOverwrite fuel s ≠ some (st', .eNoMem) := by
  induction fuel with
  | zero => exact fun s d phys _ _ _ st' => nofun
  | succ fuel ih =>
    intro s d phys hP hR hEnough st'
    unfold setLoop
    by_cases hSize : s.size = 0
    · simp [hSize]
    · simp only [hSize, if_false]
      rcases setStep_enough mayOverwrite hP hSize (hR.desc_ne hSize) hEnough
        with ⟨s', hEq, hEnough'⟩ | hEq
      · have hIter : Iteration c base mayOverwrite s d _ := (setStep_iteration hP hSize).1
        rw [hEq] at hIter ⊢
        obtain ⟨d', hP', _⟩ := hIter.measure hP
        cases hIter with
        | descend _ _ hRange _ | expand _ _ _ hRange _ =>
          exact ih s' d' phys hP' (hR.same hRange) hEnough' st'
        | skip _ _ _ _ hMove _ | store _ _ _ _ _ _ hMove _ =>
          exact ih s' d' _ hP' (hR.advanced hSize hMove).2 hEnough' st'
      · rw [hEq]
        simp

/-- A range of pages is mapped if there are two free tables for each of them. -/
theorem vmAddMap_enough {virt size : Nat} {attrs : BitVec 32} (hWF : WellFormed c st base)
    (hVirt : 2 ^ 12 ∣ virt) (hPhys : 2 ^ 12 ∣ phys) (hIpa : virt + alignToPage size ≤ 2 ^ 39)
    (hRange : phys + alignToPage size ≤ 2 ^ 48) (hDesc : getVmRegionDesc attrs ≠ 0#64)
    (hEnough : 2 * (alignToPage size / 2 ^ 12) ≤ freeTables c st) :
    vmAddMap c st base phys virt size attrs ≠ some (st', .eNoMem) := by
  rw [vmAddMap_eq hVirt hPhys]
  obtain ⟨hP, hR⟩ := onPath_addMap hWF hVirt hPhys hIpa hRange hDesc rfl
  exact setLoop_enough _ _ 0 phys hP hR (Nat.succ_le_succ hEnough) st'

end Tables

/-! ## Runs of `vm_mem_domain_partition_add` -/

/-- One call, with the list of the partitions that were accepted; a failed assertion stops
the system. -/
def addStep (c : PoolConfig) (maxPartitions : Nat) :
    Option (Domain × List Vpart) → Vpart → Option (Domain × List Vpart)
  | none, _ => none
  | some (dom, accepted), v =>
    (vmMemDomainPartitionAdd c maxPartitions dom v.part v.hpaBase).map fun r =>
      (r.1, if r.2 = .mapped .ok then accepted ++ [v] else accepted)

/-- The partition is in the guest's 39-bit and the host's 48-bit address range, its
descriptors are not all zero, and there are two free tables for each of its pages. -/
structure Fits (c : PoolConfig) (dom : Domain) (v : Vpart) : Prop where
  gpa_le : v.part.start + v.part.size ≤ 2 ^ 39
  hpa_le : v.hpaBase + v.part.size ≤ 2 ^ 48
  desc_ne : getVmRegionDesc v.part.attrs ≠ 0#64
  tables : 2 * (alignToPage v.part.size / 2 ^ 12) ≤ freeTables c dom.pool

def CallFits (c : PoolConfig) (maxPartitions : Nat) :
    Option (Domain × List Vpart) → Vpart → Prop
  | none, _ => True
  | some (dom, _), v => Refused maxPartitions dom v.part ∨ Fits c dom v

/-- The record is the list of the accepted partitions, which are not empty, do not wrap
around and do not meet. -/
structure PartitionLaw (dom : Domain) (accepted : List Vpart) : Prop where
  listed : (List.range dom.numPartitions).map dom.partitions = accepted.map Vpart.part
  sound : ∀ v ∈ accepted, 0 < v.part.size ∧ v.part.start + v.part.size < 2 ^ 64
  disjoint : accepted.Pairwise fun v w => ∀ gpa, ¬ (v.Contains gpa ∧ w.Contains gpa)
  above : ∀ i, dom.numPartitions ≤ i → (dom.partitions i).size = 0

/-- The guest addresses of the pages of a partition. -/
def Vpart.Covers (v : Vpart) (ipa : Nat) : Prop :=
  v.part.start ≤ ipa ∧ ipa < v.part.start + alignToPage v.part.size

/-- The law, and what the tables map: the pages of the accepted partitions. -/
structure PartsInv (c : PoolConfig) (dom : Domain) (accepted : List Vpart) : Prop
    extends PartitionLaw dom accepted where
  slots : SlotInv dom
  wf : WellFormed c dom.pool dom.base
  placed : ∀ v ∈ accepted, 2 ^ 12 ∣ v.part.start ∧ v.part.start + v.part.size ≤ 2 ^ 39
  mapped : ∀ ipa < 2 ^ 39, translate c dom.pool dom.base ipa ≠ none → ∃ v ∈ accepted, v.Covers ipa
  exact : ∀ v ∈ accepted, ExactOn c dom.pool dom.base v.part.start (alignToPage v.part.size)
    v.hpaBase (getVmRegionDesc v.part.attrs)

section Runs

variable {c : PoolConfig} {maxPartitions : Nat} {dom : Domain} {accepted : List Vpart} {v w : Vpart}

theorem PartitionLaw.recorded_iff (hLaw : PartitionLaw dom accepted) (ipa : Nat) :
    Recorded dom ipa ↔ ∃ v ∈ accepted, v.Contains ipa := by
  have hMem : ∀ part, part ∈ (List.range dom.numPartitions).map dom.partitions ↔
      part ∈ accepted.map Vpart.part := by
    rw [hLaw.listed]
    exact fun _ => Iff.rfl
  simp only [List.mem_map, List.mem_range] at hMem
  constructor
  · rintro ⟨i, hi, hRange⟩
    obtain ⟨v, hv, hEq⟩ := (hMem _).mp ⟨i, hi, rfl⟩
    exact ⟨v, hv, by rw [Vpart.Contains, hEq]; exact hRange⟩
  · rintro ⟨v, hv, hRange⟩
    obtain ⟨i, hi, hEq⟩ := (hMem _).mpr ⟨v, hv, rfl⟩
    exact ⟨i, hi, by rw [hEq]; exact hRange⟩

theorem alignToPage_small (size : Nat) (hSize : size ≤ 2 ^ 39) :
    size ≤ alignToPage size ∧ alignToPage size < size + 2 ^ 12 := by
  unfold alignToPage
  omega

/-- Partitions that start at a page and do not meet have no page in common. -/
theorem covers_disjoint (hv : 2 ^ 12 ∣ v.part.start) (hw : 2 ^ 12 ∣ w.part.start)
    (hvSize : v.part.size ≤ 2 ^ 39) (hwSize : w.part.size ≤ 2 ^ 39)
    (hApart : ∀ gpa, ¬ (v.Contains gpa ∧ w.Contains gpa)) (ipa : Nat) :
    ¬ (v.Covers ipa ∧ w.Covers ipa) := by
  rintro ⟨hIn, hIn'⟩
  have hPages := alignToPage_aligned v.part.size
  have hPages' := alignToPage_aligned w.part.size
  have hSmall := alignToPage_small _ hvSize
  have hSmall' := alignToPage_small _ hwSize
  unfold Vpart.Covers at hIn hIn'
  -- the page's first address is in both
  refine hApart (ipa / 2 ^ 12 * 2 ^ 12) ⟨⟨?_, ?_⟩, ?_, ?_⟩ <;> omega

/-- An accepted partition is added to the list and to the tables. -/
theorem PartsInv.accept (hInv : PartsInv c dom accepted) (hFits : Fits c dom v)
    (hPos : 0 < v.part.size) (hEnd : v.part.start + v.part.size < 2 ^ 64)
    (hFresh : ∀ gpa, v.Contains gpa → ¬ Recorded dom gpa)
    {pool : XlatPool} {ret : MapRet}
    (hMap : vmAddMap c dom.pool dom.base v.hpaBase v.part.start v.part.size v.part.attrs =
      some (pool, ret)) :
    ret = .ok ∧ PartsInv c (recordPart dom v.part pool) (accepted ++ [v]) := by
  have hGpa := hFits.gpa_le
  have hHpa := hFits.hpa_le
  have hSmall := alignToPage_small v.part.size (by omega)
  have hPages := alignToPage_aligned v.part.size
  obtain ⟨hVirt, hPhys⟩ : 2 ^ 12 ∣ v.part.start ∧ 2 ^ 12 ∣ v.hpaBase := by
    by_contra hNot
    rw [vmAddMap, if_neg fun h => hNot
      ⟨Nat.dvd_of_mod_eq_zero h.1, Nat.dvd_of_mod_eq_zero h.2.1⟩] at hMap
    cases hMap
  have hIpa : v.part.start + alignToPage v.part.size ≤ 2 ^ 39 := by omega
  have hRange : v.hpaBase + alignToPage v.part.size ≤ 2 ^ 48 := by omega
  have hApart : ∀ w ∈ accepted, ∀ gpa, ¬ (w.Contains gpa ∧ v.Contains gpa) := fun w hw gpa hBoth =>
    hFresh gpa hBoth.2 ((hInv.recorded_iff gpa).mpr ⟨w, hw, hBoth.1⟩)
  have hCovers : ∀ w ∈ accepted, ∀ ipa, ¬ (w.Covers ipa ∧ v.Covers ipa) := by
    intro w hw
    obtain ⟨hStart, hLe⟩ := hInv.placed w hw
    exact covers_disjoint hStart hVirt (by omega) (by omega) (hApart w hw)
  obtain ⟨pool', ret', k, hEq, hMapped⟩ := vmAddMap_mapped v.hpaBase v.part.start v.part.size
    v.part.attrs hInv.wf hVirt hPhys hIpa (.inr hRange) hFits.desc_ne
  obtain ⟨rfl, rfl⟩ := Prod.mk.inj (Option.some.inj (hMap.symm.trans hEq))
  obtain ⟨hOutside, hRet⟩ := hMapped.exact_of_unmapped hIpa fun ipa hLow hHigh => by
    by_contra hSome
    obtain ⟨w, hw, hIn⟩ := hInv.mapped ipa (by omega) hSome
    exact hCovers w hw ipa ⟨hIn, hLow, hHigh⟩
  rcases hRet with ⟨rfl, hExact⟩ | ⟨rfl, _⟩
  case inr => exact absurd hMap (vmAddMap_enough hInv.wf hVirt hPhys hIpa hRange hFits.desc_ne
    hFits.tables)
  refine ⟨rfl, ⟨?_, ?_, ?_, ?_⟩, hInv.slots.record hPos hEnd pool, hMapped.wf, ?_, ?_, ?_⟩
  · show (List.range (dom.numPartitions + 1)).map _ = _
    rw [List.range_succ, List.map_append, List.map_append, ← hInv.listed]
    congr 1
    · exact List.map_congr_left fun i hi => set_ne _ _ (Nat.ne_of_lt (List.mem_range.mp hi))
    · simp [recordPart, set_same]
  · rw [List.forall_mem_append]
    exact ⟨hInv.sound, by simpa using ⟨hPos, hEnd⟩⟩
  · refine List.pairwise_append.mpr ⟨hInv.disjoint, List.pairwise_singleton _ _, ?_⟩
    intro w hw u hu
    rw [List.mem_singleton.mp hu]
    exact hApart w hw
  · intro i hi
    show (set dom.partitions dom.numPartitions v.part i).size = 0
    have hLt : dom.numPartitions + 1 ≤ i := hi
    rw [set_ne _ _ (by omega)]
    exact hInv.above i (by omega)
  · rw [List.forall_mem_append]
    exact ⟨hInv.placed, by simpa using ⟨hVirt, hGpa⟩⟩
  · intro ipa hLt hSome
    by_cases hIn : v.Covers ipa
    · exact ⟨v, by simp, hIn⟩
    · obtain ⟨w, hw, hOld⟩ := hInv.mapped ipa hLt (by rw [← hOutside ipa hLt hIn]; exact hSome)
      exact ⟨w, by simp [hw], hOld⟩
  · show ∀ w ∈ accepted ++ [v], ExactOn c pool dom.base _ _ _ _
    rw [List.forall_mem_append]
    refine ⟨fun w hw ipa hLow hHigh => ?_, by simpa using hExact⟩
    obtain ⟨_, hLe⟩ := hInv.placed w hw
    have hSmall' := alignToPage_small w.part.size (by omega)
    have hStart := (hInv.placed w hw).1
    have hPages' := alignToPage_aligned w.part.size
    rw [hOutside ipa (by omega) fun hIn => hCovers w hw ipa ⟨⟨hLow, hHigh⟩, hIn⟩]
    exact hInv.exact w hw ipa hLow hHigh

/-- The invariant holds, and what was accepted in `old` still is. -/
def Keeps (c : PoolConfig) (old : List Vpart) (s : Option (Domain × List Vpart)) : Prop :=
  ∀ dom accepted, s = some (dom, accepted) → PartsInv c dom accepted ∧ old ⊆ accepted

theorem addStep_keeps {old : List Vpart} (s : Option (Domain × List Vpart)) (v : Vpart)
    (hs : Keeps c old s) (hCall : CallFits c maxPartitions s v) :
    Keeps c old (addStep c maxPartitions s v) := by
  rcases s with _ | ⟨dom, accepted⟩
  · exact nofun
  obtain ⟨hInv, hOld⟩ := hs dom accepted rfl
  intro dom' accepted' hStep
  obtain ⟨⟨dom₁, ret⟩, hAdd, hEq⟩ := Option.map_eq_some_iff.mp hStep
  obtain ⟨rfl, rfl⟩ := Prod.mk.inj hEq
  have hCases := hCall.imp (partitionAdd_refused (c := c)) fun hFits => And.intro hFits <|
    @partitionAdd_cases c maxPartitions dom v hInv.slots
      ⟨by have := hFits.gpa_le; omega, by have := hFits.gpa_le; omega, hFits.hpa_le⟩
  rcases hCases with ⟨ret', hSame, hNot⟩ | ⟨hFits, ⟨ret', hSame, hNot⟩ | ⟨hPos, hEnd, hFresh, hMap⟩⟩
  · obtain ⟨rfl, rfl⟩ := Prod.mk.inj (Option.some.inj (hSame.symm.trans hAdd))
    simpa only [if_neg hNot] using ⟨hInv, hOld⟩
  · obtain ⟨rfl, rfl⟩ := Prod.mk.inj (Option.some.inj (hSame.symm.trans hAdd))
    simpa only [if_neg hNot] using ⟨hInv, hOld⟩
  · obtain ⟨⟨pool, ret'⟩, hPool, hEq⟩ := Option.map_eq_some_iff.mp (hMap.symm.trans hAdd)
    obtain ⟨rfl, rfl⟩ := Prod.mk.inj hEq
    obtain ⟨rfl, hInv'⟩ := hInv.accept hFits hPos hEnd hFresh hPool
    exact ⟨hInv', List.Subset.trans hOld (List.subset_append_left _ _)⟩

theorem partsInv_init {st : XlatPool} (hZero : ∀ u < c.maxTables, ∀ j < 512, st.word u j = 0#64)
    (hInit : vmDomainInit c st = some dom) : PartsInv c dom [] := by
  have hNew := memInv_init hZero hInit
  have hNone : dom.numPartitions = 0 := by
    unfold vmDomainInit at hInit
    split at hInit
    case h_1 => cases hInit
    case h_2 =>
      obtain rfl := Option.some.inj hInit
      rfl
  refine ⟨⟨by simp [hNone], nofun, .nil, fun i _ => ?_⟩, hNew.list.slots, hNew.wf, nofun, ?_, nofun⟩
  · by_contra hSize
    have hLt := (hNew.list.slots.used i).mp hSize
    exact absurd hLt (by simp [newVmMem, hNone])
  · intro ipa hLt hSome
    obtain ⟨i, hi, _⟩ := hNew.recorded ipa hLt hSome
    exact absurd hi (by simp [newVmMem, hNone])

end Runs

/-! ## Repeating a call -/

/-- The call returns 0. -/
def Accepts (c : PoolConfig) (maxPartitions : Nat) (dom : Domain) (v : Vpart) : Prop :=
  ∃ dom', vmMemDomainPartitionAdd c maxPartitions dom v.part v.hpaBase = some (dom', .mapped .ok)

/-- `dom'` is left by a call on `dom` that failed: nothing is recorded, none of the
partition's addresses is mapped, and whatever tables would have let the call succeed let it
succeed now. -/
structure Retriable (c : PoolConfig) (maxPartitions : Nat) (dom dom' : Domain) (v : Vpart) :
    Prop where
  unrecorded : dom'.numPartitions = dom.numPartitions ∧ dom'.partitions = dom.partitions
  unmapped : ∀ ipa, v.Contains ipa → translate c dom.pool dom.base ipa = none →
    translate c dom'.pool dom'.base ipa = none
  again : ∀ pool, Accepts c maxPartitions { dom with pool := pool } v →
    Accepts c maxPartitions { dom' with pool := pool } v

section Retry

variable {c : PoolConfig} {maxPartitions : Nat} {dom : Domain} {m m' : VmMemDomain} {v : Vpart}
  {ret : AddRet}

/-- A recorded partition is in its own way. -/
theorem check_recordPart {part : Partition} (hCheck : checkVmAddPartition dom part = true)
    (pool : XlatPool) : checkVmAddPartition (recordPart dom part pool) part = false := by
  unfold checkVmAddPartition at hCheck ⊢
  simp only at hCheck ⊢
  split at hCheck
  case isTrue => cases hCheck
  case isFalse hPos =>
    split at hCheck
    case isTrue => cases hCheck
    case isFalse hOrder =>
      rw [if_neg hPos, if_neg hOrder, List.all_eq_false]
      refine ⟨dom.numPartitions, List.mem_range.mpr (Nat.lt_succ_self _), ?_⟩
      simp only [recordPart, set_same, decide_eq_true_eq]
      omega

theorem pos_of_check {part : Partition} (hCheck : checkVmAddPartition dom part = true) :
    0 < part.size := by
  refine Nat.pos_of_ne_zero fun hZero => ?_
  simp [checkVmAddPartition, hZero] at hCheck

/-- A call of the loop that fails has added the partitions before the failing one. -/
theorem addVparts_failed (idle : List Vpart) :
    ∀ m, m.idle = idle →
    (∀ i, (m.dom.partitions i).size ≠ 0 ↔ i < m.dom.numPartitions) →
    addVparts c maxPartitions idle m = some (m', ret) → ret ≠ .mapped .ok →
    ∃ done v rest dom, idle = done ++ v :: rest ∧ m'.idle = v :: rest ∧
      m'.mapped = m.mapped ++ done ∧
      exec (addStep c maxPartitions) (some (m.dom, m.mapped)) done = some (dom, m.mapped ++ done) ∧
      (∀ i, (dom.partitions i).size ≠ 0 ↔ i < dom.numPartitions) ∧
      vmMemDomainPartitionAdd c maxPartitions dom v.part v.hpaBase = some (m'.dom, ret) := by
  induction idle with
  | nil =>
    intro m _ _ hAdd hErr
    obtain ⟨_, rfl⟩ := Prod.mk.inj (Option.some.inj hAdd)
    exact absurd rfl hErr
  | cons v idle ih =>
    intro m hIdle hUsed hAdd hErr
    rw [addVparts] at hAdd
    split at hAdd
    case h_1 => cases hAdd
    case h_2 dom₁ hOk =>
      have hNot : ¬ Refused maxPartitions m.dom v.part := by
        intro hRefused
        obtain ⟨ret', hSame, hNot⟩ := partitionAdd_refused (c := c) hRefused
        obtain ⟨_, rfl⟩ := Prod.mk.inj (Option.some.inj (hSame.symm.trans hOk))
        exact hNot rfl
      obtain ⟨hCheck, hRecord⟩ := partitionAdd_record (c := c) hUsed hNot
      obtain ⟨⟨pool, _⟩, _, hEq⟩ := Option.map_eq_some_iff.mp (hRecord.symm.trans hOk)
      obtain ⟨rfl, _⟩ := Prod.mk.inj hEq
      obtain ⟨done, w, rest, dom, hSplit, hIdle', hMapped, hRun, hUsed', hFail⟩ :=
        ih _ rfl (used_recordPart hUsed (pos_of_check hCheck) pool) hAdd hErr
      refine ⟨v :: done, w, rest, dom, by rw [hSplit]; rfl, hIdle', by simpa using hMapped, ?_,
        hUsed', hFail⟩
      simp only [exec_cons, addStep, hOk, Option.map_some, if_true]
      simpa using hRun
    case h_3 dom₁ ret₁ hNot hFail =>
      obtain ⟨rfl, rfl⟩ := Prod.mk.inj (Option.some.inj hAdd)
      exact ⟨[], v, idle, m.dom, rfl, hIdle, by simp, by simp, hUsed, hFail⟩

/--
**A failed addition can be repeated exactly when it was refused.**  A call of
`vm_mem_domain_partitions_add` that fails has added the partitions before the one that
failed.  That one is not recorded, its addresses are not mapped and the call can be repeated,
if it failed the check or found no slot; otherwise it is recorded, and every repeated call
is refused because of it, whatever tables there are.
-/
theorem failed_partition_retriable_iff
    (hUsed : ∀ i, (m.dom.partitions i).size ≠ 0 ↔ i < m.dom.numPartitions)
    (hAdd : vmMemDomainPartitionsAdd c maxPartitions m = some (m', ret))
    (hErr : ret ≠ .mapped .ok) :
    ∃ done v rest dom, m.idle = done ++ v :: rest ∧ m'.idle = v :: rest ∧
      m'.mapped = m.mapped ++ done ∧
      exec (addStep c maxPartitions) (some (m.dom, m.mapped)) done = some (dom, m.mapped ++ done) ∧
      (Retriable c maxPartitions dom m'.dom v ↔ Refused maxPartitions dom v.part) ∧
      (¬ Refused maxPartitions dom v.part → ∀ pool,
        vmMemDomainPartitionAdd c maxPartitions { m'.dom with pool := pool } v.part v.hpaBase =
          some ({ m'.dom with pool := pool }, .eInval)) := by
  obtain ⟨done, v, rest, dom, hSplit, hIdle, hMapped, hRun, hUsed', hFail⟩ :=
    addVparts_failed m.idle m rfl hUsed hAdd hErr
  have hRecorded : ¬ Refused maxPartitions dom v.part → checkVmAddPartition dom v.part = true ∧
      ∃ pool, m'.dom = recordPart dom v.part pool := by
    intro hNot
    obtain ⟨hCheck, hRecord⟩ := partitionAdd_record (c := c) hUsed' hNot
    obtain ⟨⟨pool, _⟩, _, hEq⟩ := Option.map_eq_some_iff.mp (hRecord.symm.trans hFail)
    exact ⟨hCheck, pool, (Prod.mk.inj hEq).1.symm⟩
  refine ⟨done, v, rest, dom, hSplit, hIdle, hMapped, hRun, ⟨fun hRetry => ?_, fun hRefused => ?_⟩,
    fun hNot pool => ?_⟩
  · by_contra hNot
    obtain ⟨_, pool, hEq⟩ := hRecorded hNot
    have hCount := hRetry.unrecorded.1
    rw [hEq] at hCount
    exact absurd hCount (Nat.succ_ne_self _)
  · obtain ⟨_, hSame, _⟩ := partitionAdd_refused (c := c) hRefused
    obtain ⟨hEq, _⟩ := Prod.mk.inj (Option.some.inj (hSame.symm.trans hFail))
    rw [← hEq]
    exact ⟨⟨rfl, rfl⟩, fun _ _ hNone => hNone, fun _ hAccepts => hAccepts⟩
  · obtain ⟨hCheck, pool', hEq⟩ := hRecorded hNot
    have hAgain : checkVmAddPartition { m'.dom with pool := pool } v.part = false := by
      rw [hEq]
      exact check_recordPart hCheck pool'
    rw [vmMemDomainPartitionAdd, if_pos hAgain]

end Retry

/-! ## Runs on four tables -/

/-- A page at 0. -/
def pageAtZero : Vpart := ⟨⟨0, 0x1000, sampleAttrs⟩, 0x40000000⟩

/-- A page just above the 39-bit range. -/
def pageAbove : Vpart := ⟨⟨2 ^ 39, 0x1000, sampleAttrs⟩, 0x80000000⟩

/-- Two pages on both sides of 1 GiB, which need three tables. -/
def pagesAcross : Vpart := ⟨⟨0x3ffff000, 0x2000, sampleAttrs⟩, 0x90000000⟩

/-- The call that maps both partitions, on a new domain. -/
def addBoth : Option (VmMemDomain × AddRet) :=
  (vmDomainInit samplePoolConfig blankPool).bind fun dom =>
    vmMemDomainPartitionsAdd samplePoolConfig 4
      { newVmMem dom with idle := [pageAtZero, pagesAcross] }

theorem failed_partition_retriable_iff_across :
    ∃ m m' v dom, vmMemDomainPartitionsAdd samplePoolConfig 4 m = some (m', .mapped .eNoMem) ∧
      (Retriable samplePoolConfig 4 dom m'.dom v ↔ Refused 4 dom v.part) := by
  obtain ⟨dom, hInit⟩ : ∃ dom, vmDomainInit samplePoolConfig blankPool = some dom :=
    exists_vmDomainInit (u := 0) (by decide) rfl
  have hRuns : addBoth.map Prod.snd = some (.mapped .eNoMem) := by decide
  rw [addBoth, hInit] at hRuns
  obtain ⟨⟨m', _⟩, hAdd, rfl⟩ := Option.map_eq_some_iff.mp hRuns
  obtain ⟨_, v, _, dom', _, _, _, _, hIff, _⟩ :=
    failed_partition_retriable_iff
      (m := { newVmMem dom with idle := [pageAtZero, pagesAcross] })
      (listInv_init hInit).slots.used hAdd nofun
  exact ⟨_, m', v, dom', hAdd, hIff⟩

/-- The second partition runs out of tables: two partitions are recorded and one is mapped,
part of the other one is, and the call is refused with all tables but one free. -/
theorem failed_partition_recorded :
    addBoth.map (fun r => (r.2, r.1.dom.numPartitions, r.1.mapped,
      (translate samplePoolConfig r.1.dom.pool r.1.dom.base 0x3ffff000).map Prod.fst,
      (vmMemDomainPartitionAdd samplePoolConfig 4 { r.1.dom with pool := emptyPool }
        pagesAcross.part pagesAcross.hpaBase).map Prod.snd)) =
      some (.mapped .eNoMem, 2, [pageAtZero], some 0x90000000, some .eInval) := by decide

end Zvm.Stage2
