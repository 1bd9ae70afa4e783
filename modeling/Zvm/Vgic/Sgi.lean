import Zvm.Vgic.Once

/-!
# Software-generated interrupts

A guest sends an interrupt to other vCPUs of its VM by a write to `ICC_SGI1R_EL1`.  The value
names a cluster, Aff3.Aff2.Aff1, and in a list of bits the Aff0 of the targets in it, or it
has IRM set and means all others.  `vgicv3_raise_sgi2vcpu` has a rule of its own: the list is
a list of vCPU numbers if the cluster is 0.0.0, and otherwise Aff1 is the number of the only
target, whatever the other fields are.

The affinity of a vCPU is what the guest reads in `GICR_TYPER`.  On most boards Aff0 is the
number of the vCPU and there is one cluster, 0.0.0.  On the others each vCPU is a cluster.
-/

namespace Zvm.Vgic

open Zvm.Verified Zvm.Verified.Run Zvm.Verified.BitField Zvm.Vcpu

/-! ## The value and the affinities -/

/-- An affinity, as the guest sees it. -/
structure Affinity where
  aff3 : Nat
  aff2 : Nat
  aff1 : Nat
  aff0 : Nat
  deriving DecidableEq

/-- The affinity in the upper half of a `GICR_TYPER` value. -/
def typerAffinity (x : BitVec 64) : Affinity where
  aff3 := (x.extractLsb' 56 8).toNat
  aff2 := (x.extractLsb' 48 8).toNat
  aff1 := (x.extractLsb' 40 8).toNat
  aff0 := (x.extractLsb' 32 8).toNat

/-- The affinity of a vCPU. -/
def GicBuild.affinity (b : GicBuild) (i : Nat) : Affinity := typerAffinity (b.gicrTyper i)

/-- `sgi_id`. -/
def sgiId (v : BitVec 64) : Nat := (v.extractLsb' 24 4).toNat

/-- `sgi_mode`: IRM is set. -/
def toOthers (v : BitVec 64) : Bool := v.getLsbD 40

/-- `target_list`, `aff1`, `aff2` and `aff3`. -/
def targetList (v : BitVec 64) : BitVec 16 := v.extractLsb' 0 16
def sgiAff1 (v : BitVec 64) : Nat := (v.extractLsb' 16 8).toNat
def sgiAff2 (v : BitVec 64) : Nat := (v.extractLsb' 32 8).toNat
def sgiAff3 (v : BitVec 64) : Nat := (v.extractLsb' 48 8).toNat

/-- `aff1 || aff2 || aff3`. -/
def hasCluster (v : BitVec 64) : Bool := sgiAff1 v != 0 || sgiAff2 v != 0 || sgiAff3 v != 0

/-! ## `vgicv3_raise_sgi2vcpu` -/

/-- `1UL << k`, for which the hardware takes `k` modulo 64, in a `uint32_t`. -/
def bitMask (k : Nat) : BitVec 32 := (1#64 <<< (k % 64)).setWidth 32

/-- `sgi_mask`. -/
def sgiMask (vcpuNum sender : Nat) (v : BitVec 64) : BitVec 32 :=
  if toOthers v then
    ((1#32 <<< vcpuNum - 1#32).signExtend 64 &&& ~~~(1#64 <<< sender)).setWidth 32
  else if hasCluster v then bitMask (sgiAff1 v)
  else
    (List.range vcpuNum).foldl
      (fun mask k => if (targetList v).getLsbD k then mask ||| bitMask k else mask) 0#32

/-- One round of the loop over the vCPUs.  The sender is `_current_vcpu`. -/
def raiseSgiTo (c : Nat → VgicConfig) (s : VcpuRef) (v : BitVec 64) (w : Vms) (k : Nat) : Vms :=
  Function.update w ⟨s.vm, k⟩
    (raiseSgi (c s.vm) (w ⟨s.vm, k⟩) (sgiId v) s.vcpuId (k == s.vcpuId))

/-- `vgicv3_raise_sgi2vcpu`. -/
def vgicv3RaiseSgi2vcpu (c : Nat → VgicConfig) (w : Vms) (s : VcpuRef) (v : BitVec 64) : Vms :=
  ((List.range (c s.vm).vcpuNum).filter fun k =>
    (sgiMask (c s.vm).vcpuNum s.vcpuId v).getLsbD k).foldl (raiseSgiTo c s v) w

/-! ## What the architecture says -/

/-- The vCPU is a target of the interrupt. -/
def SgiTarget (b : GicBuild) (sender : Nat) (v : BitVec 64) (i : Nat) : Prop :=
  if toOthers v then i ≠ sender
  else (b.affinity i).aff3 = sgiAff3 v ∧ (b.affinity i).aff2 = sgiAff2 v ∧
    (b.affinity i).aff1 = sgiAff1 v ∧ (targetList v).getLsbD (b.affinity i).aff0 = true

/-- The shift by `aff1`, where there is one, stays within the mask. -/
def ShiftInside (v : BitVec 64) : Prop :=
  toOthers v = false → hasCluster v = true → sgiAff1 v < 32

/-- Aff0 is the number of the vCPU. -/
def Soc.flat : Soc → Bool
  | .d3000 | .rk35xx => false
  | .qemuMax | .other => true

/-- The values for which the code's rule and that of the architecture agree. -/
def SgiSafe (b : GicBuild) (v : BitVec 64) : Prop :=
  toOthers v = true ∨
  (hasCluster v = false ∧
    (b.soc.flat = true ∨ ∀ i, 0 < i → i < b.vcpuNum → (targetList v).getLsbD i = false)) ∨
  (hasCluster v = true ∧ sgiAff1 v < 32 ∧
    (b.vcpuNum ≤ sgiAff1 v ∨
      b.soc.flat = false ∧ (b.soc = .d3000 → sgiAff1 v < 4) ∧ sgiAff2 v = 0 ∧ sgiAff3 v = 0 ∧
        (targetList v).getLsbD 0 = true))

/-! ## The affinities of the boards -/

section Affinities

variable {b : GicBuild} {i : Nat}

/-- The flag for the last redistributor is not in the affinity. -/
theorem extractLsb_or_last (x : BitVec 64) (last : Prop) [Decidable last] {k : Nat} (hk : 32 ≤ k) :
    (x ||| if last then 1#64 <<< 4 else 0#64).extractLsb' k 8 = x.extractLsb' k 8 := by
  apply BitVec.eq_of_getLsbD_eq
  intro j hj
  have hNe : k + j ≠ 4 := by omega
  simp only [BitVec.getLsbD_extractLsb', BitVec.getLsbD_or]
  split
  · rw [getLsbD_one_shiftLeft (by decide), decide_eq_false hNe, Bool.or_false]
  · simp

theorem affinity_eq_of_typer {x : BitVec 64}
    (hTyper : b.gicrTyper i = x ||| if b.vcpuNum - 1 ≤ i then 1#64 <<< 4 else 0#64) :
    b.affinity i = typerAffinity x := by
  rw [GicBuild.affinity, hTyper]
  unfold typerAffinity
  rw [extractLsb_or_last x _ (by decide), extractLsb_or_last x _ (by decide),
    extractLsb_or_last x _ (by decide), extractLsb_or_last x _ (by decide)]

theorem affinity_flat (hFlat : b.soc.flat = true) (hi : i < 32) : b.affinity i = ⟨0, 0, 0, i⟩ := by
  have hAll : ∀ i < 32, typerAffinity
      (1#64 <<< 24 ||| BitVec.ofNat 64 i <<< 8 ||| BitVec.ofNat 64 i <<< 32) = ⟨0, 0, 0, i⟩ := by
    decide +kernel
  rw [← hAll i hi]
  apply affinity_eq_of_typer
  cases hSoc : b.soc with
  | d3000 => simp [hSoc, Soc.flat] at hFlat
  | rk35xx => simp [hSoc, Soc.flat] at hFlat
  | qemuMax => simp only [GicBuild.gicrTyper, hSoc]
  | other => simp only [GicBuild.gicrTyper, hSoc]

theorem affinity_rk35xx (hSoc : b.soc = .rk35xx) (hi : i < 32) : b.affinity i = ⟨0, 0, i, 0⟩ := by
  have hAll : ∀ i < 32, typerAffinity (1#64 <<< 24 ||| BitVec.ofNat 64 i <<< 8 |||
      (BitVec.ofNat 64 i <<< 8) <<< 32) = ⟨0, 0, i, 0⟩ := by
    decide +kernel
  rw [← hAll i hi]
  apply affinity_eq_of_typer
  simp only [GicBuild.gicrTyper, hSoc]

theorem affinity_d3000 (hSoc : b.soc = .d3000) (hi : i < 32) :
    b.affinity i = ⟨0, i / 4, i % 4, 0⟩ := by
  have hAll : ∀ i < 32, typerAffinity (BitVec.ofNat 64 (i % 4) <<< 40 |||
      BitVec.ofNat 64 (i / 4) <<< 48 ||| BitVec.ofNat 64 i <<< 8 ||| 0x21#64) =
        ⟨0, i / 4, i % 4, 0⟩ := by
    decide +kernel
  rw [← hAll i hi]
  apply affinity_eq_of_typer
  simp only [GicBuild.gicrTyper, hSoc]

end Affinities

/-! ## The mask -/

section Mask

variable {vcpuNum sender i : Nat} {v : BitVec 64}

theorem getLsbD_bitMask {k : Nat} (hk : k < 32) (hi : i < 32) :
    (bitMask k).getLsbD i = decide (i = k) := by
  rw [bitMask, Nat.mod_eq_of_lt (by omega), BitVec.getLsbD_setWidth,
    getLsbD_one_shiftLeft (by omega)]
  simp [hi]

/-- All vCPUs but the sender. -/
theorem getLsbD_others (hNum : vcpuNum < 32) (hSender : sender < vcpuNum) (hi : i < vcpuNum) :
    (((1#32 <<< vcpuNum - 1#32).signExtend 64 &&& ~~~(1#64 <<< sender)).setWidth 32).getLsbD i =
      decide (i ≠ sender) := by
  have hOnes : (1#32 <<< vcpuNum - 1#32).toNat = 2 ^ vcpuNum - 1 := by
    have hPow : 2 ^ vcpuNum < 2 ^ 32 := Nat.pow_lt_pow_right (by decide) hNum
    have hPos : 0 < 2 ^ vcpuNum := Nat.two_pow_pos vcpuNum
    rw [BitVec.toNat_sub, BitVec.toNat_shiftLeft, Nat.shiftLeft_eq]
    simp only [BitVec.toNat_ofNat]
    omega
  have hAll : (1#32 <<< vcpuNum - 1#32).getLsbD i = true := by
    rw [BitVec.getLsbD, hOnes, Nat.testBit_two_pow_sub_one]
    simpa using hi
  have hLt : i < 32 := by omega
  have hWide : i < 64 := by omega
  rw [BitVec.getLsbD_setWidth, BitVec.getLsbD_and, BitVec.getLsbD_not, BitVec.getLsbD_signExtend,
    getLsbD_one_shiftLeft (by omega)]
  simp [hAll, hLt, hWide]

/-- The bits of the list that are set in the target list are added. -/
theorem getLsbD_foldl_bitMask (list : BitVec 16) (hi : i < 32) (ks : List Nat) :
    ∀ mask : BitVec 32, (∀ k ∈ ks, k < 32) →
      (ks.foldl (fun mask k => if list.getLsbD k then mask ||| bitMask k else mask) mask).getLsbD i =
        (mask.getLsbD i || (list.getLsbD i && decide (i ∈ ks))) := by
  induction ks with
  | nil =>
    intro mask _
    simp
  | cons k ks ih =>
    intro mask hLt
    have hk : k < 32 := hLt k (by simp)
    have hRest : ∀ k ∈ ks, k < 32 := fun k hMem => hLt k (by simp [hMem])
    rw [List.foldl_cons, ih _ hRest]
    by_cases hEq : i = k
    · subst hEq
      cases hBit : list.getLsbD i with
      | false => simp
      | true => simp [getLsbD_bitMask hk hi]
    · split
      · simp [getLsbD_bitMask hk hi, hEq]
      · simp [hEq]

/-- The code's rule. -/
theorem getLsbD_sgiMask (hNum : vcpuNum < 32) (hSender : sender < vcpuNum)
    (hShift : ShiftInside v) (hi : i < vcpuNum) :
    (sgiMask vcpuNum sender v).getLsbD i =
      if toOthers v then decide (i ≠ sender)
      else if hasCluster v then decide (i = sgiAff1 v)
      else (targetList v).getLsbD i := by
  have hLt : i < 32 := by omega
  unfold sgiMask
  cases hMode : toOthers v with
  | true =>
    rw [if_pos rfl, if_pos rfl]
    exact getLsbD_others hNum hSender hi
  | false =>
    cases hCluster : hasCluster v with
    | true => simp [getLsbD_bitMask (hShift hMode hCluster) hLt]
    | false =>
      simp only [Bool.false_eq_true, if_false]
      rw [getLsbD_foldl_bitMask _ hLt]
      · simp [hi]
      · intro k hk
        rw [List.mem_range] at hk
        omega

end Mask

/-! ## The two rules compared -/

section Rules

variable {b : GicBuild} {sender i : Nat} {v : BitVec 64}

theorem sgiTarget_flat (hMode : toOthers v = false) (hFlat : b.soc.flat = true) (hi : i < 32) :
    SgiTarget b sender v i ↔ hasCluster v = false ∧ (targetList v).getLsbD i = true := by
  simp only [SgiTarget, hMode, Bool.false_eq_true, if_false, affinity_flat hFlat hi, hasCluster]
  grind

theorem sgiTarget_rk35xx (hMode : toOthers v = false) (hSoc : b.soc = .rk35xx) (hi : i < 32) :
    SgiTarget b sender v i ↔
      sgiAff3 v = 0 ∧ sgiAff2 v = 0 ∧ i = sgiAff1 v ∧ (targetList v).getLsbD 0 = true := by
  simp only [SgiTarget, hMode, Bool.false_eq_true, if_false, affinity_rk35xx hSoc hi, eq_comm]

theorem sgiTarget_d3000 (hMode : toOthers v = false) (hSoc : b.soc = .d3000) (hi : i < 32) :
    SgiTarget b sender v i ↔
      sgiAff3 v = 0 ∧ i / 4 = sgiAff2 v ∧ i % 4 = sgiAff1 v ∧ (targetList v).getLsbD 0 = true := by
  simp only [SgiTarget, hMode, Bool.false_eq_true, if_false, affinity_d3000 hSoc hi,
    eq_comm (a := 0)]

/-- Cluster 0.0.0: a list of vCPU numbers for the code, of the cluster's members for the
architecture. -/
theorem list_eq_target_iff (hNum : b.vcpuNum < 32) (hMode : toOthers v = false)
    (hCluster : hasCluster v = false) :
    (∀ i < b.vcpuNum, (targetList v).getLsbD i = true ↔ SgiTarget b sender v i) ↔
      (b.soc.flat = true ∨ ∀ i, 0 < i → i < b.vcpuNum → (targetList v).getLsbD i = false) := by
  obtain ⟨⟨h1, h2⟩, h3⟩ : (sgiAff1 v = 0 ∧ sgiAff2 v = 0) ∧ sgiAff3 v = 0 := by
    simpa [hasCluster] using hCluster
  cases hFlat : b.soc.flat with
  | true =>
    refine iff_of_true (fun i hi => ?_) (.inl rfl)
    rw [sgiTarget_flat hMode hFlat (by omega)]
    simp [hCluster]
  | false =>
    have hFirst : ∀ i < b.vcpuNum,
        (SgiTarget b sender v i ↔ i = 0 ∧ (targetList v).getLsbD 0 = true) := by
      intro i hi
      cases hSoc : b.soc with
      | rk35xx =>
        rw [sgiTarget_rk35xx hMode hSoc (by omega)]
        simp [h1, h2, h3]
      | d3000 =>
        rw [sgiTarget_d3000 hMode hSoc (by omega)]
        have hZero : i / 4 = 0 ∧ i % 4 = 0 ↔ i = 0 := by omega
        rw [h1, h2, h3, ← and_assoc (a := i / 4 = 0), hZero]
        simp
      | qemuMax => simp [hSoc, Soc.flat] at hFlat
      | other => simp [hSoc, Soc.flat] at hFlat
    simp only [Bool.false_eq_true, false_or]
    constructor
    · intro hSame i hPos hi
      by_contra hSet
      have hTarget := (hFirst i hi).mp ((hSame i hi).mp (by simpa using hSet))
      omega
    · intro hClear i hi
      rw [hFirst i hi]
      rcases Nat.eq_zero_or_pos i with rfl | hPos
      · simp
      · simp [hClear i hPos hi, hPos.ne']

/-- Another cluster, on a board with one cluster: there is no target. -/
theorem cluster_eq_target_flat (hNum : b.vcpuNum < 32) (hMode : toOthers v = false)
    (hCluster : hasCluster v = true) (hFlat : b.soc.flat = true) :
    (∀ i < b.vcpuNum, i = sgiAff1 v ↔ SgiTarget b sender v i) ↔ b.vcpuNum ≤ sgiAff1 v := by
  have hNone : ∀ i < b.vcpuNum, ¬ SgiTarget b sender v i := by
    intro i hi
    rw [sgiTarget_flat hMode hFlat (by omega), hCluster]
    simp
  constructor
  · intro hSame
    by_contra hLt
    exact hNone _ (by omega) ((hSame (sgiAff1 v) (by omega)).mp rfl)
  · intro hLe i hi
    exact iff_of_false (by omega) (hNone i hi)

/-- Another cluster: Aff1 is the number of the only target for the code. -/
theorem cluster_eq_target_iff (hNum : b.vcpuNum < 32) (hMode : toOthers v = false)
    (hCluster : hasCluster v = true) :
    (∀ i < b.vcpuNum, i = sgiAff1 v ↔ SgiTarget b sender v i) ↔
      (b.vcpuNum ≤ sgiAff1 v ∨
        b.soc.flat = false ∧ (b.soc = .d3000 → sgiAff1 v < 4) ∧ sgiAff2 v = 0 ∧ sgiAff3 v = 0 ∧
          (targetList v).getLsbD 0 = true) := by
  cases hFlat : b.soc.flat with
  | true =>
    rw [cluster_eq_target_flat hNum hMode hCluster hFlat]
    simp
  | false =>
    cases hSoc : b.soc with
    | rk35xx =>
      constructor
      · intro hSame
        rcases Nat.lt_or_ge (sgiAff1 v) b.vcpuNum with hLt | hLe
        · obtain ⟨h3, h2, _, hBit⟩ := (sgiTarget_rk35xx hMode hSoc (by omega)).mp
            ((hSame _ hLt).mp rfl)
          exact .inr ⟨rfl, by simp, h2, h3, hBit⟩
        · exact .inl hLe
      · intro hCond i hi
        rw [sgiTarget_rk35xx hMode hSoc (by omega)]
        rcases hCond with hLe | ⟨_, _, h2, h3, hBit⟩
        · have hNe : i ≠ sgiAff1 v := by omega
          simp [hNe]
        · simp [h2, h3, hBit]
    | d3000 =>
      constructor
      · intro hSame
        rcases Nat.lt_or_ge (sgiAff1 v) b.vcpuNum with hLt | hLe
        · obtain ⟨h3, h2, h1, hBit⟩ := (sgiTarget_d3000 hMode hSoc (by omega)).mp
            ((hSame _ hLt).mp rfl)
          exact .inr ⟨rfl, fun _ => by omega, by omega, h3, hBit⟩
        · exact .inl hLe
      · intro hCond i hi
        rw [sgiTarget_d3000 hMode hSoc (by omega)]
        rcases hCond with hLe | ⟨_, hSmall, h2, h3, hBit⟩
        · -- the number of a vCPU is not below its Aff1
          have hNe : i ≠ sgiAff1 v := by omega
          have hNe' : i % 4 ≠ sgiAff1 v := by omega
          simp [hNe, hNe']
        · have hIs : i = sgiAff1 v ↔ i / 4 = sgiAff2 v ∧ i % 4 = sgiAff1 v := by
            have hLt := hSmall rfl
            omega
          rw [hIs]
          simp [h3, hBit]
    | qemuMax => simp [hSoc, Soc.flat] at hFlat
    | other => simp [hSoc, Soc.flat] at hFlat

/-- The code's rule and that of the architecture select the same vCPUs. -/
theorem sgiMask_eq_target_iff (hNum : b.vcpuNum < 32) (hSender : sender < b.vcpuNum) :
    (ShiftInside v ∧ ∀ i < b.vcpuNum,
      (sgiMask b.vcpuNum sender v).getLsbD i = true ↔ SgiTarget b sender v i) ↔ SgiSafe b v := by
  unfold SgiSafe
  cases hMode : toOthers v with
  | true =>
    have hShift : ShiftInside v := by simp [ShiftInside, hMode]
    refine iff_of_true ⟨hShift, fun i hi => ?_⟩ (.inl rfl)
    rw [getLsbD_sgiMask hNum hSender hShift hi]
    simp [SgiTarget, hMode]
  | false =>
    cases hCluster : hasCluster v with
    | false =>
      have hShift : ShiftInside v := by simp [ShiftInside, hCluster]
      have hBits : ∀ i < b.vcpuNum,
          (sgiMask b.vcpuNum sender v).getLsbD i = (targetList v).getLsbD i := by
        intro i hi
        rw [getLsbD_sgiMask hNum hSender hShift hi]
        simp [hMode, hCluster]
      have hRule := @list_eq_target_iff b sender v hNum hMode hCluster
      simp only [hShift, true_and, Bool.false_eq_true, false_or, false_and, or_false]
      rw [← hRule]
      exact forall₂_congr fun i hi => by rw [hBits i hi]
    | true =>
      have hShift : ShiftInside v ↔ sgiAff1 v < 32 := by
        simp [ShiftInside, hMode, hCluster]
      have hRule := @cluster_eq_target_iff b sender v hNum hMode hCluster
      simp only [Bool.true_eq_false, Bool.false_eq_true, false_and, false_or, true_and]
      rw [← hRule, hShift]
      apply and_congr_right
      intro hLt
      refine forall₂_congr fun i hi => ?_
      rw [getLsbD_sgiMask hNum hSender (hShift.mpr hLt) hi]
      simp [hMode, hCluster]

end Rules

/-! ## The loop over the vCPUs -/

section Loop

variable {c : Nat → VgicConfig} {s : VcpuRef} {v : BitVec 64}

theorem sgiId_lt (v : BitVec 64) : sgiId v < 16 := (v.extractLsb' 24 4).isLt

/-- Each vCPU of the list is raised once, and the others are left alone. -/
theorem foldl_raiseSgiTo (t : VcpuRef) (ks : List Nat) :
    ∀ w : Vms, ks.Nodup →
      ks.foldl (raiseSgiTo c s v) w t =
        if t.vm = s.vm ∧ t.vcpuId ∈ ks then
          raiseSgi (c s.vm) (w t) (sgiId v) s.vcpuId (t.vcpuId == s.vcpuId)
        else w t := by
  induction ks with
  | nil =>
    intro w _
    simp
  | cons k ks ih =>
    intro w hNodup
    obtain ⟨hNotMem, hRest⟩ := List.nodup_cons.mp hNodup
    rw [List.foldl_cons, ih _ hRest]
    by_cases hEq : t = ⟨s.vm, k⟩
    · subst hEq
      rw [if_neg (by simp [hNotMem]), if_pos (by simp)]
      exact Function.update_self _ _ _
    · have hSame : raiseSgiTo c s v w k t = w t := Function.update_of_ne hEq _ _
      have hMem : (t.vm = s.vm ∧ t.vcpuId ∈ k :: ks) ↔ (t.vm = s.vm ∧ t.vcpuId ∈ ks) := by
        rw [List.mem_cons]
        constructor
        · rintro ⟨hVm, hId | hIn⟩
          · cases t
            exact absurd (by simp_all) hEq
          · exact ⟨hVm, hIn⟩
        · rintro ⟨hVm, hIn⟩
          exact ⟨hVm, .inr hIn⟩
      simp only [hSame, hMem]

/-- An interrupt raised on a vCPU is pending if it is enabled. -/
theorem pends_raiseSgi_iff {c : VgicConfig} {st : VcpuIrqs} (hInv : LrInv c st) {sgi sender : Nat}
    {cur : Bool} (hSgi : sgi < 16) (hSender : sender < c.vcpuNum)
    (hRoom : LeavesRoom c st (.sgi sgi sender cur)) :
    Pends c (raiseSgi c st sgi sender cur) sgi ↔ Pends c st sgi ∨ st.enabled sgi = true := by
  have hDesc := keeps_recordSender hInv sgi hSender
  have hLocal : sgi < localVirqNr := by
    rw [localVirqNr]
    omega
  have hVirq : sgi < c.virqNr := lt_of_lt_of_le hLocal c.local_le
  cases hEnabled : st.enabled sgi with
  | true =>
    have hPends := (pends_set_iff hDesc.lrInv hVirq hEnabled
      (leavesRoom_recordSender hSgi hRoom)).mpr (.inl hLocal)
    exact iff_of_true hPends (.inr rfl)
  | false =>
    have hOff : isVirqEnabled c (recordSender st sgi sender) sgi true false = false := by
      have hOwn : (recordSender st sgi sender).enabled sgi = false := hEnabled
      simp [isVirqEnabled, hOwn]
    have hSame : raiseSgi c st sgi sender cur = recordSender st sgi sender := by
      rw [raiseSgi, vgicSetVirqToVcpu, if_neg (by omega), hOff]
      rfl
    rw [hSame]
    simp only [Bool.false_eq_true, or_false]
    exact Iff.rfl

/-- The vCPUs of the VM are in states after runs whose flushes found room, and there is room
for the interrupt on the sender. -/
structure SgiReady (c : Nat → VgicConfig) (w : Vms) (s : VcpuRef) (v : BitVec 64) : Prop where
  orderly : ∀ k < (c s.vm).vcpuNum, ∃ ops,
    Admissible (virqStep (c s.vm)) (LeavesRoom (c s.vm)) bootIrqs ops ∧
      w ⟨s.vm, k⟩ = exec (virqStep (c s.vm)) bootIrqs ops
  room : LeavesRoom (c s.vm) (w s) (.sgi (sgiId v) s.vcpuId true)

theorem SgiReady.lrInv {w : Vms} (hReady : SgiReady c w s v) {k : Nat} (hk : k < (c s.vm).vcpuNum) :
    LrInv (c s.vm) (w ⟨s.vm, k⟩) := by
  obtain ⟨ops, hRun, hState⟩ := hReady.orderly k hk
  rw [hState]
  exact lrInv_run (c s.vm) hRun

theorem SgiReady.leavesRoom {w : Vms} (hReady : SgiReady c w s v) (k : Nat) :
    LeavesRoom (c s.vm) (w ⟨s.vm, k⟩) (.sgi (sgiId v) s.vcpuId (k == s.vcpuId)) := by
  by_cases hk : k = s.vcpuId
  · subst hk
    simpa using hReady.room
  · left
    simpa using hk

/-- The vCPUs whose bits are in the mask receive the interrupt, if they have it enabled. -/
theorem pends_raiseSgi2vcpu_iff {w : Vms} (hReady : SgiReady c w s v)
    (hSender : s.vcpuId < (c s.vm).vcpuNum) (t : VcpuRef) :
    Pends (c t.vm) (vgicv3RaiseSgi2vcpu c w s v t) (sgiId v) ↔
      Pends (c t.vm) (w t) (sgiId v) ∨
        (t.vm = s.vm ∧ t.vcpuId < (c s.vm).vcpuNum ∧
          (sgiMask (c s.vm).vcpuNum s.vcpuId v).getLsbD t.vcpuId = true ∧
          (w t).enabled (sgiId v) = true) := by
  have hNodup := (List.nodup_range (n := (c s.vm).vcpuNum)).filter
    fun k => (sgiMask (c s.vm).vcpuNum s.vcpuId v).getLsbD k
  rw [vgicv3RaiseSgi2vcpu, foldl_raiseSgiTo t _ w hNodup]
  simp only [List.mem_filter, List.mem_range]
  split
  case isTrue hIn =>
    obtain ⟨hVm, hk, hBit⟩ := hIn
    obtain ⟨vm, k⟩ := t
    obtain rfl : vm = s.vm := hVm
    rw [pends_raiseSgi_iff (hReady.lrInv hk) (sgiId_lt v) hSender (hReady.leavesRoom k)]
    simp [hk, hBit]
  case isFalse hOut =>
    constructor
    · exact .inl
    · rintro (hPends | ⟨hVm, hk, hBit, _⟩)
      · exact hPends
      · exact absurd ⟨hVm, hk, hBit⟩ hOut

theorem sgiReady_oneEnabled (c : Nat → VgicConfig) (s : VcpuRef) (v : BitVec 64) :
    SgiReady c (fun _ => oneEnabled (sgiId v)) s v where
  orderly := fun _ _ => ⟨[.enable (sgiId v) true], ⟨trivial, trivial⟩, rfl⟩
  room := .inr (.inr (room_oneEnabled (c s.vm) (sgiId v)))

end Loop

/-- The interrupt becomes pending on exactly the targets that have it enabled. -/
def SgiRouted (c : Nat → VgicConfig) (b : GicBuild) (s : VcpuRef) (v : BitVec 64) (w : Vms) :
    Prop :=
  ∀ t : VcpuRef, Pends (c t.vm) (vgicv3RaiseSgi2vcpu c w s v t) (sgiId v) ↔
    Pends (c t.vm) (w t) (sgiId v) ∨
      (t.vm = s.vm ∧ t.vcpuId < b.vcpuNum ∧ SgiTarget b s.vcpuId v t.vcpuId ∧
        (w t).enabled (sgiId v) = true)

/--
**Routing of software-generated interrupts**: for every value, the shift stays within the mask
and, in every state, the interrupt becomes pending on exactly the architecture's targets that
have it enabled, if and only if the value is sent to all others, or names cluster 0.0.0 and, on
the boards whose vCPUs are clusters, at most its first vCPU, or names another cluster whose
Aff1 is either no vCPU's number or, on those boards, the whole of the only target's affinity.
-/
theorem sgi_routed_iff (c : Nat → VgicConfig) (b : GicBuild) (hMax : b.maxVcpu < 32) (s : VcpuRef)
    (hNum : (c s.vm).vcpuNum = b.vcpuNum) (hSender : s.vcpuId < b.vcpuNum) (v : BitVec 64) :
    (ShiftInside v ∧ ∀ w, SgiReady c w s v → SgiRouted c b s v w) ↔ SgiSafe b v := by
  have hLt : b.vcpuNum < 32 := lt_of_le_of_lt b.vcpuNum_le hMax
  have hIs : s.vcpuId < (c s.vm).vcpuNum := by
    rw [hNum]
    exact hSender
  rw [← sgiMask_eq_target_iff hLt hSender]
  apply and_congr_right
  intro _
  constructor
  · intro hRouted i hi
    -- a new VM on which every vCPU has the interrupt enabled tells the targets
    have hReady := sgiReady_oneEnabled c s v
    have hSame := (pends_raiseSgi2vcpu_iff hReady hIs ⟨s.vm, i⟩).symm.trans
      (hRouted _ hReady ⟨s.vm, i⟩)
    have hOn : (oneEnabled (sgiId v)).enabled (sgiId v) = true := FunArray.set_same _ _ _
    simpa [not_pends_oneEnabled, hNum, hi, hOn] using hSame
  · intro hMask w hReady t
    rw [pends_raiseSgi2vcpu_iff hReady hIs t, hNum]
    apply or_congr_right
    constructor
    · rintro ⟨hVm, hk, hBit, hOn⟩
      exact ⟨hVm, hk, (hMask _ hk).mp hBit, hOn⟩
    · rintro ⟨hVm, hk, hTarget, hOn⟩
      exact ⟨hVm, hk, (hMask _ hk).mpr hTarget, hOn⟩

/-- On a board with one cluster, a list of two vCPUs reaches the other one. -/
theorem sgi_routed_list :
    SgiRouted (fun _ => pairVgic) qemuBuild ⟨0, 0⟩ 0x1000003 fun _ => oneEnabled 1 := by
  have hSafe : SgiSafe qemuBuild 0x1000003 := .inr (.inl ⟨by decide, .inl rfl⟩)
  exact ((sgi_routed_iff (fun _ => pairVgic) qemuBuild (by decide) ⟨0, 0⟩ rfl (by decide)
    0x1000003).mpr hSafe).2 _ (sgiReady_oneEnabled (fun _ => pairVgic) ⟨0, 0⟩ 0x1000003)

/-- An interrupt for a cluster that does not exist reaches the second vCPU, and a large Aff1 is
shifted out of the mask. -/
theorem sgi_misrouted :
    (Pends pairVgic (vgicv3RaiseSgi2vcpu (fun _ => pairVgic) (fun _ => oneEnabled 1) ⟨0, 0⟩
        0x1010001 ⟨0, 1⟩) 1 ∧
      ¬ Pends pairVgic (oneEnabled 1) 1 ∧
      ∀ i < 2, ¬ SgiTarget qemuBuild 0 0x1010001 i) ∧
    ¬ ShiftInside 0x400001 := by
  refine ⟨⟨by decide, not_pends_oneEnabled pairVgic 1 1, ?_⟩, ?_⟩
  · intro i hi
    rw [sgiTarget_flat (by decide) rfl (by omega)]
    rintro ⟨hCluster, _⟩
    exact absurd hCluster (by decide)
  · intro hInside
    exact absurd (hInside (by decide) (by decide)) (by decide)

end Zvm.Vgic
