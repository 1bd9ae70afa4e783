import Zvm.Os.Template

/-!
# The vCPUs of a physical CPU

A vCPU is bound to a physical CPU when it is created (`pre_alloc_vcpu_single`) and leaves
it when it is deleted (`release_vcpu`).  CPU 0 is the host's; the others are split into a
range for guests with Linux and a range for real-time guests.  A real-time vCPU takes a
CPU of its own.  Others take an idle CPU if there is one and else, where the build allows
two of them on a CPU, one with a single vCPU of another VM.

The occupation is kept twice, as the list of vCPUs and as the counter `vcpu_use`.  The
list node of a new entry is taken from the heap; the code does not handle that this
fails, and it does not fail here.
-/

namespace Zvm.Vcpu

open Zvm.Os.Template Zvm.Verified.FunArray Zvm.Verified.Run

/-- `vcpu->vm` and `vm->os->is_rtos`. -/
structure Guests (Vm Vcpu : Type) where
  vm : Vcpu → Vm
  isRtos : Vm → Bool

/-- `vcpu_pcpu_map`, `vcpu_use` and the field `pre_alloc_pcpu` of all vCPUs. -/
structure Placement (Vcpu : Type) where
  map : Nat → List Vcpu
  vcpuUse : Nat → Int
  preAllocPcpu : Vcpu → BitVec 16

section Functions

variable {Vm Vcpu : Type} [DecidableEq Vm] [DecidableEq Vcpu]

/-- `pcpu_has_vm_vcpu`. -/
def pcpuHasVmVcpu (g : Guests Vm Vcpu) (s : Placement Vcpu) (pcpu : Nat) (vcpu : Vcpu) : Bool :=
  (s.map pcpu).any fun other => g.vm other == g.vm vcpu

/-- `add_vcpu_to_pcpu`. -/
def addVcpuToPcpu (c : Platform) (s : Placement Vcpu) (pcpu : Nat) (vcpu : Vcpu) :
    Placement Vcpu × Int :=
  let s := { s with
    map := set s.map pcpu (vcpu :: s.map pcpu)
    vcpuUse := set s.vcpuUse pcpu (s.vcpuUse pcpu + 1) }
  if (c.mpMaxNumCpus : Int) - 1 < pcpu then (s, -1)
  else
    ({ s with preAllocPcpu := fun v => if v = vcpu then .ofNat 16 pcpu else s.preAllocPcpu v },
      pcpu)

/-- `remove_vcpu_from_pcpu`. -/
def removeVcpuFromPcpu (s : Placement Vcpu) (pcpu : Nat) (vcpu : Vcpu) : Placement Vcpu :=
  if vcpu ∈ s.map pcpu then
    { s with
      map := set s.map pcpu ((s.map pcpu).erase vcpu)
      vcpuUse := set s.vcpuUse pcpu (s.vcpuUse pcpu - 1) }
  else s

/-- The two searches of `pre_alloc_vcpu_single`. -/
def findPcpu (c : Platform) (g : Guests Vm Vcpu) (s : Placement Vcpu) (vcpu : Vcpu) : Option Nat :=
  let isRtos := g.isRtos (g.vm vcpu)
  let range := getVcpuDomainRange c isRtos
  match firstIdx range.2 fun pcpu => decide (range.1 ≤ pcpu) && s.vcpuUse pcpu == 0 with
  | some pcpu => some pcpu
  | none =>
    if isRtos then none
    else if c.maxVcpuPercpu = 2 then
      firstIdx range.2 fun pcpu => decide (range.1 ≤ pcpu) &&
        (s.vcpuUse pcpu == 1 && !pcpuHasVmVcpu g s pcpu vcpu)
    else none

/-- `pre_alloc_vcpu_single`. -/
def preAllocVcpuSingle (c : Platform) (g : Guests Vm Vcpu) (s : Placement Vcpu) (vcpu : Vcpu) :
    Placement Vcpu × Bool :=
  match findPcpu c g s vcpu with
  | none => (s, false)
  | some pcpu =>
    let (s', ret) := addVcpuToPcpu c s pcpu vcpu
    (s', ret != 0)

/-- `release_vcpu`; the unsigned field is compared with -1 as an `int`. -/
def releaseVcpu (s : Placement Vcpu) (vcpu : Vcpu) : Placement Vcpu :=
  if ((s.preAllocPcpu vcpu).toNat : Int) = -1 then s
  else
    { removeVcpuFromPcpu s (s.preAllocPcpu vcpu).toNat vcpu with
      preAllocPcpu := fun v => if v = vcpu then -1 else s.preAllocPcpu v }

/-- The vCPU is on a list. -/
def Placed (s : Placement Vcpu) (vcpu : Vcpu) : Prop := ∃ pcpu, vcpu ∈ s.map pcpu

inductive PlaceOp (Vcpu : Type) where
  | preAlloc (vcpu : Vcpu)
  | release (vcpu : Vcpu)

def placeStep (c : Platform) (g : Guests Vm Vcpu) (s : Placement Vcpu) :
    PlaceOp Vcpu → Placement Vcpu
  | .preAlloc vcpu => (preAllocVcpuSingle c g s vcpu).1
  | .release vcpu => releaseVcpu s vcpu

/-- A vCPU is placed when it is not placed yet, and released when it is. -/
def InTurn (s : Placement Vcpu) : PlaceOp Vcpu → Prop
  | .preAlloc vcpu => ¬ Placed s vcpu
  | .release vcpu => Placed s vcpu

/-- `zvm_overall_init`: all lists are empty. -/
def emptyPlacement (preAllocPcpu : Vcpu → BitVec 16) : Placement Vcpu where
  map := fun _ => []
  vcpuUse := fun _ => 0
  preAllocPcpu := preAllocPcpu

end Functions

/-- The builds: the CPUs are split, `pre_alloc_pcpu` can name each (Kconfig allows 12), and a CPU
takes one vCPU or two. -/
structure SplitCpus (c : Platform) : Prop where
  split : 1 + c.maxGuestNumLinuxPcpu ≤ c.mpMaxNumCpus
  cpus_le : c.mpMaxNumCpus ≤ 65535
  percpu : c.maxVcpuPercpu = 1 ∨ c.maxVcpuPercpu = 2

/-- The CPU is in the range for guests of one kind. -/
def InDomain (c : Platform) (isRtos : Bool) (pcpu : Nat) : Prop :=
  (getVcpuDomainRange c isRtos).1 ≤ pcpu ∧ pcpu < (getVcpuDomainRange c isRtos).2

/-- The number of vCPUs that a CPU of a range takes. -/
def vcpuCap (c : Platform) (isRtos : Bool) : Nat := if isRtos then 1 else c.maxVcpuPercpu

/-- The placement invariant: the counters are those of the lists, a vCPU is on one list
and names it, the host's CPU has none, and a CPU of a range has vCPUs of guests of its
kind only, no more than it takes, and all of different VMs. -/
structure PlacementInv {Vm Vcpu : Type} (c : Platform) (g : Guests Vm Vcpu) (s : Placement Vcpu) :
    Prop where
  use_eq : ∀ pcpu, s.vcpuUse pcpu = (s.map pcpu).length
  once : ∀ pcpu, (s.map pcpu).Nodup
  named : ∀ pcpu, ∀ v ∈ s.map pcpu, (s.preAllocPcpu v).toNat = pcpu
  host : s.map 0 = []
  inCpus : ∀ pcpu, c.mpMaxNumCpus ≤ pcpu → s.map pcpu = []
  length_le : ∀ isRtos pcpu, InDomain c isRtos pcpu → (s.map pcpu).length ≤ vcpuCap c isRtos
  kind : ∀ isRtos pcpu, InDomain c isRtos pcpu → ∀ v ∈ s.map pcpu, g.isRtos (g.vm v) = isRtos
  apart : ∀ pcpu, (s.map pcpu).Pairwise fun v w => g.vm v ≠ g.vm w

section Invariant

variable {Vm Vcpu : Type} {c : Platform} {g : Guests Vm Vcpu} {s : Placement Vcpu} {v : Vcpu}
  {pcpu : Nat}

/-- A vCPU is on one list only. -/
theorem PlacementInv.one_list (hInv : PlacementInv c g s) {other : Nat} (hv : v ∈ s.map pcpu)
    (hOther : v ∈ s.map other) : pcpu = other := by
  exact (hInv.named pcpu v hv).symm.trans (hInv.named other v hOther)

/-- The CPU has room for the vCPU and no other one of its VM. -/
structure HasRoom (c : Platform) (g : Guests Vm Vcpu) (s : Placement Vcpu) (v : Vcpu)
    (pcpu : Nat) : Prop where
  inDomain : InDomain c (g.isRtos (g.vm v)) pcpu
  use_lt : s.vcpuUse pcpu < vcpuCap c (g.isRtos (g.vm v))
  apart : ∀ w ∈ s.map pcpu, g.vm w ≠ g.vm v

theorem InDomain.bounds (hSplit : SplitCpus c) {isRtos : Bool} (hIn : InDomain c isRtos pcpu) :
    0 < pcpu ∧ pcpu < c.mpMaxNumCpus := by
  have hLe := hSplit.split
  unfold InDomain getVcpuDomainRange at hIn
  cases isRtos <;> simp at hIn <;> omega

/-- The two ranges do not meet. -/
theorem InDomain.kind_eq {a b : Bool} (ha : InDomain c a pcpu) (hb : InDomain c b pcpu) :
    a = b := by
  unfold InDomain getVcpuDomainRange at ha hb
  cases a <;> cases b <;> simp at ha hb ⊢ <;> omega

/-- The searches find a CPU with room if there is one. -/
theorem PlacementInv.findPcpu_cases [DecidableEq Vm] (hInv : PlacementInv c g s)
    (hSplit : SplitCpus c) :
    (∃ pcpu, findPcpu c g s v = some pcpu ∧ HasRoom c g s v pcpu) ∨
      (findPcpu c g s v = none ∧ ∀ pcpu, ¬ HasRoom c g s v pcpu) := by
  have hPercpu := hSplit.percpu
  -- an idle CPU has room for every vCPU
  have hIdle : ∀ pcpu, InDomain c (g.isRtos (g.vm v)) pcpu → s.vcpuUse pcpu = 0 →
      HasRoom c g s v pcpu := by
    intro pcpu hIn hZero
    have hUse := hInv.use_eq pcpu
    have hNil : s.map pcpu = [] := List.length_eq_zero_iff.mp (by omega)
    refine ⟨hIn, ?_, by simp [hNil]⟩
    rw [hZero]
    unfold vcpuCap
    split <;> omega
  unfold findPcpu
  simp only
  cases hFirst : firstIdx (getVcpuDomainRange c (g.isRtos (g.vm v))).2
      fun pcpu => decide ((getVcpuDomainRange c (g.isRtos (g.vm v))).1 ≤ pcpu) &&
        s.vcpuUse pcpu == 0 with
  | some pcpu =>
    obtain ⟨hLt, hTest, _⟩ := firstIdx_eq_some.mp hFirst
    simp only [Bool.and_eq_true, decide_eq_true_eq, beq_iff_eq] at hTest
    exact .inl ⟨pcpu, rfl, hIdle pcpu ⟨hTest.1, hLt⟩ hTest.2⟩
  | none =>
    have hBusy : ∀ pcpu, HasRoom c g s v pcpu → s.vcpuUse pcpu ≠ 0 := by
      intro pcpu hRoom hZero
      have hTest := firstIdx_eq_none.mp hFirst pcpu hRoom.inDomain.2
      simp [hRoom.inDomain.1, hZero] at hTest
    -- so that one with room has exactly one vCPU, and takes two
    have hOne : ∀ pcpu, HasRoom c g s v pcpu →
        g.isRtos (g.vm v) = false ∧ c.maxVcpuPercpu = 2 ∧ s.vcpuUse pcpu = 1 := by
      intro pcpu hRoom
      have hNe := hBusy pcpu hRoom
      have hUse := hInv.use_eq pcpu
      have hCap := hRoom.use_lt
      unfold vcpuCap at hCap
      cases hKind : g.isRtos (g.vm v) <;> simp [hKind] at hCap ⊢ <;> omega
    simp only
    split
    case isTrue hKind =>
      refine .inr ⟨rfl, ?_⟩
      intro pcpu hRoom
      rw [(hOne pcpu hRoom).1] at hKind
      cases hKind
    case isFalse hKind =>
      have hKind' : g.isRtos (g.vm v) = false := by simpa using hKind
      split
      case isFalse hTwo => exact .inr ⟨rfl, fun pcpu hRoom => hTwo (hOne pcpu hRoom).2.1⟩
      case isTrue hTwo =>
        cases hSecond : firstIdx (getVcpuDomainRange c (g.isRtos (g.vm v))).2
            fun pcpu => decide ((getVcpuDomainRange c (g.isRtos (g.vm v))).1 ≤ pcpu) &&
              (s.vcpuUse pcpu == 1 && !pcpuHasVmVcpu g s pcpu v) with
        | some pcpu =>
          obtain ⟨hLt, hTest, _⟩ := firstIdx_eq_some.mp hSecond
          simp only [Bool.and_eq_true, decide_eq_true_eq, beq_iff_eq, Bool.not_eq_true',
            pcpuHasVmVcpu, List.any_eq_false] at hTest
          refine .inl ⟨pcpu, rfl, ⟨hTest.1, hLt⟩, ?_, hTest.2.2⟩
          rw [hTest.2.1, hKind']
          simp [vcpuCap, hTwo]
        | none =>
          refine .inr ⟨rfl, ?_⟩
          intro pcpu hRoom
          have hTest := firstIdx_eq_none.mp hSecond pcpu hRoom.inDomain.2
          have hAlone : pcpuHasVmVcpu g s pcpu v = false := by
            simpa [pcpuHasVmVcpu] using hRoom.apart
          simp [hRoom.inDomain.1, (hOne pcpu hRoom).2.2, hAlone] at hTest

variable [DecidableEq Vcpu]

/-- The vCPU is put in front of the list of the CPU. -/
def placeOn (s : Placement Vcpu) (pcpu : Nat) (vcpu : Vcpu) : Placement Vcpu where
  map := set s.map pcpu (vcpu :: s.map pcpu)
  vcpuUse := set s.vcpuUse pcpu (s.vcpuUse pcpu + 1)
  preAllocPcpu := fun v => if v = vcpu then .ofNat 16 pcpu else s.preAllocPcpu v

theorem addVcpuToPcpu_eq (hLt : pcpu < c.mpMaxNumCpus) :
    addVcpuToPcpu c s pcpu v = (placeOn s pcpu v, (pcpu : Int)) := by
  have hNot : ¬ (c.mpMaxNumCpus : Int) - 1 < pcpu := by omega
  simp only [addVcpuToPcpu, if_neg hNot, placeOn]

theorem mem_placeOn {w : Vcpu} {q : Nat} :
    w ∈ (placeOn s pcpu v).map q ↔ (q = pcpu ∧ w = v) ∨ w ∈ s.map q := by
  by_cases hq : q = pcpu
  · subst hq
    simp [placeOn]
  · simp [placeOn, set_ne _ _ hq, hq]

/-- A vCPU that is not placed yet goes where there is room. -/
theorem PlacementInv.place (hInv : PlacementInv c g s) (hSplit : SplitCpus c)
    (hRoom : HasRoom c g s v pcpu) (hNew : ¬ Placed s v) : PlacementInv c g (placeOn s pcpu v) := by
  obtain ⟨hPos, hLt⟩ := hRoom.inDomain.bounds hSplit
  have hCpus := hSplit.cpus_le
  have hMap : (placeOn s pcpu v).map = set s.map pcpu (v :: s.map pcpu) := rfl
  have hUse := hInv.use_eq pcpu
  constructor
  case use_eq =>
    intro q
    by_cases hq : q = pcpu
    · subst hq
      simp only [placeOn, set_same, List.length_cons]
      omega
    · simp only [placeOn, set_ne _ _ hq]
      exact hInv.use_eq q
  case once =>
    intro q
    rw [hMap]
    refine set_elim (fun _ => ?_) fun _ => hInv.once q
    exact List.nodup_cons.mpr ⟨fun hMem => hNew ⟨pcpu, hMem⟩, hInv.once pcpu⟩
  case named =>
    intro q w hw
    simp only [placeOn]
    rcases mem_placeOn.mp hw with ⟨rfl, rfl⟩ | hOld
    · simp
      omega
    · have hNe : w ≠ v := by
        rintro rfl
        exact hNew ⟨q, hOld⟩
      rw [if_neg hNe]
      exact hInv.named q w hOld
  case host => exact (set_ne _ _ (by omega)).trans hInv.host
  case inCpus => exact fun q hq => (set_ne _ _ (by omega)).trans (hInv.inCpus q hq)
  case length_le =>
    intro isRtos q hIn
    rw [hMap]
    refine set_elim (fun hq => ?_) fun _ => hInv.length_le isRtos q hIn
    subst hq
    obtain rfl := hIn.kind_eq hRoom.inDomain
    have hCap := hRoom.use_lt
    rw [List.length_cons]
    omega
  case kind =>
    intro isRtos q hIn w hw
    rcases mem_placeOn.mp hw with ⟨rfl, rfl⟩ | hOld
    · exact hRoom.inDomain.kind_eq hIn
    · exact hInv.kind isRtos q hIn w hOld
  case apart =>
    intro q
    rw [hMap]
    refine set_elim (fun _ => ?_) fun _ => hInv.apart q
    exact List.pairwise_cons.mpr ⟨fun w hw => (hRoom.apart w hw).symm, hInv.apart pcpu⟩

/-- The comparison never holds a release back. -/
theorem releaseVcpu_eq (s : Placement Vcpu) (v : Vcpu) :
    releaseVcpu s v = { removeVcpuFromPcpu s (s.preAllocPcpu v).toNat v with
      preAllocPcpu := fun w => if w = v then -1 else s.preAllocPcpu w } :=
  if_neg (by omega)

/-- A placed vCPU leaves its list, and nothing is added to any list. -/
theorem PlacementInv.release (hInv : PlacementInv c g s) (hPlaced : Placed s v) :
    PlacementInv c g (releaseVcpu s v) := by
  obtain ⟨pcpu, hMem⟩ := hPlaced
  have hMap : (releaseVcpu s v).map = set s.map pcpu ((s.map pcpu).erase v) := by
    simp only [releaseVcpu_eq, removeVcpuFromPcpu, hInv.named pcpu v hMem, if_pos hMem]
  have hUse : (releaseVcpu s v).vcpuUse = set s.vcpuUse pcpu (s.vcpuUse pcpu - 1) := by
    simp only [releaseVcpu_eq, removeVcpuFromPcpu, hInv.named pcpu v hMem, if_pos hMem]
  have hSub : ∀ q, ((releaseVcpu s v).map q).Sublist (s.map q) := by
    intro q
    rw [hMap]
    exact set_elim (fun hq => hq ▸ List.erase_sublist) fun _ => List.Sublist.refl _
  have hEmpty : ∀ q, s.map q = [] → (releaseVcpu s v).map q = [] := by
    intro q hq
    exact List.sublist_nil.mp (hq ▸ hSub q)
  have hGone : ∀ q, v ∉ (releaseVcpu s v).map q := by
    intro q hIn
    obtain rfl := hInv.one_list hMem ((hSub q).subset hIn)
    rw [hMap, set_same] at hIn
    exact ((hInv.once pcpu).mem_erase_iff.mp hIn).1 rfl
  constructor
  case use_eq =>
    intro q
    rw [hMap, hUse, set_apply, set_apply]
    split
    case isTrue =>
      have hLength := List.length_erase_of_mem hMem
      have hPos := List.length_pos_of_mem hMem
      have hOld := hInv.use_eq pcpu
      omega
    case isFalse => exact hInv.use_eq q
  case once => exact fun q => (hInv.once q).sublist (hSub q)
  case named =>
    intro q w hw
    have hNe : w ≠ v := by
      rintro rfl
      exact hGone q hw
    simp only [releaseVcpu_eq, if_neg hNe]
    exact hInv.named q w ((hSub q).subset hw)
  case host => exact hEmpty 0 hInv.host
  case inCpus => exact fun q hq => hEmpty q (hInv.inCpus q hq)
  case length_le =>
    intro isRtos q hIn
    exact Nat.le_trans (hSub q).length_le (hInv.length_le isRtos q hIn)
  case kind => exact fun isRtos q hIn w hw => hInv.kind isRtos q hIn w ((hSub q).subset hw)
  case apart => exact fun q => (hInv.apart q).sublist (hSub q)

/-! ### Releasing twice -/

/-- The index into `vcpu_pcpu_map` and `vcpu_use` that `release_vcpu` uses. -/
def releaseIndex (s : Placement Vcpu) (vcpu : Vcpu) : Nat := (s.preAllocPcpu vcpu).toNat

/-- A call uses the list of a CPU, and does nothing to a vCPU that is on none. -/
structure ReleaseInOrder (c : Platform) (s : Placement Vcpu) (vcpu : Vcpu) : Prop where
  index : releaseIndex s vcpu < c.mpMaxNumCpus
  unplaced : ¬ Placed s vcpu → releaseVcpu s vcpu = s

/-- And it can be repeated. -/
structure ReleaseRepeats (c : Platform) (s : Placement Vcpu) (vcpu : Vcpu) : Prop
    extends ReleaseInOrder c s vcpu where
  again : releaseVcpu (releaseVcpu s vcpu) vcpu = releaseVcpu s vcpu
  indexAgain : releaseIndex (releaseVcpu s vcpu) vcpu < c.mpMaxNumCpus

theorem releaseIndex_release : releaseIndex (releaseVcpu s v) v = 65535 := by
  simp [releaseIndex, releaseVcpu_eq]

/-- A second call always uses an index behind the CPUs.  The first one is in order exactly if the
vCPU is on a list and names a CPU. -/
theorem releaseRepeats_never (hSplit : SplitCpus c) (s : Placement Vcpu) (v : Vcpu) :
    ¬ ReleaseRepeats c s v ∧
      (ReleaseInOrder c s v ↔ Placed s v ∧ releaseIndex s v < c.mpMaxNumCpus) := by
  have hCpus := hSplit.cpus_le
  refine ⟨fun h => ?_, fun h => ⟨?_, h.index⟩, fun h => ⟨h.2, fun hNot => absurd h.1 hNot⟩⟩
  · have hIndex := h.indexAgain
    rw [releaseIndex_release] at hIndex
    omega
  · -- the field of a released vCPU is the marker
    by_contra hNot
    have hIndex := h.index
    rw [← h.unplaced hNot, releaseIndex_release] at hIndex
    omega

variable [DecidableEq Vm]

/-- What `pre_alloc_vcpu_single` does: it places the vCPU where there is room, or nothing
as there is none. -/
theorem PlacementInv.preAlloc_cases (hInv : PlacementInv c g s) (hSplit : SplitCpus c) (v : Vcpu) :
    (∃ pcpu, HasRoom c g s v pcpu ∧ preAllocVcpuSingle c g s v = (placeOn s pcpu v, true)) ∨
      (preAllocVcpuSingle c g s v = (s, false) ∧ ∀ pcpu, ¬ HasRoom c g s v pcpu) := by
  rcases hInv.findPcpu_cases hSplit (v := v) with ⟨pcpu, hFind, hRoom⟩ | ⟨hFind, hNone⟩
  · obtain ⟨hPos, hLt⟩ := hRoom.inDomain.bounds hSplit
    refine .inl ⟨pcpu, hRoom, ?_⟩
    have hNe : ((pcpu : Int) != 0) = true := by
      simp
      omega
    simp only [preAllocVcpuSingle, hFind, addVcpuToPcpu_eq hLt, hNe]
  · refine .inr ⟨?_, hNone⟩
    simp only [preAllocVcpuSingle, hFind]

theorem PlacementInv.step (hInv : PlacementInv c g s) (hSplit : SplitCpus c) {op : PlaceOp Vcpu}
    (hOp : InTurn s op) : PlacementInv c g (placeStep c g s op) := by
  cases op with
  | preAlloc v =>
    change PlacementInv c g (preAllocVcpuSingle c g s v).1
    rcases hInv.preAlloc_cases hSplit v with ⟨pcpu, hRoom, hEq⟩ | ⟨hEq, _⟩
    · rw [hEq]
      exact hInv.place hSplit hRoom hOp
    · rw [hEq]
      exact hInv
  | release v => exact hInv.release hOp

end Invariant

theorem placementInv_empty {Vm Vcpu : Type} (c : Platform) (g : Guests Vm Vcpu)
    (preAllocPcpu : Vcpu → BitVec 16) :
    PlacementInv c g (emptyPlacement preAllocPcpu) where
  use_eq _ := rfl
  once _ := List.nodup_nil
  named _ _ hv := nomatch hv
  host := rfl
  inCpus _ _ := rfl
  length_le _ _ _ := Nat.zero_le _
  kind _ _ _ _ hv := nomatch hv
  apart _ := List.Pairwise.nil

section Runs

variable {Vm Vcpu : Type} [DecidableEq Vm] [DecidableEq Vcpu]

/--
**Placement**: after every run of placing vCPUs that are not placed and releasing those
that are, the invariant holds, and a call that returns `false` has changed nothing.
-/
theorem placement_run {c : Platform} (hSplit : SplitCpus c) (g : Guests Vm Vcpu)
    (preAllocPcpu : Vcpu → BitVec 16) (ops : List (PlaceOp Vcpu))
    (hTurn : Admissible (placeStep c g) InTurn (emptyPlacement preAllocPcpu) ops) :
    let s := exec (placeStep c g) (emptyPlacement preAllocPcpu) ops
    PlacementInv c g s ∧
      (∀ v pcpu other, v ∈ s.map pcpu → v ∈ s.map other → pcpu = other) ∧
      ∀ v, (preAllocVcpuSingle c g s v).2 = false → (preAllocVcpuSingle c g s v).1 = s := by
  intro s
  have hInv : PlacementInv c g s :=
    exec_invariant (fun _ _ hInv hOp => hInv.step hSplit hOp) ops _
      (placementInv_empty c g preAllocPcpu) hTurn
  refine ⟨hInv, fun v pcpu other => hInv.one_list, ?_⟩
  intro v hFalse
  rcases hInv.preAlloc_cases hSplit v with ⟨pcpu, _, hEq⟩ | ⟨hEq, _⟩
  · rw [hEq] at hFalse
    cases hFalse
  · rw [hEq]

end Runs

theorem threeCpus_le : 3 ≤ 32 := by decide

/-- A platform with three CPUs, of which Linux guests have one that takes two vCPUs. -/
def threeCpus : Platform where
  maxVmNum := 3
  maxVmNum_le := threeCpus_le
  maxVcpuPerVm := 4
  maxVcpuPercpu := 2
  mpMaxNumCpus := 3
  maxGuestNumLinuxPcpu := 1
  guestOsTemplate := fun os => ⟨os, 1, 0, 0, 0, 0, 0, 0, 0, 0⟩
  zephyrCpiesConfig := []
  linuxDtbCpiesConfig := []
  freertosCpiesConfig := []
  linuxCpiesImageAddr := 0
  linuxCpiesImageSize := 0
  linuxDtbMemBase := 0
  linuxDtbMemSize := 0

theorem splitCpus_three : SplitCpus threeCpus := ⟨by decide, by decide, by decide⟩

/-- VMs 0 and 1 run Linux, VM 2 does not; a vCPU is a VM and a number. -/
def threeGuests : Guests Nat (Nat × Nat) where
  vm := Prod.fst
  isRtos := fun vm => vm == 2

def onePlaced : Placement (Nat × Nat) := placeOn (emptyPlacement fun _ => 0) 1 (0, 0)

theorem releaseInOrder_placed : ReleaseInOrder threeCpus onePlaced (0, 0) :=
  (releaseRepeats_never splitCpus_three onePlaced (0, 0)).2.mpr ⟨⟨1, by decide⟩, by decide⟩

/-- It is released again with index 65535, and a vCPU that was never placed gets the marker. -/
theorem release_again_beyond_cpus :
    ¬ ReleaseRepeats threeCpus onePlaced (0, 0) ∧ releaseVcpu onePlaced (0, 1) ≠ onePlaced := by
  refine ⟨fun h => absurd h.indexAgain (by decide), fun hSame => ?_⟩
  have hField := congrArg (fun s => s.preAllocPcpu (0, 1)) hSame
  exact absurd hField (by decide)

/-- Two Linux VMs share a CPU, a second vCPU of one of them finds none, and then the
other VM leaves. -/
theorem placement_shared :
    PlacementInv threeCpus threeGuests
      (exec (placeStep threeCpus threeGuests) (emptyPlacement fun _ => 0)
        [.preAlloc (0, 0), .preAlloc (1, 0), .preAlloc (2, 0), .preAlloc (0, 1),
          .release (1, 0)]) := by
  refine (placement_run splitCpus_three threeGuests (fun _ => 0) _ ?_).1
  have hFirst : ¬ Placed (emptyPlacement fun _ => 0) ((0, 0) : Nat × Nat) := fun ⟨_, hMem⟩ =>
    nomatch hMem
  refine ⟨hFirst, ?_, ?_, ?_, ⟨1, by decide⟩, trivial⟩
  all_goals
    rintro ⟨pcpu, hMem⟩
    simp [placeStep, preAllocVcpuSingle, findPcpu, addVcpuToPcpu, emptyPlacement, threeCpus,
      threeGuests, getVcpuDomainRange, firstIdx, set_apply, pcpuHasVmVcpu, List.range_succ] at hMem
  · split_ifs at hMem <;> simp at hMem

/-! ## Admission -/

section Admission

variable {Vm Vcpu : Type} [DecidableEq Vm] [DecidableEq Vcpu]

/-- One call of `pre_alloc_vcpu_single` for each vCPU, and all succeed. -/
def allPlaced (c : Platform) (g : Guests Vm Vcpu) : Placement Vcpu → List Vcpu → Bool
  | _, [] => true
  | s, v :: vcpus =>
    let (s', ok) := preAllocVcpuSingle c g s v
    ok && allPlaced c g s' vcpus

/-- `HasRoom` for the vCPUs of a VM, as a test. -/
def roomFor (c : Platform) (g : Guests Vm Vcpu) (s : Placement Vcpu) (vm : Vm) (pcpu : Nat) : Bool :=
  decide ((getVcpuDomainRange c (g.isRtos vm)).1 ≤ pcpu) &&
    (decide (s.vcpuUse pcpu < vcpuCap c (g.isRtos vm)) && (s.map pcpu).all fun w => g.vm w != vm)

/-- The number of CPUs with room for a vCPU of the VM. -/
def roomCount (c : Platform) (g : Guests Vm Vcpu) (s : Placement Vcpu) (vm : Vm) : Nat :=
  countIdx (getVcpuDomainRange c (g.isRtos vm)).2 (roomFor c g s vm)

variable {c : Platform} {g : Guests Vm Vcpu} {s : Placement Vcpu} {v : Vcpu} {pcpu : Nat}

omit [DecidableEq Vcpu] in
theorem hasRoom_iff :
    HasRoom c g s v pcpu ↔ pcpu < (getVcpuDomainRange c (g.isRtos (g.vm v))).2 ∧
      roomFor c g s (g.vm v) pcpu = true := by
  simp only [roomFor, Bool.and_eq_true, decide_eq_true_eq, List.all_eq_true, bne_iff_ne]
  constructor
  · intro hRoom
    exact ⟨hRoom.inDomain.2, hRoom.inDomain.1, hRoom.use_lt, hRoom.apart⟩
  · intro ⟨hLt, hGe, hUse, hApart⟩
    exact ⟨⟨hGe, hLt⟩, hUse, hApart⟩

/-- The CPU that the vCPU is placed on has no room for another one of its VM. -/
theorem roomCount_placeOn (hRoom : HasRoom c g s v pcpu) :
    roomCount c g s (g.vm v) = roomCount c g (placeOn s pcpu v) (g.vm v) + 1 := by
  obtain ⟨hLt, hTest⟩ := hasRoom_iff.mp hRoom
  apply countIdx_clear hLt hTest
  · simp [roomFor, placeOn]
  · intro q hq
    simp [roomFor, placeOn, set_ne _ _ hq]

omit [DecidableEq Vcpu] in
theorem roomCount_eq_zero (hNone : ∀ pcpu, ¬ HasRoom c g s v pcpu) :
    roomCount c g s (g.vm v) = 0 := by
  apply countIdx_eq_zero.mpr
  intro pcpu hLt
  by_contra hTest
  exact hNone pcpu (hasRoom_iff.mpr ⟨hLt, by simpa using hTest⟩)

/-- The greedy run: each call uses up one CPU with room, whichever search finds it. -/
theorem PlacementInv.allPlaced_iff (hSplit : SplitCpus c) {vm : Vm} (vcpus : List Vcpu) :
    ∀ s, PlacementInv c g s → (∀ v ∈ vcpus, g.vm v = vm ∧ ¬ Placed s v) → vcpus.Nodup →
      (allPlaced c g s vcpus = true ↔ vcpus.length ≤ roomCount c g s vm) := by
  induction vcpus with
  | nil =>
    intro s _ _ _
    exact iff_of_true rfl (Nat.zero_le _)
  | cons v vcpus ih =>
    intro s hInv hVcpus hNodup
    obtain ⟨hVm, hNew⟩ := hVcpus v List.mem_cons_self
    obtain ⟨hNotIn, hRest⟩ := List.nodup_cons.mp hNodup
    rw [← hVm]
    rcases hInv.preAlloc_cases hSplit v with ⟨pcpu, hRoom, hEq⟩ | ⟨hEq, hNone⟩
    · have hLater : ∀ w ∈ vcpus, g.vm w = g.vm v ∧ ¬ Placed (placeOn s pcpu v) w := by
        intro w hw
        obtain ⟨hVmW, hNewW⟩ := hVcpus w (List.mem_cons_of_mem _ hw)
        refine ⟨hVmW.trans hVm.symm, ?_⟩
        rintro ⟨q, hMem⟩
        rcases mem_placeOn.mp hMem with ⟨_, rfl⟩ | hOld
        · exact hNotIn hw
        · exact hNewW ⟨q, hOld⟩
      have hTail := ih (placeOn s pcpu v) (hInv.place hSplit hRoom hNew) (by
        intro w hw
        rw [← hVm]
        exact hLater w hw) hRest
      rw [← hVm] at hTail
      simp only [allPlaced, hEq, Bool.true_and]
      rw [hTail, roomCount_placeOn hRoom, List.length_cons]
      omega
    · simp only [allPlaced, hEq, Bool.false_and]
      rw [roomCount_eq_zero hNone, List.length_cons]
      exact iff_of_false Bool.false_ne_true (by omega)

omit [DecidableEq Vcpu] in
/-- For a VM without vCPUs the CPUs with room are those that `vcpu_margin_check` counts. -/
theorem marginCheck_eq {vm : Vm} {osType : Nat} (hKind : g.isRtos vm = guestOsIsRtos osType)
    (hNew : ∀ pcpu, ∀ w ∈ s.map pcpu, g.vm w ≠ vm) (num : Nat) :
    vcpuMarginCheck c s.vcpuUse osType num = decide (num ≤ roomCount c g s vm) := by
  have hAll : ∀ pcpu, ((s.map pcpu).all fun w => g.vm w != vm) = true := by
    intro pcpu
    simpa using hNew pcpu
  have hCap : ((vcpuCap c (guestOsIsRtos osType) : Nat) : Int) =
      if guestOsIsRtos osType then 1 else (c.maxVcpuPercpu : Int) := by
    unfold vcpuCap
    split <;> rfl
  have hTest : roomFor c g s vm = fun pcpu =>
      decide ((getVcpuDomainRange c (guestOsIsRtos osType)).1 ≤ pcpu) &&
        decide (s.vcpuUse pcpu < if guestOsIsRtos osType then 1 else (c.maxVcpuPercpu : Int)) := by
    funext pcpu
    rw [roomFor, hAll, Bool.and_true, hKind, hCap]
  unfold vcpuMarginCheck roomCount
  rw [hTest, hKind]
  rfl

/--
**Admission**: in every state with the placement invariant, the check for `n` vCPUs of an
OS type succeeds exactly if `n` calls for the vCPUs of a new VM of that type do.
-/
theorem marginCheck_iff (hSplit : SplitCpus c) (hInv : PlacementInv c g s) {vm : Vm}
    {osType : Nat} (hKind : g.isRtos vm = guestOsIsRtos osType)
    (hNew : ∀ pcpu, ∀ w ∈ s.map pcpu, g.vm w ≠ vm) (vcpus : List Vcpu)
    (hVm : ∀ v ∈ vcpus, g.vm v = vm) (hNodup : vcpus.Nodup) :
    vcpuMarginCheck c s.vcpuUse osType vcpus.length = true ↔ allPlaced c g s vcpus = true := by
  rw [marginCheck_eq hKind hNew, decide_eq_true_iff]
  refine (PlacementInv.allPlaced_iff hSplit vcpus s hInv ?_ hNodup).symm
  intro v hv
  refine ⟨hVm v hv, ?_⟩
  rintro ⟨pcpu, hMem⟩
  exact hNew pcpu v hMem (hVm v hv)

end Admission

/-- With the vCPU of VM 0 on the CPU for Linux, one vCPU of VM 1 is admitted and not two. -/
theorem marginCheck_shared :
    (vcpuMarginCheck threeCpus (placeOn (emptyPlacement fun _ => 0) 1 (0, 0)).vcpuUse
        osTypeLinux 1 = true ↔
      allPlaced threeCpus threeGuests (placeOn (emptyPlacement fun _ => 0) 1 (0, 0))
        [(1, 0)] = true) ∧
    (vcpuMarginCheck threeCpus (placeOn (emptyPlacement fun _ => 0) 1 (0, 0)).vcpuUse
        osTypeLinux 2 = true ↔
      allPlaced threeCpus threeGuests (placeOn (emptyPlacement fun _ => 0) 1 (0, 0))
        [(1, 0), (1, 1)] = true) := by
  have hInv : PlacementInv threeCpus threeGuests
      (placeOn (emptyPlacement fun _ => 0) 1 ((0, 0) : Nat × Nat)) := by
    apply (placementInv_empty threeCpus threeGuests fun _ => 0).place splitCpus_three
    · exact ⟨⟨by decide, by decide⟩, by decide, by decide⟩
    · rintro ⟨pcpu, hMem⟩
      cases hMem
  have hNew : ∀ pcpu, ∀ w ∈ (placeOn (emptyPlacement fun _ => 0) 1 ((0, 0) : Nat × Nat)).map pcpu,
      threeGuests.vm w ≠ 1 := by
    intro pcpu w hw
    rcases mem_placeOn.mp hw with ⟨_, rfl⟩ | hOld
    · decide
    · cases hOld
  exact ⟨marginCheck_iff splitCpus_three hInv rfl hNew [(1, 0)] (by decide) (by decide),
    marginCheck_iff splitCpus_three hInv rfl hNew [(1, 0), (1, 1)] (by decide) (by decide)⟩

end Zvm.Vcpu
