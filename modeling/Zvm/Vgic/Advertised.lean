import Zvm.Vgic.Gicd

/-!
# The advertised interrupts

A guest sizes its interrupts by `GICD_TYPER` and then writes the registers of all of them.
Whatever it has written before, `GICD_TYPER` says one bank more than there is (up to 1023
interrupts), and setting bits in that bank is the only access to an advertised interrupt that
fails.
-/

namespace Zvm.Vgic

open Zvm.Verified.FunArray Zvm.Verified.Run

/-! ## Runs -/

/-- The accesses of a guest. -/
inductive GicOp where
  | read (vcpu addr : Nat)
  | write (vcpu addr : Nat) (value : BitVec 64)

def gicStep (b : GicBuild) (g : Gic) : GicOp → Gic
  | .read _ _ => g
  | .write vcpu addr value => (vgicVdevMemWrite b g vcpu addr value).gic

/-- What no access changes: where the frames are, and `GICD_TYPER`. -/
structure Fixed (b : GicBuild) (g : Gic) : Prop where
  base : g.gicd.gicdBase = b.gicdBase
  size : g.gicd.gicdSize = b.gicdSize
  typer : g.gicd.typer = b.gicdTyper
  frame : ∀ i addr, (g.gicr i).frame addr i = ((vdevGicv3Init b).gicr i).frame addr i

section Fixed

variable {b : GicBuild} {g g' : Gic}

theorem fixed_init (b : GicBuild) : Fixed b (vdevGicv3Init b) := ⟨rfl, rfl, rfl, fun _ _ => rfl⟩

/-- The part of the controller that a write to the distributor leaves alone. -/
def SameHeader (g g' : Gic) : Prop :=
  g'.gicd.gicdBase = g.gicd.gicdBase ∧ g'.gicd.gicdSize = g.gicd.gicdSize ∧
    g'.gicd.typer = g.gicd.typer ∧ g'.gicr = g.gicr

theorem SameHeader.refl (g : Gic) : SameHeader g g := ⟨rfl, rfl, rfl, rfl⟩

theorem Fixed.of_sameHeader (hFixed : Fixed b g) (hSame : SameHeader g g') : Fixed b g' := by
  obtain ⟨hBase, hSize, hTyper, hGicr⟩ := hSame
  refine ⟨hBase.trans hFixed.base, hSize.trans hFixed.size, hTyper.trans hFixed.typer, ?_⟩
  intro i addr
  rw [hGicr]
  exact hFixed.frame i addr

theorem foldl_testAndSetGicdBit (kind : BitKind) (base : Nat) (value : BitVec 32) (setFlag : Bool)
    (vcpus : List Nat) :
    ∀ d : Gicd, vcpus.foldl (testAndSetGicdBit b kind base value setFlag) d =
      { d with banks := (vcpus.foldl (testAndSetGicdBit b kind base value setFlag) d).banks } := by
  induction vcpus with
  | nil =>
    intro d
    rfl
  | cons v vcpus ih =>
    intro d
    exact ih (testAndSetGicdBit b kind base value setFlag d v)

theorem bankWrite_sameHeader (kind : BitKind) (setFlag : Bool) (irqBase : Nat) (value : BitVec 32) :
    SameHeader g (bankWrite b g kind setFlag irqBase value).1 := by
  unfold bankWrite
  split
  · exact SameHeader.refl g
  · rw [foldl_testAndSetGicdBit]
    exact SameHeader.refl _

theorem prioWrite_sameHeader (irqBase : Nat) (value : BitVec 32) :
    SameHeader g (prioWrite b g irqBase value) := by
  unfold prioWrite
  split <;> exact SameHeader.refl g

theorem vgicGicdMemWrite_sameHeader (vcpu offset : Nat) (value : BitVec 32) :
    SameHeader g (vgicGicdMemWrite b g vcpu offset value).1 := by
  unfold vgicGicdMemWrite
  cases decodeGicd 0x7f8 offset with
  | bank kind setFlag irqBase => exact bankWrite_sameHeader kind setFlag irqBase value
  | priority irqBase => exact prioWrite_sameHeader irqBase value
  | _ => exact SameHeader.refl g

theorem vgicGicrrdMemWrite_frame (r : Gicr) (offset : Nat) (value : BitVec 64) (addr i : Nat) :
    (vgicGicrrdMemWrite r offset value).frame addr i = r.frame addr i := by
  unfold vgicGicrrdMemWrite
  split_ifs <;> rfl

theorem vgicGicrsgiMemWrite_frame (r : Gicr) (offset : Nat) (value : BitVec 64) (addr i : Nat) :
    (vgicGicrsgiMemWrite b r offset value).1.frame addr i = r.frame addr i := by
  unfold vgicGicrsgiMemWrite
  split_ifs <;> rfl

/-- A redistributor is replaced by one with the same frames. -/
theorem Fixed.set_gicr (hFixed : Fixed b g) {r : Gicr} (i : Nat)
    (hFrame : ∀ addr k, r.frame addr k = (g.gicr i).frame addr k) :
    Fixed b { g with gicr := set g.gicr i r } where
  base := hFixed.base
  size := hFixed.size
  typer := hFixed.typer
  frame := by
    intro k addr
    simp only
    by_cases hk : k = i
    · subst hk
      rw [set_same, hFrame, hFixed.frame]
    · rw [set_ne _ _ hk, hFixed.frame]

theorem Fixed.step (hFixed : Fixed b g) (op : GicOp) : Fixed b (gicStep b g op) := by
  cases op with
  | read vcpu addr => exact hFixed
  | write vcpu addr value =>
    simp only [gicStep, vgicVdevMemWrite]
    split
    · exact hFixed
    · exact hFixed.of_sameHeader (vgicGicdMemWrite_sameHeader _ _ _)
    · exact hFixed.set_gicr _ fun _ _ => vgicGicrrdMemWrite_frame _ _ _ _ _
    · exact hFixed.set_gicr _ fun _ _ => vgicGicrsgiMemWrite_frame _ _ _ _ _

theorem fixed_run (b : GicBuild) (ops : List GicOp) :
    Fixed b (exec (gicStep b) (vdevGicv3Init b) ops) :=
  exec_invariant_of_mem ops (fun op _ _ hFixed => hFixed.step op) _ (fixed_init b)

end Fixed

/-! ## The number of interrupts -/

/-- `GICD_TYPER.ITLinesNumber` as the guest reads it. -/
def itLinesNumber (b : GicBuild) (g : Gic) (vcpu : Nat) : Nat :=
  ((vgicVdevMemRead b g vcpu (b.gicdBase + 4)).1 &&& 0x1f#64).toNat

/-- The number of interrupts that the guest is told of. -/
def advertised (b : GicBuild) (g : Gic) (vcpu : Nat) : Nat := 32 * (itLinesNumber b g vcpu + 1)

section Number

variable {b : GicBuild} {g : Gic}

theorem frameOf_gicd (hFixed : Fixed b g) {offset : Nat} (hOffset : offset < 0x10000) :
    frameOf b g (b.gicdBase + offset) = some (.gicd, offset) := by
  have hSize := b.gicdSize_ge
  rw [frameOf, hFixed.base, hFixed.size, if_pos ⟨Nat.le_add_right _ _, by omega⟩,
    Nat.add_sub_cancel_left]

/-- The five low bits of `GICD_TYPER` are those of the number of banks. -/
theorem gicdTyper_and (b : GicBuild) :
    b.gicdTyper &&& 0x1f#32 = BitVec.ofNat 32 b.spiNum &&& 0x1f#32 := by
  apply BitVec.eq_of_getLsbD_eq
  intro i hi
  by_cases hLow : i < 5
  · have hNine : (9#32 <<< 19).getLsbD i = false := by
      rw [BitVec.getLsbD_shiftLeft]
      simp [show i < 19 by omega]
    simp only [GicBuild.gicdTyper, BitVec.getLsbD_and, BitVec.getLsbD_or, hNine,
      BitVec.getLsbD_shiftLeft]
    simp [hLow]
  · have hMask : (0x1f#32).getLsbD i = false := by
      have hAll : ∀ k < 32, 5 ≤ k → (0x1f#32).getLsbD k = false := by decide
      exact hAll i hi (by omega)
    simp only [BitVec.getLsbD_and, hMask, Bool.and_false]

theorem itLinesNumber_eq (hFixed : Fixed b g) (vcpu : Nat) :
    itLinesNumber b g vcpu = b.virqNr / 32 % 32 := by
  have hRead : (vgicVdevMemRead b g vcpu (b.gicdBase + 4)).1 = b.gicdTyper.setWidth 64 := by
    have hDecode : decodeGicd 0xc00 4 = .typer := rfl
    rw [vgicVdevMemRead, frameOf_gicd hFixed (by decide)]
    simp only [vgicGicdMemRead, hDecode, hFixed.typer]
  have hMask : b.gicdTyper.setWidth 64 &&& 0x1f#64 = (b.gicdTyper &&& 0x1f#32).setWidth 64 := by
    rw [BitVec.setWidth_and]
    rfl
  have hSpi : b.spiNum = b.virqNr / 32 := by
    unfold GicBuild.spiNum
    omega
  rw [itLinesNumber, hRead, hMask, gicdTyper_and, hSpi, BitVec.toNat_setWidth, BitVec.toNat_and,
    BitVec.toNat_ofNat]
  have hBits := Nat.and_two_pow_sub_one_eq_mod (b.virqNr / 32 % 2 ^ 32) 5
  rw [show (0x1f#32).toNat = 2 ^ 5 - 1 from rfl, hBits]
  omega

end Number

/-! ## The accesses -/

/-- The registers with bits or fields for each interrupt. -/
inductive GicReg where
  | isenabler
  | icenabler
  | ispendr
  | icpendr
  | isactiver
  | icactiver
  | ipriorityr
  | icfgr

/-- The offset of the register for an interrupt. -/
def GicReg.offset (intid : Nat) : GicReg → Nat
  | .isenabler => 0x100 + 4 * (intid / 32)
  | .icenabler => 0x180 + 4 * (intid / 32)
  | .ispendr => 0x200 + 4 * (intid / 32)
  | .icpendr => 0x280 + 4 * (intid / 32)
  | .isactiver => 0x300 + 4 * (intid / 32)
  | .icactiver => 0x380 + 4 * (intid / 32)
  | .ipriorityr => 0x400 + 4 * (intid / 4)
  | .icfgr => 0xc00 + 4 * (intid / 16)

/-- The offset of the register of a bank that sets or clears its bits. -/
def bankOffset : BitKind → Bool → Nat → Nat
  | .enable, true, k => 0x100 + 4 * k
  | .enable, false, k => 0x180 + 4 * k
  | .pending, true, k => 0x200 + 4 * k
  | .pending, false, k => 0x280 + 4 * k
  | .active, true, k => 0x300 + 4 * k
  | .active, false, k => 0x380 + 4 * k

/-- The registers that set bits. -/
def GicReg.sets : GicReg → Bool
  | .isenabler => true
  | .ispendr => true
  | .isactiver => true
  | _ => false

/-- An access to the register of an interrupt, of the distributor or of a redistributor, at
one of its four bytes. -/
structure GicAccess where
  write : Option (BitVec 64)
  reg : GicReg
  intid : Nat
  rdist : Option Nat
  lane : Nat

/-- The private interrupts have registers in every redistributor. -/
structure GicAccess.Valid (b : GicBuild) (a : GicAccess) : Prop where
  lane_lt : a.lane < 4
  rdist_lt : ∀ i, a.rdist = some i → i < b.rdNum ∧ a.intid < 32

def GicAccess.addr (b : GicBuild) (a : GicAccess) : Nat :=
  match a.rdist with
  | none => b.gicdBase + (a.reg.offset a.intid + a.lane)
  | some i => b.gicrBase + rdSgiSize * i + rdBaseSize + (a.reg.offset a.intid + a.lane)

/-- The result of the access by a vCPU. -/
def GicAccess.result (b : GicBuild) (g : Gic) (vcpu : Nat) (a : GicAccess) : Int :=
  match a.write with
  | none => (vgicVdevMemRead b g vcpu (a.addr b)).2
  | some value => (vgicVdevMemWrite b g vcpu (a.addr b) value).ret

/-- The access sets bits of the distributor, behind the last interrupt. -/
def GicAccess.SetsBehind (b : GicBuild) (a : GicAccess) : Prop :=
  a.write.isSome = true ∧ a.rdist = none ∧ a.reg.sets = true ∧ b.virqNr ≤ a.intid

section Access

variable {b : GicBuild} {g : Gic} {vcpu intid lane : Nat}

theorem GicReg.offset_lt (reg : GicReg) (hIntid : intid < 1024) (hLane : lane < 4) :
    reg.offset intid + lane < 0x10000 := by
  cases reg <;> simp only [GicReg.offset] <;> omega

theorem bankWrite_ret (kind : BitKind) (setFlag : Bool) (irqBase : Nat) (value : BitVec 32) :
    (bankWrite b g kind setFlag irqBase value).2 =
      if b.virqNr ≤ irqBase ∧ setFlag = true then -22 else 0 := by
  unfold bankWrite
  by_cases hBehind : b.virqNr ≤ irqBase
  · simp [hBehind]
  · simp [hBehind]

/-- What the register of an interrupt is decoded to, for a write. -/
def GicReg.decoded (intid : Nat) : GicReg → GicdReg
  | .isenabler => .bank .enable true (intid / 32 * 32)
  | .icenabler => .bank .enable false (intid / 32 * 32)
  | .ispendr => .bank .pending true (intid / 32 * 32)
  | .icpendr => .bank .pending false (intid / 32 * 32)
  | .isactiver => .bank .active true (intid / 32 * 32)
  | .icactiver => .bank .active false (intid / 32 * 32)
  | .ipriorityr => if intid < 1016 then .priority (intid / 4 * 4) else .none
  | .icfgr => if intid < 1008 then .config (16 * (intid / 16)) else .none

theorem decodeGicd_bank_lane (prioEnd : Nat) (kind : BitKind) (setFlag : Bool) {k : Nat}
    (hk : k < 32) (hLane : lane < 4) :
    decodeGicd prioEnd (bankOffset kind setFlag k + lane) = .bank kind setFlag (k * 32) := by
  unfold decodeGicd bankOffset
  cases kind <;> cases setFlag <;> dsimp only <;> repeat rw [if_neg (by omega)]
  all_goals
    rw [if_pos (by omega)]
    congr 1
    omega

theorem decodeGicd_priority {prioEnd n : Nat} (hn : 0x400 + n < prioEnd) :
    decodeGicd prioEnd (0x400 + n) = .priority (n / 4 * 4) := by
  unfold decodeGicd
  repeat rw [if_neg (by omega)]
  rw [if_pos (by omega), Nat.add_sub_cancel_left]

/-- Above the priorities there are the configuration and the identification. -/
theorem decodeGicd_above {prioEnd offset : Nat} (hLow : 0x400 ≤ offset) (hEnd : prioEnd ≤ offset) :
    decodeGicd prioEnd offset =
      if 0xc00 ≤ offset ∧ offset < 0xcfc then .config (16 * ((offset - 0xc00) / 4))
      else if offset = 0xffe8 then .pidr2 else .none := by
  unfold decodeGicd
  rw [if_neg (by omega), if_neg (by omega), if_neg (by omega), if_neg (by omega), if_neg (by omega),
    if_neg (by omega), if_neg (by omega), if_neg (by omega), if_neg (by omega)]

theorem decodeGicd_offset (reg : GicReg) (hIntid : intid < 1024) (hLane : lane < 4) :
    decodeGicd 0x7f8 (reg.offset intid + lane) = reg.decoded intid := by
  have hBank := fun kind setFlag =>
    decodeGicd_bank_lane 0x7f8 kind setFlag (show intid / 32 < 32 by omega) hLane
  cases reg with
  | isenabler => exact hBank .enable true
  | icenabler => exact hBank .enable false
  | ispendr => exact hBank .pending true
  | icpendr => exact hBank .pending false
  | isactiver => exact hBank .active true
  | icactiver => exact hBank .active false
  | ipriorityr =>
    rw [GicReg.offset, Nat.add_assoc, GicReg.decoded]
    by_cases hIn : intid < 1016
    · rw [decodeGicd_priority (by omega), if_pos hIn]
      congr 1
      omega
    · rw [decodeGicd_above (by omega) (by omega), if_neg (by omega), if_neg (by omega), if_neg hIn]
  | icfgr =>
    have hConfig : (0xc00 + 4 * (intid / 16) + lane - 0xc00) / 4 = intid / 16 := by omega
    rw [GicReg.offset, decodeGicd_above (by omega) (by omega), hConfig, GicReg.decoded]
    by_cases hIn : intid < 1008
    · rw [if_pos (by omega), if_pos hIn]
    · rw [if_neg (by omega), if_neg (by omega), if_neg hIn]

/-- A write to the distributor fails only if it sets bits behind the last interrupt. -/
theorem vgicGicdMemWrite_ret (reg : GicReg) (hIntid : intid < 1024) (hLane : lane < 4)
    (value : BitVec 32) :
    (vgicGicdMemWrite b g vcpu (reg.offset intid + lane) value).2 =
      if b.virqNr ≤ intid / 32 * 32 ∧ reg.sets = true then -22 else 0 := by
  rw [vgicGicdMemWrite, decodeGicd_offset reg hIntid hLane]
  cases reg with
  | ipriorityr | icfgr =>
    simp only [GicReg.decoded, GicReg.sets, Bool.false_eq_true, and_false, if_false]
    split_ifs <;> rfl
  | _ => exact bankWrite_ret _ _ _ _

theorem Gicr.frame_sgi (r : Gicr) {offset : Nat} (i : Nat) (hOffset : offset < r.sgiSize) :
    r.frame (r.sgiBase + offset) i = some (.sgi i, offset) := by
  rw [Gicr.frame, if_pos ⟨Nat.le_add_right _ _, by omega⟩, Nat.add_sub_cancel_left]

/-- A frame of a redistributor is no frame of the distributor. -/
theorem Gicr.frame_ne_gicd (r : Gicr) {addr i : Nat} {found : GicFrame × Nat}
    (hFound : r.frame addr i = some found) : found.1 = .sgi i ∨ found.1 = .rd i := by
  unfold Gicr.frame at hFound
  split_ifs at hFound
  · exact .inl (by rw [← Option.some.inj hFound])
  · exact .inr (by rw [← Option.some.inj hFound])

/-- An address in the second frame of a redistributor is found in a redistributor. -/
theorem frameOf_sgi (hFixed : Fixed b g) {i offset : Nat} (hi : i < b.rdNum)
    (hOffset : offset < sgiBaseSize) :
    ∃ j k, frameOf b g (b.gicrBase + rdSgiSize * i + rdBaseSize + offset) = some (.sgi j, k) ∨
      frameOf b g (b.gicrBase + rdSgiSize * i + rdBaseSize + offset) = some (.rd j, k) := by
  have hAfter := b.gicr_after
  have hEnd := b.gicr_end
  have hRd : rdSgiSize * i + rdSgiSize ≤ b.gicrSize := by
    have hLe : i + 1 ≤ b.gicrSize / rdSgiSize := Nat.le_trans hi (Nat.min_le_left _ _)
    exact Nat.le_trans (Nat.mul_le_mul_left _ hLe) (Nat.mul_div_le _ _)
  have hSizes : rdSgiSize = rdBaseSize + sgiBaseSize := rfl
  have hOwn : ((vdevGicv3Init b).gicr i).frame
      (b.gicrBase + rdSgiSize * i + rdBaseSize + offset) i = some (.sgi i, offset) :=
    Gicr.frame_sgi ((vdevGicv3Init b).gicr i) i hOffset
  rw [frameOf, hFixed.base, hFixed.size, if_neg (by omega), getVcpuGicrType,
    Nat.mod_eq_of_lt (by omega)]
  cases hFound : (List.range b.rdNum).findSome? fun k =>
      (g.gicr k).frame (b.gicrBase + rdSgiSize * i + rdBaseSize + offset) k with
  | none =>
    have hNone := List.findSome?_eq_none_iff.mp hFound i (List.mem_range.mpr hi)
    rw [hFixed.frame, hOwn] at hNone
    cases hNone
  | some found =>
    obtain ⟨j, _, hj⟩ := List.exists_of_findSome?_eq_some hFound
    rcases (g.gicr j).frame_ne_gicd hj with hSgi | hRdFrame
    · exact ⟨j, found.2, .inl (by rw [← hSgi])⟩
    · exact ⟨j, found.2, .inr (by rw [← hRdFrame])⟩

/-- Which accesses fail. -/
theorem GicAccess.result_eq (hFixed : Fixed b g) {a : GicAccess} (hValid : a.Valid b)
    (hIntid : a.intid < 1024) :
    a.result b g vcpu =
      if a.write.isSome = true ∧ a.rdist = none ∧ a.reg.sets = true ∧
        b.virqNr ≤ a.intid / 32 * 32 then -22 else 0 := by
  have hLane := hValid.lane_lt
  have hOffset := a.reg.offset_lt hIntid hLane
  cases hRdist : a.rdist with
  | none =>
    have hFrame : frameOf b g (a.addr b) = some (.gicd, a.reg.offset a.intid + a.lane) := by
      simp only [GicAccess.addr, hRdist]
      exact frameOf_gicd hFixed hOffset
    cases hWrite : a.write with
    | none => simp [GicAccess.result, hWrite, vgicVdevMemRead, hFrame]
    | some value =>
      simp only [GicAccess.result, hWrite, vgicVdevMemWrite, hFrame,
        vgicGicdMemWrite_ret a.reg hIntid hLane, Option.isSome_some, true_and]
      simp only [and_comm]
  | some i =>
    obtain ⟨j, k, hFrame⟩ :=
      frameOf_sgi hFixed (hValid.rdist_lt i hRdist).1 (by simpa [sgiBaseSize] using hOffset)
    have hAddr : a.addr b =
        b.gicrBase + rdSgiSize * i + rdBaseSize + (a.reg.offset a.intid + a.lane) := by
      simp only [GicAccess.addr, hRdist]
    rw [← hAddr] at hFrame
    cases hWrite : a.write with
    | none => rcases hFrame with hFrame | hFrame <;>
        simp [GicAccess.result, hWrite, vgicVdevMemRead, hFrame]
    | some value => rcases hFrame with hFrame | hFrame <;>
        simp [GicAccess.result, hWrite, vgicVdevMemWrite, hFrame]

/-- With whole banks, the accesses that fail are those that set bits behind the end. -/
theorem GicAccess.result_nonneg_iff (hNr : 32 ∣ b.virqNr) (hFixed : Fixed b g) {a : GicAccess}
    (hValid : a.Valid b) (hIntid : a.intid < advertised b g vcpu) :
    0 ≤ a.result b g vcpu ↔ ¬ a.SetsBehind b := by
  rw [advertised, itLinesNumber_eq hFixed] at hIntid
  have hBank : b.virqNr ≤ a.intid / 32 * 32 ↔ b.virqNr ≤ a.intid := by
    obtain ⟨k, hk⟩ := hNr
    omega
  rw [GicAccess.result_eq hFixed hValid (by omega), GicAccess.SetsBehind, ← hBank]
  split_ifs with hBehind
  · simp [hBehind]
  · simp [hBehind]

/-- No access to an advertised interrupt fails exactly if all 1024 are there. -/
theorem advertised_within_iff (hNr : 32 ∣ b.virqNr) (hFixed : Fixed b g) :
    (∀ a : GicAccess, a.Valid b → a.intid < advertised b g vcpu → 0 ≤ a.result b g vcpu) ↔
      1024 ≤ b.virqNr := by
  have hAdvertised : advertised b g vcpu = 32 * (b.virqNr / 32 % 32 + 1) := by
    rw [advertised, itLinesNumber_eq hFixed]
  obtain ⟨k, hk⟩ := hNr
  constructor
  · intro hAll
    by_contra hFew
    have hFirst : b.virqNr < advertised b g vcpu := by
      rw [hAdvertised]
      omega
    have hValid : (GicAccess.mk (some 0) .isenabler b.virqNr none 0).Valid b :=
      ⟨Nat.zero_lt_succ _, by simp⟩
    exact (GicAccess.result_nonneg_iff ⟨k, hk⟩ hFixed hValid hFirst).mp (hAll _ hValid hFirst)
      ⟨rfl, rfl, rfl, Nat.le_refl _⟩
  · intro hMany a hValid hIntid
    refine (GicAccess.result_nonneg_iff ⟨k, hk⟩ hFixed hValid hIntid).mpr ?_
    intro hBehind
    have hLe := hBehind.2.2.2
    rw [hAdvertised] at hIntid
    omega

end Access

/--
**Accesses to advertised interrupts**: whatever the guest has written before, its access to a
register of an advertised interrupt succeeds exactly if it does not set bits of the
distributor behind the last interrupt.
-/
theorem advertised_access_iff (b : GicBuild) (hNr : 32 ∣ b.virqNr) (ops : List GicOp) (vcpu : Nat)
    (a : GicAccess) (hValid : a.Valid b)
    (hIntid : a.intid < advertised b (exec (gicStep b) (vdevGicv3Init b) ops) vcpu) :
    0 ≤ a.result b (exec (gicStep b) (vdevGicv3Init b) ops) vcpu ↔ ¬ a.SetsBehind b :=
  GicAccess.result_nonneg_iff hNr (fixed_run b ops) hValid hIntid

/-- The build for QEMU, with 256 interrupts and a VM of two vCPUs. -/
def qemuBuild : GicBuild where
  soc := .qemuMax
  virqNr := 256
  maxVcpu := 4
  vcpuNum := 2
  gicdBase := 0x8000000
  gicdSize := 0x10000
  gicrBase := 0x80a0000
  gicrSize := 0xf60000
  virqNr_ge := by decide
  vcpuNum_le := by decide
  gicdSize_ge := by decide
  gicr_after := by decide
  gicr_end := by decide

/-- Enabling an interrupt of the last bank but one succeeds. -/
theorem advertised_access_inside :
    0 ≤ (GicAccess.mk (some 1) .isenabler 224 none 0).result qemuBuild
      (exec (gicStep qemuBuild) (vdevGicv3Init qemuBuild) [.write 0 0x8000000 1]) 1 := by
  have hValid : (GicAccess.mk (some 1) .isenabler 224 none 0).Valid qemuBuild :=
    ⟨by decide, by simp⟩
  refine (advertised_access_iff qemuBuild (by decide) [.write 0 0x8000000 1] 1 _ hValid
    (by decide +kernel)).mpr ?_
  rintro ⟨_, _, _, hLe⟩
  exact absurd hLe (by decide)

/-- Interrupt 256 is advertised, and enabling it is an error. -/
theorem advertised_access_behind :
    256 < advertised qemuBuild (vdevGicv3Init qemuBuild) 0 ∧
      (GicAccess.mk (some 1) .isenabler 256 none 0).result qemuBuild (vdevGicv3Init qemuBuild) 0 =
        -22 := by
  refine ⟨by decide +kernel, by decide +kernel⟩

end Zvm.Vgic
