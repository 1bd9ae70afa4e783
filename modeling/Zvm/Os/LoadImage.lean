import Zvm.Os.GuestRam

/-!
# Loading the images of a VM

`load_vm_image` (`subsys/zvm/os.c`) copies the image of a new VM to its load base, and for Linux
the device tree to its own region and the root file system to `vm_load_base + 0x9000000`.  It
copies whole megabytes, so that what an image has beyond its last whole megabyte is left out.
No size is compared with the memory of the VM or with the offset of the file system.

Addresses are 64 bits wide, and a range that starts at `a` is the set of `a + o` with the
offset `o` below its size, so that all questions about ranges become questions about offsets
from the load base.
-/

namespace Zvm.Os.LoadImage

open Zvm.Verified.FunArray Zvm.Os.GuestMemory Zvm.Os.Vmid Zvm.Os.Template Zvm.Os.GuestRam

/-! ## The loops -/

/-- `MB_SIZE`. -/
def mbSize : Nat := 0x100000

/-- Where the root file system goes, from the load base. -/
def rootfsOffset : Nat := 0x9000000

/-- One `memcpy` of `MB_SIZE` bytes between two mapped pages. -/
structure Copy where
  src : Nat
  des : Nat
deriving DecidableEq, Repr

/-- `while (num_m)`. -/
def copyLoop : Nat → Nat → Nat → List Copy
  | 0, _, _ => []
  | numM + 1, srcHpa, desHpa =>
    ⟨srcHpa, desHpa⟩ :: copyLoop numM (add64 srcHpa mbSize) (add64 desHpa mbSize)

/-- The configuration with the root file system.  The sizes are devicetree cells or 32-bit
fields, and the template of an OS type is that of its index. -/
structure LoadConfig extends Platform where
  linuxCpiesRootfsAddr : Nat
  linuxCpiesRootfsSize : Nat
  rootfsSize_lt : linuxCpiesRootfsSize < 2 ^ 32
  linuxImageSize_lt : linuxCpiesImageSize < 2 ^ 32
  dtbMemSize_lt : linuxDtbMemSize < 2 ^ 32
  zephyrImageSize_lt : ∀ cfg ∈ zephyrCpiesConfig, cfg.vmImageSize < 2 ^ 32
  freertosImageSize_lt : ∀ cfg ∈ freertosCpiesConfig, cfg.vmImageSize < 2 ^ 32
  template_osType : ∀ t ≤ osTypeFreertos, (guestOsTemplate t).osType = t

/-- What the three loops copy. -/
structure Loads where
  image : List Copy
  dtb : List Copy
  rootfs : List Copy
deriving DecidableEq, Repr

/-- `load_vm_image`; nothing if the configuration that it reads is `NULL`. -/
def loadVmImage (c : LoadConfig) (info : ZOsInfo) : Option Loads :=
  let image := copyLoop (info.vmImageSize / mbSize) info.vmImageBase info.vmLoadBase
  if info.osType ≠ osTypeLinux then some ⟨image, [], []⟩
  else
    (guestConfigAvailable c.toPlatform info.vcpuNum info.osType (info.vmMemSize % 2 ^ 32)).map
      fun cfg =>
        { image := image
          dtb := copyLoop (info.linuxDtbLoadSize / mbSize) cfg.vmImageBase info.linuxDtbLoadAddr
          rootfs := copyLoop (c.linuxCpiesRootfsSize / mbSize) c.linuxCpiesRootfsAddr
            (add64 info.vmLoadBase rootfsOffset) }

/-! ## The property and the condition -/

/-- The copy writes the address. -/
def Copy.Writes (k : Copy) (a : Nat) : Prop := InRange k.des mbSize a

/-- The copies take byte `i` from `src` on to `des` on. -/
def Moves (copies : List Copy) (src des i : Nat) : Prop :=
  ∃ k ∈ copies, ∃ j < mbSize, add64 k.src j = add64 src i ∧ add64 k.des j = add64 des i

/-- Addresses that loading the VM may write. -/
def Own (info : ZOsInfo) (a : Nat) : Prop :=
  InRange info.vmLoadBase info.vmMemSize a ∨
    (info.osType = osTypeLinux ∧ InRange info.linuxDtbLoadAddr info.linuxDtbLoadSize a)

/-- The image is complete, everything is written inside the VM, and the image and the root file
system are apart. -/
structure Loaded (info : ZOsInfo) (l : Loads) : Prop where
  complete : ∀ i < info.vmImageSize, Moves l.image info.vmImageBase info.vmLoadBase i
  inside : ∀ k ∈ l.image ++ l.dtb ++ l.rootfs, ∀ a, k.Writes a → Own info a
  apart : ∀ k ∈ l.image, ∀ k' ∈ l.rootfs, ∀ a, k.Writes a → ¬ k'.Writes a

def LoadOk (c : LoadConfig) (info : ZOsInfo) : Prop :=
  ∃ l, loadVmImage c info = some l ∧ Loaded info l

/-- How far the device tree is from the load base. -/
def dtbOffset (info : ZOsInfo) : Int :=
  ((info.linuxDtbLoadAddr : Int) - info.vmLoadBase).bmod (2 ^ 64)

/-- `n` bytes at the offset `o` are in the memory of the VM, or what is beyond its end is in the
region of the device tree. -/
def Fits (info : ZOsInfo) (o n : Nat) : Prop :=
  n = 0 ∨ o + n ≤ info.vmMemSize ∨
    (info.osType = osTypeLinux ∧ dtbOffset info ≤ max o info.vmMemSize ∧
      ((o + n : Nat) : Int) ≤ dtbOffset info + info.linuxDtbLoadSize)

/-- The root file system that is copied. -/
def rootfsBytes (c : LoadConfig) : Nat := c.linuxCpiesRootfsSize / mbSize * mbSize

/-- The image has whole megabytes and fits; for Linux the root file system fits at its offset,
and the image ends before it. -/
structure LoadSafe (c : LoadConfig) (info : ZOsInfo) : Prop where
  whole : info.vmImageSize % mbSize = 0
  image : Fits info 0 info.vmImageSize
  rootfs : info.osType = osTypeLinux → Fits info rootfsOffset (rootfsBytes c) ∧
    (rootfsBytes c = 0 ∨ info.vmImageSize ≤ rootfsOffset)

instance (info : ZOsInfo) (o n : Nat) : Decidable (Fits info o n) :=
  inferInstanceAs (Decidable (_ ∨ _ ∨ _))

instance (c : LoadConfig) (info : ZOsInfo) : Decidable (LoadSafe c info) :=
  decidable_of_iff (info.vmImageSize % mbSize = 0 ∧ Fits info 0 info.vmImageSize ∧
      (info.osType = osTypeLinux → Fits info rootfsOffset (rootfsBytes c) ∧
        (rootfsBytes c = 0 ∨ info.vmImageSize ≤ rootfsOffset)))
    ⟨fun h => ⟨h.1, h.2.1, h.2.2⟩, fun h => ⟨h.whole, h.image, h.rootfs⟩⟩

/-! ## Offsets -/

theorem add64_add64 (a o j : Nat) : add64 (add64 a o) j = add64 a (o + j) := by
  simp only [add64]
  omega

theorem add64_inj {a o o' : Nat} (ho : o < 2 ^ 64) (ho' : o' < 2 ^ 64)
    (hSame : add64 a o = add64 a o') : o = o' := by
  simp only [add64] at hSame
  omega

theorem inRange_add64 {start size o : Nat} (ho : o < 2 ^ 64) (hSize : size ≤ 2 ^ 64) :
    InRange start size (add64 start o) ↔ o < size := by
  constructor
  · rintro ⟨o', ho', hSame⟩
    rwa [add64_inj ho (by omega) hSame]
  · intro hLt
    exact ⟨o, hLt, rfl⟩

/-- `dtbOffset` is the distance up to a multiple of `2 ^ 64`, and less than half of that. -/
theorem dtbOffset_spec (info : ZOsInfo) :
    (∃ q : Int, (info.linuxDtbLoadAddr : Int) - info.vmLoadBase = dtbOffset info + 2 ^ 64 * q) ∧
      -2 ^ 63 ≤ dtbOffset info ∧ dtbOffset info < 2 ^ 63 := by
  unfold dtbOffset
  generalize (info.linuxDtbLoadAddr : Int) - info.vmLoadBase = d
  have hDiv := Int.emod_add_mul_ediv d (2 ^ 64)
  rw [Int.bmod_def]
  split
  · exact ⟨⟨d / 2 ^ 64, by omega⟩, by omega, by omega⟩
  · exact ⟨⟨d / 2 ^ 64 + 1, by omega⟩, by omega, by omega⟩

/-- The region of the device tree, seen from the load base. -/
theorem inRange_dtb {info : ZOsInfo} {o : Nat} (ho : o < 2 ^ 34)
    (hSize : info.linuxDtbLoadSize < 2 ^ 32) :
    InRange info.linuxDtbLoadAddr info.linuxDtbLoadSize (add64 info.vmLoadBase o) ↔
      dtbOffset info ≤ o ∧ (o : Int) < dtbOffset info + info.linuxDtbLoadSize := by
  obtain ⟨⟨q, hq⟩, hLow, hHigh⟩ := dtbOffset_spec info
  simp only [InRange, add64]
  constructor
  · rintro ⟨t, ht, hSame⟩
    omega
  · rintro ⟨hLe, hLt⟩
    refine ⟨(o - dtbOffset info).toNat, by omega, ?_⟩
    omega

/-- An interval is covered by `[0, m)` and `[d, d + s)` if it ends in the first, or the second
covers what is beyond it. -/
theorem covered_iff {o n m s : Nat} {d : Int} {linux : Prop} :
    (∀ x, o ≤ x → x < o + n → x < m ∨ (linux ∧ d ≤ x ∧ (x : Int) < d + s)) ↔
      n = 0 ∨ o + n ≤ m ∨ (linux ∧ d ≤ max o m ∧ ((o + n : Nat) : Int) ≤ d + s) := by
  constructor
  · intro hAll
    by_cases hZero : n = 0
    · exact .inl hZero
    by_cases hEnds : o + n ≤ m
    · exact .inr (.inl hEnds)
    -- the first offset that is not in the first range, and the last one
    have hFirst := hAll (max o m) (by omega) (by omega)
    have hLast := hAll (o + n - 1) (by omega) (by omega)
    rcases hFirst with hFirst | ⟨hLinux, hFirst, _⟩
    · omega
    rcases hLast with hLast | ⟨_, _, hLast⟩
    · omega
    exact .inr (.inr ⟨hLinux, by omega, by omega⟩)
  · rintro (hZero | hEnds | ⟨hLinux, hFirst, hLast⟩) x hLe hLt
    · omega
    · exact .inl (by omega)
    · by_cases hIn : x < m
      · exact .inl hIn
      · exact .inr ⟨hLinux, by omega, by omega⟩

/-! ## What a loop copies -/

/-- The copies of a loop are those at the multiples of a megabyte. -/
theorem copyLoop_get (n : Nat) :
    ∀ src des,
    (∀ k ∈ copyLoop n src des, ∃ q < n, ∀ j,
      add64 k.src j = add64 src (q * mbSize + j) ∧ add64 k.des j = add64 des (q * mbSize + j)) ∧
    ∀ q < n, ∃ k ∈ copyLoop n src des, ∀ j,
      add64 k.src j = add64 src (q * mbSize + j) ∧ add64 k.des j = add64 des (q * mbSize + j) := by
  induction n with
  | zero =>
    intro src des
    exact ⟨by simp [copyLoop], by simp⟩
  | succ n ih =>
    intro src des
    obtain ⟨ihMem, ihGet⟩ := ih (add64 src mbSize) (add64 des mbSize)
    have hShift : ∀ a q j, add64 (add64 a mbSize) (q * mbSize + j) =
        add64 a ((q + 1) * mbSize + j) := by
      intro a q j
      rw [add64_add64]
      congr 1
      ring
    constructor
    · intro k hk
      rcases List.mem_cons.mp hk with rfl | hk
      · exact ⟨0, by omega, fun j => by simp⟩
      · obtain ⟨q, hq, hAt⟩ := ihMem k hk
        refine ⟨q + 1, by omega, fun j => ?_⟩
        rw [← hShift, ← hShift]
        exact hAt j
    · intro q hq
      cases q with
      | zero => exact ⟨_, List.mem_cons_self, fun j => by simp⟩
      | succ q =>
        obtain ⟨k, hk, hAt⟩ := ihGet q (by omega)
        refine ⟨k, List.mem_cons_of_mem _ hk, fun j => ?_⟩
        rw [← hShift, ← hShift]
        exact hAt j

/-- A loop writes a range. -/
theorem copyLoop_writes {n src des a : Nat} :
    (∃ k ∈ copyLoop n src des, k.Writes a) ↔ InRange des (n * mbSize) a := by
  obtain ⟨hMem, hGet⟩ := copyLoop_get n src des
  constructor
  · rintro ⟨k, hk, j, hj, rfl⟩
    obtain ⟨q, hq, hAt⟩ := hMem k hk
    refine ⟨q * mbSize + j, ?_, (hAt j).2⟩
    calc q * mbSize + j < q * mbSize + mbSize := by omega
      _ = (q + 1) * mbSize := by ring
      _ ≤ n * mbSize := Nat.mul_le_mul_right _ hq
  · rintro ⟨o, ho, rfl⟩
    obtain ⟨k, hk, hAt⟩ := hGet (o / mbSize) (Nat.div_lt_of_lt_mul (by rwa [Nat.mul_comm] at ho))
    refine ⟨k, hk, o % mbSize, Nat.mod_lt _ (by decide), ?_⟩
    rw [(hAt _).2, Nat.mul_comm, Nat.div_add_mod]

theorem forall_copyLoop_writes {n src des : Nat} {P : Nat → Prop} :
    (∀ k ∈ copyLoop n src des, ∀ a, k.Writes a → P a) ↔
      ∀ o < n * mbSize, P (add64 des o) := by
  constructor
  · intro hAll o ho
    obtain ⟨k, hk, hWrites⟩ := copyLoop_writes.mpr ⟨o, ho, rfl⟩
    exact hAll k hk _ hWrites
  · intro hAll k hk a hWrites
    obtain ⟨o, ho, rfl⟩ := copyLoop_writes.mp ⟨k, hk, hWrites⟩
    exact hAll o ho

/-- A loop moves the bytes of its whole megabytes and no others. -/
theorem copyLoop_moves {n src des i : Nat} (hn : n * mbSize ≤ 2 ^ 64) (hi : i < 2 ^ 64) :
    Moves (copyLoop n src des) src des i ↔ i < n * mbSize := by
  obtain ⟨hMem, hGet⟩ := copyLoop_get n src des
  constructor
  · rintro ⟨k, hk, j, hj, _, hDes⟩
    have hRange : InRange des (n * mbSize) (add64 k.des j) :=
      copyLoop_writes.mp ⟨k, hk, j, hj, rfl⟩
    rw [hDes] at hRange
    exact (inRange_add64 hi hn).mp hRange
  · intro hLt
    obtain ⟨k, hk, hAt⟩ := hGet (i / mbSize) (Nat.div_lt_of_lt_mul (by rwa [Nat.mul_comm] at hLt))
    refine ⟨k, hk, i % mbSize, Nat.mod_lt _ (by decide), ?_⟩
    have hSplit : i / mbSize * mbSize + i % mbSize = i := by
      rw [Nat.mul_comm, Nat.div_add_mod]
    simpa only [hSplit] using hAt (i % mbSize)

/-! ## An accepted VM -/

/-- What the record of an accepted VM has. -/
structure Accepted (c : LoadConfig) (info : ZOsInfo) : Prop where
  memSize_lt : info.vmMemSize < 2 ^ 32
  imageSize_lt : info.vmImageSize < 2 ^ 32
  dtbSize_lt : info.linuxDtbLoadSize < 2 ^ 32
  config : (guestConfigAvailable c.toPlatform info.vcpuNum info.osType info.vmMemSize).isSome = true

/-- The configurations are found for the three OS types only, in their lists. -/
theorem guestConfigAvailable_mem {p : Platform} {vcpuNum osType memSize : Nat} {cfg : CpyConfig}
    (hCfg : guestConfigAvailable p vcpuNum osType memSize = some cfg) :
    (osType = osTypeZephyr ∧ cfg ∈ p.zephyrCpiesConfig) ∨ osType = osTypeLinux ∨
      (osType = osTypeFreertos ∧ cfg ∈ p.freertosCpiesConfig) := by
  unfold guestConfigAvailable at hCfg
  by_cases hZephyr : osType = osTypeZephyr
  · rw [if_pos hZephyr] at hCfg
    exact .inl ⟨hZephyr, List.mem_of_find?_eq_some hCfg⟩
  by_cases hLinux : osType = osTypeLinux
  · exact .inr (.inl hLinux)
  by_cases hFreertos : osType = osTypeFreertos
  · rw [if_neg hZephyr, if_neg hLinux, if_pos hFreertos] at hCfg
    exact .inr (.inr ⟨hFreertos, List.mem_of_find?_eq_some hCfg⟩)
  · rw [if_neg hZephyr, if_neg hLinux, if_neg hFreertos] at hCfg
    exact absurd hCfg (by simp)

/-- A call that returns an identifier has stored an accepted configuration. -/
theorem getOsTemplateType_accepts (p : Platform) (s : HostOs) (vcpuUse : Nat → Int)
    (guestOs : ZOsInfo) (specialCpu specialMem : Bool) {vmid : Nat}
    (hRet : (getOsTemplateType p s vcpuUse guestOs specialCpu specialMem).2 = vmid) :
    ∃ cfg info, guestConfigAvailable p (tempVcpuNum p guestOs specialCpu) guestOs.osType
        (tempMemSize p guestOs specialMem) = some cfg ∧
      info.osType = (p.guestOsTemplate guestOs.osType).osType ∧
      (getOsTemplateType p s vcpuUse guestOs specialCpu specialMem).1.zOverallVmInfo vmid =
        acceptedInfo p guestOs vmid (tempVcpuNum p guestOs specialCpu)
          (tempMemSize p guestOs specialMem) cfg info := by
  revert hRet
  unfold getOsTemplateType
  cases allocateVmid p.maxVmNum s.vmids with
  | mk vmids tmpVmid =>
    dsimp only
    split
    case isTrue => simp [eOverflow]
    case isFalse =>
      split
      case isTrue => simp [failPath, eInval]
      case isFalse =>
        split
        case isTrue => simp [failPath, eInval]
        case isFalse =>
          split
          case isTrue => simp [failPath, eInval]
          case isFalse =>
            split
            case h_1 => simp [failPath, eInval]
            case h_2 cfg hCfg =>
              intro hRet
              obtain rfl : tmpVmid = vmid := by simpa using hRet
              refine ⟨cfg, { copyTemplate p guestOs.osType (s.zOverallVmInfo tmpVmid) with
                vmLoadBase := (allocateGuestMemoryPart s.guestMemManager
                  (copyTemplate p guestOs.osType (s.zOverallVmInfo tmpVmid)).osType
                  (tempMemSize p guestOs specialMem)).2 }, hCfg, rfl, ?_⟩
              exact set_same _ _ _

theorem accepted_of_template (c : LoadConfig) (s : HostOs) (vcpuUse : Nat → Int)
    (guestOs : ZOsInfo) (specialCpu specialMem : Bool) {vmid : Nat}
    (hRet : (getOsTemplateType c.toPlatform s vcpuUse guestOs specialCpu specialMem).2 = vmid) :
    Accepted c ((getOsTemplateType c.toPlatform s vcpuUse guestOs specialCpu
      specialMem).1.zOverallVmInfo vmid) := by
  obtain ⟨cfg, info, hCfg, hType, hRecord⟩ := getOsTemplateType_accepts c.toPlatform s vcpuUse
    guestOs specialCpu specialMem hRet
  rw [hRecord]
  have hKind := guestConfigAvailable_mem hCfg
  have hOs : info.osType = guestOs.osType := by
    rw [hType]
    apply c.template_osType
    simp only [osTypeZephyr, osTypeLinux, osTypeFreertos] at hKind ⊢
    omega
  constructor
  · exact Nat.mod_lt _ (by decide)
  · show (imageOf c.toPlatform guestOs.osType cfg info).2 < 2 ^ 32
    rcases hKind with ⟨hZephyr, hMem⟩ | hLinux | ⟨hFreertos, hMem⟩
    · rw [hZephyr]
      exact c.zephyrImageSize_lt cfg hMem
    · rw [hLinux]
      exact c.linuxImageSize_lt
    · rw [hFreertos]
      exact c.freertosImageSize_lt cfg hMem
  · exact c.dtbMemSize_lt
  · show (guestConfigAvailable c.toPlatform _ info.osType _).isSome = true
    rw [hOs]
    exact Option.isSome_iff_exists.mpr ⟨cfg, hCfg⟩

/-! ## When loading is right -/

section

variable {c : LoadConfig} {info : ZOsInfo}

theorem whole_le (n : Nat) : n / mbSize * mbSize ≤ n := Nat.div_mul_le_self n mbSize

/-- What a loop to an offset from the load base writes is inside if it fits. -/
theorem inside_iff (hA : Accepted c info) {n des o : Nat} (src : Nat)
    (hDes : ∀ x, add64 des x = add64 info.vmLoadBase (o + x)) (hEnd : o + n * mbSize < 2 ^ 34) :
    (∀ k ∈ copyLoop n src des, ∀ a, k.Writes a → Own info a) ↔ Fits info o (n * mbSize) := by
  have hMem := hA.memSize_lt
  have hOwn : ∀ x < 2 ^ 34, (Own info (add64 info.vmLoadBase x) ↔ x < info.vmMemSize ∨
      (info.osType = osTypeLinux ∧ dtbOffset info ≤ x ∧
        (x : Int) < dtbOffset info + info.linuxDtbLoadSize)) := by
    intro x hx
    unfold Own
    rw [inRange_add64 (by omega) (by omega), inRange_dtb hx hA.dtbSize_lt]
  rw [forall_copyLoop_writes, Fits, ← covered_iff]
  constructor
  · intro hAll x hLe hLt
    have hAt := hAll (x - o) (by omega)
    rw [hDes, Nat.add_sub_cancel' hLe] at hAt
    exact (hOwn x (by omega)).mp hAt
  · intro hAll x hx
    rw [hDes]
    exact (hOwn (o + x) (by omega)).mpr (hAll (o + x) (by omega) (by omega))

/-- Every byte of the image is moved exactly if it has whole megabytes. -/
theorem complete_iff (hA : Accepted c info) :
    (∀ i < info.vmImageSize,
        Moves (copyLoop (info.vmImageSize / mbSize) info.vmImageBase info.vmLoadBase)
          info.vmImageBase info.vmLoadBase i) ↔ info.vmImageSize % mbSize = 0 := by
  have hLt := hA.imageSize_lt
  have hWhole := whole_le info.vmImageSize
  have hSplit := Nat.div_add_mod info.vmImageSize mbSize
  rw [Nat.mul_comm] at hSplit
  constructor
  · intro hAll
    by_contra hRest
    -- the first byte after the whole megabytes
    have hByte := hAll (info.vmImageSize / mbSize * mbSize) (by omega)
    rw [copyLoop_moves (by omega) (by omega)] at hByte
    omega
  · intro hZero i hi
    rw [copyLoop_moves (by omega) (by omega)]
    omega

/-- The device tree stays in its region. -/
theorem dtb_inside (hLinux : info.osType = osTypeLinux) (src : Nat) :
    ∀ k ∈ copyLoop (info.linuxDtbLoadSize / mbSize) src info.linuxDtbLoadAddr,
      ∀ a, k.Writes a → Own info a := by
  rw [forall_copyLoop_writes]
  intro o ho
  have hWhole := whole_le info.linuxDtbLoadSize
  exact .inr ⟨hLinux, o, by omega, rfl⟩

/-- The image and the root file system are apart exactly if one of them is not copied or the
image ends before the other. -/
theorem apart_iff {n m o : Nat} (info : ZOsInfo) (src src' : Nat) (hn : n * mbSize < 2 ^ 34)
    (hm : o + m * mbSize < 2 ^ 34) :
    (∀ k ∈ copyLoop n src info.vmLoadBase, ∀ k' ∈ copyLoop m src' (add64 info.vmLoadBase o),
        ∀ a, k.Writes a → ¬ k'.Writes a) ↔ m * mbSize = 0 ∨ n * mbSize ≤ o := by
  constructor
  · intro hApart
    by_contra hBoth
    -- both write the first byte of the root file system
    have hImage : ∃ k ∈ copyLoop n src info.vmLoadBase, k.Writes (add64 info.vmLoadBase o) :=
      copyLoop_writes.mpr ⟨o, by omega, rfl⟩
    have hRootfs : ∃ k ∈ copyLoop m src' (add64 info.vmLoadBase o),
        k.Writes (add64 info.vmLoadBase o) :=
      copyLoop_writes.mpr ⟨0, by omega, by rw [add64_add64, Nat.add_zero]⟩
    obtain ⟨k, hk, hWrites⟩ := hImage
    obtain ⟨k', hk', hWrites'⟩ := hRootfs
    exact hApart k hk k' hk' _ hWrites hWrites'
  · intro hEither k hk k' hk' a hWrites hWrites'
    obtain ⟨x, hx, hEq⟩ := copyLoop_writes.mp ⟨k, hk, hWrites⟩
    obtain ⟨y, hy, hEq'⟩ := copyLoop_writes.mp ⟨k', hk', hWrites'⟩
    rw [add64_add64] at hEq'
    have hSame := add64_inj (by omega) (by omega) (hEq.symm.trans hEq')
    omega

theorem loadVmImage_rtos (hRtos : info.osType ≠ osTypeLinux) :
    loadVmImage c info = some
      ⟨copyLoop (info.vmImageSize / mbSize) info.vmImageBase info.vmLoadBase, [], []⟩ := by
  simp [loadVmImage, hRtos]

theorem loadVmImage_linux (hA : Accepted c info) (hLinux : info.osType = osTypeLinux) :
    ∃ dtbBase, loadVmImage c info = some
      { image := copyLoop (info.vmImageSize / mbSize) info.vmImageBase info.vmLoadBase
        dtb := copyLoop (info.linuxDtbLoadSize / mbSize) dtbBase info.linuxDtbLoadAddr
        rootfs := copyLoop (c.linuxCpiesRootfsSize / mbSize) c.linuxCpiesRootfsAddr
          (add64 info.vmLoadBase rootfsOffset) } := by
  obtain ⟨cfg, hCfg⟩ := Option.isSome_iff_exists.mp hA.config
  refine ⟨cfg.vmImageBase, ?_⟩
  unfold loadVmImage
  rw [if_neg (not_not.mpr hLinux), Nat.mod_eq_of_lt hA.memSize_lt, hCfg]
  rfl

/-- Loading an accepted VM is right exactly under `LoadSafe`. -/
theorem loadOk_iff_loadSafe (hA : Accepted c info) : LoadOk c info ↔ LoadSafe c info := by
  have hImageLt := hA.imageSize_lt
  have hImageLe := whole_le info.vmImageSize
  have hRootfsLt := c.rootfsSize_lt
  have hRootfsLe := whole_le c.linuxCpiesRootfsSize
  have hComplete := complete_iff hA
  have hImage := inside_iff hA (n := info.vmImageSize / mbSize) (o := 0) info.vmImageBase
    (fun x => by rw [Nat.zero_add]) (by omega)
  -- an image of whole megabytes is copied to its last byte
  have hSize : info.vmImageSize % mbSize = 0 →
      info.vmImageSize / mbSize * mbSize = info.vmImageSize := by
    intro hWhole
    exact Nat.div_mul_cancel (Nat.dvd_of_mod_eq_zero hWhole)
  by_cases hLinux : info.osType = osTypeLinux
  · have hEnd : rootfsOffset + c.linuxCpiesRootfsSize / mbSize * mbSize < 2 ^ 34 := by
      unfold rootfsOffset
      omega
    have hRootfs := inside_iff hA (n := c.linuxCpiesRootfsSize / mbSize) c.linuxCpiesRootfsAddr
      (add64_add64 info.vmLoadBase rootfsOffset) hEnd
    have hApart := apart_iff (n := info.vmImageSize / mbSize) info info.vmImageBase
      c.linuxCpiesRootfsAddr (by omega) hEnd
    obtain ⟨dtbBase, hLoad⟩ := loadVmImage_linux hA hLinux
    constructor
    · rintro ⟨l, hl, hOk⟩
      obtain rfl := Option.some.inj (hLoad.symm.trans hl)
      have hWhole := hComplete.mp hOk.complete
      have hFits := hImage.mp fun k hk => hOk.inside k (by simp [hk])
      have hFitsRootfs := hRootfs.mp fun k hk => hOk.inside k (by simp [hk])
      have hBefore := hApart.mp hOk.apart
      rw [hSize hWhole] at hFits hBefore
      exact ⟨hWhole, hFits, fun _ => ⟨hFitsRootfs, hBefore⟩⟩
    · intro hSafe
      refine ⟨_, hLoad, hComplete.mpr hSafe.whole, ?_, ?_⟩
      · intro k hk
        rcases List.mem_append.mp hk with hk | hk
        · rcases List.mem_append.mp hk with hk | hk
          · refine hImage.mpr ?_ k hk
            rw [hSize hSafe.whole]
            exact hSafe.image
          · exact dtb_inside hLinux dtbBase k hk
        · exact hRootfs.mpr (hSafe.rootfs hLinux).1 k hk
      · refine hApart.mpr ?_
        rw [hSize hSafe.whole]
        exact (hSafe.rootfs hLinux).2
  · have hLoad := loadVmImage_rtos (c := c) hLinux
    constructor
    · rintro ⟨l, hl, hOk⟩
      obtain rfl := Option.some.inj (hLoad.symm.trans hl)
      have hWhole := hComplete.mp hOk.complete
      have hFits := hImage.mp fun k hk => hOk.inside k (by simp [hk])
      rw [hSize hWhole] at hFits
      exact ⟨hWhole, hFits, fun h => absurd h hLinux⟩
    · intro hSafe
      refine ⟨_, hLoad, hComplete.mpr hSafe.whole, ?_, by simp⟩
      intro k hk
      refine hImage.mpr ?_ k (by simpa using hk)
      rw [hSize hSafe.whole]
      exact hSafe.image

end

/-! ## The memory of the host -/

/-- `memcpy` on the memory of the host. -/
def Copy.memcpy (k : Copy) (mem : Nat → BitVec 8) (a : Nat) : BitVec 8 :=
  if (a + (2 ^ 64 - k.des % 2 ^ 64)) % 2 ^ 64 < mbSize then
    mem (add64 k.src ((a + (2 ^ 64 - k.des % 2 ^ 64)) % 2 ^ 64))
  else mem a

/-- The memory after the copies. -/
def hostMemory (mem : Nat → BitVec 8) (copies : List Copy) : Nat → BitVec 8 :=
  copies.foldl (fun m k => k.memcpy m) mem

theorem memcpy_window {k : Copy} {j : Nat} (mem : Nat → BitVec 8) (hj : j < mbSize) :
    k.memcpy mem (add64 k.des j) = mem (add64 k.src j) := by
  have hOffset : (add64 k.des j + (2 ^ 64 - k.des % 2 ^ 64)) % 2 ^ 64 = j := by
    simp only [add64, mbSize] at hj ⊢
    omega
  unfold Copy.memcpy
  rw [hOffset, if_pos hj]

theorem memcpy_frame {k : Copy} {a : Nat} (mem : Nat → BitVec 8) (ha : a < 2 ^ 64)
    (hNot : ¬ k.Writes a) : k.memcpy mem a = mem a := by
  unfold Copy.memcpy
  rw [if_neg]
  intro hIn
  refine hNot ⟨_, hIn, ?_⟩
  simp only [add64]
  omega

theorem add64_lt (a o : Nat) : add64 a o < 2 ^ 64 := Nat.mod_lt _ (by decide)

theorem hostMemory_cons (mem : Nat → BitVec 8) (k : Copy) (copies : List Copy) :
    hostMemory mem (k :: copies) = hostMemory (k.memcpy mem) copies := rfl

theorem hostMemory_frame {copies : List Copy} {a : Nat} (ha : a < 2 ^ 64) :
    ∀ mem : Nat → BitVec 8, (∀ k ∈ copies, ¬ k.Writes a) → hostMemory mem copies a = mem a := by
  induction copies with
  | nil =>
    intro mem _
    rfl
  | cons k copies ih =>
    intro mem hNot
    rw [hostMemory_cons, ih _ fun k' hk' => hNot k' (by simp [hk'])]
    exact memcpy_frame mem ha (hNot k (by simp))

/-- A loop whose source is not written moves its bytes as they were before. -/
theorem hostMemory_copyLoop (n : Nat) :
    ∀ (src des : Nat) (mem : Nat → BitVec 8),
    n * mbSize ≤ 2 ^ 64 →
    (∀ i < n * mbSize, ∀ k ∈ copyLoop n src des, ¬ k.Writes (add64 src i)) →
    ∀ i < n * mbSize, hostMemory mem (copyLoop n src des) (add64 des i) = mem (add64 src i) := by
  induction n with
  | zero =>
    intro src des mem _ _ i hi
    omega
  | succ n ih =>
    intro src des mem hLe hSrc i hi
    rw [Nat.succ_mul] at hLe hSrc hi
    rw [copyLoop] at hSrc ⊢
    rw [hostMemory_cons]
    by_cases hHead : i < mbSize
    · -- moved by the first copy, and not written again
      rw [hostMemory_frame (add64_lt _ _)]
      · exact memcpy_window (k := ⟨src, des⟩) mem hHead
      · intro k hk hWrites
        obtain ⟨o, ho, hSame⟩ := copyLoop_writes.mp ⟨k, hk, hWrites⟩
        rw [add64_add64] at hSame
        have := add64_inj (by omega) (by omega) hSame
        omega
    · have hTail : ∀ a, add64 (add64 a mbSize) (i - mbSize) = add64 a i := by
        intro a
        rw [add64_add64, Nat.add_sub_cancel' (by omega)]
      have hRest := ih (add64 src mbSize) (add64 des mbSize) (Copy.memcpy ⟨src, des⟩ mem)
        (by omega) ?_ (i - mbSize) (by omega)
      · rw [hTail, hTail] at hRest
        rw [hRest]
        exact memcpy_frame mem (add64_lt _ _) (hSrc i (by omega) _ List.mem_cons_self)
      · intro x hx k hk
        rw [add64_add64]
        exact hSrc (mbSize + x) (by omega) k (List.mem_cons_of_mem _ hk)

/-- After loading, the image is in the memory of the VM, if it was not in a place that loading
writes and the device tree does not go over it. -/
theorem image_in_hostMemory {c : LoadConfig} {info : ZOsInfo} {l : Loads} (mem : Nat → BitVec 8)
    (hA : Accepted c info) (hLoad : loadVmImage c info = some l) (hOk : Loaded info l)
    (hSrc : ∀ i < info.vmImageSize, ∀ k ∈ l.image, ¬ k.Writes (add64 info.vmImageBase i))
    (hDtb : ∀ i < info.vmImageSize, ∀ k ∈ l.dtb, ¬ k.Writes (add64 info.vmLoadBase i)) :
    ∀ i < info.vmImageSize, hostMemory mem (l.image ++ l.dtb ++ l.rootfs)
      (add64 info.vmLoadBase i) = mem (add64 info.vmImageBase i) := by
  intro i hi
  have hImage : l.image =
      copyLoop (info.vmImageSize / mbSize) info.vmImageBase info.vmLoadBase := by
    by_cases hLinux : info.osType = osTypeLinux
    · obtain ⟨dtbBase, hSome⟩ := loadVmImage_linux hA hLinux
      rw [← Option.some.inj (hSome.symm.trans hLoad)]
    · rw [← Option.some.inj ((loadVmImage_rtos hLinux).symm.trans hLoad)]
  have hLe := whole_le info.vmImageSize
  have hLt := hA.imageSize_lt
  have hCopied : i < info.vmImageSize / mbSize * mbSize := by
    have hMoves := hOk.complete i hi
    rw [hImage, copyLoop_moves (by omega) (by omega)] at hMoves
    exact hMoves
  -- the byte is written by the image loop and by neither of the others
  have hRootfs : ∀ k ∈ l.rootfs, ¬ k.Writes (add64 info.vmLoadBase i) := by
    intro k hk
    obtain ⟨k', hk', j, hj, _, hDes⟩ := hOk.complete i hi
    exact hOk.apart k' hk' k hk _ ⟨j, hj, hDes.symm⟩
  have hSplit : hostMemory mem (l.image ++ l.dtb ++ l.rootfs) =
      hostMemory (hostMemory (hostMemory mem l.image) l.dtb) l.rootfs := by
    simp only [hostMemory, List.foldl_append]
  rw [hSplit, hostMemory_frame (add64_lt _ _) _ hRootfs,
    hostMemory_frame (add64_lt _ _) _ (hDtb i hi), hImage]
  refine hostMemory_copyLoop _ _ _ mem (by omega) ?_ i hCopied
  intro x hx
  rw [← hImage]
  exact hSrc x (by omega)

/-- **Image loading.**  For every VM that `get_os_template_type` accepts, `load_vm_image` copies
the whole image, stays inside the VM and keeps the image and the root file system apart exactly
under `LoadSafe`. -/
theorem load_vm_image_ok_iff (c : LoadConfig) (s : HostOs) (vcpuUse : Nat → Int)
    (guestOs : ZOsInfo) (specialCpu specialMem : Bool) (vmid : Nat)
    (hRet : (getOsTemplateType c.toPlatform s vcpuUse guestOs specialCpu specialMem).2 = vmid) :
    let info := (getOsTemplateType c.toPlatform s vcpuUse guestOs specialCpu
      specialMem).1.zOverallVmInfo vmid
    LoadOk c info ↔ LoadSafe c info :=
  loadOk_iff_loadSafe (accepted_of_template c s vcpuUse guestOs specialCpu specialMem hRet)

/-- A board with one Zephyr and one Linux configuration, of the given image, memory and root
file system sizes. -/
def board (zephyrImage linuxImage linuxMem rootfs : BitVec 32) : LoadConfig where
  maxVmNum := 4
  maxVmNum_le := by decide
  maxVcpuPerVm := 4
  maxVcpuPercpu := 1
  mpMaxNumCpus := 8
  maxGuestNumLinuxPcpu := 3
  guestOsTemplate := fun os =>
    ⟨os, 1, 0x40000000, if os = osTypeLinux then linuxMem.toNat else 0x8000000, 0, 0, 0,
      0x40000000, 0, 0⟩
  zephyrCpiesConfig := [⟨1, 0x8000000, 0x65800000, zephyrImage.toNat⟩]
  linuxDtbCpiesConfig := [⟨1, linuxMem.toNat, 0x64000000, 0x64000000⟩]
  freertosCpiesConfig := []
  linuxCpiesImageAddr := 0x60000000
  linuxCpiesImageSize := linuxImage.toNat
  linuxDtbMemBase := 0xf8000000
  linuxDtbMemSize := 0x100000
  linuxCpiesRootfsAddr := 0x67000000
  linuxCpiesRootfsSize := rootfs.toNat
  rootfsSize_lt := rootfs.isLt
  linuxImageSize_lt := linuxImage.isLt
  dtbMemSize_lt := by decide
  zephyrImageSize_lt := by
    intro cfg hCfg
    obtain rfl := List.mem_singleton.mp hCfg
    exact zephyrImage.isLt
  freertosImageSize_lt := by simp
  template_osType := fun _ _ => rfl

/-- The first VM of the OS type that is created on a board with 1 GiB for guests. -/
def firstVm (c : LoadConfig) (osType : Nat) : HostOs × Int :=
  getOsTemplateType c.toPlatform (boot 0x80000000 0x40000000).os (fun _ => 0)
    ⟨osType, 0, 0, 0, 0, 0, 0, 0, 0, 0⟩ false false

/-- A Zephyr image of two megabytes. -/
theorem image_in_hostMemory_zephyr :
    let info : ZOsInfo := ⟨osTypeZephyr, 1, 0, 0x8000000, 0x80000000, 0x65800000, 0x200000, 0, 0, 0⟩
    ∃ l, loadVmImage (board 0x200000 0 0 0) info = some l ∧ ∀ i < info.vmImageSize,
      hostMemory (BitVec.ofNat 8) (l.image ++ l.dtb ++ l.rootfs) (add64 info.vmLoadBase i) =
        BitVec.ofNat 8 (add64 info.vmImageBase i) := by
  intro info
  have hA : Accepted (board 0x200000 0 0 0) info := by constructor <;> decide
  obtain ⟨l, hLoad, hOk⟩ := (loadOk_iff_loadSafe hA).mpr (by decide)
  refine ⟨l, hLoad, image_in_hostMemory _ hA hLoad hOk ?_ ?_⟩ <;> cases hLoad
  · intro i hi k hk hIn
    obtain ⟨o, ho, hSame⟩ := copyLoop_writes.mp ⟨k, hk, hIn⟩
    simp only [info, add64, mbSize] at hi ho hSame
    omega
  · simp

/-- A Linux VM of 512 MiB with an image of 64 MiB and a root file system of 180 MiB. -/
theorem load_linux_512 :
    let c := board 0x200000#32 0x4000000#32 0x20000000#32 0xb400000#32
    (firstVm c osTypeLinux).2 = 0 ∧ LoadOk c ((firstVm c osTypeLinux).1.zOverallVmInfo 0) := by
  intro c
  have hRet : (firstVm c osTypeLinux).2 = (0 : Nat) := by decide +kernel
  refine ⟨hRet, (load_vm_image_ok_iff c _ _ _ _ _ 0 hRet).mpr ?_⟩
  decide +kernel

/-- A Zephyr image of one and a half megabytes is not copied to its end; the root file system
of a Linux VM of 256 MiB goes beyond its memory; and that of one with an image of 160 MiB goes
over the image. -/
theorem load_vm_image_wrong :
    (let c := board 0x180000#32 0x4000000#32 0x20000000#32 0xb400000#32
     (firstVm c osTypeZephyr).2 = 0 ∧
       ¬ LoadOk c ((firstVm c osTypeZephyr).1.zOverallVmInfo 0)) ∧
    (let c := board 0x200000#32 0x4000000#32 0x10000000#32 0xb400000#32
     (firstVm c osTypeLinux).2 = 0 ∧
       ¬ LoadOk c ((firstVm c osTypeLinux).1.zOverallVmInfo 0)) ∧
    (let c := board 0x200000#32 0xa000000#32 0x20000000#32 0xb400000#32
     (firstVm c osTypeLinux).2 = 0 ∧
       ¬ LoadOk c ((firstVm c osTypeLinux).1.zOverallVmInfo 0)) := by
  have hWrong : ∀ c osType, (firstVm c osType).2 = (0 : Nat) →
      ¬ LoadSafe c ((firstVm c osType).1.zOverallVmInfo 0) →
      (firstVm c osType).2 = 0 ∧ ¬ LoadOk c ((firstVm c osType).1.zOverallVmInfo 0) := by
    intro c osType hRet hNot
    refine ⟨hRet, fun hOk => hNot ?_⟩
    exact (loadOk_iff_loadSafe (accepted_of_template c _ _ _ _ _ hRet)).mp hOk
  refine ⟨?_, ?_, ?_⟩
  · exact hWrong _ _ (by decide +kernel) (by decide +kernel)
  · exact hWrong _ _ (by decide +kernel) (by decide +kernel)
  · exact hWrong _ _ (by decide +kernel) (by decide +kernel)

end Zvm.Os.LoadImage
