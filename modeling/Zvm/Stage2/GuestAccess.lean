import Zvm.Stage2.Vparts

/-!
# Access to guest memory

For a virtual device the hypervisor reads and writes guest memory through a window of
host memory that it maps on demand and keeps.  There is one window for each VM, device
type and direction; a call uses the one it finds if the range asked for lies in it.

`vm_gpa_to_hpa` reports an error in a `uint64_t`, and its callers test for a negative
number; no one compares the length with the end of the partition.  The sums of addresses
and lengths are taken modulo 2^64.
-/

namespace Zvm.Stage2

open Zvm.Verified.Run

/-- `struct host_mem_map`.  The window begins at `hva`, whose value does not matter; it is
not null exactly if the window is valid. -/
structure HostMemMap where
  mappedHpa : Nat
  mappedSize : Nat
  valid : Bool

/-- A `memcpy` of `len` bytes at `hva + (hpa - mapped_hpa)`. -/
structure Copy where
  map : HostMemMap
  hpa : Nat
  len : Nat

/-- The host address of byte `k` of the copy; `none` is a byte outside of the window.
The window maps its pages exactly. -/
def Copy.byte (x : Copy) (k : Nat) : Option Nat :=
  let offset := (x.hpa + k + 2 ^ 64 - x.map.mappedHpa) % 2 ^ 64
  if offset < x.map.mappedSize then some ((x.map.mappedHpa + offset) % 2 ^ 64) else none

/-- `need_remap`. -/
def needRemap (map : HostMemMap) (hpa len : Nat) : Bool :=
  !map.valid || decide (hpa < map.mappedHpa) ||
    decide ((map.mappedHpa + map.mappedSize) % 2 ^ 64 < (hpa + len) % 2 ^ 64)

/-- The window that is asked of `k_mem_map_phys_bare`; `mapOk` says whether it gives one. -/
def remap (hpa len : Nat) (mapOk : Bool) : HostMemMap :=
  let alignedHpa := hpa / 2 ^ 12 * 2 ^ 12
  let alignedLen := ((hpa + len - alignedHpa) % 2 ^ 64 + 4095) % 2 ^ 64 / 2 ^ 12 * 2 ^ 12
  { mappedHpa := alignedHpa, mappedSize := alignedLen, valid := mapOk }

/-- `MAX_VIRTIO_TYPE`. -/
def maxVirtioType : Int := 3

/-- The arguments of a call and what `k_mem_map_phys_bare` will answer. -/
structure AccessArgs where
  /-- The `dst` or `src` pointer is not null. -/
  ptr : Bool
  len : BitVec 64
  vmid : Int
  type : Int
  mapOk : Bool

/-- The first test of `vm_host_memory_read` and `vm_host_memory_write`. -/
def AccessArgs.rejected (maxVmNum : Int) (a : AccessArgs) : Bool :=
  !a.ptr || a.len == 0#64 || decide (a.vmid < 0) || decide (maxVmNum ≤ a.vmid) ||
    decide (a.type < 0) || decide (maxVirtioType ≤ a.type)

/-- The windows by VM and device type. -/
abbrev HostMaps := Int → Int → HostMemMap

/-- The window that a call uses. -/
def accessMap (maps : HostMaps) (hpa : Nat) (a : AccessArgs) : HostMemMap :=
  if needRemap (maps a.vmid a.type) hpa a.len.toNat then remap hpa a.len.toNat a.mapOk
  else maps a.vmid a.type

/-- What `vm_host_memory_read` and `vm_host_memory_write` do with the windows of their
direction. -/
def hostMemoryAccess (maxVmNum : Int) (maps : HostMaps) (hpa : Nat) (a : AccessArgs) :
    HostMaps × Option Copy :=
  if a.rejected maxVmNum then (maps, none)
  else
    let map := accessMap maps hpa a
    (fun vmid type => if vmid = a.vmid ∧ type = a.type then map else maps vmid type,
      if map.valid then some ⟨map, hpa, a.len.toNat⟩ else none)

/-- `read_maps` and `write_maps`. -/
structure Windows where
  readMaps : HostMaps
  writeMaps : HostMaps

def emptyWindows : Windows where
  readMaps := fun _ _ => ⟨0, 0, false⟩
  writeMaps := fun _ _ => ⟨0, 0, false⟩

/-- `vm_host_memory_read`. -/
def vmHostMemoryRead (maxVmNum : Int) (s : Windows) (hpa : Nat) (a : AccessArgs) :
    Windows × Option Copy :=
  let (maps, copy) := hostMemoryAccess maxVmNum s.readMaps hpa a
  ({ s with readMaps := maps }, copy)

/-- `vm_host_memory_write`. -/
def vmHostMemoryWrite (maxVmNum : Int) (s : Windows) (hpa : Nat) (a : AccessArgs) :
    Windows × Option Copy :=
  let (maps, copy) := hostMemoryAccess maxVmNum s.writeMaps hpa a
  ({ s with writeMaps := maps }, copy)

/-- `vm_guest_memory_read` for the VM with the partitions `mapped`. -/
def vmGuestMemoryRead (maxVmNum : Int) (s : Windows) (mapped : List Vpart) (gpa : BitVec 64)
    (a : AccessArgs) : Windows × Option Copy :=
  let hpa := vmGpaToHpa mapped gpa.toNat
  if hpa < 0 then (s, none) else vmHostMemoryRead maxVmNum s hpa a

/-- `vm_guest_memory_write`. -/
def vmGuestMemoryWrite (maxVmNum : Int) (s : Windows) (mapped : List Vpart) (gpa : BitVec 64)
    (a : AccessArgs) : Windows × Option Copy :=
  let hpa := vmGpaToHpa mapped gpa.toNat
  if hpa < 0 then (s, none) else vmHostMemoryWrite maxVmNum s hpa a

/-- A call for some VM. -/
structure AccessOp where
  write : Bool
  mapped : List Vpart
  gpa : BitVec 64
  args : AccessArgs

def guestAccess (maxVmNum : Int) (s : Windows) (op : AccessOp) : Windows × Option Copy :=
  if op.write then vmGuestMemoryWrite maxVmNum s op.mapped op.gpa op.args
  else vmGuestMemoryRead maxVmNum s op.mapped op.gpa op.args

/-- The windows of the direction of a call. -/
def Windows.maps (s : Windows) (write : Bool) : HostMaps :=
  if write then s.writeMaps else s.readMaps

/-! ## Windows -/

/-- The fields fit in 64 bits. -/
def HostMemMap.InRange (map : HostMemMap) : Prop := map.mappedHpa < 2 ^ 64 ∧ map.mappedSize < 2 ^ 64

section Window

variable {map : HostMemMap} {hpa len : Nat}

theorem remap_inRange (hHpa : hpa < 2 ^ 64) (len : Nat) (mapOk : Bool) :
    (remap hpa len mapOk).InRange := by
  unfold HostMemMap.InRange remap
  simp only
  omega

/-- A range without wraparound that needs no new window lies in the old one. -/
theorem covers_of_reuse (hMap : map.InRange) (hEnd : hpa + len ≤ 2 ^ 63)
    (hReuse : needRemap map hpa len = false) :
    map.mappedHpa ≤ hpa ∧ hpa + len ≤ map.mappedHpa + map.mappedSize := by
  unfold HostMemMap.InRange at hMap
  simp only [needRemap, Bool.or_eq_false_iff, decide_eq_false_iff_not] at hReuse
  omega

/-- A new window covers the range it is made for. -/
theorem covers_of_remap (hEnd : hpa + len ≤ 2 ^ 63) (mapOk : Bool) :
    (remap hpa len mapOk).mappedHpa ≤ hpa ∧
      hpa + len ≤ (remap hpa len mapOk).mappedHpa + (remap hpa len mapOk).mappedSize := by
  unfold remap
  simp only
  omega

/-- In a window that covers the range, byte `k` is that of the host address asked for. -/
theorem byte_of_covers (hEnd : hpa + len ≤ 2 ^ 63)
    (hCovers : map.mappedHpa ≤ hpa ∧ hpa + len ≤ map.mappedHpa + map.mappedSize) {k : Nat}
    (hk : k < len) : Copy.byte ⟨map, hpa, len⟩ k = some (hpa + k) := by
  have hOffset : (hpa + k + 2 ^ 64 - map.mappedHpa) % 2 ^ 64 = hpa + k - map.mappedHpa := by omega
  have hIn : hpa + k - map.mappedHpa < map.mappedSize := by omega
  have hSum : (map.mappedHpa + (hpa + k - map.mappedHpa)) % 2 ^ 64 = hpa + k := by omega
  simp only [Copy.byte, hOffset, hIn, if_true, hSum]

end Window

/-- No copy is made: the arguments are rejected, or there is no window and none can be
mapped. -/
def NoCopy (maxVmNum : Int) (maps : HostMaps) (hpa : Nat) (a : AccessArgs) : Prop :=
  a.rejected maxVmNum = true ∨
    (needRemap (maps a.vmid a.type) hpa a.len.toNat = true ∧ a.mapOk = false)

section Access

variable {maxVmNum : Int} {maps : HostMaps} {hpa : Nat} {a : AccessArgs}

theorem accessMap_valid :
    (accessMap maps hpa a).valid =
      !(needRemap (maps a.vmid a.type) hpa a.len.toNat && !a.mapOk) := by
  unfold accessMap
  cases hRemap : needRemap (maps a.vmid a.type) hpa a.len.toNat with
  | true => simp [remap]
  | false =>
    simp only [needRemap, Bool.or_eq_false_iff] at hRemap
    simpa using hRemap.1.1

theorem accessMap_inRange (hMaps : ∀ vmid type, (maps vmid type).InRange) (hHpa : hpa < 2 ^ 64) :
    (accessMap maps hpa a).InRange := by
  unfold accessMap
  split
  · exact remap_inRange hHpa _ _
  · exact hMaps a.vmid a.type

/-- The window covers a range without wraparound. -/
theorem accessMap_covers (hMaps : ∀ vmid type, (maps vmid type).InRange)
    (hEnd : hpa + a.len.toNat ≤ 2 ^ 63) :
    (accessMap maps hpa a).mappedHpa ≤ hpa ∧
      hpa + a.len.toNat ≤ (accessMap maps hpa a).mappedHpa + (accessMap maps hpa a).mappedSize := by
  unfold accessMap
  cases hRemap : needRemap (maps a.vmid a.type) hpa a.len.toNat with
  | true => exact covers_of_remap hEnd a.mapOk
  | false => exact covers_of_reuse (hMaps a.vmid a.type) hEnd hRemap

theorem hostMemoryAccess_copy (maxVmNum : Int) (maps : HostMaps) (hpa : Nat) (a : AccessArgs) :
    (NoCopy maxVmNum maps hpa a → (hostMemoryAccess maxVmNum maps hpa a).2 = none) ∧
      (¬ NoCopy maxVmNum maps hpa a → (hostMemoryAccess maxVmNum maps hpa a).2 =
        some ⟨accessMap maps hpa a, hpa, a.len.toNat⟩) := by
  have hValid : (accessMap maps hpa a).valid = _ := accessMap_valid
  unfold hostMemoryAccess NoCopy
  cases hRejected : a.rejected maxVmNum with
  | true => simp
  | false => simp [hValid]

theorem hostMemoryAccess_inRange (hMaps : ∀ vmid type, (maps vmid type).InRange)
    (hHpa : hpa < 2 ^ 64) (vmid type : Int) :
    ((hostMemoryAccess maxVmNum maps hpa a).1 vmid type).InRange := by
  unfold hostMemoryAccess
  split
  · exact hMaps vmid type
  · simp only
    split
    · exact accessMap_inRange hMaps hHpa
    · exact hMaps vmid type

end Access

/-! ## Calls -/

section Calls

variable {maxVmNum : Int} {s : Windows}

theorem vmGpaToHpa_lt (mapped : List Vpart) (gpa : Nat) : vmGpaToHpa mapped gpa < 2 ^ 64 := by
  unfold vmGpaToHpa noHpa
  split <;> omega

theorem guestAccess_copy (op : AccessOp) :
    (guestAccess maxVmNum s op).2 =
      (hostMemoryAccess maxVmNum (s.maps op.write) (vmGpaToHpa op.mapped op.gpa.toNat) op.args).2 := by
  unfold guestAccess vmGuestMemoryWrite vmGuestMemoryRead vmHostMemoryWrite vmHostMemoryRead
    Windows.maps
  cases op.write <;> simp

/-- The windows of all VMs, types and directions have fields of 64 bits. -/
def Windows.InRange (s : Windows) : Prop := ∀ write vmid type, (s.maps write vmid type).InRange

theorem guestAccess_inRange (hs : s.InRange) (op : AccessOp) :
    (guestAccess maxVmNum s op).1.InRange := by
  have hHpa := vmGpaToHpa_lt op.mapped op.gpa.toNat
  have hRead : ∀ vmid type, (s.readMaps vmid type).InRange := hs false
  have hWrite : ∀ vmid type, (s.writeMaps vmid type).InRange := hs true
  intro write vmid type
  unfold guestAccess vmGuestMemoryWrite vmGuestMemoryRead vmHostMemoryWrite vmHostMemoryRead
  cases op.write <;> cases write <;> simp only [Nat.not_lt_zero, if_false, if_true,
    Bool.false_eq_true, Windows.maps]
  · exact hostMemoryAccess_inRange hRead hHpa vmid type
  · exact hWrite vmid type
  · exact hRead vmid type
  · exact hostMemoryAccess_inRange hWrite hHpa vmid type

/-- The windows after a sequence of calls. -/
def afterCalls (maxVmNum : Int) (calls : List AccessOp) : Windows :=
  exec (fun s op => (guestAccess maxVmNum s op).1) emptyWindows calls

theorem afterCalls_inRange (maxVmNum : Int) (calls : List AccessOp) :
    (afterCalls maxVmNum calls).InRange := by
  apply exec_invariant_of_mem
  · intro op _ s hs
    exact guestAccess_inRange hs op
  · intro write vmid type
    cases write <;> exact ⟨Nat.two_pow_pos 64, Nat.two_pow_pos 64⟩

end Calls

/-! ## Confinement -/

/-- The host address is in a partition of the VM. -/
def BelongsTo (mapped : List Vpart) (hpa : Nat) : Prop :=
  ∃ v ∈ mapped, v.hpaBase ≤ hpa ∧ hpa < v.hpaBase + v.part.size

/-- The range is in the partition that has its first address. -/
def FitsPartition (mapped : List Vpart) (gpa len : Nat) : Prop :=
  ∃ v ∈ mapped, v.Contains gpa ∧ gpa + len ≤ v.part.start + v.part.size

/-- Every byte that is copied is in the window and belongs to the VM, and none is copied
unless the range is in a partition. -/
def ConfinedAccess (mapped : List Vpart) (gpa len : Nat) (copy : Option Copy) : Prop :=
  (∀ x, copy = some x → ∀ k < x.len, ∃ hpa, x.byte k = some hpa ∧ BelongsTo mapped hpa) ∧
    (¬ FitsPartition mapped gpa len → copy = none)

/-- If the search ends at a partition that ends at `gpa`, the host addresses after it
belong to the VM as well. -/
def EndBelongs (mapped : List Vpart) (gpa len : Nat) : Prop :=
  ∀ v, mapped.find? (·.matches gpa) = some v → gpa = v.part.start + v.part.size →
    ∀ k < len, BelongsTo mapped (v.hpaBase + v.part.size + k)

section Confinement

variable {m : VmMemDomain} {gpa len : Nat}

/-- Where the search ends for an address in a partition. -/
theorem ListInv.gpaToHpa_of_fits (hInv : ListInv m) (hFits : FitsPartition m.mapped gpa len) :
    ∃ v ∈ m.mapped, m.mapped.find? (·.matches gpa) = some v ∧
      vmGpaToHpa m.mapped gpa = gpa - v.part.start + v.hpaBase ∧
      gpa - v.part.start + v.hpaBase ≤ 2 ^ 48 ∧
      ((v.Contains gpa ∧ gpa + len ≤ v.part.start + v.part.size) ∨
        gpa = v.part.start + v.part.size) := by
  obtain ⟨w, hw, hIn, hEnd⟩ := hFits
  cases hFind : m.mapped.find? (·.matches gpa) with
  | none =>
    have hNot := List.find?_eq_none.mp hFind w hw
    exact absurd ((hInv.matches_iff hw gpa).mpr (.inl hIn)) hNot
  | some v =>
    have hv : v ∈ m.mapped := List.mem_of_find?_eq_some hFind
    have hMatch : v.matches gpa = true := by simpa using List.find?_some hFind
    have hLe := hInv.hpa_lt hv hMatch
    refine ⟨v, hv, rfl, ?_, hLe, ?_⟩
    · unfold vmGpaToHpa
      rw [hFind]
      exact Nat.mod_eq_of_lt (by omega)
    · rcases (hInv.matches_iff hv gpa).mp hMatch with hInV | hAtEnd
      · left
        have hSame : v = w := by
          by_contra hNe
          exact hInv.apart hv hw hNe gpa ⟨hInV, hIn⟩
        rw [hSame]
        exact ⟨hIn, hEnd⟩
      · exact .inr hAtEnd

theorem ListInv.confinedAccess_iff (hInv : ListInv m) {maps : HostMaps}
    (hMaps : ∀ vmid type, (maps vmid type).InRange) (maxVmNum : Int) (a : AccessArgs) :
    ConfinedAccess m.mapped gpa a.len.toNat
        (hostMemoryAccess maxVmNum maps (vmGpaToHpa m.mapped gpa) a).2 ↔
      NoCopy maxVmNum maps (vmGpaToHpa m.mapped gpa) a ∨
        (FitsPartition m.mapped gpa a.len.toNat ∧ EndBelongs m.mapped gpa a.len.toNat) := by
  obtain ⟨hNone, hSome⟩ := hostMemoryAccess_copy maxVmNum maps (vmGpaToHpa m.mapped gpa) a
  by_cases hNo : NoCopy maxVmNum maps (vmGpaToHpa m.mapped gpa) a
  · rw [hNone hNo]
    exact iff_of_true ⟨(fun _ h => nomatch h), fun _ => rfl⟩ (.inl hNo)
  · rw [hSome hNo, or_iff_right hNo]
    by_cases hFits : FitsPartition m.mapped gpa a.len.toNat
    · rw [and_iff_right hFits]
      obtain ⟨v, hv, hFind, hHpa, hLe, hCases⟩ := hInv.gpaToHpa_of_fits hFits
      have hRange : vmGpaToHpa m.mapped gpa + a.len.toNat ≤ 2 ^ 63 := by
        obtain ⟨w, hw, hIn, hEnd⟩ := hFits
        have hSize := (hInv.listed w hw).inRange.hpa_le
        unfold Vpart.Contains at hIn
        omega
      have hBytes : ∀ k < a.len.toNat, Copy.byte ⟨accessMap maps (vmGpaToHpa m.mapped gpa) a,
          vmGpaToHpa m.mapped gpa, a.len.toNat⟩ k = some (vmGpaToHpa m.mapped gpa + k) :=
        fun k hk => byte_of_covers hRange (accessMap_covers hMaps hRange) hk
      constructor
      · intro hConfined u hFindU hAtEnd k hk
        rw [hFind] at hFindU
        obtain rfl := Option.some.inj hFindU
        obtain ⟨hpa, hByte, hOwn⟩ := hConfined.1 _ rfl k hk
        rw [hBytes k hk, hHpa] at hByte
        have hAddr : hpa = v.hpaBase + v.part.size + k := by
          have := Option.some.inj hByte
          omega
        rw [← hAddr]
        exact hOwn
      · intro hEnd
        refine ⟨?_, fun hNot => absurd hFits hNot⟩
        intro x hx k hk
        obtain rfl := Option.some.inj hx
        refine ⟨_, hBytes k hk, ?_⟩
        rw [hHpa]
        rcases hCases with ⟨hIn, hLast⟩ | hAtEnd
        · have hBelow : k < a.len.toNat := hk
          unfold Vpart.Contains at hIn
          exact ⟨v, hv, by omega, by omega⟩
        · have hAddr : gpa - v.part.start + v.hpaBase + k = v.hpaBase + v.part.size + k := by omega
          rw [hAddr]
          exact hEnd v hFind hAtEnd k hk
    · refine iff_of_false ?_ fun h => hFits h.1
      intro hConfined
      cases hConfined.2 hFits

end Confinement

/--
**Guest memory access**: for the partitions after any creation and mapping, wherever they
are in guest memory, and after any earlier calls for any VMs, a call copies bytes of the
VM only, and none unless its range is in a partition, exactly if it copies nothing, or
its range is in a partition and, where the search ends at another one that ends at the
first address, the host addresses after that one belong to the VM too.
-/
theorem guestAccess_confined_iff {c : PoolConfig} {maxPartitions : Nat} {st : XlatPool}
    {dom : Domain} (hInit : vmDomainInit c st = some dom) (memOps : List MemOp)
    (hOps : ∀ op ∈ memOps, op.Creates Vpart.InRange) {m : VmMemDomain}
    (hRun : exec (memStep c maxPartitions) (some (newVmMem dom)) memOps = some m) (maxVmNum : Int)
    (calls : List AccessOp) (write : Bool) (gpa : BitVec 64) (a : AccessArgs) :
    ConfinedAccess m.mapped gpa.toNat a.len.toNat
        (guestAccess maxVmNum (afterCalls maxVmNum calls) ⟨write, m.mapped, gpa, a⟩).2 ↔
      NoCopy maxVmNum ((afterCalls maxVmNum calls).maps write) (vmGpaToHpa m.mapped gpa.toNat) a ∨
        (FitsPartition m.mapped gpa.toNat a.len.toNat ∧
          EndBelongs m.mapped gpa.toNat a.len.toNat) := by
  have hInv := exec_listInv memOps (listInv_init hInit) hOps hRun
  rw [guestAccess_copy]
  exact hInv.confinedAccess_iff (afterCalls_inRange maxVmNum calls write) maxVmNum a

/-- A call for VM 0 and type 0. -/
def sampleArgs (len : BitVec 64) : AccessArgs := ⟨true, len, 0, 0, true⟩

/-- A read of the whole of the first page. -/
theorem guestAccess_confined_page :
    ∃ m : VmMemDomain, m.mapped = sampleVparts ∧
      ConfinedAccess m.mapped 0x200000 0x1000
        (guestAccess 4 (afterCalls 4 []) ⟨false, m.mapped, 0x200000#64, sampleArgs 0x1000#64⟩).2 := by
  obtain ⟨dom, hInit⟩ : ∃ dom, vmDomainInit samplePoolConfig blankPool = some dom :=
    exists_vmDomainInit (u := 0) (by decide) rfl
  obtain ⟨m, hRun, _⟩ := exec_memInv 4 sampleMemOps
    (memInv_init (fun _ _ _ _ => rfl) hInit) mappable_sampleMemOps
  have hOps : ∀ op ∈ sampleMemOps, op.Creates Vpart.InRange := fun op hOp =>
    (mappable_sampleMemOps op hOp).mono fun _ hv => hv.inRange
  have hList := mapped_sampleMemOps hInit hRun
  refine ⟨m, hList, (guestAccess_confined_iff hInit sampleMemOps hOps hRun 4 [] false 0x200000#64
    (sampleArgs 0x1000#64)).mpr (.inr ?_)⟩
  rw [hList]
  refine ⟨⟨⟨⟨0x200000, 0x1000, sampleAttrs⟩, 0x40200000⟩, by decide, ⟨by decide, by decide⟩,
    by decide⟩, ?_⟩
  intro v hFind hEnd
  have hFirst : sampleVparts.find? (·.matches 0x200000) =
      some ⟨⟨0x200000, 0x1000, sampleAttrs⟩, 0x40200000⟩ := by decide
  rw [show (0x200000#64).toNat = 0x200000 from rfl, hFirst] at hFind
  obtain rfl := Option.some.inj hFind
  exact absurd hEnd (by decide)

/-- Three reads by a VM with two pages.  Where nothing is mapped, a byte at the error
code's address is read; two bytes at the end of the second page reach host memory that
is not the VM's; and after a read of the first page sixteen bytes where nothing is mapped
are read outside of the window. -/
theorem guestAccess_escapes :
    ((vmDomainInit samplePoolConfig blankPool).bind fun dom =>
      exec (memStep samplePoolConfig 4) (some (newVmMem dom)) sampleMemOps).map (·.mapped) =
        some sampleVparts ∧
    ((guestAccess 4 (afterCalls 4 []) ⟨false, sampleVparts, 0x300000#64, sampleArgs 1#64⟩).2.map
      fun x => (x.len, x.byte 0)) = some (1, some noHpa) ∧
    ((guestAccess 4 (afterCalls 4 []) ⟨false, sampleVparts, 0x201fff#64, sampleArgs 2#64⟩).2.map
      fun x => (x.len, x.byte 1)) = some (2, some 0x50001000) ∧
    ((guestAccess 4 (afterCalls 4 [⟨false, sampleVparts, 0x200000#64, sampleArgs 0x1000#64⟩])
      ⟨false, sampleVparts, 0x300000#64, sampleArgs 16#64⟩).2.map
        fun x => (x.len, x.byte 0)) = some (16, none) := by
  refine ⟨by decide, by decide, by decide, by decide⟩

end Zvm.Stage2
