import Zvm.Verified.SetBits
import Zvm.Zshm.Notify
import Zvm.Zshm.Units

/-!
# What a notification writes

`zshm_func_notify` works on memory that guests write at will: the receivers' mask and the
priority of a message, and the tail of a receiver's ring.  Here the notify-info pages are
bytes, and the tables of units are those of the hypervisor, in which a VM without a unit has
index -1.

Whatever the tail byte holds, the entry stays inside of the page.  From 128 on, however, it
is not in the ring.  And a VM that runs without a unit is not treated as missing: the call
uses the mappings before the first one.

A call whose units have no mappings gives `none`.  A guest does not change the memory during
the call.
-/

namespace Zvm.Zshm

open Zvm.Verified Zvm.Verified.FunArray Zvm.Verified.RingBuffer Zvm.Verified.SetBits

/-! ## The pages -/

/-- A notify-info page, by offset. -/
abbrev Page := Nat → BitVec 8

/-- The size of `struct priority_ring`, and the offsets of `cons_head` and `entries`. -/
def priorityRingBytes : Nat := 280
def consHeadOffset : Nat := 16
def entriesOffset : Nat := 17

/-- `prod_tail` of a ring. -/
def prodTail (page : Page) (prio : Nat) : Nat := (page (priorityRingBytes * prio)).toNat

/-- The offset of entry `i` of a ring. -/
def entryOffset (prio i : Nat) : Nat := priorityRingBytes * prio + entriesOffset + 2 * i

/-- The entry is stored at the tail and the tail advanced, with a tail of any value. -/
def storeEntry (page : Page) (prio : Nat) (e : RingEntry) : Page :=
  set (set (set page (entryOffset prio (prodTail page prio)) e.senderAddr)
    (entryOffset prio (prodTail page prio) + 1) e.msgSlot)
    (priorityRingBytes * prio) (BitVec.ofNat 8 ((prodTail page prio + 1) % ringSize))

/-- The first ring of a page. -/
def ringOf (page : Page) : RingBuf RingEntry where
  entries := fun i => ⟨page (entryOffset 0 i), page (entryOffset 0 i + 1)⟩
  prodTail := prodTail page 0
  consHead := (page consHeadOffset).toNat

/-! ## The call -/

/-- The messages and the notify-info pages of the units. -/
structure Shared where
  messages : Nat → Nat → Message
  info : Nat → Page

/-- What the hypervisor knows: the tables of units, `alloced_vmid`, and which of `vms[]` are
there and running. -/
structure Host where
  layout : Layout
  units : UnitState
  alloced : Nat → Bool
  running : Nat → Bool

/-- The unit whose mappings `zshm_vm_maps[vmid_to_units_index[vmid]]` has, if there are any. -/
def Host.unitOf (h : Host) (vmid : Nat) : Option Nat :=
  if vmid < h.layout.unitMaxNums ∧ 0 ≤ h.units.vmidToUnitsIndex vmid ∧
      h.units.vmidToUnitsIndex vmid < h.layout.unitMaxNums ∧
      (h.units.zshmVmMaps (h.units.vmidToUnitsIndex vmid)).isMapped = true then
    some (h.units.vmidToUnitsIndex vmid).toNat
  else none

/-- The tests of the loop. -/
def Host.reachable (h : Host) (vmid : Nat) : Bool :=
  decide (vmid < h.layout.unitMaxNums) && h.alloced vmid && h.running vmid

def Shared.setMessage (s : Shared) (unit slot : Nat) (msg : Message) : Shared :=
  { s with messages := set s.messages unit (set (s.messages unit) slot msg) }

def Shared.store (s : Shared) (unit prio : Nat) (e : RingEntry) : Shared :=
  { s with info := set s.info unit (storeEntry (s.info unit) prio e) }

/-- One pass of the loop, for a message of unit `unit` sent by `vmid`. -/
def notifyOne (h : Host) (unit vmid slot : Nat) (s : Shared) (receiver : Nat) : Option Shared :=
  if h.reachable receiver then
    match h.unitOf receiver with
    | none => none
    | some index =>
      some (s.store index (ringIndex (s.messages unit slot).priority)
        ⟨BitVec.ofNat 8 vmid, BitVec.ofNat 8 slot⟩)
  else
    some (s.setMessage unit slot { s.messages unit slot with
      receivers := (s.messages unit slot).receivers &&& ~~~(1#64 <<< receiver) })

/-- The answer to a system call of unit `unit`. -/
def answerSyscall (s : Shared) (unit vmid : Nat) : Shared :=
  if (s.messages unit zshmSyscallSlot).data 0 = 255#8 then
    s.setMessage unit zshmSyscallSlot { s.messages unit zshmSyscallSlot with
      data := set (s.messages unit zshmSyscallSlot).data 1 (BitVec.ofNat 8 vmid) }
  else s

/-- `zshm_func_notify`, with the heartbeat's number among those that are no slot. -/
def zshmFuncNotify (h : Host) (s : Shared) (vmid : Nat) (notifyFlag : BitVec 64) : Option Shared :=
  if notifyFlag.toNat = zshmSyscallSlot then
    match h.unitOf vmid with
    | none => none
    | some unit =>
      some ((answerSyscall s unit vmid).store unit 0 ⟨255#8, BitVec.ofNat 8 zshmSyscallSlot⟩)
  else if zshmSendSlotLimit - 1 < notifyFlag.toNat then some s
  else
    match h.unitOf vmid with
    | none => none
    | some unit =>
      overSetBits (notifyOne h unit vmid notifyFlag.toNat) 64
        (s.messages unit notifyFlag.toNat).receivers s

/-! ## The property -/

/-- The page got one new entry in its ring, and nothing else of it changed. -/
structure OneEntry (page page' : Page) (e : RingEntry) : Prop where
  tail_lt : prodTail page 0 < ringSize
  ring : ringOf page' = (ringOf page).push ringSize e
  frame : ∀ off, off ≠ 0 → off ≠ entryOffset 0 (prodTail page 0) →
    off ≠ entryOffset 0 (prodTail page 0) + 1 → page' off = page off

/-- The VM is named in the mask, allocated and running, and has a unit. -/
def Host.delivers (h : Host) (mask : BitVec 64) (receiver : Nat) : Bool :=
  mask.getLsbD receiver && h.reachable receiver && (h.unitOf receiver).isSome

/-- A message of unit `unit` was sent: only the mask of the slot lost the bits of the VMs that
did not get it, and the others got one entry each. -/
structure Sent (h : Host) (s s' : Shared) (unit vmid slot : Nat) : Prop where
  others : ∀ u k, u ≠ unit ∨ k ≠ slot → s'.messages u k = s.messages u k
  data : (s'.messages unit slot).data = (s.messages unit slot).data
  priority : (s'.messages unit slot).priority = (s.messages unit slot).priority
  mask : ∀ i, (s'.messages unit slot).receivers.getLsbD i =
    h.delivers (s.messages unit slot).receivers i
  entry : ∀ receiver index, h.delivers (s.messages unit slot).receivers receiver = true →
    h.unitOf receiver = some index →
    OneEntry (s.info index) (s'.info index) ⟨BitVec.ofNat 8 vmid, BitVec.ofNat 8 slot⟩
  untouched : ∀ index,
    (∀ receiver, h.delivers (s.messages unit slot).receivers receiver = true →
      h.unitOf receiver ≠ some index) → s'.info index = s.info index

/-- A system call of unit `unit` was answered. -/
structure Answered (s s' : Shared) (unit : Nat) : Prop where
  others : ∀ u k, u ≠ unit ∨ k ≠ zshmSyscallSlot → s'.messages u k = s.messages u k
  mask : (s'.messages unit zshmSyscallSlot).receivers = (s.messages unit zshmSyscallSlot).receivers
  priority : (s'.messages unit zshmSyscallSlot).priority =
    (s.messages unit zshmSyscallSlot).priority
  data : ∀ i, i ≠ 1 → (s'.messages unit zshmSyscallSlot).data i =
    (s.messages unit zshmSyscallSlot).data i
  entry : OneEntry (s.info unit) (s'.info unit) ⟨255#8, BitVec.ofNat 8 zshmSyscallSlot⟩
  untouched : ∀ index, index ≠ unit → s'.info index = s.info index

/-- The call uses only mappings that are there and writes only what it should. -/
def Robust (h : Host) (s : Shared) (vmid : Nat) (notifyFlag : BitVec 64) : Prop :=
  ∃ s', zshmFuncNotify h s vmid notifyFlag = some s' ∧
    if notifyFlag.toNat = zshmSyscallSlot then ∃ unit, h.unitOf vmid = some unit ∧ Answered s s' unit
    else if zshmSendSlotLimit - 1 < notifyFlag.toNat then s' = s
    else ∃ unit, h.unitOf vmid = some unit ∧ Sent h s s' unit vmid notifyFlag.toNat

/-- The condition for a message: every VM it reaches has a unit of its own whose ring has its
tail inside. -/
def Reaches (h : Host) (s : Shared) (mask : BitVec 64) : Prop :=
  ∀ receiver, mask.getLsbD receiver = true → h.reachable receiver = true →
    ∃ index, h.unitOf receiver = some index ∧ prodTail (s.info index) 0 < ringSize ∧
      ∀ other, mask.getLsbD other = true → h.reachable other = true →
        h.unitOf other = some index → other = receiver

/-- The condition for a call. -/
def NotifySafe (h : Host) (s : Shared) (vmid : Nat) (notifyFlag : BitVec 64) : Prop :=
  if notifyFlag.toNat = zshmSyscallSlot then
    ∃ unit, h.unitOf vmid = some unit ∧ prodTail (s.info unit) 0 < ringSize
  else if zshmSendSlotLimit - 1 < notifyFlag.toNat then True
  else ∃ unit, h.unitOf vmid = some unit ∧
    Reaches h s (s.messages unit notifyFlag.toNat).receivers

/-! ## One entry -/

section Page

variable {page : Page} {e : RingEntry}

theorem prodTail_lt (page : Page) (prio : Nat) : prodTail page prio < 256 := (page _).isLt

theorem prodTail_storeEntry (page : Page) (e : RingEntry) :
    prodTail (storeEntry page 0 e) 0 = (prodTail page 0 + 1) % ringSize := by
  have hLt : (prodTail page 0 + 1) % 128 < 128 := Nat.mod_lt _ (by decide)
  unfold prodTail storeEntry
  rw [set_same, BitVec.toNat_ofNat]
  exact Nat.mod_eq_of_lt (by simp only [ringSize, prodTail] at *; omega)

theorem storeEntry_frame {off : Nat} (hTail : off ≠ 0)
    (hSender : off ≠ entryOffset 0 (prodTail page 0))
    (hSlot : off ≠ entryOffset 0 (prodTail page 0) + 1) : storeEntry page 0 e off = page off := by
  unfold storeEntry
  rw [set_ne _ _ (by simpa using hTail), set_ne _ _ hSlot, set_ne _ _ hSender]

/-- The bytes of the page behave as the ring does. -/
theorem ringOf_storeEntry (page : Page) (e : RingEntry) :
    ringOf (storeEntry page 0 e) = (ringOf page).push ringSize e := by
  have hTail := prodTail_lt page 0
  have hHead : storeEntry page 0 e consHeadOffset = page consHeadOffset := by
    apply storeEntry_frame
    · decide
    · simp only [entryOffset, entriesOffset, consHeadOffset, Nat.mul_zero]
      omega
    · simp only [entryOffset, entriesOffset, consHeadOffset, Nat.mul_zero]
      omega
  have hEntries : ∀ i, (ringOf (storeEntry page 0 e)).entries i =
      set (ringOf page).entries (prodTail page 0) e i := by
    intro i
    have hNe : entryOffset 0 i ≠ priorityRingBytes * 0 := by
      simp only [entryOffset, entriesOffset, Nat.mul_zero]
      omega
    have hNe' : entryOffset 0 i + 1 ≠ priorityRingBytes * 0 := by
      simp only [Nat.mul_zero]
      omega
    by_cases hi : i = prodTail page 0
    · subst hi
      simp only [ringOf, storeEntry, set_same]
      rw [set_ne _ _ hNe, set_ne _ _ hNe', set_ne _ _ (by omega), set_same, set_same]
    · have hSender : entryOffset 0 i ≠ entryOffset 0 (prodTail page 0) := by
        simp only [entryOffset]
        omega
      rw [set_ne _ _ hi]
      simp only [ringOf]
      rw [storeEntry_frame hNe hSender (by simp only [entryOffset]; omega),
        storeEntry_frame hNe' (by simp only [entryOffset]; omega) (by omega)]
  calc ringOf (storeEntry page 0 e)
      = ⟨(ringOf (storeEntry page 0 e)).entries, prodTail (storeEntry page 0 e) 0,
          (storeEntry page 0 e consHeadOffset).toNat⟩ := rfl
    _ = (ringOf page).push ringSize e := by
        rw [funext hEntries, prodTail_storeEntry, hHead]
        rfl

theorem oneEntry_storeEntry (hTail : prodTail page 0 < ringSize) :
    OneEntry page (storeEntry page 0 e) e :=
  ⟨hTail, ringOf_storeEntry page e, fun _ h₀ h₁ h₂ => storeEntry_frame h₀ h₁ h₂⟩

/-- Several entries in one page. -/
def storeEntries (e : RingEntry) : Nat → Page → Page
  | 0, page => page
  | k + 1, page => storeEntries e k (storeEntry page 0 e)

theorem prodTail_storeEntries (e : RingEntry) (k : Nat) :
    ∀ page : Page, prodTail page 0 < ringSize →
      prodTail (storeEntries e k page) 0 = (prodTail page 0 + k) % ringSize := by
  induction k with
  | zero =>
    intro page hTail
    exact (Nat.mod_eq_of_lt hTail).symm
  | succ k ih =>
    intro page hTail
    have hNext := prodTail_storeEntry page e
    have hLt : prodTail (storeEntry page 0 e) 0 < ringSize := by
      rw [hNext]
      exact Nat.mod_lt _ (by decide)
    rw [storeEntries, ih _ hLt, hNext, Nat.mod_add_mod, Nat.add_assoc, Nat.add_comm 1 k]

/-- Up to 64 entries are one entry only if there is one of them. -/
theorem eq_one_of_oneEntry {k : Nat} (hk : k ≤ 64)
    (hOne : OneEntry page (storeEntries e k page) e) : k = 1 := by
  have hTail := hOne.tail_lt
  have hEnd := congrArg RingBuf.prodTail hOne.ring
  have hPush : prodTail (storeEntries e k page) 0 = (prodTail page 0 + 1) % ringSize := hEnd
  rw [prodTail_storeEntries e k page hTail] at hPush
  simp only [ringSize] at hPush hTail
  omega

end Page

/-! ## The loop -/

section Loop

variable {h : Host} {unit vmid slot : Nat}

/-- The entry that every receiver gets. -/
def entryFor (vmid slot : Nat) : RingEntry := ⟨BitVec.ofNat 8 vmid, BitVec.ofNat 8 slot⟩

/-- The entries that the receivers in the list put into the page of unit `index`. -/
def entriesAt (h : Host) (index : Nat) (receivers : List Nat) : Nat :=
  receivers.countP fun r => h.reachable r && decide (h.unitOf r = some index)

/-- What the loop over a list of receivers does if all of them have units. -/
structure Looped (h : Host) (unit vmid slot : Nat) (receivers : List Nat) (s s' : Shared) :
    Prop where
  others : ∀ u k, u ≠ unit ∨ k ≠ slot → s'.messages u k = s.messages u k
  data : (s'.messages unit slot).data = (s.messages unit slot).data
  priority : (s'.messages unit slot).priority = (s.messages unit slot).priority
  mask : ∀ i, (s'.messages unit slot).receivers.getLsbD i =
    ((s.messages unit slot).receivers.getLsbD i &&
      !(decide (i ∈ receivers) && !h.reachable i))
  info : ∀ index, s'.info index =
    storeEntries (entryFor vmid slot) (entriesAt h index receivers) (s.info index)

theorem Looped.nil (s : Shared) :
    Looped h unit vmid slot [] s s where
  others := fun _ _ _ => rfl
  data := rfl
  priority := rfl
  mask := by simp
  info := fun _ => rfl

/-- A receiver that has a unit gets an entry before the rest of the loop. -/
theorem Looped.cons_reached {s s' : Shared} {receiver index : Nat} {rest : List Nat}
    (hReach : h.reachable receiver = true) (hUnit : h.unitOf receiver = some index)
    (hRest : Looped h unit vmid slot rest (s.store index 0 (entryFor vmid slot)) s') :
    Looped h unit vmid slot (receiver :: rest) s s' where
  others := hRest.others
  data := hRest.data
  priority := hRest.priority
  mask := by
    intro i
    rw [hRest.mask i]
    by_cases hi : i = receiver
    · subst hi
      simp [hReach, Shared.store]
    · simp [hi, Shared.store]
  info := by
    intro u
    rw [hRest.info u, entriesAt, entriesAt, List.countP_cons]
    by_cases hu : u = index
    · subst hu
      simp only [hReach, hUnit, decide_true, Bool.and_self, if_true, Shared.store, set_same]
      rfl
    · have hOther : h.unitOf receiver ≠ some u := by
        rw [hUnit]
        intro hEq
        exact hu (Option.some.inj hEq).symm
      simp only [hOther, decide_false, Bool.and_false, Bool.false_eq_true, if_false, Nat.add_zero,
        Shared.store, set_ne _ _ hu]

/-- A missing receiver loses its bit before the rest of the loop. -/
theorem Looped.cons_missing {s s' : Shared} {receiver : Nat} {rest : List Nat}
    (hMissing : h.reachable receiver = false) (hLt : receiver < 64)
    (hRest : Looped h unit vmid slot rest
      (s.setMessage unit slot { s.messages unit slot with
        receivers := (s.messages unit slot).receivers &&& ~~~(1#64 <<< receiver) }) s') :
    Looped h unit vmid slot (receiver :: rest) s s' where
  others := by
    intro u k hOther
    rw [hRest.others u k hOther]
    simp only [Shared.setMessage]
    by_cases hu : u = unit
    · subst hu
      have hk : k ≠ slot := hOther.resolve_left fun hNe => hNe rfl
      rw [set_same, set_ne _ _ hk]
    · rw [set_ne _ _ hu]
  data := by
    rw [hRest.data]
    simp [Shared.setMessage]
  priority := by
    rw [hRest.priority]
    simp [Shared.setMessage]
  mask := by
    intro i
    rw [hRest.mask i]
    simp only [Shared.setMessage, set_same, BitVec.getLsbD_and, BitVec.getLsbD_not,
      BitField.getLsbD_one_shiftLeft hLt]
    by_cases hi : i = receiver
    · subst hi
      simp [hMissing]
    · by_cases hBit : (s.messages unit slot).receivers.getLsbD i = true
      · simp [hi, BitVec.lt_of_getLsbD hBit]
      · simp [Bool.not_eq_true _ ▸ hBit]
  info := by
    intro u
    rw [hRest.info u, entriesAt, entriesAt, List.countP_cons]
    simp [hMissing, Shared.setMessage]

/-- The loop over receivers that all have units. -/
theorem foldlM_looped (receivers : List Nat) :
    ∀ s, (∀ r ∈ receivers, r < 64) →
      (∀ r ∈ receivers, h.reachable r = true → (h.unitOf r).isSome = true) →
      ∃ s', receivers.foldlM (notifyOne h unit vmid slot) s = some s' ∧
        Looped h unit vmid slot receivers s s' := by
  induction receivers with
  | nil =>
    intro s _ _
    exact ⟨s, rfl, Looped.nil s⟩
  | cons receiver rest ih =>
    intro s hLt hUnits
    have hLtRest : ∀ r ∈ rest, r < 64 := fun r hr => hLt r (List.mem_cons_of_mem _ hr)
    have hUnitsRest : ∀ r ∈ rest, h.reachable r = true → (h.unitOf r).isSome = true :=
      fun r hr => hUnits r (List.mem_cons_of_mem _ hr)
    cases hReach : h.reachable receiver with
    | true =>
      obtain ⟨index, hUnit⟩ :=
        Option.isSome_iff_exists.mp (hUnits receiver (by simp) hReach)
      obtain ⟨s', hFold, hLooped⟩ :=
        ih (s.store index 0 (entryFor vmid slot)) hLtRest hUnitsRest
      refine ⟨s', ?_, hLooped.cons_reached hReach hUnit⟩
      have hOne : notifyOne h unit vmid slot s receiver =
          some (s.store index 0 (entryFor vmid slot)) := by
        simp only [notifyOne, hReach, if_true, hUnit, ringIndex_eq_zero]
        rfl
      rw [List.foldlM_cons, hOne]
      exact hFold
    | false =>
      obtain ⟨s', hFold, hLooped⟩ := ih _ hLtRest hUnitsRest
      refine ⟨s', ?_, hLooped.cons_missing hReach (hLt receiver (by simp))⟩
      have hOne := show notifyOne h unit vmid slot s receiver = some _ by
        rw [notifyOne, hReach, if_neg Bool.false_ne_true]
      rw [List.foldlM_cons, hOne]
      exact hFold

/-- The loop fails at a running VM without a unit. -/
theorem foldlM_none {receiver : Nat} (hReach : h.reachable receiver = true)
    (hNone : h.unitOf receiver = none) (receivers : List Nat) :
    ∀ s, receiver ∈ receivers → receivers.foldlM (notifyOne h unit vmid slot) s = none := by
  induction receivers with
  | nil =>
    intro s hMem
    cases hMem
  | cons r rest ih =>
    intro s hMem
    rw [List.foldlM_cons]
    cases hOne : notifyOne h unit vmid slot s r with
    | none => rfl
    | some s' =>
      have hNe : receiver ≠ r := by
        rintro rfl
        simp [notifyOne, hReach, hNone] at hOne
      exact ih s' ((List.mem_cons.mp hMem).resolve_left hNe)

end Loop

/-! ## How many entries a page gets -/

section Count

variable {h : Host} {mask : BitVec 64} {receiver index : Nat}

theorem nodup_setBits (mask : BitVec 64) : (setBits mask).Nodup := List.nodup_range.filter _

theorem entriesAt_le (h : Host) (index : Nat) (mask : BitVec 64) :
    entriesAt h index (setBits mask) ≤ 64 :=
  Nat.le_trans List.countP_le_length (length_setBits_le mask)

/-- The only receiver of a unit puts one entry there. -/
theorem entriesAt_eq_one (hNamed : mask.getLsbD receiver = true)
    (hReach : h.reachable receiver = true) (hUnit : h.unitOf receiver = some index)
    (hOnly : ∀ other, mask.getLsbD other = true → h.reachable other = true →
      h.unitOf other = some index → other = receiver) :
    entriesAt h index (setBits mask) = 1 := by
  have hCount : entriesAt h index (setBits mask) = (setBits mask).count receiver := by
    apply List.countP_congr
    intro r hr
    simp only [Bool.and_eq_true, decide_eq_true_eq, beq_iff_eq]
    constructor
    · rintro ⟨hReachR, hUnitR⟩
      exact hOnly r (mem_setBits.mp hr) hReachR hUnitR
    · rintro rfl
      exact ⟨hReach, hUnit⟩
  rw [hCount]
  exact List.count_eq_one_of_mem (nodup_setBits mask) (mem_setBits.mpr hNamed)

/-- Two receivers of a unit put two entries there. -/
theorem two_le_entriesAt {other : Nat} (hNamed : mask.getLsbD receiver = true)
    (hReach : h.reachable receiver = true) (hUnit : h.unitOf receiver = some index)
    (hNamedO : mask.getLsbD other = true) (hReachO : h.reachable other = true)
    (hUnitO : h.unitOf other = some index) (hNe : other ≠ receiver) :
    2 ≤ entriesAt h index (setBits mask) := by
  have hPair : [other, receiver].Nodup := by simp [hNe]
  have hSub : [other, receiver] ⊆
      (setBits mask).filter fun r => h.reachable r && decide (h.unitOf r = some index) := by
    intro r hr
    rcases List.mem_pair.mp hr with rfl | rfl
    · exact List.mem_filter.mpr ⟨mem_setBits.mpr hNamedO, by simp [hReachO, hUnitO]⟩
    · exact List.mem_filter.mpr ⟨mem_setBits.mpr hNamed, by simp [hReach, hUnit]⟩
  have hLen := (hPair.subperm hSub).length_le
  rwa [← List.countP_eq_length_filter] at hLen

theorem entriesAt_eq_zero
    (hNone : ∀ r, mask.getLsbD r = true → h.reachable r = true → h.unitOf r ≠ some index) :
    entriesAt h index (setBits mask) = 0 := by
  rw [entriesAt, List.countP_eq_zero]
  intro r hr
  simp only [Bool.and_eq_true, decide_eq_true_eq, not_and]
  exact hNone r (mem_setBits.mp hr)

end Count

/-! ## The whole call -/

section Call

variable {h : Host} {s : Shared} {unit vmid slot : Nat}

/-- Sending a message is robust exactly if every VM that is reached has a unit of its own with
a valid tail. -/
theorem send_iff :
    (∃ s', overSetBits (notifyOne h unit vmid slot) 64 (s.messages unit slot).receivers s =
        some s' ∧ Sent h s s' unit vmid slot) ↔
      Reaches h s (s.messages unit slot).receivers := by
  set mask := (s.messages unit slot).receivers with hMask
  have hLt : ∀ r ∈ setBits mask, r < 64 := fun r hr => BitVec.lt_of_getLsbD (mem_setBits.mp hr)
  rw [overSetBits_eq _ _ _ _ (length_setBits_le mask)]
  constructor
  · rintro ⟨s', hFold, hSent⟩
    -- the call came to its end, so every VM that it reached has a unit
    have hUnits : ∀ r ∈ setBits mask, h.reachable r = true → (h.unitOf r).isSome = true := by
      intro r hr hReach
      cases hUnit : h.unitOf r with
      | none =>
        rw [foldlM_none hReach hUnit _ s hr] at hFold
        cases hFold
      | some index => rfl
    obtain ⟨s'', hFold', hLooped⟩ := foldlM_looped (setBits mask) s hLt hUnits
    obtain rfl : s'' = s' := Option.some.inj (hFold'.symm.trans hFold)
    intro receiver hNamed hReach
    obtain ⟨index, hUnit⟩ :=
      Option.isSome_iff_exists.mp (hUnits receiver (mem_setBits.mpr hNamed) hReach)
    have hDelivers : h.delivers (s.messages unit slot).receivers receiver = true := by
      simp [Host.delivers, ← hMask, hNamed, hReach, hUnit]
    have hOne := hSent.entry receiver index hDelivers hUnit
    rw [hLooped.info index] at hOne
    have hCount := eq_one_of_oneEntry (entriesAt_le h index mask) hOne
    refine ⟨index, hUnit, hOne.tail_lt, ?_⟩
    intro other hNamedO hReachO hUnitO
    by_contra hNe
    have hTwo := two_le_entriesAt hNamed hReach hUnit hNamedO hReachO hUnitO hNe
    omega
  · intro hReaches
    have hUnits : ∀ r ∈ setBits mask, h.reachable r = true → (h.unitOf r).isSome = true := by
      intro r hr hReach
      obtain ⟨index, hUnit, _⟩ := hReaches r (mem_setBits.mp hr) hReach
      rw [hUnit]
      rfl
    obtain ⟨s', hFold, hLooped⟩ := foldlM_looped (setBits mask) s hLt hUnits
    refine ⟨s', hFold, hLooped.others, hLooped.data, hLooped.priority, ?_, ?_, ?_⟩
    · intro i
      rw [hLooped.mask i, ← hMask, Host.delivers]
      cases hNamed : mask.getLsbD i with
      | false => rfl
      | true =>
        have hMem := mem_setBits.mpr hNamed
        cases hReach : h.reachable i with
        | false => simp [hMem]
        | true => simp [hUnits i hMem hReach]
    · intro receiver index hDelivers hUnit
      simp only [Host.delivers, Bool.and_eq_true] at hDelivers
      obtain ⟨⟨hNamed, hReach⟩, _⟩ := hDelivers
      obtain ⟨index', hUnit', hTail, hOnly⟩ := hReaches receiver hNamed hReach
      obtain rfl : index' = index := Option.some.inj (hUnit'.symm.trans hUnit)
      rw [hLooped.info index', entriesAt_eq_one hNamed hReach hUnit hOnly]
      exact oneEntry_storeEntry hTail
    · intro index hNone
      have hZero : entriesAt h index (setBits mask) = 0 := by
        apply entriesAt_eq_zero
        intro r hNamed hReach hUnit
        exact hNone r (by simp [Host.delivers, ← hMask, hNamed, hReach, hUnit]) hUnit
      rw [hLooped.info index, hZero]
      rfl

/-- Answering a system call is robust exactly if the tail of the caller's ring is valid. -/
theorem answered_iff :
    Answered s ((answerSyscall s unit vmid).store unit 0
        ⟨255#8, BitVec.ofNat 8 zshmSyscallSlot⟩) unit ↔
      prodTail (s.info unit) 0 < ringSize := by
  have hInfo : (answerSyscall s unit vmid).info = s.info := by
    unfold answerSyscall
    split <;> rfl
  constructor
  · intro hAnswered
    exact hAnswered.entry.tail_lt
  · intro hTail
    have hOthers : ∀ u k, u ≠ unit ∨ k ≠ zshmSyscallSlot →
        (answerSyscall s unit vmid).messages u k = s.messages u k := by
      intro u k hOther
      unfold answerSyscall
      split
      · simp only [Shared.setMessage]
        by_cases hu : u = unit
        · subst hu
          rw [set_same, set_ne _ _ (hOther.resolve_left fun hNe => hNe rfl)]
        · rw [set_ne _ _ hu]
      · rfl
    refine ⟨hOthers, ?_, ?_, ?_, ?_, ?_⟩
    · simp only [Shared.store, answerSyscall]
      split <;> simp [Shared.setMessage]
    · simp only [Shared.store, answerSyscall]
      split <;> simp [Shared.setMessage]
    · intro i hi
      simp only [Shared.store, answerSyscall]
      split
      · simp only [Shared.setMessage, set_same]
        exact set_ne _ _ hi
      · rfl
    · simp only [Shared.store, set_same, hInfo]
      exact oneEntry_storeEntry hTail
    · intro index hNe
      simp only [Shared.store, hInfo]
      exact set_ne _ _ hNe

end Call

/--
**A notification is robust exactly if its units are there**: for every content of the shared
memory, every number and every set of VMs, a call writes only what it should exactly if the
sender has a unit, every VM that it reaches has one of its own, and the tails of the rings
that get an entry are indices of the ring.
-/
theorem robust_iff (h : Host) (s : Shared) (vmid : Nat) (notifyFlag : BitVec 64) :
    Robust h s vmid notifyFlag ↔ NotifySafe h s vmid notifyFlag := by
  unfold Robust NotifySafe zshmFuncNotify
  by_cases hCall : notifyFlag.toNat = zshmSyscallSlot
  · simp only [hCall, if_true]
    cases hUnit : h.unitOf vmid with
    | none => simp
    | some unit => simp [answered_iff]
  · simp only [hCall, if_false]
    by_cases hNoSlot : zshmSendSlotLimit - 1 < notifyFlag.toNat
    · simp [hNoSlot]
    · simp only [hNoSlot, if_false]
      cases hUnit : h.unitOf vmid with
      | none => simp
      | some unit => simp [send_iff]

/-- VMs 0 and 1 run; only VM 0 has a unit. -/
def oneUnit : Host where
  layout := Region.layout ⟨0x60000000, 0x10000000⟩
  units := unitStep (Region.layout ⟨0x60000000, 0x10000000⟩)
    (zshmInit (Region.layout ⟨0x60000000, 0x10000000⟩)
      ⟨fun _ => 0, fun _ => ⟨0, 0, 0, 0, 0⟩, fun _ => ⟨false, false, false⟩, fun _ => 0, [], [],
        false⟩) (.alloc 0)
  alloced := fun vmid => decide (vmid < 2)
  running := fun vmid => decide (vmid < 2)

/-- VM 0 has a message for VM 1. -/
def messageForOne : Shared where
  messages := fun _ _ => ⟨2#64, fun _ => 0, 0⟩
  info := fun _ _ => 0

/-- VM 1 runs without a unit, and the call for it uses mappings that are not there. -/
theorem notify_without_unit :
    zshmFuncNotify oneUnit messageForOne 0 0 = none ∧ ¬ Robust oneUnit messageForOne 0 0 := by
  have hNone : zshmFuncNotify oneUnit messageForOne 0 0 = none := by decide +kernel
  refine ⟨hNone, ?_⟩
  rintro ⟨s', hSome, _⟩
  rw [hNone] at hSome
  cases hSome

end Zvm.Zshm
