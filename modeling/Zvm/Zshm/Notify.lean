import Zvm.Verified.RingBuffer
import Zvm.Verified.Run
import Mathlib.Data.BitVec

/-!
# Notifications of the shared memory

A VM writes a message into one of its slots and traps with the slot's number;
`zshm_func_notify` then puts an entry into the ring of every receiver that the message
names.  A trap with the number of the system call slot puts an entry into the VM's own
ring.  The receiver reads its ring by itself.

The entry and the tail are written under a lock of the receiver, so that the steps of a
run are single entries: `enter` is a call up to its loop over the receivers, `next` is one
pass of that loop, and passes of different calls come in any order.  The messages are
guest memory, which guests may change at any time.  The heartbeat's number does nothing
here, as other numbers that are no slot.
-/

namespace Zvm.Zshm

open Zvm.Verified.FunArray Zvm.Verified.RingBuffer Zvm.Verified.Run

/-- `RING_SIZE`. -/
def ringSize : Nat := 128

/-- `PRIORITY_LEVELS`. -/
def priorityLevels : Nat := 1

/-- `ZSHM_SEND_SLOT_LIMIT`. -/
def zshmSendSlotLimit : Nat := 10

/-- `ZSHM_SYSCALL_SLOT`. -/
def zshmSyscallSlot : Nat := 10

/-- `struct ring_entry`. -/
structure RingEntry where
  senderAddr : BitVec 8
  msgSlot : BitVec 8
  deriving DecidableEq

/-- `struct zshm_message`. -/
structure Message where
  receivers : BitVec 64
  data : Nat → BitVec 8
  priority : BitVec 8

/-- The VMs and their units. -/
structure Vms where
  unitMaxNums : Nat
  /-- The bits of `alloced_vmid`. -/
  alloced : Nat → Bool
  /-- `vms[vm_id]` is there and running. -/
  running : Nat → Bool
  /-- `vmid_to_units_index`. -/
  unitIndex : Nat → Nat

/-- The rings of a unit, with the entries that were accepted and read so far. -/
structure Receiver where
  rings : Nat → RingBuf RingEntry
  accepted : List RingEntry
  taken : List RingEntry

/-- A call in its loop: the sender, the slot and the receivers to come. -/
structure Call where
  sender : Nat
  slot : Nat
  mask : BitVec 64

structure ZshmState where
  receivers : Nat → Receiver
  messages : Nat → Nat → Message
  calls : Nat → Option Call

/-! ## The functions -/

/-- The entry is stored and the tail advanced. -/
def Receiver.store (q : Receiver) (prio : Nat) (e : RingEntry) : Receiver :=
  { q with
    rings := set q.rings prio ((q.rings prio).push ringSize e)
    accepted := q.accepted ++ [e] }

/-- The receiver reads an entry if there is one. -/
def Receiver.read (q : Receiver) : Receiver :=
  match (q.rings 0).front? with
  | none => q
  | some e =>
    { q with
      rings := set q.rings 0 ((q.rings 0).advance ringSize)
      taken := q.taken ++ [e] }

def ZshmState.store (s : ZshmState) (unit prio : Nat) (e : RingEntry) : ZshmState :=
  { s with receivers := set s.receivers unit ((s.receivers unit).store prio e) }

def ZshmState.setMessage (s : ZshmState) (unit slot : Nat) (msg : Message) : ZshmState :=
  { s with messages := set s.messages unit (set (s.messages unit) slot msg) }

/-- The index of the ring for a message's priority. -/
def ringIndex (priority : BitVec 8) : Nat :=
  if priorityLevels ≤ priority.toNat then priorityLevels - 1 else priority.toNat

/-- The branch of `zshm_func_notify` for the system call slot. -/
def notifySyscall (v : Vms) (s : ZshmState) (vmid : Nat) : ZshmState :=
  let unit := v.unitIndex vmid
  let msg := s.messages unit zshmSyscallSlot
  let s :=
    if msg.data 0 = 255#8 then
      s.setMessage unit zshmSyscallSlot { msg with data := set msg.data 1 (BitVec.ofNat 8 vmid) }
    else s
  s.store unit 0 ⟨255#8, BitVec.ofNat 8 zshmSyscallSlot⟩

/-- `__builtin_ctzll`. -/
def ctz (mask : BitVec 64) : Option Nat := firstIdx 64 fun i => mask.getLsbD i

/-- The tests of the loop; the others are missing VMs. -/
def Vms.reachable (v : Vms) (vmid : Nat) : Bool :=
  decide (vmid < v.unitMaxNums) && v.alloced vmid && v.running vmid

/-- One pass of the loop over the receivers. -/
def notifyReceiver (v : Vms) (s : ZshmState) (call : Call) (vmid : Nat) : ZshmState :=
  let unit := v.unitIndex call.sender
  let msg := s.messages unit call.slot
  if v.reachable vmid then
    s.store (v.unitIndex vmid) (ringIndex msg.priority)
      ⟨BitVec.ofNat 8 call.sender, BitVec.ofNat 8 call.slot⟩
  else
    s.setMessage unit call.slot { msg with receivers := msg.receivers &&& ~~~(1#64 <<< vmid) }

/-- The calls of the vCPU threads, the readers and the guests' own writes. -/
inductive NotifyOp where
  | enter (thread vmid : Nat) (notifyFlag : BitVec 64)
  | next (thread : Nat)
  | read (unit : Nat)
  | guestWrite (unit slot : Nat) (msg : Message)

/-- `zshm_func_notify` up to its loop. -/
def enterNotify (v : Vms) (s : ZshmState) (thread vmid : Nat) (notifyFlag : BitVec 64) : ZshmState :=
  if notifyFlag.toNat = zshmSyscallSlot then notifySyscall v s vmid
  else if zshmSendSlotLimit - 1 < notifyFlag.toNat then s
  else
    let msg := s.messages (v.unitIndex vmid) notifyFlag.toNat
    { s with calls := set s.calls thread (some ⟨vmid, notifyFlag.toNat, msg.receivers⟩) }

/-- The next pass of the loop, or its end. -/
def nextNotify (v : Vms) (s : ZshmState) (thread : Nat) (call : Call) : ZshmState :=
  match ctz call.mask with
  | none => { s with calls := set s.calls thread none }
  | some vmid =>
    let s' := notifyReceiver v s call vmid
    { s' with
      calls := set s'.calls thread (some { call with mask := call.mask &&& (call.mask - 1#64) }) }

def zshmStep (v : Vms) (s : ZshmState) : NotifyOp → ZshmState
  | .enter thread vmid notifyFlag =>
    match s.calls thread with
    | some _ => s
    | none => enterNotify v s thread vmid notifyFlag
  | .next thread =>
    match s.calls thread with
    | none => s
    | some call => nextNotify v s thread call
  | .read unit => { s with receivers := set s.receivers unit (s.receivers unit).read }
  | .guestWrite unit slot msg => s.setMessage unit slot msg

/-! ## What a step does to the rings -/

/-- The unit whose ring gets an entry. -/
def storesAt (v : Vms) (s : ZshmState) : NotifyOp → Option Nat
  | .enter thread vmid notifyFlag =>
    if s.calls thread = none ∧ notifyFlag.toNat = zshmSyscallSlot then some (v.unitIndex vmid)
    else none
  | .next thread =>
    (s.calls thread).bind fun call => (ctz call.mask).bind fun vmid =>
      if v.reachable vmid then some (v.unitIndex vmid) else none
  | .read _ => none
  | .guestWrite _ _ _ => none

/-- The operation is a call, and not a reader's step. -/
def NotifyOp.isCall : NotifyOp → Bool
  | .read _ => false
  | _ => true

section Steps

variable {v : Vms} {s : ZshmState}

theorem ringIndex_eq_zero (priority : BitVec 8) : ringIndex priority = 0 := by
  unfold ringIndex priorityLevels
  split <;> omega

@[simp]
theorem receivers_setMessage (s : ZshmState) (unit slot : Nat) (msg : Message) :
    (s.setMessage unit slot msg).receivers = s.receivers := rfl

theorem receivers_notifySyscall (vmid : Nat) :
    ∃ e, (notifySyscall v s vmid).receivers =
      set s.receivers (v.unitIndex vmid) ((s.receivers (v.unitIndex vmid)).store 0 e) := by
  refine ⟨⟨255#8, BitVec.ofNat 8 zshmSyscallSlot⟩, ?_⟩
  unfold notifySyscall
  simp only
  split <;> rfl

theorem receivers_notifyReceiver (call : Call) {vmid : Nat} (hReach : v.reachable vmid = true) :
    ∃ e, (notifyReceiver v s call vmid).receivers =
      set s.receivers (v.unitIndex vmid) ((s.receivers (v.unitIndex vmid)).store 0 e) := by
  refine ⟨⟨BitVec.ofNat 8 call.sender, BitVec.ofNat 8 call.slot⟩, ?_⟩
  simp only [notifyReceiver, hReach, if_true, ringIndex_eq_zero]
  rfl

/-- A step stores one entry in the ring that `storesAt` names, or is a reader's step, or
leaves all rings alone. -/
theorem zshmStep_cases (v : Vms) (s : ZshmState) (op : NotifyOp) :
    (∃ unit e, storesAt v s op = some unit ∧
      (zshmStep v s op).receivers = set s.receivers unit ((s.receivers unit).store 0 e)) ∨
    (∃ unit, op = .read unit) ∨
    (storesAt v s op = none ∧ op.isCall = true ∧ (zshmStep v s op).receivers = s.receivers) := by
  cases op with
  | read unit => exact .inr (.inl ⟨unit, rfl⟩)
  | guestWrite unit slot msg => exact .inr (.inr ⟨rfl, rfl, rfl⟩)
  | enter thread vmid notifyFlag =>
    cases hCall : s.calls thread with
    | some call => exact .inr (.inr ⟨by simp [storesAt, hCall], rfl, by simp [zshmStep, hCall]⟩)
    | none =>
      by_cases hSyscall : notifyFlag.toNat = zshmSyscallSlot
      · obtain ⟨e, hStore⟩ := receivers_notifySyscall (v := v) (s := s) vmid
        refine .inl ⟨v.unitIndex vmid, e, by simp [storesAt, hCall, hSyscall], ?_⟩
        simp only [zshmStep, hCall, enterNotify, if_pos hSyscall]
        exact hStore
      · refine .inr (.inr ⟨by simp [storesAt, hSyscall], rfl, ?_⟩)
        simp only [zshmStep, hCall, enterNotify, if_neg hSyscall]
        split <;> rfl
  | next thread =>
    cases hCall : s.calls thread with
    | none => exact .inr (.inr ⟨by simp [storesAt, hCall], rfl, by simp [zshmStep, hCall]⟩)
    | some call =>
      cases hCtz : ctz call.mask with
      | none =>
        refine .inr (.inr ⟨by simp [storesAt, hCall, hCtz], rfl, ?_⟩)
        simp [zshmStep, hCall, nextNotify, hCtz]
      | some vmid =>
        by_cases hReach : v.reachable vmid = true
        · obtain ⟨e, hStore⟩ := receivers_notifyReceiver (s := s) call hReach
          refine .inl ⟨v.unitIndex vmid, e, by simp [storesAt, hCall, hCtz, hReach], ?_⟩
          simp only [zshmStep, hCall, nextNotify, hCtz]
          exact hStore
        · refine .inr (.inr ⟨by simp [storesAt, hCall, hCtz, hReach], rfl, ?_⟩)
          simp [zshmStep, hCall, nextNotify, hCtz, notifyReceiver, hReach]

end Steps

/-! ## Delivery -/

/-- The receiver has read a prefix of what was accepted, and all of it when its ring
looks empty. -/
structure Delivered (q : Receiver) : Prop where
  isPrefix : q.taken <+: q.accepted
  caught_up : (q.rings 0).consHead = (q.rings 0).prodTail → q.taken = q.accepted

/-- There is room for the entry of the step: two slots are free. -/
def HasRoom (v : Vms) (s : ZshmState) (op : NotifyOp) : Prop :=
  ∀ unit, storesAt v s op = some unit →
    ((s.receivers unit).rings 0).unread ringSize + 1 < ringSize

/-- The ring is the queue of what was accepted and not read. -/
def Tracked (q : Receiver) : Prop := Tracks ringSize (q.rings 0) q.accepted q.taken

section Delivery

variable {q : Receiver}

theorem Tracked.delivered (h : Tracked q) : Delivered q := ⟨h.isPrefix, h.caught_up⟩

theorem Tracked.store (h : Tracked q) (e : RingEntry)
    (hRoom : (q.rings 0).unread ringSize + 1 < ringSize) : Tracked (q.store 0 e) := by
  simp only [Tracked, Receiver.store, set_same]
  exact h.push e hRoom

theorem Tracked.not_delivered (h : Tracked q) (e : RingEntry)
    (hFull : ¬ (q.rings 0).unread ringSize + 1 < ringSize) : ¬ Delivered (q.store 0 e) := by
  obtain ⟨hLooksEmpty, hNe⟩ := h.push_full e hFull
  intro hDelivered
  have hCaught := hDelivered.caught_up
  simp only [Receiver.store, set_same] at hCaught
  exact hNe (hCaught hLooksEmpty)

theorem Tracked.read (h : Tracked q) : Tracked q.read := by
  unfold Receiver.read
  split
  case h_1 => exact h
  case h_2 e hFront =>
    simp only [Tracked, set_same]
    exact h.take hFront

/-- After an update of one receiver, what holds of all held of it and of the others. -/
theorem forall_set {P : Receiver → Prop} {receivers : Nat → Receiver} {unit : Nat}
    (hAll : ∀ u, P (receivers u)) (hUnit : P q) : ∀ u, P (set receivers unit q u) := by
  intro u
  rw [set_apply]
  split
  · exact hUnit
  · exact hAll u

variable {v : Vms} {s : ZshmState}

theorem tracked_step (hAll : ∀ u, Tracked (s.receivers u)) {op : NotifyOp}
    (hRoom : HasRoom v s op) : ∀ u, Tracked ((zshmStep v s op).receivers u) := by
  rcases zshmStep_cases v s op with ⟨unit, e, hUnit, hEq⟩ | ⟨unit, rfl⟩ | ⟨_, _, hEq⟩
  · rw [hEq]
    exact forall_set hAll ((hAll unit).store e (hRoom unit hUnit))
  · exact forall_set hAll (hAll unit).read
  · rw [hEq]
    exact hAll

theorem hasRoom_of_delivered (hAll : ∀ u, Tracked (s.receivers u)) {op : NotifyOp}
    (hNext : ∀ u, Delivered ((zshmStep v s op).receivers u)) : HasRoom v s op := by
  intro unit hUnit
  rcases zshmStep_cases v s op with ⟨stored, e, hStored, hEq⟩ | ⟨_, rfl⟩ | ⟨hNone, _, _⟩
  · obtain rfl := Option.some.inj (hUnit.symm.trans hStored)
    by_contra hFull
    have hHere := hNext unit
    rw [hEq, set_same] at hHere
    exact (hAll unit).not_delivered e hFull hHere
  · cases hUnit
  · rw [hNone] at hUnit
    cases hUnit

end Delivery

/-- `zshm_alloc_vm_shm` clears the rings of a unit. -/
def emptyReceiver : Receiver where
  rings := fun _ => ⟨fun _ => ⟨0#8, 0#8⟩, 0, 0⟩
  accepted := []
  taken := []

/-- No call is in progress, and the rings are empty. -/
def zshmStart (messages : Nat → Nat → Message) : ZshmState where
  receivers := fun _ => emptyReceiver
  messages := messages
  calls := fun _ => none

theorem tracked_empty : Tracked emptyReceiver :=
  ⟨[], rfl, by decide, by decide, by decide, fun _ hk => nomatch hk⟩

/--
**Notifications**: in a run of calls and readers in any order every receiver has read a
prefix of its notifications, and all when it has caught up, exactly if there is room for
every entry that is stored; and a call that stores no entry leaves the rings as they are.
-/
theorem notifications_delivered_iff (v : Vms) (messages : Nat → Nat → Message)
    (ops : List NotifyOp) :
    (Always (zshmStep v) (fun s => ∀ u, Delivered (s.receivers u)) (zshmStart messages) ops ↔
      Admissible (zshmStep v) (HasRoom v) (zshmStart messages) ops) ∧
    ∀ s op, op.isCall = true → storesAt v s op = none →
      (zshmStep v s op).receivers = s.receivers := by
  constructor
  · let strong : ZshmState → Prop := fun s => ∀ u, Tracked (s.receivers u)
    have hP : ∀ s, strong s → ∀ u, Delivered (s.receivers u) := fun s hs u => (hs u).delivered
    exact always_iff_of_strong hP (fun s op hs hRoom => tracked_step hs hRoom)
      (fun s op hs hNext => hasRoom_of_delivered hs hNext) ops (zshmStart messages)
      fun _ => tracked_empty
  · intro s op hCall hNone
    rcases zshmStep_cases v s op with ⟨unit, e, hUnit, _⟩ | ⟨unit, rfl⟩ | ⟨_, _, hEq⟩
    · rw [hNone] at hUnit
      cases hUnit
    · cases hCall
    · exact hEq

/-- One VM, alone. -/
def oneVm : Vms := ⟨64, fun vmid => vmid == 0, fun vmid => vmid == 0, id⟩

/-- A notification that is read at once. -/
theorem notification_delivered :
    Always (zshmStep oneVm) (fun s => ∀ u, Delivered (s.receivers u))
        (zshmStart fun _ _ => ⟨0#64, fun _ => 0#8, 0#8⟩) [.enter 0 0 10#64, .read 0] ∧
      (zshmStep oneVm (zshmStart fun _ _ => ⟨0#64, fun _ => 0#8, 0#8⟩)
        (.enter 0 0 11#64)).receivers = fun _ => emptyReceiver := by
  obtain ⟨hIff, hRefused⟩ := notifications_delivered_iff oneVm
    (fun _ _ => ⟨0#64, fun _ => 0#8, 0#8⟩) [.enter 0 0 10#64, .read 0]
  refine ⟨hIff.mpr ⟨?_, ?_, trivial⟩, hRefused _ (.enter 0 0 11#64) rfl (by decide)⟩
  · intro unit _
    exact (by decide : (emptyReceiver.rings 0).unread ringSize + 1 < ringSize)
  · intro unit hUnit
    cases hUnit

/-- With 128 notifications that are not read the ring of VM 0 looks empty. -/
theorem unread_notifications_lost :
    let s := exec (zshmStep oneVm) (zshmStart fun _ _ => ⟨0#64, fun _ => 0#8, 0#8⟩)
      (List.replicate 128 (.enter 0 0 10#64))
    ((s.receivers 0).rings 0).consHead = ((s.receivers 0).rings 0).prodTail ∧
      (s.receivers 0).accepted.length = 128 ∧ (s.receivers 0).taken = [] := by
  decide +kernel

end Zvm.Zshm
