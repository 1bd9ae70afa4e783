import Zvm.Verified.CountedRing
import Zvm.Verified.Run

/-!
# Message queues

A message queue is a ring of messages and one wait queue for both the threads that wait for a
message and those that wait for room.  A message goes into the ring, or straight to a thread that
waits for one, or from a blocked writer into the ring when another message is taken out of it.

A step of the model is what happens under the lock of the queue.  The log has what happened to
messages; nothing reads it.  The place of a thread in the wait queue is arbitrary.
-/

namespace Zvm.Kernel.MsgQueue

open Zvm.Verified Zvm.Verified.CountedRing Zvm.Verified.FunArray Zvm.Verified.Run

/-! ## The code -/

abbrev Msg := List UInt8

/-- `struct k_msgq` without the wait queue.  Pointers are offsets from `buffer_start`. -/
structure Msgq where
  msgSize : Nat
  maxMsgs : Nat
  buffer : Nat → UInt8
  readPtr : Nat
  writePtr : Nat
  usedMsgs : Nat

def Msgq.bufferEnd (q : Msgq) : Nat := q.maxMsgs * q.msgSize

/-- A pointer after `msg_size` bytes. -/
def Msgq.next (q : Msgq) (ptr : Nat) : Nat :=
  if ptr + q.msgSize = q.bufferEnd then 0 else ptr + q.msgSize

/-- A message is copied to the write pointer. -/
def Msgq.store (q : Msgq) (m : Msg) : Msgq :=
  { q with
    buffer := CountedRing.store q.buffer q.writePtr m
    writePtr := q.next q.writePtr
    usedMsgs := q.usedMsgs + 1 }

/-- The message at the read pointer. -/
def Msgq.first (q : Msgq) : Msg := slice q.buffer q.readPtr q.msgSize

/-- The read pointer is moved on. -/
def Msgq.drop (q : Msgq) : Msgq :=
  { q with
    readPtr := q.next q.readPtr
    usedMsgs := q.usedMsgs - 1 }

/-- `z_impl_k_msgq_peek_at`; `none` is `-ENOMSG`.  Sizes are of type `uint32_t`. -/
def Msgq.peekAt (q : Msgq) (idx : Nat) : Option Msg :=
  if idx < q.usedMsgs then
    if (q.bufferEnd - q.readPtr) % 2 ^ 32 ≤ idx * q.msgSize % 2 ^ 32 then
      some (slice q.buffer (idx * q.msgSize % 2 ^ 32 - (q.bufferEnd - q.readPtr) % 2 ^ 32) q.msgSize)
    else some (slice q.buffer (q.readPtr + idx * q.msgSize % 2 ^ 32) q.msgSize)
  else none

/-- What a thread is blocked in. -/
inductive Side where
  | reader
  | writer
deriving DecidableEq

/-- A call with the memory it was given, a message accepted from the put of a thread, a message
delivered to the get of a thread, and a purge. -/
inductive Event where
  | called (t : Nat) (side : Side) (data : Msg)
  | accepted (t : Nat) (m : Msg)
  | delivered (t : Nat) (m : Msg)
  | purged

/-- `waiting` is the call that a thread is blocked in, `data` the memory that its call was given,
`result` what the call returned.  The latest event is the first of the log. -/
structure State where
  q : Msgq
  waitq : List Nat
  waiting : Nat → Option Side
  data : Nat → Msg
  result : Nat → Option Int
  log : List Event

/-- The beginning of a call. -/
def State.enter (s : State) (t : Nat) (side : Side) (data : Msg) : State :=
  { s with
    data := set s.data t data
    result := set s.result t none
    log := .called t side data :: s.log }

/-- `z_pend_curr`, behind `i` other threads. -/
def State.pend (s : State) (t : Nat) (side : Side) (i : Nat) : State :=
  { s with
    waitq := s.waitq.take i ++ t :: s.waitq.drop i
    waiting := set s.waiting t (some side) }

/-- A thread is taken out of the wait queue and made ready with a return value. -/
def State.ready (s : State) (u : Nat) (result : Int) : State :=
  { s with
    waitq := s.waitq.erase u
    waiting := set s.waiting u none
    result := set s.result u (some result) }

/-- A call returns. -/
def State.finish (s : State) (t : Nat) (result : Int) : State :=
  { s with result := set s.result t (some result) }

/-- A message of the thread `t` goes into the ring. -/
def State.accept (s : State) (t : Nat) (m : Msg) : State :=
  { s with
    q := s.q.store m
    log := .accepted t m :: s.log }

/-- A message is copied to the memory of the thread `t`. -/
def State.deliver (s : State) (t : Nat) (m : Msg) : State :=
  { s with
    data := set s.data t m
    log := .delivered t m :: s.log }

/-- A message of the thread `t` is given to the waiting thread `u`. -/
def State.hand (s : State) (t u : Nat) (m : Msg) : State :=
  { s with log := .accepted t m :: s.log }.deliver u m

/-- `z_impl_k_msgq_put`, with `K_NO_WAIT` for `none`. -/
def kMsgqPut (s : State) (t : Nat) (m : Msg) (wait : Option Nat) : State :=
  if s.q.usedMsgs < s.q.maxMsgs then
    match s.waitq with
    | u :: _ => (((s.enter t .writer m).hand t u m).ready u 0).finish t 0
    | [] => ((s.enter t .writer m).accept t m).finish t 0
  else
    match wait with
    | none => (s.enter t .writer m).finish t (-35)
    | some i => (s.enter t .writer m).pend t .writer i

/-- `z_impl_k_msgq_get` of a message that is there, with the first waiting thread. -/
def State.take (s : State) (t : Nat) : State :=
  { s with q := s.q.drop }.deliver t s.q.first

/-- `z_impl_k_msgq_get`. -/
def kMsgqGet (s : State) (t : Nat) (data : Msg) (wait : Option Nat) : State :=
  if 0 < s.q.usedMsgs then
    match s.waitq with
    | u :: _ =>
      ((((s.enter t .reader data).take t).accept u (s.data u)).ready u 0).finish t 0
    | [] => ((s.enter t .reader data).take t).finish t 0
  else
    match wait with
    | none => (s.enter t .reader data).finish t (-35)
    | some i => (s.enter t .reader data).pend t .reader i

/-- The loop of `z_impl_k_msgq_purge`. -/
def wakeAll (s : State) : List Nat → State
  | [] => s
  | u :: l => wakeAll (s.ready u (-35)) l

/-- `z_impl_k_msgq_purge`. -/
def kMsgqPurge (s : State) : State :=
  { wakeAll s s.waitq with
    q := { s.q with
      usedMsgs := 0
      readPtr := s.q.writePtr }
    log := .purged :: s.log }

/-- `z_thread_timeout` of a waiting thread; its call returns `-EAGAIN`. -/
def zThreadTimeout (s : State) (t : Nat) : State :=
  if s.waiting t = none then s else s.ready t (-11)

inductive Op where
  | put (t : Nat) (m : Msg) (wait : Option Nat)
  | get (t : Nat) (data : Msg) (wait : Option Nat)
  | purge
  | timeout (t : Nat)

def step (s : State) : Op → State
  | .put t m wait => kMsgqPut s t m wait
  | .get t data wait => kMsgqGet s t data wait
  | .purge => kMsgqPurge s
  | .timeout t => zThreadTimeout s t

/-- `k_msgq_init`. -/
def kMsgqInit (msgSize maxMsgs : Nat) (buffer : Nat → UInt8) : State where
  q :=
    { msgSize := msgSize
      maxMsgs := maxMsgs
      buffer := buffer
      readPtr := 0
      writePtr := 0
      usedMsgs := 0 }
  waitq := []
  waiting _ := none
  data _ := []
  result _ := none
  log := []

/-! ## What a message queue is -/

/-- The messages in the ring, the next one to be got first. -/
def Msgq.contents (q : Msgq) : List Msg :=
  window q.maxMsgs (cell q.msgSize q.buffer) (q.readPtr / q.msgSize) q.usedMsgs

/-- The messages returned by gets, in order. -/
def returned : List Event → List Msg
  | [] => []
  | .delivered _ m :: l => returned l ++ [m]
  | .called _ _ _ :: l => returned l
  | .accepted _ _ :: l => returned l
  | .purged :: l => returned l

/-- The messages accepted from puts, in order, without those that a purge discarded: at a purge
these are all that have not been returned. -/
def kept : List Event → List Msg
  | [] => []
  | .accepted _ m :: l => kept l ++ [m]
  | .purged :: l => returned l
  | .called _ _ _ :: l => kept l
  | .delivered _ _ :: l => kept l

/-- What the log has about the latest call of a thread: the call, and the messages moved by it. -/
def latest (t : Nat) : List Event → Option (Side × Msg) × List Msg
  | [] => (none, [])
  | .called u side data :: l => if u = t then (some (side, data), []) else latest t l
  | .accepted u m :: l => if u = t then ((latest t l).1, (latest t l).2 ++ [m]) else latest t l
  | .delivered u m :: l => if u = t then ((latest t l).1, (latest t l).2 ++ [m]) else latest t l
  | .purged :: l => latest t l

/-- A call that returned success moved one message: its own for a put, the one in its memory for a
get.  Any other call moved nothing, and its memory is as it was. -/
def Honest (s : State) (t : Nat) : Prop :=
  ∀ side data, (latest t s.log).1 = some (side, data) →
    (s.result t = some 0 →
      (latest t s.log).2 = [s.data t] ∧ (side = .writer → s.data t = data)) ∧
    (s.result t ≠ some 0 → (latest t s.log).2 = [] ∧ s.data t = data)

/-- A bounded first-in first-out queue. -/
structure Law (s : State) : Prop where
  fifo : returned s.log ++ s.q.contents = kept s.log
  bounded : s.q.contents.length ≤ s.q.maxMsgs
  honest : ∀ t, Honest s t
  writers : ∀ t, s.waiting t = some .writer → s.q.usedMsgs = s.q.maxMsgs
  readers : ∀ t, s.waiting t = some .reader → s.q.usedMsgs = 0
  apart : ∀ t u, s.waiting t = some .reader → s.waiting u ≠ some .writer
  peek : ∀ i, s.q.peekAt i = s.q.contents[i]?

/-- A thread that makes a call does not wait, and its memory has the size of a message. -/
def InDomain (s : State) : Op → Prop
  | .put t m _ => s.waiting t = none ∧ m.length = s.q.msgSize
  | .get t _ _ => s.waiting t = none
  | .purge => True
  | .timeout _ => True

instance (s : State) : (op : Op) → Decidable (InDomain s op)
  | .put _ _ _ => inferInstanceAs (Decidable (_ ∧ _))
  | .get t _ _ => inferInstanceAs (Decidable (s.waiting t = none))
  | .purge => inferInstanceAs (Decidable True)
  | .timeout _ => inferInstanceAs (Decidable True)

/-! ## The ring -/

/-- The read pointer is at a cell of the ring and the write pointer behind the used cells. -/
structure Msgq.Ring (q : Msgq) : Prop where
  size_pos : 0 < q.msgSize
  max_pos : 0 < q.maxMsgs
  small : q.bufferEnd < 2 ^ 32
  used_le : q.usedMsgs ≤ q.maxMsgs
  read : q.readPtr / q.msgSize < q.maxMsgs ∧ q.readPtr = q.readPtr / q.msgSize * q.msgSize
  write : q.writePtr = (q.readPtr / q.msgSize + q.usedMsgs) % q.maxMsgs * q.msgSize

@[simp]
theorem length_contents (q : Msgq) : q.contents.length = q.usedMsgs := length_window ..

variable {q : Msgq} {m data : Msg} {t u : Nat} {side : Side} {l : List Event} {s s' : State}
  {waiting : Nat → Option Side} {rest : List Nat}

/-- A pointer to a cell goes to the next cell, round the end. -/
theorem next_cell (hSize : 0 < q.msgSize) {j : Nat} (hj : j < q.maxMsgs) :
    q.next (j * q.msgSize) = (j + 1) % q.maxMsgs * q.msgSize := by
  have hSucc : j * q.msgSize + q.msgSize = (j + 1) * q.msgSize := (Nat.succ_mul ..).symm
  rw [Msgq.next, Msgq.bufferEnd, hSucc]
  by_cases hLast : j + 1 = q.maxMsgs
  · rw [hLast, if_pos rfl, Nat.mod_self, Nat.zero_mul]
  · have hNe : (j + 1) * q.msgSize ≠ q.maxMsgs * q.msgSize := fun hEq =>
      hLast (Nat.eq_of_mul_eq_mul_right hSize hEq)
    rw [if_neg hNe, Nat.mod_eq_of_lt (by omega)]

theorem Msgq.Ring.store (h : q.Ring) (hRoom : q.usedMsgs < q.maxMsgs) (m : Msg) :
    (q.store m).Ring where
  size_pos := h.size_pos
  max_pos := h.max_pos
  small := h.small
  used_le := hRoom
  read := h.read
  write := by
    show q.next q.writePtr = _
    rw [h.write, next_cell h.size_pos (Nat.mod_lt _ h.max_pos), Nat.mod_add_mod]
    rfl

theorem Msgq.Ring.contents_store (h : q.Ring) (hRoom : q.usedMsgs < q.maxMsgs)
    (hLen : m.length = q.msgSize) : (q.store m).contents = q.contents ++ [m] := by
  show window q.maxMsgs (cell q.msgSize (CountedRing.store q.buffer q.writePtr m)) _
    (q.usedMsgs + 1) = _
  rw [h.write, cell_store hLen]
  exact window_push hRoom m

/-- A ring whose pointers are at cells. -/
theorem Msgq.Ring.of_cell (hSize : 0 < q.msgSize) (hSmall : q.bufferEnd < 2 ^ 32)
    (hUsed : q.usedMsgs ≤ q.maxMsgs) {r : Nat} (hr : r < q.maxMsgs)
    (hRead : q.readPtr = r * q.msgSize)
    (hWrite : q.writePtr = (r + q.usedMsgs) % q.maxMsgs * q.msgSize) : q.Ring := by
  obtain rfl : q.readPtr / q.msgSize = r := by rw [hRead, Nat.mul_div_cancel _ hSize]
  exact ⟨hSize, Nat.zero_lt_of_lt hr, hSmall, hUsed, ⟨hr, hRead⟩, hWrite⟩

theorem Msgq.Ring.readPtr_drop (h : q.Ring) :
    q.drop.readPtr = (q.readPtr / q.msgSize + 1) % q.maxMsgs * q.msgSize := by
  show q.next q.readPtr = _
  rw [h.read.2, next_cell h.size_pos h.read.1, Nat.mul_div_cancel _ h.size_pos]

theorem Msgq.Ring.drop (h : q.Ring) (hUsed : 0 < q.usedMsgs) : q.drop.Ring := by
  refine .of_cell h.size_pos h.small ((Nat.sub_le _ _).trans h.used_le)
    (Nat.mod_lt _ h.max_pos) h.readPtr_drop ?_
  show q.writePtr = (_ % q.maxMsgs + (q.usedMsgs - 1)) % q.maxMsgs * q.msgSize
  rw [h.write, Nat.mod_add_mod]
  congr 2
  omega

theorem Msgq.Ring.contents_drop (h : q.Ring) (hUsed : 0 < q.usedMsgs) :
    q.contents = q.first :: q.drop.contents := by
  have hPop : q.contents = cell q.msgSize q.buffer (q.readPtr / q.msgSize) ::
      window q.maxMsgs (cell q.msgSize q.buffer) ((q.readPtr / q.msgSize + 1) % q.maxMsgs)
        (q.usedMsgs - 1) := by
    rw [← window_pop h.read.1, Nat.sub_add_cancel hUsed]
    rfl
  rw [hPop, Msgq.first, Msgq.contents, cell, ← h.read.2]
  show _ = _ :: window q.maxMsgs _ (q.drop.readPtr / q.msgSize) _
  rw [h.readPtr_drop, Nat.mul_div_cancel _ h.size_pos]
  rfl

/-- `k_msgq_peek_at` finds the message with its offset, in one piece. -/
theorem Msgq.Ring.peekAt_eq (h : q.Ring) (i : Nat) : q.peekAt i = q.contents[i]? := by
  rw [Msgq.peekAt]
  by_cases hi : i < q.usedMsgs
  · have hUsed := h.used_le
    have hSmall := h.small
    obtain ⟨hr, hRead⟩ := h.read
    generalize hCell : q.readPtr / q.msgSize = r at hr hRead
    have hOffset : i * q.msgSize % 2 ^ 32 = i * q.msgSize := by
      refine Nat.mod_eq_of_lt (Nat.lt_of_le_of_lt ?_ hSmall)
      exact Nat.mul_le_mul_right _ (by omega)
    have hToEnd : (q.bufferEnd - q.readPtr) % 2 ^ 32 = (q.maxMsgs - r) * q.msgSize := by
      rw [Nat.mod_eq_of_lt (by omega), hRead, Msgq.bufferEnd, Nat.sub_mul]
    rw [if_pos hi, hOffset, hToEnd, Msgq.contents, window_getElem? hi, hCell, cell]
    by_cases hWrap : q.maxMsgs - r ≤ i
    · have hMod : (r + i) % q.maxMsgs = i - (q.maxMsgs - r) := by
        rw [Nat.mod_eq_sub_mod (by omega), Nat.mod_eq_of_lt (by omega)]
        omega
      rw [if_pos (Nat.mul_le_mul_right _ hWrap), ← Nat.sub_mul, hMod]
    · have hLt : i * q.msgSize < (q.maxMsgs - r) * q.msgSize :=
        Nat.mul_lt_mul_of_pos_right (by omega) h.size_pos
      have hMod : (r + i) % q.maxMsgs = r + i := Nat.mod_eq_of_lt (by omega)
      rw [if_neg (by omega), hMod, Nat.add_mul, ← hRead]
  · rw [if_neg hi, List.getElem?_eq_none (by rw [length_contents]; omega)]

/-! ## The log -/

theorem latest_called_self :
    latest t (.called t side data :: l) = (some (side, data), []) := if_pos rfl

theorem latest_called_other (hNe : t ≠ u) :
    latest u (.called t side data :: l) = latest u l := if_neg hNe

theorem latest_accepted_self :
    latest t (.accepted t m :: l) = ((latest t l).1, (latest t l).2 ++ [m]) := if_pos rfl

theorem latest_accepted_other (hNe : t ≠ u) :
    latest u (.accepted t m :: l) = latest u l := if_neg hNe

theorem latest_delivered_self :
    latest t (.delivered t m :: l) = ((latest t l).1, (latest t l).2 ++ [m]) := if_pos rfl

theorem latest_delivered_other (hNe : t ≠ u) :
    latest u (.delivered t m :: l) = latest u l := if_neg hNe

/-- Nothing has happened to the call of the thread. -/
structure Untouched (s s' : State) (t : Nat) : Prop where
  latest : latest t s'.log = latest t s.log
  result : s'.result t = s.result t
  data : s'.data t = s.data t

theorem Honest.untouched (hHonest : Honest s t) (hSame : Untouched s s' t) : Honest s' t := by
  unfold Honest
  rw [hSame.latest, hSame.result, hSame.data]
  exact hHonest

/-- A call that has moved nothing yet moves one message and succeeds. -/
theorem Honest.moved (hHonest : Honest s t) (hOpen : s.result t ≠ some 0)
    (hLatest : latest t s'.log = ((latest t s.log).1, (latest t s.log).2 ++ [s'.data t]))
    (hResult : s'.result t = some 0)
    (hOwn : ∀ data, (latest t s.log).1 = some (.writer, data) → s'.data t = s.data t) :
    Honest s' t := by
  intro side data hCall
  rw [hLatest] at hCall ⊢
  obtain ⟨hNone, hSame⟩ := (hHonest side data hCall).2 hOpen
  refine ⟨fun _ => ⟨?_, ?_⟩, fun hNot => absurd hResult hNot⟩
  · rw [hNone]
    rfl
  · rintro rfl
    rw [hOwn data hCall, hSame]

/-- A call that has moved nothing fails. -/
theorem Honest.failed (hHonest : Honest s t) (hOpen : s.result t ≠ some 0)
    (hLatest : latest t s'.log = latest t s.log) (hResult : s'.result t ≠ some 0)
    (hData : s'.data t = s.data t) : Honest s' t := by
  intro side data hCall
  rw [hLatest] at hCall ⊢
  rw [hData]
  exact ⟨fun hZero => absurd hZero hResult, fun _ => (hHonest side data hCall).2 hOpen⟩

theorem Honest.enter (s : State) (t : Nat) (side : Side) (data : Msg) :
    Honest (s.enter t side data) t := by
  intro side' data' hCall
  have hLatest : latest t (s.enter t side data).log = (some (side, data), []) := latest_called_self
  have hResult : (s.enter t side data).result t = none := set_same ..
  have hData : (s.enter t side data).data t = data := set_same ..
  rw [hLatest] at hCall ⊢
  rw [hResult, hData]
  cases hCall
  exact ⟨fun hZero => absurd hZero (by simp), fun _ => ⟨rfl, rfl⟩⟩

theorem untouched_enter (hNe : t ≠ u) (side : Side) (data : Msg) :
    Untouched s (s.enter t side data) u :=
  ⟨latest_called_other hNe, set_ne _ _ hNe.symm, set_ne _ _ hNe.symm⟩

/-! ## Waiting threads -/

/-- The wait queue has the blocked threads, whose calls are open. -/
structure Waits (s : State) : Prop where
  nodup : s.waitq.Nodup
  mem_iff : ∀ t, t ∈ s.waitq ↔ s.waiting t ≠ none
  open_call : ∀ t side, s.waiting t = some side →
    s.result t = none ∧ ∃ data, (latest t s.log).1 = some (side, data)
  sized : ∀ t, s.waiting t = some .writer → (s.data t).length = s.q.msgSize

section Waits

variable {s s' : State}

theorem side_of_ne_none {o : Option Side} (ho : o ≠ none) :
    o = some .writer ∨ o = some .reader := by
  obtain ⟨side, rfl⟩ := Option.ne_none_iff_exists'.mp ho
  cases side <;> simp

/-- The threads that wait have waited before, and nothing has happened to their calls. -/
theorem Waits.of_still (h : Waits s) (hNodup : s'.waitq.Nodup)
    (hMem : ∀ t, t ∈ s'.waitq ↔ s'.waiting t ≠ none) (hSize : s'.q.msgSize = s.q.msgSize)
    (hStill : ∀ t side, s'.waiting t = some side → s.waiting t = some side ∧ Untouched s s' t) :
    Waits s' := by
  refine ⟨hNodup, hMem, ?_, ?_⟩
  · intro t side ht
    obtain ⟨hOld, hT⟩ := hStill t side ht
    rw [hT.result, hT.latest]
    exact h.open_call t side hOld
  · intro t ht
    obtain ⟨hOld, hT⟩ := hStill t .writer ht
    rw [hT.data, hSize]
    exact h.sized t hOld

/-- A step in which the same threads wait. -/
theorem Waits.stay (h : Waits s) (hWaitq : s'.waitq = s.waitq) (hWaiting : s'.waiting = s.waiting)
    (hSize : s'.q.msgSize = s.q.msgSize) (hSame : ∀ t, s.waiting t ≠ none → Untouched s s' t) :
    Waits s' := by
  refine h.of_still (hWaitq ▸ h.nodup) ?_ hSize ?_
  · rw [hWaitq, hWaiting]
    exact h.mem_iff
  · intro t side ht
    rw [hWaiting] at ht
    exact ⟨ht, hSame t (by simp [ht])⟩

/-- A step in which one thread stops to wait. -/
theorem Waits.leave (h : Waits s) (u : Nat) (hWaitq : s'.waitq = s.waitq.erase u)
    (hWaiting : s'.waiting = set s.waiting u none) (hSize : s'.q.msgSize = s.q.msgSize)
    (hSame : ∀ t, t ≠ u → s.waiting t ≠ none → Untouched s s' t) : Waits s' := by
  refine h.of_still (hWaitq ▸ h.nodup.erase u) ?_ hSize ?_
  · intro t
    rw [hWaitq, hWaiting, h.nodup.mem_erase_iff, h.mem_iff, set_apply]
    by_cases ht : t = u <;> simp [ht]
  · intro t side ht
    obtain ⟨hNe, hOld⟩ := of_set_none (hWaiting ▸ ht)
    exact ⟨hOld, hSame t hNe (by simp [hOld])⟩

/-- A thread that calls and then waits. -/
theorem Waits.join (h : Waits s) (hFree : s.waiting t = none) (side : Side)
    (hSize : side = .writer → data.length = s.q.msgSize) (i : Nat) :
    Waits ((s.enter t side data).pend t side i) := by
  have hNew : t ∉ s.waitq := fun ht => (h.mem_iff t).mp ht hFree
  have hPerm : (s.waitq.take i ++ t :: s.waitq.drop i).Perm (t :: s.waitq) := by
    refine List.perm_middle.trans ?_
    rw [List.take_append_drop]
  have hOther : ∀ u, u ≠ t → Untouched s ((s.enter t side data).pend t side i) u := fun u hNe =>
    ⟨latest_called_other hNe.symm, set_ne _ _ hNe, set_ne _ _ hNe⟩
  refine ⟨hPerm.nodup_iff.mpr (List.nodup_cons.mpr ⟨hNew, h.nodup⟩), ?_, ?_, ?_⟩
  · intro u
    show u ∈ s.waitq.take i ++ t :: s.waitq.drop i ↔ set s.waiting t (some side) u ≠ none
    rw [hPerm.mem_iff, List.mem_cons, h.mem_iff, set_apply]
    by_cases hu : u = t <;> simp [hu]
  · intro u side' hu
    have hu' : set s.waiting t (some side) u = some side' := hu
    by_cases hEq : u = t
    · subst hEq
      rw [set_same] at hu'
      obtain rfl := Option.some.inj hu'
      exact ⟨set_same .., data, congrArg Prod.fst latest_called_self⟩
    · rw [set_ne _ _ hEq] at hu'
      rw [(hOther u hEq).result, (hOther u hEq).latest]
      exact h.open_call u side' hu'
  · intro u hu
    have hu' : set s.waiting t (some side) u = some .writer := hu
    by_cases hEq : u = t
    · subst hEq
      rw [set_same] at hu'
      show (set s.data u data u).length = s.q.msgSize
      rw [set_same]
      exact hSize (Option.some.inj hu')
    · rw [set_ne _ _ hEq] at hu'
      rw [(hOther u hEq).data]
      exact h.sized u hu'

end Waits

/-! ## The steps -/

/-- Writers wait for room only and readers for a message. -/
structure Sides (q : Msgq) (waiting : Nat → Option Side) : Prop where
  writers : ∀ t, waiting t = some .writer → q.usedMsgs = q.maxMsgs
  readers : ∀ t, waiting t = some .reader → q.usedMsgs = 0

theorem Sides.leave (h : Sides q waiting) (u : Nat) : Sides q (set waiting u none) :=
  ⟨fun t ht => h.writers t (of_set_none ht).2, fun t ht => h.readers t (of_set_none ht).2⟩

theorem Sides.of_nobody (hNone : ∀ t, waiting t = none) : Sides q waiting := by
  constructor <;> intro t ht <;> rw [hNone] at ht <;> cases ht

theorem Sides.join (h : Sides q waiting) (t : Nat)
    (hWriter : side = .writer → q.usedMsgs = q.maxMsgs)
    (hReader : side = .reader → q.usedMsgs = 0) : Sides q (set waiting t (some side)) := by
  constructor
  · intro u hu
    rw [set_apply] at hu
    split at hu
    · exact hWriter (Option.some.inj hu)
    · exact h.writers u hu
  · intro u hu
    rw [set_apply] at hu
    split at hu
    · exact hReader (Option.some.inj hu)
    · exact h.readers u hu

structure Inv (s : State) : Prop where
  ring : s.q.Ring
  fifo : returned s.log ++ s.q.contents = kept s.log
  honest : ∀ t, Honest s t
  waits : Waits s
  sides : Sides s.q s.waiting

theorem Inv.law (h : Inv s) :
    Law s where
  fifo := h.fifo
  bounded := by
    rw [length_contents]
    exact h.ring.used_le
  honest := h.honest
  writers := h.sides.writers
  readers := h.sides.readers
  apart := by
    intro t u ht hu
    have hPos := h.ring.max_pos
    have hZero := h.sides.readers t ht
    have hFull := h.sides.writers u hu
    omega
  peek := h.ring.peekAt_eq

section Steps

variable {s : State} {t : Nat}

theorem Inv.nobody (h : Inv s) (hNil : s.waitq = []) (u : Nat) : s.waiting u = none := by
  by_contra hu
  have hMem := (h.waits.mem_iff u).mpr hu
  rw [hNil] at hMem
  cases hMem

theorem ne_of_waits (hFree : s.waiting t = none) (hu : s.waiting u ≠ none) : t ≠ u := by
  rintro rfl
  exact hu hFree

/-- The first thread of the wait queue waits and is not the caller. -/
theorem Inv.first_waits (h : Inv s) (hFree : s.waiting t = none) (hWaitq : s.waitq = u :: rest) :
    (s.waiting u = some .writer ∨ s.waiting u = some .reader) ∧ t ≠ u := by
  have hu := (h.waits.mem_iff u).mp (hWaitq ▸ List.mem_cons_self)
  exact ⟨side_of_ne_none hu, ne_of_waits hFree hu⟩

/-- A call that has begun. -/
theorem Inv.honest_enter (h : Inv s) (side : Side) (data : Msg) (u : Nat) :
    Honest (s.enter t side data) u := by
  by_cases hu : t = u
  · subst hu
    exact Honest.enter s t side data
  · exact (h.honest u).untouched (untouched_enter hu side data)

theorem Inv.fail (h : Inv s) (hFree : s.waiting t = none) (side : Side) (data : Msg) :
    Inv ((s.enter t side data).finish t (-35)) where
  ring := h.ring
  fifo := h.fifo
  honest := by
    intro u
    by_cases hu : t = u
    · subst hu
      refine (Honest.enter s t side data).failed (by simp [State.enter]) rfl ?_ rfl
      simp [State.finish]
    · exact (h.honest_enter side data u).untouched ⟨rfl, set_ne _ _ (Ne.symm hu), rfl⟩
  waits := by
    refine h.waits.stay rfl rfl rfl ?_
    intro u hu
    have hNe := ne_of_waits hFree hu
    have hEnter := untouched_enter (s := s) hNe side data
    exact ⟨hEnter.latest, (set_ne _ _ hNe.symm).trans hEnter.result, hEnter.data⟩
  sides := h.sides

theorem Inv.pend (h : Inv s) (hFree : s.waiting t = none)
    (hSize : side = .writer → data.length = s.q.msgSize)
    (hWriter : side = .writer → s.q.usedMsgs = s.q.maxMsgs)
    (hReader : side = .reader → s.q.usedMsgs = 0) (i : Nat) :
    Inv ((s.enter t side data).pend t side i) where
  ring := h.ring
  fifo := h.fifo
  honest u := (h.honest_enter side data u).untouched ⟨rfl, rfl, rfl⟩
  waits := h.waits.join hFree side hSize i
  sides := h.sides.join t hWriter hReader

/-- A put straight into the ring. -/
theorem Inv.put_store (h : Inv s) (hNil : s.waitq = []) (hRoom : s.q.usedMsgs < s.q.maxMsgs)
    (hLen : m.length = s.q.msgSize) :
    Inv (((s.enter t .writer m).accept t m).finish t 0) where
  ring := h.ring.store hRoom m
  fifo := by
    show returned s.log ++ (s.q.store m).contents = kept s.log ++ [m]
    rw [h.ring.contents_store hRoom hLen, ← List.append_assoc, h.fifo]
  honest := by
    intro u
    by_cases hu : t = u
    · subst hu
      have hData : (s.enter t .writer m).data t = m := set_same ..
      refine (Honest.enter s t .writer m).moved (by simp [State.enter]) ?_ (set_same ..)
        fun _ _ => rfl
      show latest t (.accepted t m :: (s.enter t .writer m).log) =
        (_, _ ++ [(s.enter t .writer m).data t])
      rw [latest_accepted_self, hData]
    · exact (h.honest_enter .writer m u).untouched
        ⟨latest_accepted_other hu, set_ne _ _ (Ne.symm hu), rfl⟩
  waits := h.waits.stay rfl rfl rfl fun u hu => absurd (h.nobody hNil u) hu
  sides := Sides.of_nobody (h.nobody hNil)

/-- A put to a thread that waits for a message. -/
theorem Inv.put_hand (h : Inv s) (hFree : s.waiting t = none) (hWaitq : s.waitq = u :: rest)
    (hRoom : s.q.usedMsgs < s.q.maxMsgs) (m : Msg) :
    Inv ((((s.enter t .writer m).hand t u m).ready u 0).finish t 0) := by
  obtain ⟨hu, hNe⟩ := h.first_waits hFree hWaitq
  -- there is room, so the thread waits for a message and the ring is empty
  have hReader : s.waiting u = some .reader :=
    hu.resolve_left fun hWriter => hRoom.ne (h.sides.writers u hWriter)
  obtain ⟨hOpen, data, hCall⟩ := h.waits.open_call u .reader hReader
  have hEmpty : s.q.contents = [] := by
    rw [← List.length_eq_zero_iff, length_contents]
    exact h.sides.readers u hReader
  have hEnter := untouched_enter (s := s) hNe .writer m
  refine ⟨h.ring, ?_, ?_, ?_, h.sides.leave u⟩
  · show (returned s.log ++ [m]) ++ s.q.contents = kept s.log ++ [m]
    have hFifo := h.fifo
    rw [hEmpty, List.append_nil] at hFifo ⊢
    rw [hFifo]
  · intro v
    by_cases hvt : t = v
    · subst hvt
      have hData : (s.enter t .writer m).data t = m := set_same ..
      have hKeep : set (s.enter t .writer m).data u m t = m := (set_ne _ _ hNe).trans hData
      refine (Honest.enter s t .writer m).moved (by simp [State.enter]) ?_ (set_same ..)
        fun _ _ => hKeep.trans hData.symm
      show latest t (.delivered u m :: .accepted t m :: (s.enter t .writer m).log) =
        (_, _ ++ [set (s.enter t .writer m).data u m t])
      rw [latest_delivered_other hNe.symm, latest_accepted_self, hKeep]
    · by_cases hvu : u = v
      · subst hvu
        have hResult : (s.enter t .writer m).result u ≠ some 0 := by
          rw [hEnter.result, hOpen]
          simp
        refine (h.honest_enter .writer m u).moved hResult ?_ ?_ ?_
        · show latest u (.delivered u m :: .accepted t m :: (s.enter t .writer m).log) =
            (_, _ ++ [set (s.enter t .writer m).data u m u])
          rw [latest_delivered_self, latest_accepted_other hNe, set_same]
        · show set (set _ u (some 0)) t (some 0) u = some 0
          rw [set_ne _ _ hNe.symm, set_same]
        · intro data' hWriter
          rw [hEnter.latest, hCall] at hWriter
          cases hWriter
      · refine (h.honest_enter .writer m v).untouched ⟨?_, ?_, set_ne _ _ (Ne.symm hvu)⟩
        · exact (latest_delivered_other hvu).trans (latest_accepted_other hvt)
        · exact (set_ne _ _ (Ne.symm hvt)).trans (set_ne _ _ (Ne.symm hvu))
  · refine h.waits.leave u rfl rfl rfl ?_
    intro v hvu hv
    have hvt := ne_of_waits hFree hv
    have hEnterV := untouched_enter (s := s) hvt .writer m
    exact ⟨(latest_delivered_other hvu.symm).trans ((latest_accepted_other hvt).trans hEnterV.latest),
      (set_ne _ _ hvt.symm).trans ((set_ne _ _ hvu).trans hEnterV.result),
      (set_ne _ _ hvu).trans hEnterV.data⟩

/-- The caller of a get has the first message. -/
theorem Inv.honest_take (h : Inv s) (data : Msg) (u : Nat) :
    Honest (((s.enter t .reader data).take t).finish t 0) u := by
  by_cases hu : t = u
  · subst hu
    refine (Honest.enter s t .reader data).moved (by simp [State.enter]) ?_ (set_same ..) ?_
    · show latest t (.delivered t s.q.first :: (s.enter t .reader data).log) =
        (_, _ ++ [set (s.enter t .reader data).data t s.q.first t])
      rw [latest_delivered_self, set_same]
    · intro data' hWriter
      have hLatest : latest t (s.enter t .reader data).log = (some (.reader, data), []) :=
        latest_called_self
      rw [hLatest] at hWriter
      cases hWriter
  · exact (h.honest_enter .reader data u).untouched
      ⟨latest_delivered_other hu, set_ne _ _ (Ne.symm hu), set_ne _ _ (Ne.symm hu)⟩

theorem untouched_take (hNe : t ≠ u) (data : Msg) :
    Untouched s (((s.enter t .reader data).take t).finish t 0) u := by
  have hEnter := untouched_enter (s := s) hNe .reader data
  exact ⟨(latest_delivered_other hNe).trans hEnter.latest,
    (set_ne _ _ hNe.symm).trans hEnter.result, (set_ne _ _ hNe.symm).trans hEnter.data⟩

/-- A get while nobody waits. -/
theorem Inv.get_take (h : Inv s) (hNil : s.waitq = []) (hUsed : 0 < s.q.usedMsgs) (data : Msg) :
    Inv (((s.enter t .reader data).take t).finish t 0) where
  ring := h.ring.drop hUsed
  fifo := by
    show (returned s.log ++ [s.q.first]) ++ s.q.drop.contents = kept s.log
    rw [List.append_assoc, List.singleton_append, ← h.ring.contents_drop hUsed, h.fifo]
  honest := h.honest_take data
  waits := h.waits.stay rfl rfl rfl fun u hu => absurd (h.nobody hNil u) hu
  sides := Sides.of_nobody (h.nobody hNil)

/-- A get that makes room for the message of a blocked writer. -/
theorem Inv.get_swap (h : Inv s) (hFree : s.waiting t = none) (hWaitq : s.waitq = u :: rest)
    (hUsed : 0 < s.q.usedMsgs) (data : Msg) :
    Inv (((((s.enter t .reader data).take t).accept u (s.data u)).ready u 0).finish t 0) := by
  obtain ⟨hu, hNe⟩ := h.first_waits hFree hWaitq
  -- there is a message, so the thread waits for room and the ring is full
  have hWriter : s.waiting u = some .writer :=
    hu.resolve_right fun hReader => hUsed.ne' (h.sides.readers u hReader)
  obtain ⟨hOpen, -⟩ := h.waits.open_call u .writer hWriter
  have hLen := h.waits.sized u hWriter
  have hDrop := h.ring.drop hUsed
  have hRoom : s.q.drop.usedMsgs < s.q.drop.maxMsgs := by
    have hLe := h.ring.used_le
    show s.q.usedMsgs - 1 < s.q.maxMsgs
    omega
  have hUsed' : (s.q.drop.store (s.data u)).usedMsgs = s.q.usedMsgs := Nat.sub_add_cancel hUsed
  refine ⟨hDrop.store hRoom _, ?_, ?_, ?_, ?_⟩
  · show (returned s.log ++ [s.q.first]) ++ (s.q.drop.store (s.data u)).contents =
      kept s.log ++ [s.data u]
    rw [hDrop.contents_store hRoom hLen, ← List.append_assoc, List.append_assoc (returned s.log),
      List.singleton_append, ← h.ring.contents_drop hUsed, h.fifo]
  · intro v
    by_cases hvu : u = v
    · subst hvu
      have hTake := untouched_take (s := s) hNe data
      have hResult : (((s.enter t .reader data).take t).finish t 0).result u ≠ some 0 := by
        rw [hTake.result, hOpen]
        simp
      refine (h.honest_take data u).moved hResult ?_ ?_ fun _ _ => rfl
      · show latest u (.accepted u (s.data u) :: _) =
          (_, _ ++ [(((s.enter t .reader data).take t).finish t 0).data u])
        rw [latest_accepted_self, hTake.data]
        rfl
      · show set (set _ u (some 0)) t (some 0) u = some 0
        rw [set_ne _ _ hNe.symm, set_same]
    · refine (h.honest_take (t := t) data v).untouched ⟨latest_accepted_other hvu, ?_, rfl⟩
      show set (set _ u (some 0)) t (some 0) v = set _ t (some 0) v
      rw [set_apply, set_apply _ t, set_ne _ _ (Ne.symm hvu)]
      rfl
  · refine h.waits.leave u rfl rfl rfl ?_
    intro v hvu hv
    have hvt := ne_of_waits hFree hv
    have hTake := untouched_take (s := s) hvt data
    refine ⟨(latest_accepted_other hvu.symm).trans hTake.latest, ?_, hTake.data⟩
    exact (set_ne _ _ hvt.symm).trans
      ((set_ne _ _ hvu).trans ((set_ne _ _ hvt.symm).trans rfl))
  · have hLeave := h.sides.leave u
    constructor
    · intro v hv
      exact hUsed'.trans (hLeave.writers v hv)
    · intro v hv
      exact hUsed'.trans (hLeave.readers v hv)

/-- A call is made to fail while it is waiting. -/
theorem Inv.ready (h : Inv s) {result : Int} (hResult : result ≠ 0) (hu : s.waiting u ≠ none) :
    Inv (s.ready u result) where
  ring := h.ring
  fifo := h.fifo
  honest := by
    intro v
    by_cases hvu : v = u
    · subst hvu
      obtain ⟨side, hSide⟩ := Option.ne_none_iff_exists'.mp hu
      obtain ⟨hOpen, -⟩ := h.waits.open_call v side hSide
      refine (h.honest v).failed (by simp [hOpen]) rfl ?_ rfl
      simp [State.ready, hResult]
    · exact (h.honest v).untouched ⟨rfl, set_ne _ _ hvu, rfl⟩
  waits := h.waits.leave u rfl rfl rfl fun v hvu _ => ⟨rfl, set_ne _ _ hvu, rfl⟩
  sides := h.sides.leave u

theorem Inv.timeout (h : Inv s) (t : Nat) : Inv (zThreadTimeout s t) := by
  rw [zThreadTimeout]
  split
  · exact h
  · rename_i ht
    exact h.ready (by decide) ht

/-- The loop of a purge empties the wait queue and leaves the ring alone. -/
theorem Inv.wakeAll {l : List Nat} :
    ∀ {s : State}, Inv s → s.waitq = l → Inv (wakeAll s l) ∧ (wakeAll s l).waitq = [] ∧
      (wakeAll s l).q = s.q ∧ (wakeAll s l).log = s.log := by
  induction l with
  | nil =>
    intro s h hWaitq
    exact ⟨h, hWaitq, rfl, rfl⟩
  | cons u l ih =>
    intro s h hWaitq
    have hu := (h.waits.mem_iff u).mp (hWaitq ▸ List.mem_cons_self)
    have hRest : (s.ready u (-35)).waitq = l := by
      show s.waitq.erase u = l
      rw [hWaitq, List.erase_cons_head]
    exact ih (h.ready (by decide) hu) hRest

theorem Inv.purge (h : Inv s) : Inv (kMsgqPurge s) := by
  obtain ⟨hAll, hNil, hq, hLog⟩ := h.wakeAll rfl
  have hRing := h.ring
  refine ⟨?_, ?_, ?_, ?_, Sides.of_nobody (hAll.nobody hNil)⟩
  · refine .of_cell hRing.size_pos hRing.small (Nat.zero_le _) (Nat.mod_lt _ hRing.max_pos)
      hRing.write ?_
    show s.q.writePtr = (_ % s.q.maxMsgs + 0) % s.q.maxMsgs * s.q.msgSize
    rw [Nat.add_zero, Nat.mod_mod, hRing.write]
  · exact List.append_nil _
  · intro t
    refine (hAll.honest t).untouched ⟨?_, rfl, rfl⟩
    rw [hLog]
    rfl
  · refine hAll.waits.stay rfl rfl (by rw [hq]; rfl) ?_
    exact fun u hu => absurd (hAll.nobody hNil u) hu

theorem Inv.put (h : Inv s) (hFree : s.waiting t = none) (hLen : m.length = s.q.msgSize)
    (wait : Option Nat) : Inv (kMsgqPut s t m wait) := by
  unfold kMsgqPut
  split
  · rename_i hRoom
    cases hWaitq : s.waitq with
    | nil => exact h.put_store hWaitq hRoom hLen
    | cons u rest => exact h.put_hand hFree hWaitq hRoom m
  · rename_i hFull
    have hMax : s.q.usedMsgs = s.q.maxMsgs := by
      have hLe := h.ring.used_le
      omega
    cases wait with
    | none => exact h.fail hFree .writer m
    | some i =>
      refine h.pend hFree (fun _ => hLen) (fun _ => hMax) ?_ i
      intro hSide
      cases hSide

theorem Inv.get (h : Inv s) (hFree : s.waiting t = none) (data : Msg) (wait : Option Nat) :
    Inv (kMsgqGet s t data wait) := by
  unfold kMsgqGet
  split
  · rename_i hUsed
    cases hWaitq : s.waitq with
    | nil => exact h.get_take hWaitq hUsed data
    | cons u rest => exact h.get_swap hFree hWaitq hUsed data
  · rename_i hUsed
    cases wait with
    | none => exact h.fail hFree .reader data
    | some i =>
      refine h.pend hFree ?_ ?_ (fun _ => by omega) i <;>
      · intro hSide
        cases hSide

theorem Inv.step (h : Inv s) {op : Op} (hDom : InDomain s op) : Inv (step s op) := by
  cases op with
  | put t m wait => exact h.put hDom.1 hDom.2 wait
  | get t data wait => exact h.get hDom data wait
  | purge => exact h.purge
  | timeout t => exact h.timeout t

end Steps

/-! ## Runs -/

theorem init_inv {msgSize maxMsgs : Nat} (hSize : 1 ≤ msgSize) (hMax : 1 ≤ maxMsgs)
    (hTotal : maxMsgs * msgSize < 2 ^ 32) (buffer : Nat → UInt8) :
    Inv (kMsgqInit msgSize maxMsgs buffer) where
  ring := by
    refine .of_cell hSize hTotal (Nat.zero_le _) hMax (Nat.zero_mul _).symm ?_
    show 0 = (0 + 0) % maxMsgs * msgSize
    rw [Nat.add_zero, Nat.zero_mod, Nat.zero_mul]
  fifo := rfl
  honest := by
    intro t side data hCall
    cases hCall
  waits := by
    refine ⟨List.nodup_nil, ?_, ?_, ?_⟩
    · intro t
      simp [kMsgqInit]
    · intro t side ht
      cases ht
    · intro t ht
      cases ht
  sides := Sides.of_nobody fun _ => rfl

/-- A message queue is a bounded first-in first-out queue in every state of every run. -/
theorem message_queue_fifo {msgSize maxMsgs : Nat} (hSize : 1 ≤ msgSize) (hMax : 1 ≤ maxMsgs)
    (hTotal : maxMsgs * msgSize < 2 ^ 32) (buffer : Nat → UInt8) (ops : List Op)
    (hDom : Admissible step InDomain (kMsgqInit msgSize maxMsgs buffer) ops) :
    Always step Law (kMsgqInit msgSize maxMsgs buffer) ops :=
  always_of_admissible (fun _ h => h.law) (fun _ _ h hOp => h.step hOp) ops _
    (init_inv hSize hMax hTotal buffer) hDom

/-- A queue of two messages: a reader waits and gets the first message, two are stored, a third
writer waits until a get makes room, a fourth times out, and a purge discards what is left. -/
theorem message_queue_fifo_two :
    Always step Law (kMsgqInit 1 2 fun _ => 0)
    [.get 1 [0] (some 0), .put 2 [7] none, .put 2 [8] none, .put 3 [9] none, .put 4 [10] (some 0),
      .put 5 [11] (some 0), .get 1 [0] none, .timeout 4, .purge, .get 1 [0] none] :=
  message_queue_fifo (by decide) (by decide) (by decide) _ _ (by decide +kernel)

/-! ## Purging -/

/-- What the API says of a purge: no message is left, the threads that wait to send return
`-ENOMSG`, and every other thread is left alone. -/
structure PurgesWriters (s : State) : Prop where
  empty : (kMsgqPurge s).q.contents = []
  writers : ∀ t, s.waiting t = some .writer →
    (kMsgqPurge s).waiting t = none ∧ (kMsgqPurge s).result t = some (-35)
  others : ∀ t, s.waiting t ≠ some .writer → (kMsgqPurge s).waiting t = s.waiting t ∧
    (t ∈ (kMsgqPurge s).waitq ↔ t ∈ s.waitq) ∧ (kMsgqPurge s).result t = s.result t

theorem wakeAll_result (t : Nat) :
    ∀ (l : List Nat) (s : State),
    (wakeAll s l).result t = if t ∈ l then some (-35) else s.result t := by
  intro l
  induction l with
  | nil => simp [wakeAll]
  | cons u l ih =>
    intro s
    rw [wakeAll, ih]
    by_cases hu : t = u <;> simp [State.ready, set_apply, hu]

/-- The loop wakes the readers too: a purge does what the API says exactly if nobody waits to
receive. -/
theorem purgesWriters_iff {msgSize maxMsgs : Nat} (hSize : 1 ≤ msgSize) (hMax : 1 ≤ maxMsgs)
    (hTotal : maxMsgs * msgSize < 2 ^ 32) (buffer : Nat → UInt8) (ops : List Op)
    (hDom : Admissible step InDomain (kMsgqInit msgSize maxMsgs buffer) ops) :
    let s := exec step (kMsgqInit msgSize maxMsgs buffer) ops
    PurgesWriters s ↔ ∀ t, s.waiting t ≠ some .reader := by
  intro s
  have h : Inv s := exec_invariant (fun _ _ h hOp => h.step hOp) ops _
    (init_inv hSize hMax hTotal buffer) hDom
  obtain ⟨hAll, hNil, -, -⟩ := h.wakeAll rfl
  have hNone : ∀ t, (kMsgqPurge s).waiting t = none := hAll.nobody hNil
  constructor
  · intro hPurge t ht
    have hSame := (hPurge.others t (by simp [ht])).1
    rw [hNone, ht] at hSame
    cases hSame
  · intro hNobody
    refine ⟨rfl, fun t ht => ⟨hNone t, ?_⟩, fun t ht => ?_⟩
    · have hMem : t ∈ s.waitq := (h.waits.mem_iff t).mpr (by simp [ht])
      exact (wakeAll_result t s.waitq s).trans (if_pos hMem)
    · have hFree : s.waiting t = none := by
        by_contra hSome
        rcases side_of_ne_none hSome with hWriter | hReader
        · exact ht hWriter
        · exact hNobody t hReader
      have hNot : t ∉ s.waitq := fun hMem => (h.waits.mem_iff t).mp hMem hFree
      refine ⟨(hNone t).trans hFree.symm, iff_of_false ?_ hNot, ?_⟩
      · exact hNil ▸ List.not_mem_nil
      · exact (wakeAll_result t s.waitq s).trans (if_neg hNot)

theorem purgesWriters_two :
    PurgesWriters
    (exec step (kMsgqInit 1 1 fun _ => 0) [.put 1 [7] none, .put 2 [8] (some 0)]) := by
  refine (purgesWriters_iff (by decide) (by decide) (by decide) _ _ (by decide +kernel)).mpr ?_
  intro t
  by_cases ht : t = 2 <;> simp [exec, step, kMsgqInit, kMsgqPut, State.enter, State.accept,
    State.finish, State.pend, Msgq.store, set_apply, ht]

/-- A thread waits for a message, and the purge makes it return `-ENOMSG`. -/
theorem purge_wakes_reader :
    let s := exec step (kMsgqInit 1 1 fun _ => 0) [.get 1 [0] (some 0)]
    s.waiting 1 = some .reader ∧ (kMsgqPurge s).waiting 1 = none ∧
      (kMsgqPurge s).result 1 = some (-35) ∧ ¬ PurgesWriters s := by
  intro s
  have hReader : s.waiting 1 = some .reader := by decide +kernel
  refine ⟨hReader, by decide +kernel, by decide +kernel, fun hPurge => ?_⟩
  have hSame := (hPurge.others 1 (by simp [hReader])).1
  rw [hReader] at hSame
  exact absurd hSame (by decide +kernel)

end Zvm.Kernel.MsgQueue
