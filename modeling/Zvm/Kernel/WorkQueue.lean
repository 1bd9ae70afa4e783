import Mathlib.Data.List.Nodup
import Mathlib.Logic.Relation
import Zvm.Verified.FunArray
import Zvm.Verified.Run

/-!
# Work queues

A work queue is a list of work items and a thread that takes the first one, runs its handler and
finishes it.  An item has flags that say where it is: queued, running, being cancelled, delayed.  A
flush puts an item of its own into the list and waits until that one has run.

A step of the model is what happens under the lock of the work queues; the handlers run between the
step that takes an item and the one that finishes it.  When the timeout of a delayed item expires
is arbitrary here.

The operations are chains of a few changes of the state (`Move`), and every invariant is proved over
the moves.  The results are about whole runs: the flags tell where an item is, and every submission
that was accepted leads to one run or is removed by a cancel (`work_items_run_once`).
-/

namespace Zvm.Kernel.WorkQueue

open Zvm.Verified.FunArray

/-! ## The code -/

/-- A work item of a user, or the one of the flush that thread `f` waits for. -/
inductive Work where
  | item (i : Nat)
  | flusher (f : Nat)
deriving DecidableEq

/-- The bits of `K_WORK_MASK`. -/
structure Flags where
  running : Bool
  canceling : Bool
  queued : Bool
  delayed : Bool
  flushing : Bool
deriving DecidableEq

def Flags.idle : Flags := ⟨false, false, false, false, false⟩

structure QueueFlags where
  started : Bool
  busy : Bool
  drain : Bool
  plugged : Bool
deriving DecidableEq

/-- What a thread waits for. -/
inductive Wait where
  | flush (q : Nat)
  | cancel (w : Work)
  | drain (q : Nat)
deriving DecidableEq

/-- `current` is the item a queue's thread has taken and not finished, and `asleep` whether it waits
in `notifyq`.  `cancels` are the records of `pending_cancels`, each with the thread that waits.

No code reads the fields from `accepted` on.  Accepted submissions are numbered, `accepted` has
their items in order, `ticket` the last number of each item and `run` the number its current run is
for.  `awaits` are the runs that a flush was called for, and `closed` says whether the last plugging
drain of a queue is still in force. -/
structure State where
  delayable : Nat → Bool
  flags : Nat → Flags
  flusherFlags : Nat → Flags
  queue : Nat → Option Nat
  delayQueue : Nat → Option Nat
  pending : Nat → List Work
  qflags : Nat → QueueFlags
  current : Nat → Option Work
  asleep : Nat → Bool
  drainq : Nat → List Nat
  cancels : List (Nat × Work)
  waiting : Nat → Option Wait
  accepted : List Nat
  ticket : Nat → Nat
  run : Nat → Nat
  started : List (Nat × Nat)
  finished : List (Nat × Nat)
  removed : List (Nat × Nat)
  awaits : Nat → List (Nat × Nat)
  closed : Nat → Bool

def State.flagsOf (s : State) : Work → Flags
  | .item i => s.flags i
  | .flusher f => s.flusherFlags f

def State.setFlags (s : State) (w : Work) (f : Flags) : State :=
  match w with
  | .item i => { s with flags := set s.flags i f }
  | .flusher g => { s with flusherFlags := set s.flusherFlags g f }

/-- `work_busy_get_locked`, as a test. -/
def workBusy (f : Flags) : Bool :=
  f.running || f.canceling || f.queued || f.delayed || f.flushing

/-- `finalize_flush_locked`; the work is that of a flusher. -/
def finalizeFlushLocked (s : State) (w : Work) : State :=
  match w with
  | .item i => s.setFlags w { s.flags i with flushing := false }
  | .flusher f =>
    { s.setFlags w { s.flusherFlags f with flushing := false } with
      waiting := set s.waiting f none }

/-- `finalize_cancel_locked`: the first record of the work is removed and its thread released. -/
def finalizeCancelLocked (s : State) (w : Work) : State :=
  match s.cancels.find? (fun r => r.2 = w) with
  | none => s.setFlags w { s.flagsOf w with canceling := false }
  | some r =>
    { s.setFlags w { s.flagsOf w with canceling := false } with
      cancels := s.cancels.eraseP (fun r => r.2 = w)
      waiting := set s.waiting r.1 none }

/-- `sys_slist_insert`: `y` behind `x`. -/
def insertAfter (x y : Work) : List Work → List Work
  | [] => []
  | a :: l => if a = x then a :: y :: l else a :: insertAfter x y l

/-- Where `queue_flusher_locked` puts the flusher. -/
def placeFlusher (l : List Work) (w fl : Work) : List Work :=
  if w ∈ l then insertAfter w fl l else fl :: l

/-- `queue_flusher_locked` and the notification that follows it; the calling thread then waits. -/
def queueFlusherLocked (s : State) (q i f : Nat) : State :=
  { s with
    pending := set s.pending q (placeFlusher (s.pending q) (.item i) (.flusher f))
    flusherFlags := set s.flusherFlags f { Flags.idle with flushing := true }
    asleep := set s.asleep q false
    waiting := set s.waiting f (some (.flush q))
    awaits := set s.awaits f
      ((if (s.flags i).queued then [(s.ticket i, i)] else []) ++
        (if (s.flags i).running then [(s.run i, i)] else [])) }

/-- `queue_remove_locked` with `work->queue`. -/
def queueRemoveLocked (s : State) (i : Nat) : State :=
  match (s.flags i).queued, s.queue i with
  | true, some q =>
    { s with
      flags := set s.flags i { s.flags i with queued := false }
      pending := set s.pending q ((s.pending q).erase (.item i))
      removed := s.removed ++ [(s.ticket i, i)] }
  | true, none => { s with flags := set s.flags i { s.flags i with queued := false } }
  | false, _ => s

/-- The answer of `queue_submit_locked`; `caller` is the queue whose thread makes the call in a
handler, and `none` for every other thread and for interrupts. -/
def queueAnswer (s : State) (caller queue : Option Nat) : Int :=
  match queue with
  | none => -22
  | some q =>
    if (s.qflags q).started = false then -19
    else if (s.qflags q).drain = true ∧ caller ≠ some q then -16
    else if (s.qflags q).plugged = true ∧ (s.qflags q).drain = false then -16
    else 1

/-- An accepted submission: the rest of `queue_submit_locked` and of `submit_to_queue_locked`. -/
def State.enqueue (s : State) (i q : Nat) : State :=
  { s with
    pending := set s.pending q (s.pending q ++ [Work.item i])
    asleep := set s.asleep q false
    flags := set s.flags i { s.flags i with queued := true }
    queue := set s.queue i (some q)
    accepted := s.accepted ++ [i]
    ticket := set s.ticket i s.accepted.length }

/-- The queue a submission of an item that is not queued goes to. -/
def submitTarget (s : State) (i : Nat) (queue : Option Nat) : Option Nat :=
  if (s.flags i).running then s.queue i
  else
    match queue with
    | some q => some q
    | none => s.queue i

/-- `submit_to_queue_locked`. -/
def submitToQueueLocked (s : State) (caller : Option Nat) (i : Nat) (queue : Option Nat) :
    State × Int :=
  if (s.flags i).canceling then (s, -16)
  else if (s.flags i).queued then (s, 0)
  else
    match submitTarget s i queue with
    | none => (s, queueAnswer s caller none)
    | some q =>
      if queueAnswer s caller (some q) < 0 then (s, queueAnswer s caller (some q))
      else (s.enqueue i q, if (s.flags i).running then 2 else 1)

/-- `work_flush_locked`, and the wait of the calling thread. -/
def workFlushLocked (s : State) (f i : Nat) : State × Bool :=
  if (s.flags i).queued || (s.flags i).running then
    match s.queue i with
    | some q => (queueFlusherLocked s q i f, true)
    | none => (s, true)
  else (s, false)

/-- `flag_set` of `K_WORK_CANCELING_BIT`. -/
def State.mark (s : State) (i : Nat) : State :=
  { s with flags := set s.flags i { s.flags i with canceling := true } }

/-- `cancel_async_locked`. -/
def cancelAsyncLocked (s : State) (i : Nat) : State × Flags :=
  match if (s.flags i).canceling then s else queueRemoveLocked s i with
  | s' =>
    if workBusy (s'.flags i) then (s'.mark i, (s'.mark i).flags i) else (s', s'.flags i)

/-- `init_work_cancel`, and the wait of the calling thread. -/
def State.record (s : State) (c i : Nat) : State :=
  { s with
    cancels := s.cancels ++ [(c, .item i)]
    waiting := set s.waiting c (some (.cancel (.item i))) }

/-- `cancel_sync_locked`. -/
def cancelSyncLocked (s : State) (c i : Nat) : State × Bool :=
  if (s.flags i).canceling then (s.record c i, true) else (s, false)

/-- `k_work_cancel_sync`. -/
def kWorkCancelSync (s : State) (c i : Nat) : State × Bool :=
  if workBusy (s.flags i) then ((cancelSyncLocked (cancelAsyncLocked s i).1 c i).1, true)
  else (s, false)

/-- `flag_set` and `flag_clear` of `K_WORK_DELAYED_BIT`. -/
def State.delay (s : State) (i : Nat) (b : Bool) : State :=
  { s with flags := set s.flags i { s.flags i with delayed := b } }

/-- `schedule_for_queue_locked`, without the timeout it adds. -/
def scheduleForQueueLocked (s : State) (caller : Option Nat) (i : Nat) (queue : Option Nat)
    (noWait : Bool) : State × Int :=
  if noWait then submitToQueueLocked s caller i queue
  else ({ s.delay i true with delayQueue := set s.delayQueue i queue }, 1)

/-- `unschedule_locked`, without the timeout it aborts.  `aborted` is whether the abort finds it. -/
def unscheduleLocked (s : State) (i : Nat) (aborted : Bool) : State × Bool :=
  if (s.flags i).delayed then (s.delay i false, aborted) else (s, false)

/-- `cancel_delayable_async_locked`. -/
def cancelDelayableAsyncLocked (s : State) (i : Nat) : State × Flags :=
  cancelAsyncLocked (unscheduleLocked s i true).1 i

/-- `k_work_schedule_for_queue`. -/
def kWorkScheduleForQueue (s : State) (caller : Option Nat) (i : Nat) (queue : Option Nat)
    (noWait : Bool) : State × Int :=
  if workBusy { s.flags i with running := false } then (s, 0)
  else scheduleForQueueLocked s caller i queue noWait

/-- `k_work_reschedule_for_queue`. -/
def kWorkRescheduleForQueue (s : State) (caller : Option Nat) (i : Nat) (queue : Option Nat)
    (noWait : Bool) : State × Int :=
  scheduleForQueueLocked (unscheduleLocked s i true).1 caller i queue noWait

/-- `k_work_cancel_delayable_sync`. -/
def kWorkCancelDelayableSync (s : State) (c i : Nat) : State × Bool :=
  if workBusy (s.flags i) then ((cancelSyncLocked (cancelDelayableAsyncLocked s i).1 c i).1, true)
  else (s, false)

/-- `k_work_flush_delayable`. -/
def kWorkFlushDelayable (s : State) (caller : Option Nat) (f i : Nat) (aborted : Bool) :
    State × Bool :=
  if workBusy (s.flags i) = false then (s, false)
  else
    match unscheduleLocked s i aborted with
    | (s', true) => workFlushLocked (submitToQueueLocked s' caller i (s'.delayQueue i)).1 f i
    | (s', false) => workFlushLocked s' f i

/-- `work_timeout`. -/
def workTimeout (s : State) (i : Nat) : State :=
  if (s.flags i).delayed then (submitToQueueLocked (s.delay i false) none i (s.delayQueue i)).1
  else s

/-- The work is taken: it is running, no longer queued, and for an item the run of its last
submission starts. -/
def State.startRun (s : State) (w : Work) : State :=
  match w with
  | .item i =>
    { s with
      flags := set s.flags i { s.flags i with running := true, queued := false }
      run := set s.run i (s.ticket i)
      started := s.started ++ [(s.ticket i, i)] }
  | .flusher f =>
    { s with
      flusherFlags :=
        set s.flusherFlags f { s.flusherFlags f with running := true, queued := false } }

/-- `z_sched_wake_all` on `drainq`. -/
def State.wakeDrainers (s : State) (q : Nat) : State :=
  { s with
    waiting := fun d => if d ∈ s.drainq q then none else s.waiting d
    drainq := set s.drainq q [] }

/-- The first locked part of a round of `work_queue_main`. -/
def takeWork (s : State) (q : Nat) : State :=
  match s.pending q with
  | w :: rest =>
    { s.startRun w with
      pending := set s.pending q rest
      qflags := set s.qflags q { s.qflags q with busy := true }
      current := set s.current q (some w) }
  | [] =>
    if (s.qflags q).drain then
      { s.wakeDrainers q with
        qflags := set s.qflags q { s.qflags q with drain := false }
        asleep := set s.asleep q true }
    else { s with asleep := set s.asleep q true }

/-- The handler has returned: the work is no longer running. -/
def State.endRun (s : State) (w : Work) : State :=
  match w with
  | .item i =>
    { s with
      flags := set s.flags i { s.flags i with running := false }
      finished := s.finished ++ [(s.run i, i)] }
  | .flusher f =>
    { s with flusherFlags := set s.flusherFlags f { s.flusherFlags f with running := false } }

/-- What is left to do for a flush and a cancellation of the work. -/
def finalize (s : State) (w : Work) : State :=
  match if (s.flagsOf w).flushing then finalizeFlushLocked s w else s with
  | s' => if (s'.flagsOf w).canceling then finalizeCancelLocked s' w else s'

/-- The second locked part of a round of `work_queue_main`. -/
def finishWork (s : State) (q : Nat) : State :=
  match s.current q with
  | none => s
  | some w =>
    { finalize (s.endRun w) w with
      qflags := set s.qflags q { s.qflags q with busy := false }
      current := set s.current q none }

/-- `k_work_queue_start`. -/
def kWorkQueueStart (s : State) (q : Nat) : State :=
  { s with
    pending := set s.pending q []
    drainq := set s.drainq q []
    qflags := set s.qflags q ⟨true, false, false, false⟩ }

/-- The wait in `k_work_queue_drain`. -/
def State.drainWait (s : State) (d q : Nat) (plug : Bool) : State :=
  { s with
    qflags := set s.qflags q
      { s.qflags q with drain := true, plugged := (s.qflags q).plugged || plug }
    asleep := set s.asleep q false
    drainq := set s.drainq q (s.drainq q ++ [d])
    waiting := set s.waiting d (some (.drain q))
    closed := set s.closed q (s.closed q || plug) }

/-- `k_work_queue_drain`. -/
def kWorkQueueDrain (s : State) (d q : Nat) (plug : Bool) : State :=
  if (s.qflags q).busy || (s.qflags q).drain || plug || !(s.pending q).isEmpty then
    s.drainWait d q plug
  else s

/-- `k_work_queue_unplug`. -/
def kWorkQueueUnplug (s : State) (q : Nat) : State × Int :=
  ({ s with
      qflags := set s.qflags q { s.qflags q with plugged := false }
      closed := set s.closed q false },
    if (s.qflags q).plugged then 0 else -120)

inductive Op where
  | start (q : Nat)
  | submit (caller : Option Nat) (i : Nat) (queue : Option Nat)
  | schedule (caller : Option Nat) (i : Nat) (queue : Option Nat) (noWait : Bool)
  | reschedule (caller : Option Nat) (i : Nat) (queue : Option Nat) (noWait : Bool)
  | cancel (i : Nat)
  | cancelDelayable (i : Nat)
  | cancelSync (c i : Nat)
  | cancelDelayableSync (c i : Nat)
  | flush (f i : Nat)
  | flushDelayable (caller : Option Nat) (f i : Nat) (aborted : Bool)
  | timeout (i : Nat)
  | take (q : Nat)
  | finish (q : Nat)
  | drain (d q : Nat) (plug : Bool)
  | unplug (q : Nat)

def step (s : State) : Op → State
  | .start q => kWorkQueueStart s q
  | .submit caller i queue => (submitToQueueLocked s caller i queue).1
  | .schedule caller i queue noWait => (kWorkScheduleForQueue s caller i queue noWait).1
  | .reschedule caller i queue noWait => (kWorkRescheduleForQueue s caller i queue noWait).1
  | .cancel i => (cancelAsyncLocked s i).1
  | .cancelDelayable i => (cancelDelayableAsyncLocked s i).1
  | .cancelSync c i => (kWorkCancelSync s c i).1
  | .cancelDelayableSync c i => (kWorkCancelDelayableSync s c i).1
  | .flush f i => (workFlushLocked s f i).1
  | .flushDelayable caller f i aborted => (kWorkFlushDelayable s caller f i aborted).1
  | .timeout i => workTimeout s i
  | .take q => takeWork s q
  | .finish q => finishWork s q
  | .drain d q plug => kWorkQueueDrain s d q plug
  | .unplug q => (kWorkQueueUnplug s q).1

/-- The functions for delayable items are called for such items only, and those for plain ones for
plain ones.  A queue is started once, and drained after that.  A thread that waits makes no call,
and a queue's thread takes an item when it is awake and has finished the last one. -/
def InDomain (s : State) : Op → Prop
  | .start q => (s.qflags q).started = false
  | .submit _ _ _ => True
  | .schedule _ i _ _ => s.delayable i = true
  | .reschedule _ i _ _ => s.delayable i = true
  | .cancel i => s.delayable i = false
  | .cancelDelayable i => s.delayable i = true
  | .cancelSync c i => s.delayable i = false ∧ s.waiting c = none
  | .cancelDelayableSync c i => s.delayable i = true ∧ s.waiting c = none
  | .flush f i => s.delayable i = false ∧ s.waiting f = none
  | .flushDelayable _ f i _ => s.delayable i = true ∧ s.waiting f = none
  | .timeout i => s.delayable i = true
  | .take q => (s.qflags q).started = true ∧ s.current q = none ∧ s.asleep q = false
  | .finish q => s.current q ≠ none
  | .drain d q _ => (s.qflags q).started = true ∧ s.waiting d = none
  | .unplug _ => True

instance (s : State) : ∀ op, Decidable (InDomain s op)
  | .start _ => inferInstanceAs (Decidable (_ = _))
  | .submit _ _ _ => inferInstanceAs (Decidable True)
  | .schedule _ _ _ _ => inferInstanceAs (Decidable (_ = _))
  | .reschedule _ _ _ _ => inferInstanceAs (Decidable (_ = _))
  | .cancel _ => inferInstanceAs (Decidable (_ = _))
  | .cancelDelayable _ => inferInstanceAs (Decidable (_ = _))
  | .cancelSync _ _ => inferInstanceAs (Decidable (_ ∧ _))
  | .cancelDelayableSync _ _ => inferInstanceAs (Decidable (_ ∧ _))
  | .flush _ _ => inferInstanceAs (Decidable (_ ∧ _))
  | .flushDelayable _ _ _ _ => inferInstanceAs (Decidable (_ ∧ _))
  | .timeout _ => inferInstanceAs (Decidable (_ = _))
  | .take _ => inferInstanceAs (Decidable (_ ∧ _))
  | .finish _ => inferInstanceAs (Decidable (_ ≠ _))
  | .drain _ _ _ => inferInstanceAs (Decidable (_ ∧ _))
  | .unplug _ => inferInstanceAs (Decidable True)

/-- Nothing is queued, and no queue is started. -/
def init (delayable : Nat → Bool) : State where
  delayable := delayable
  flags := fun _ => Flags.idle
  flusherFlags := fun _ => Flags.idle
  queue := fun _ => none
  delayQueue := fun _ => none
  pending := fun _ => []
  qflags := fun _ => ⟨false, false, false, false⟩
  current := fun _ => none
  asleep := fun _ => false
  drainq := fun _ => []
  cancels := []
  waiting := fun _ => none
  accepted := []
  ticket := fun _ => 0
  run := fun _ => 0
  started := []
  finished := []
  removed := []
  awaits := fun _ => []
  closed := fun _ => false

end Zvm.Kernel.WorkQueue
