import Zvm.Kernel.ThreadTimeout
import Zvm.Kernel.WorkQueue

/-!
# Delayed work

A delayable item has a timeout.  When it expires, an announce takes it off the list of timeouts and
then calls `work_timeout`, which submits the item if it is marked as delayed.  A reschedule aborts
the timeout, sets the mark and adds the timeout again.  If the announce has taken the timeout off
the list and has not called it yet, the abort does nothing, and the call that is under way finds the
mark of the new schedule: the item is submitted at once and the new timeout finds the mark gone
(`reschedule_in_flight_is_early`).

A state of the model is the timeouts with their history, the work queues, and the items whose
timeout each CPU has taken off the list and not called yet.  A reschedule is honoured in every
continuation exactly when no CPU is in that position (`reschedule_honoured_iff`).
-/

namespace Zvm.Kernel.WorkQueue

open Zvm.Verified.DeltaList Zvm.Verified.FunArray Zvm.Verified.Run

/-! ## The code -/

/-- `submits` has the items that `work_timeout` submitted, with the tick, and no code reads it. -/
structure Delays where
  world : World Nat
  work : State
  inFlight : Nat → Option Nat
  submits : List (Nat × Nat)

inductive DelayOp where
  | other (op : Op)
  | schedule (caller : Option Nat) (i : Nat) (queue : Option Nat) (ticks : Int) (e : Nat)
  | reschedule (caller : Option Nat) (i : Nat) (queue : Option Nat) (ticks : Int) (e : Nat)
  | cancelDelayable (i : Nat)
  | cancelDelayableSync (c i : Nat)
  | flushDelayable (caller : Option Nat) (f i : Nat)
  | announce (cpu : Nat) (ticks : Int)
  | callback (cpu : Nat)
  | ret (cpu : Nat)

/-- The timeouts after `unschedule_locked`. -/
def Delays.unscheduled (s : Delays) (i : Nat) : World Nat :=
  if (s.work.flags i).delayed then timerStep true s.world (.abort i) else s.world

/-- Whether `k_work_schedule_for_queue` adds a timeout. -/
def Delays.adds (s : Delays) (i : Nat) (ticks : Int) : Bool :=
  !workBusy { s.work.flags i with running := false } && ticks != 0

/-- The timeouts move on, and the CPU goes on with the one that its loop came to, if any. -/
def Delays.goOn (s : Delays) (cpu : Nat) (world : World Nat) (next : Option Nat) : Delays :=
  { s with
    world := world
    inFlight := match next with
      | none => s.inFlight
      | some i => set s.inFlight cpu (some i) }

/-- The call of `work_timeout` by an announcing CPU. -/
def Delays.call (s : Delays) (cpu : Nat) : Delays :=
  match s.inFlight cpu with
  | none => s
  | some i =>
    { s with
      work := step s.work (.timeout i)
      inFlight := set s.inFlight cpu none
      submits :=
        if (s.work.flags i).delayed then s.submits ++ [(i, s.world.now)] else s.submits }

def delayStep (s : Delays) : DelayOp → Delays
  | .other op => { s with work := step s.work op }
  | .schedule caller i queue ticks e =>
    { s with
      work := step s.work (.schedule caller i queue (ticks = 0))
      world := if s.adds i ticks then timerStep true s.world (.add i ticks e) else s.world }
  | .reschedule caller i queue ticks e =>
    { s with
      work := step s.work (.reschedule caller i queue (ticks = 0))
      world :=
        if ticks = 0 then s.unscheduled i else timerStep true (s.unscheduled i) (.add i ticks e) }
  | .cancelDelayable i =>
    { s with work := step s.work (.cancelDelayable i), world := s.unscheduled i }
  | .cancelDelayableSync c i =>
    { s with work := step s.work (.cancelDelayableSync c i), world := s.unscheduled i }
  | .flushDelayable caller f i =>
    { s with
      work := step s.work (.flushDelayable caller f i ((zAbortTimeout s.world.k i).2 = 0))
      world := s.unscheduled i }
  | .announce cpu ticks =>
    s.goOn cpu (timerStep true s.world (.announce cpu ticks))
      (sysClockAnnounce true cpu ticks s.world.k).2
  | .callback cpu => s.call cpu
  | .ret cpu =>
    s.goOn cpu (timerStep true s.world (.ret cpu)) (callbackReturn cpu s.world.k).2

/-- The item whose timeout an operation has to do with. -/
def Op.timedItem : Op → Option Nat
  | .schedule _ i _ _ => some i
  | .reschedule _ i _ _ => some i
  | .cancelDelayable i => some i
  | .cancelDelayableSync _ i => some i
  | .flushDelayable _ _ i _ => some i
  | .timeout i => some i
  | _ => none

/-- The domains of the work queues and of the timeouts; a CPU finishes one callback before it comes
to the next. -/
def Orderly (s : Delays) : DelayOp → Prop
  | .other op => op.timedItem = none ∧ InDomain s.work op
  | .schedule caller i queue ticks e =>
    InDomain s.work (.schedule caller i queue (ticks = 0)) ∧
      (s.adds i ticks = true → Kernel.InDomain s.world (.add i ticks e))
  | .reschedule caller i queue ticks e =>
    InDomain s.work (.reschedule caller i queue (ticks = 0)) ∧
      (ticks ≠ 0 → Kernel.InDomain (s.unscheduled i) (.add i ticks e))
  | .cancelDelayable i => InDomain s.work (.cancelDelayable i)
  | .cancelDelayableSync c i => InDomain s.work (.cancelDelayableSync c i)
  | .flushDelayable caller f i => InDomain s.work (.flushDelayable caller f i true)
  | .announce cpu ticks => Kernel.InDomain s.world (.announce cpu ticks) ∧ s.inFlight cpu = none
  | .callback cpu => s.inFlight cpu ≠ none
  | .ret cpu => Kernel.InDomain s.world (.ret cpu) ∧ s.inFlight cpu = none

def Delays.start (delayable : Nat → Bool) : Delays :=
  ⟨World.start, init delayable, fun _ => none, []⟩

/-! ## The statement -/

/-- The operation is no call on item `i`. -/
def Leaves (i : Nat) : DelayOp → Prop
  | .other (.submit _ j _) => j ≠ i
  | .other (.cancel j) => j ≠ i
  | .other (.cancelSync _ j) => j ≠ i
  | .other (.flush _ j) => j ≠ i
  | .schedule _ j _ _ _ => j ≠ i
  | .reschedule _ j _ _ _ => j ≠ i
  | .cancelDelayable j => j ≠ i
  | .cancelDelayableSync _ j => j ≠ i
  | .flushDelayable _ _ j => j ≠ i
  | _ => True

/-- The ticks at which `work_timeout` has submitted the item. -/
def Delays.submitted (s : Delays) (i : Nat) : List Nat :=
  (s.submits.filter fun p => p.1 = i).map Prod.snd

/-- Since `s`, the item has been submitted by a timeout at most once and not before the tick `due`,
and it has been if that tick is over. -/
def Honoured (s : Delays) (i due : Nat) (t : Delays) : Prop :=
  ∃ new, t.submitted i = s.submitted i ++ new ∧ new.length ≤ 1 ∧ (∀ tick ∈ new, due ≤ tick) ∧
    (due ≤ t.world.now → (∀ cpu, t.world.k.serving cpu = none) → new.length = 1)

/-! ## The mark -/

section Mark

variable (s : State) (i j : Nat) (w : Work)

@[simp]
theorem delay_delayed (b : Bool) :
    ((s.delay i b).flags j).delayed = if j = i then b else (s.flags j).delayed := by
  simp only [State.delay, set_apply]
  split <;> rfl

@[simp]
theorem submitToQueueLocked_delayed (caller queue : Option Nat) :
    ((submitToQueueLocked s caller i queue).1.flags j).delayed = (s.flags j).delayed := by
  unfold submitToQueueLocked
  repeat' split
  all_goals first
    | rfl
    | simp only [State.enqueue]
      grind

theorem queueRemoveLocked_delayed :
    ((queueRemoveLocked s i).flags j).delayed = (s.flags j).delayed := by
  unfold queueRemoveLocked
  split <;> grind

@[simp]
theorem cancelAsyncLocked_delayed :
    ((cancelAsyncLocked s i).1.flags j).delayed = (s.flags j).delayed := by
  have hMark : ∀ u : State, ((u.mark i).flags j).delayed = (u.flags j).delayed := by
    intro u
    simp only [State.mark]
    grind
  have hRemove := queueRemoveLocked_delayed s i j
  unfold cancelAsyncLocked
  cases (s.flags i).canceling with
  | true =>
    simp only [if_true]
    split <;> simp [hMark]
  | false =>
    simp only [Bool.false_eq_true, if_false]
    split <;> simp [hMark, hRemove]

@[simp]
theorem cancelSyncLocked_delayed (c : Nat) :
    ((cancelSyncLocked s c i).1.flags j).delayed = (s.flags j).delayed := by
  unfold cancelSyncLocked
  split <;> rfl

@[simp]
theorem workFlushLocked_delayed (f : Nat) :
    ((workFlushLocked s f i).1.flags j).delayed = (s.flags j).delayed := by
  unfold workFlushLocked
  repeat' split
  all_goals rfl

theorem takeWork_delayed (q : Nat) : ((takeWork s q).flags j).delayed = (s.flags j).delayed := by
  unfold takeWork
  split
  · next w rest _ =>
      cases w with
      | item i =>
        simp only [State.startRun]
        grind
      | flusher f => rfl
  · split <;> rfl

theorem setFlags_delayed {f : Flags} (hSame : f.delayed = (s.flagsOf w).delayed) :
    ((s.setFlags w f).flags j).delayed = (s.flags j).delayed := by
  cases w with
  | item i =>
    simp only [State.flagsOf] at hSame
    simp only [State.setFlags]
    grind
  | flusher g => rfl

theorem finalize_delayed : ((finalize s w).flags j).delayed = (s.flags j).delayed := by
  have hFlush : ((finalizeFlushLocked s w).flags j).delayed = (s.flags j).delayed := by
    cases w with
    | item i => exact setFlags_delayed s j (.item i) rfl
    | flusher g => rfl
  have hCancel : ∀ u : State, ((finalizeCancelLocked u w).flags j).delayed =
      (u.flags j).delayed := by
    intro u
    unfold finalizeCancelLocked
    split <;> exact setFlags_delayed u j w rfl
  unfold finalize
  cases (s.flagsOf w).flushing with
  | true =>
    simp only [if_true]
    split
    · rw [hCancel, hFlush]
    · exact hFlush
  | false =>
    simp only [Bool.false_eq_true, if_false]
    split
    · exact hCancel s
    · rfl

theorem finishWork_delayed (q : Nat) :
    ((finishWork s q).flags j).delayed = (s.flags j).delayed := by
  unfold finishWork
  split
  · rfl
  · next w _ =>
      have hEnd : ((s.endRun w).flags j).delayed = (s.flags j).delayed := by
        cases w with
        | item i =>
          simp only [State.endRun]
          grind
        | flusher g => rfl
      exact (finalize_delayed (s.endRun w) j w).trans hEnd

/-- An operation that has nothing to do with timeouts leaves the marks alone. -/
theorem step_delayed_of_untimed {op : Op} (hOp : op.timedItem = none) :
    ((step s op).flags j).delayed = (s.flags j).delayed := by
  cases op with
  | submit caller i queue => exact submitToQueueLocked_delayed s i j caller queue
  | cancel i => exact cancelAsyncLocked_delayed s i j
  | cancelSync c i =>
    change ((kWorkCancelSync s c i).1.flags j).delayed = _
    unfold kWorkCancelSync
    split <;> simp
  | flush f i => exact workFlushLocked_delayed s i j f
  | take q => exact takeWork_delayed s j q
  | finish q => exact finishWork_delayed s j q
  | drain d q plug =>
    change ((kWorkQueueDrain s d q plug).flags j).delayed = _
    unfold kWorkQueueDrain
    split <;> rfl
  | start q => rfl
  | unplug q => rfl
  | _ => simp [Op.timedItem] at hOp

@[simp]
theorem unscheduleLocked_delayed_apply (aborted : Bool) :
    ((unscheduleLocked s i aborted).1.flags j).delayed =
      if j = i then false else (s.flags j).delayed := by
  unfold unscheduleLocked
  split
  · exact delay_delayed s i j false
  · next hNot =>
      split
      · next hj => rw [hj]; simpa using hNot
      · rfl

/-- The mark after `schedule_for_queue_locked`. -/
theorem scheduleForQueueLocked_delayed (caller queue : Option Nat) (noWait : Bool) :
    ((scheduleForQueueLocked s caller i queue noWait).1.flags j).delayed =
      if j = i ∧ noWait = false then true else (s.flags j).delayed := by
  cases noWait with
  | true => simp [scheduleForQueueLocked]
  | false =>
    simp only [scheduleForQueueLocked, Bool.false_eq_true, if_false, and_true]
    exact delay_delayed s i j true

theorem reschedule_delayed (caller queue : Option Nat) :
    ((step s (.reschedule caller i queue false)).flags i).delayed = true := by
  change ((kWorkRescheduleForQueue s caller i queue false).1.flags i).delayed = true
  rw [kWorkRescheduleForQueue, scheduleForQueueLocked_delayed]
  simp

theorem timeout_delayed :
    ((step s (.timeout i)).flags j).delayed = if j = i then false else (s.flags j).delayed := by
  change ((workTimeout s i).flags j).delayed = _
  unfold workTimeout
  split
  · simp
  · next hNot =>
      split
      · next hj => rw [hj]; simpa using hNot
      · rfl

/-- The functions for a delayable item leave the marks of the others alone. -/
theorem step_delayed_of_ne {op : Op} (hOp : op.timedItem = some i) (hNe : j ≠ i) :
    ((step s op).flags j).delayed = (s.flags j).delayed := by
  cases op with
  | schedule caller k queue b =>
    obtain rfl : k = i := by simpa [Op.timedItem] using hOp
    change ((kWorkScheduleForQueue s caller k queue b).1.flags j).delayed = _
    unfold kWorkScheduleForQueue
    split
    · rfl
    · simp [scheduleForQueueLocked_delayed, hNe]
  | reschedule caller k queue b =>
    obtain rfl : k = i := by simpa [Op.timedItem] using hOp
    change ((kWorkRescheduleForQueue s caller k queue b).1.flags j).delayed = _
    simp [kWorkRescheduleForQueue, scheduleForQueueLocked_delayed, hNe]
  | cancelDelayable k =>
    obtain rfl : k = i := by simpa [Op.timedItem] using hOp
    change ((cancelDelayableAsyncLocked s k).1.flags j).delayed = _
    simp [cancelDelayableAsyncLocked, hNe]
  | cancelDelayableSync c k =>
    obtain rfl : k = i := by simpa [Op.timedItem] using hOp
    change ((kWorkCancelDelayableSync s c k).1.flags j).delayed = _
    unfold kWorkCancelDelayableSync
    split
    · simp [cancelDelayableAsyncLocked, hNe]
    · rfl
  | flushDelayable caller f k aborted =>
    obtain rfl : k = i := by simpa [Op.timedItem] using hOp
    change ((kWorkFlushDelayable s caller f k aborted).1.flags j).delayed = _
    have hFirst := unscheduleLocked_delayed_apply s k j aborted
    rw [if_neg hNe] at hFirst
    unfold kWorkFlushDelayable
    split
    · rfl
    · split
      · next s' hEq =>
          rw [hEq] at hFirst
          simpa using hFirst
      · next s' hEq =>
          rw [hEq] at hFirst
          simpa using hFirst
  | timeout k =>
    obtain rfl : k = i := by simpa [Op.timedItem] using hOp
    rw [timeout_delayed, if_neg hNe]
  | _ => simp [Op.timedItem] at hOp

end Mark

/-! ## The list of timeouts -/

/-- The timeouts on the list. -/
def keys (w : World Nat) : List Nat := w.k.list.map Prod.fst

/-- What an operation on the timeout of another item leaves alone. -/
structure SameFor (i : Nat) (w w' : World Nat) : Prop where
  keys : i ∈ keys w' ↔ i ∈ keys w
  current : w'.current i = w.current i
  now : w'.now = w.now

variable {i j : Nat} {s : Delays} {en : Entry Nat} {old : List Nat}

theorem sameFor_abort (w : World Nat) (hNe : i ≠ j) :
    SameFor i w (timerStep true w (.abort j)) := by
  refine ⟨?_, rfl, rfl⟩
  by_cases hMem : j ∈ w.k.list.map Prod.fst
  · rw [keys, timerStep, zAbortTimeout, if_pos hMem]
    simp only [map_fst_remove]
    exact List.mem_erase_of_ne hNe
  · rw [keys, timerStep, zAbortTimeout, if_neg hMem]
    exact Iff.rfl

theorem sameFor_add (w : World Nat) (hNe : i ≠ j) (ticks : Int) (e : Nat) :
    SameFor i w (timerStep true w (.add j ticks e)) := by
  by_cases hTicks : ticks = -1
  · rw [timerStep, if_pos hTicks]
    exact ⟨Iff.rfl, rfl, rfl⟩
  · rw [timerStep, if_neg hTicks, zAddTimeout, if_neg hTicks]
    refine ⟨?_, Function.update_of_ne hNe .., rfl⟩
    have hPerm := map_fst_insert_perm j (newDticks w.k ticks e) w.k.list
    exact hPerm.mem_iff.trans (by simp [hNe, keys])

theorem sameFor_unscheduled (s : Delays) (hNe : i ≠ j) : SameFor i s.world (s.unscheduled j) := by
  unfold Delays.unscheduled
  split
  · exact sameFor_abort s.world hNe
  · exact ⟨Iff.rfl, rfl, rfl⟩

theorem SameFor.trans {w w' w'' : World Nat} (h : SameFor i w w') (h' : SameFor i w' w'') :
    SameFor i w w'' :=
  ⟨h'.keys.trans h.keys, h'.current.trans h.current, h'.now.trans h.now⟩

/-- After the addition of its timeout an item is on the list with the new entry. -/
theorem keys_add (w : World Nat) (i e : Nat) {ticks : Int} (hTicks : ticks ≠ -1) :
    i ∈ keys (timerStep true w (.add i ticks e)) ∧
      (timerStep true w (.add i ticks e)).current i = w.newEntry i ticks e := by
  rw [timerStep, if_neg hTicks, zAddTimeout, if_neg hTicks]
  refine ⟨?_, Function.update_self ..⟩
  have hPerm := map_fst_insert_perm i (newDticks w.k ticks e) w.k.list
  exact hPerm.mem_iff.mpr (by simp)

/-- The announcing CPU serves what it takes off the list, and the others go on as before. -/
def Serves (cpu : Nat) (k : Timeouts Nat) (res : Timeouts Nat × Option Nat) : Prop :=
  (∀ c, c ≠ cpu → res.1.serving c = k.serving c) ∧
    ∀ i, res.2 = some i → ∃ d, res.1.serving cpu = some (i, d)

theorem loopHead_serves (cpu : Nat) (k : Timeouts Nat) : Serves cpu k (loopHead cpu k) := by
  rcases loopHead_cases cpu k with ⟨-, hRes⟩ | ⟨t, d, l, -, -, hRes⟩
  · rw [hRes]
    exact ⟨fun c hc => set_ne _ _ hc, by simp⟩
  · rw [hRes]
    refine ⟨fun c hc => set_ne _ _ hc, fun i hi => ⟨d, ?_⟩⟩
    obtain rfl : t = i := by simpa using hi
    exact set_same ..

theorem sysClockAnnounce_serves (cpu : Nat) (ticks : Int) (k : Timeouts Nat) :
    Serves cpu k (sysClockAnnounce true cpu ticks k) := by
  unfold sysClockAnnounce
  split
  · exact ⟨fun _ _ => rfl, by simp⟩
  · exact loopHead_serves cpu { k with remaining := ticks }

theorem callbackReturn_serves (cpu : Nat) (k : Timeouts Nat) :
    Serves cpu k (callbackReturn cpu k) := by
  unfold callbackReturn
  split
  · exact ⟨fun _ _ => rfl, by simp⟩
  · next dt _ =>
      have hHead := loopHead_serves cpu
        { k with remaining := k.remaining - dt, serving := set k.serving cpu none }
      exact ⟨fun c hc => (hHead.1 c hc).trans (set_ne _ _ hc), hHead.2⟩

/-! ## The invariant -/

/-- The timeouts are in order, and a CPU whose call is still to come serves that timeout. -/
structure Sound (s : Delays) : Prop where
  good : Good s.world
  flight : ∀ cpu i, s.inFlight cpu = some i → ∃ d, s.world.k.serving cpu = some (i, d)

theorem sound_start (delayable : Nat → Bool) : Sound (Delays.start delayable) :=
  ⟨good_start, fun _ _ hFlight => by simp [Delays.start] at hFlight⟩

theorem serving_abort (w : World Nat) (i : Nat) :
    (timerStep true w (.abort i)).k.serving = w.k.serving := by
  have hQuiet : (TimerOp.abort i).Quiet := trivial
  exact (timerStep_same true w hQuiet).serving

theorem serving_add (w : World Nat) (i : Nat) (ticks : Int) (e : Nat) :
    (timerStep true w (.add i ticks e)).k.serving = w.k.serving := by
  have hQuiet : (TimerOp.add i ticks e).Quiet := trivial
  exact (timerStep_same true w hQuiet).serving

theorem Sound.unscheduled (h : Sound s) (i : Nat) :
    Good (s.unscheduled i) ∧ (s.unscheduled i).k.serving = s.world.k.serving := by
  unfold Delays.unscheduled
  split
  · exact ⟨h.good.step trivial, serving_abort s.world i⟩
  · exact ⟨h.good, rfl⟩

theorem Sound.goOn (h : Sound s) {cpu : Nat} {world : World Nat} {res : Timeouts Nat × Option Nat}
    (hGood : Good world) (hk : world.k = res.1) (hServes : Serves cpu s.world.k res)
    (hFree : s.inFlight cpu = none) : Sound (s.goOn cpu world res.2) := by
  refine ⟨hGood, fun c i hFlight => ?_⟩
  change ∃ d, world.k.serving c = some (i, d)
  rw [hk]
  simp only [Delays.goOn] at hFlight
  by_cases hc : c = cpu
  · subst hc
    cases hNext : res.2 with
    | none =>
      simp only [hNext] at hFlight
      rw [hFree] at hFlight
      exact absurd hFlight (by simp)
    | some j =>
      simp only [hNext, set_same] at hFlight
      exact hServes.2 i (hNext.trans hFlight)
  · rw [hServes.1 c hc]
    refine h.flight c i ?_
    cases hNext : res.2 with
    | none => simpa only [hNext] using hFlight
    | some j => simpa only [hNext, set_ne _ _ hc] using hFlight

theorem Sound.step (h : Sound s) {op : DelayOp} (hOp : Orderly s op) : Sound (delayStep s op) := by
  cases op with
  | other op => exact ⟨h.good, h.flight⟩
  | schedule caller i queue ticks e =>
    unfold delayStep
    by_cases hAdds : s.adds i ticks = true
    · have hGood : Good (timerStep true s.world (.add i ticks e)) := h.good.step (hOp.2 hAdds)
      simp only [if_pos hAdds]
      refine ⟨hGood, fun c j hFlight => ?_⟩
      simp only [serving_add]
      exact h.flight c j hFlight
    · simp only [if_neg hAdds]
      exact ⟨h.good, h.flight⟩
  | reschedule caller i queue ticks e =>
    obtain ⟨hGood, hServing⟩ := h.unscheduled i
    unfold delayStep
    by_cases hTicks : ticks = 0
    · simp only [if_pos hTicks]
      exact ⟨hGood, fun c j hFlight => hServing ▸ h.flight c j hFlight⟩
    · have hAdded : Good (timerStep true (s.unscheduled i) (.add i ticks e)) :=
        hGood.step (hOp.2 hTicks)
      simp only [if_neg hTicks]
      refine ⟨hAdded, fun c j hFlight => ?_⟩
      simp only [serving_add, hServing]
      exact h.flight c j hFlight
  | cancelDelayable i | cancelDelayableSync _ i | flushDelayable _ _ i =>
    obtain ⟨hGood, hServing⟩ := h.unscheduled i
    exact ⟨hGood, fun c j hFlight => hServing ▸ h.flight c j hFlight⟩
  | announce cpu ticks =>
    exact h.goOn (h.good.step hOp.1) rfl (sysClockAnnounce_serves cpu ticks s.world.k) hOp.2
  | callback cpu =>
    change Sound (s.call cpu)
    unfold Delays.call
    split
    · exact h
    · refine ⟨h.good, fun c j hFlight => h.flight c j ?_⟩
      by_cases hc : c = cpu
      · simp [hc] at hFlight
      · simpa only [set_ne _ _ hc] using hFlight
  | ret cpu => exact h.goOn (h.good.step hOp.1) rfl (callbackReturn_serves cpu s.world.k) hOp.2

/-! ## What becomes of a schedule -/

/-- The ways a schedule of item `i` with the timeout `en` can stand, `old` being the ticks at which
the item was submitted before: its timeout is on the list, a CPU has taken it off, or the item has
been submitted. -/
inductive Phase (s : Delays) (i : Nat) (en : Entry Nat) (old : List Nat) : Prop
  | waiting (hMark : (s.work.flags i).delayed = true) (hListed : i ∈ keys s.world)
      (hEntry : s.world.current i = en) (hNone : ∀ c, s.inFlight c ≠ some i)
      (hLog : s.submitted i = old)
  | taken (cpu : Nat) (hMark : (s.work.flags i).delayed = true) (hGone : i ∉ keys s.world)
      (hHere : s.inFlight cpu = some i) (hOnly : ∀ c, c ≠ cpu → s.inFlight c ≠ some i)
      (hPast : en.expiry ≤ s.world.now) (hLog : s.submitted i = old)
  | ended (tick : Nat) (hMark : (s.work.flags i).delayed = false) (hGone : i ∉ keys s.world)
      (hNone : ∀ c, s.inFlight c ≠ some i) (hPast : en.expiry ≤ tick)
      (hLog : s.submitted i = old ++ [tick])

theorem Phase.frame {t : Delays} (h : Phase s i en old)
    (hMark : (t.work.flags i).delayed = (s.work.flags i).delayed)
    (hWorld : SameFor i s.world t.world)
    (hFlight : ∀ c, t.inFlight c = some i ↔ s.inFlight c = some i)
    (hLog : t.submitted i = s.submitted i) : Phase t i en old := by
  cases h with
  | waiting hm hl he hn hg =>
    exact .waiting (hMark.trans hm) (hWorld.keys.mpr hl) (hWorld.current.trans he)
      (fun c => (hFlight c).not.mpr (hn c)) (hLog.trans hg)
  | taken cpu hm hk hh ho hp hg =>
    exact .taken cpu (hMark.trans hm) (hWorld.keys.not.mpr hk) ((hFlight cpu).mpr hh)
      (fun c hc => (hFlight c).not.mpr (ho c hc)) (by rw [hWorld.now]; exact hp) (hLog.trans hg)
  | ended tick hm hk hn hp hg =>
    exact .ended tick (hMark.trans hm) (hWorld.keys.not.mpr hk)
      (fun c => (hFlight c).not.mpr (hn c)) hp (hLog.trans hg)

/-- Time passes: the timeout stays on the list, or it is taken off at its expiry or later. -/
theorem Phase.goOn (h : Phase s i en old) {cpu A : Nat} {res : Timeouts Nat × Option Nat}
    (hTakes : Takes s.world.k res) (hNodup : (keys s.world).Nodup) (hFree : s.inFlight cpu = none)
    (hGood : Good (World.advance { s.world with announced := A } res)) :
    Phase (s.goOn cpu (World.advance { s.world with announced := A } res) res.2) i en old := by
  have hLater : s.world.now ≤ (World.advance { s.world with announced := A } res).now :=
    Nat.le_add_right _ _
  rcases hTakes with ⟨hNext, hKeys⟩ | ⟨j, hNext, hKeys⟩
  · have hSame : keys (World.advance { s.world with announced := A } res) = keys s.world := hKeys
    rw [hNext]
    cases h with
    | waiting hm hl he hn hg => exact .waiting hm (hSame ▸ hl) he hn hg
    | taken c hm hk hh ho hp hg =>
      exact .taken c hm (hSame ▸ hk) hh ho (Nat.le_trans hp hLater) hg
    | ended tick hm hk hn hp hg => exact .ended tick hm (hSame ▸ hk) hn hp hg
  · have hOld : keys s.world = j :: keys (World.advance { s.world with announced := A } res) :=
      hKeys
    rw [hOld, List.nodup_cons] at hNodup
    have hFlight : ∀ c, c ≠ cpu → set s.inFlight cpu (some j) c = s.inFlight c :=
      fun c hc => set_ne _ _ hc
    rw [hNext]
    have hOther : i ∉ keys s.world → j ≠ i := by
      intro hGone hEq
      rw [hOld, hEq] at hGone
      exact hGone List.mem_cons_self
    have hSub : i ∉ keys s.world → i ∉ keys (World.advance { s.world with announced := A } res) :=
      fun hGone hMem => hGone (by rw [hOld]; exact List.mem_cons_of_mem j hMem)
    have hNone : j ≠ i → (∀ c, s.inFlight c ≠ some i) →
        ∀ c, set s.inFlight cpu (some j) c ≠ some i := by
      intro hj hn c
      by_cases hc : c = cpu
      · rw [hc, set_same]
        simpa using hj
      · rw [hFlight c hc]
        exact hn c
    cases h with
    | waiting hm hl he hn hg =>
      by_cases hj : j = i
      · -- this is the timeout that is taken off
        subst hj
        refine .taken cpu hm hNodup.1 (set_same ..) (fun c hc => ?_) ?_ hg
        · change set s.inFlight cpu (some j) c ≠ some j
          rw [hFlight c hc]
          exact hn c
        · obtain ⟨q, hCore, _⟩ := hGood
          have hFired : ⟨s.world.current j, res.1.currTick⟩ ∈
              (World.advance { s.world with announced := A } res).fired := by
            simp [World.advance, hNext]
          have hPast := hCore.fired_past _ hFired
          rw [he] at hPast
          exact hPast
      · refine .waiting hm ?_ he (hNone hj hn) hg
        rw [hOld] at hl
        exact (List.mem_cons.mp hl).resolve_left (Ne.symm hj)
    | taken c hm hk hh ho hp hg =>
      have hNe : c ≠ cpu := by
        rintro rfl
        rw [hFree] at hh
        exact absurd hh (by simp)
      refine .taken c hm (hSub hk) ((hFlight c hNe).trans hh) (fun c' hc' => ?_)
        (Nat.le_trans hp hLater) hg
      change set s.inFlight cpu (some j) c' ≠ some i
      by_cases hc : c' = cpu
      · rw [hc, set_same]
        simpa using hOther hk
      · rw [hFlight c' hc]
        exact ho c' hc'
    | ended tick hm hk hn hp hg => exact .ended tick hm (hSub hk) (hNone (hOther hk) hn) hp hg

/-- A call of a timeout: that of the item submits it, and others do not concern it. -/
theorem Phase.call (h : Phase s i en old) (cpu : Nat) : Phase (s.call cpu) i en old := by
  cases hCalled : s.inFlight cpu with
  | none =>
    have hSame : s.call cpu = s := by simp [Delays.call, hCalled]
    rw [hSame]
    exact h
  | some j =>
    have hCall : s.call cpu =
        { s with
          work := step s.work (.timeout j)
          inFlight := set s.inFlight cpu none
          submits :=
            if (s.work.flags j).delayed then s.submits ++ [(j, s.world.now)]
            else s.submits } := by
      simp [Delays.call, hCalled]
    rw [hCall]
    by_cases hj : j = i
    · subst hj
      cases h with
      | waiting _ _ _ hn _ => exact absurd hCalled (hn cpu)
      | ended _ _ _ hn _ _ => exact absurd hCalled (hn cpu)
      | taken c hm hk hh ho hp hg =>
        obtain rfl : cpu = c := by
          by_contra hc
          exact ho cpu hc hCalled
        refine .ended s.world.now ?_ hk (fun c' => ?_) hp ?_
        · simp [timeout_delayed]
        · by_cases hc : c' = cpu
          · simp [hc]
          · simpa only [set_ne _ _ hc] using ho c' hc
        · rw [← hg]
          simp [Delays.submitted, hm]
    · refine h.frame ?_ ⟨Iff.rfl, rfl, rfl⟩ (fun c => ?_) ?_
      · simp [timeout_delayed, Ne.symm hj]
      · by_cases hc : c = cpu
        · subst hc
          simp [hCalled, hj]
        · simp only [set_ne _ _ hc]
      · simp only [Delays.submitted]
        split
        · simp [hj]
        · rfl

theorem Sound.keys_nodup (h : Sound s) : (keys s.world).Nodup := by
  obtain ⟨q, hCore, _⟩ := h.good
  exact hCore.keys_nodup

theorem Phase.step (h : Phase s i en old) (hSound : Sound s) {op : DelayOp} (hOp : Orderly s op)
    (hLeaves : Leaves i op) : Phase (delayStep s op) i en old := by
  cases op with
  | other op =>
    exact h.frame (step_delayed_of_untimed s.work i hOp.1) ⟨Iff.rfl, rfl, rfl⟩
      (fun _ => Iff.rfl) rfl
  | schedule caller j queue ticks e =>
    have hNe : i ≠ j := Ne.symm hLeaves
    refine h.frame (step_delayed_of_ne s.work j i rfl hNe) ?_ (fun _ => Iff.rfl) rfl
    simp only [delayStep]
    split
    · exact sameFor_add s.world hNe ticks e
    · exact ⟨Iff.rfl, rfl, rfl⟩
  | reschedule caller j queue ticks e =>
    have hNe : i ≠ j := Ne.symm hLeaves
    refine h.frame (step_delayed_of_ne s.work j i rfl hNe) ?_ (fun _ => Iff.rfl) rfl
    simp only [delayStep]
    split
    · exact sameFor_unscheduled s hNe
    · exact (sameFor_unscheduled s hNe).trans (sameFor_add _ hNe ticks e)
  | cancelDelayable j | cancelDelayableSync _ j | flushDelayable _ _ j =>
    have hNe : i ≠ j := Ne.symm hLeaves
    exact h.frame (step_delayed_of_ne s.work j i rfl hNe) (sameFor_unscheduled s hNe)
      (fun _ => Iff.rfl) rfl
  | announce cpu ticks =>
    exact h.goOn (sysClockAnnounce_takes cpu ticks s.world.k) hSound.keys_nodup hOp.2
      (hSound.good.step hOp.1)
  | callback cpu => exact h.call cpu
  | ret cpu =>
    have hGood : Good (timerStep true s.world (.ret cpu)) := hSound.good.step hOp.1
    exact h.goOn (callbackReturn_takes cpu s.world.k) hSound.keys_nodup hOp.2 hGood

/-- A schedule that stands in one of these ways has been honoured so far. -/
theorem Phase.honoured {t : Delays} (h : Phase t i en (s.submitted i)) (hSound : Sound t) :
    Honoured s i en.expiry t := by
  cases h with
  | waiting hm hl he hn hg =>
    refine ⟨[], by simp [hg], by simp, by simp, fun hDue hIdle => ?_⟩
    -- between announces nothing on the list is due
    obtain ⟨q, hCore, hPhase⟩ := hSound.good
    rw [keys, hCore.list_shows.keys, List.mem_map] at hl
    obtain ⟨a, ha, rfl⟩ := hl
    rw [← he, hCore.current a ha] at hDue
    rcases hPhase with hAt | ⟨cpu, dt, hServed⟩
    · exact absurd hDue (Nat.not_le.mpr (hAt.later a ha))
    · obtain ⟨f, _, _, hServing⟩ := hServed.server
      rw [hIdle cpu] at hServing
      exact absurd hServing (by simp)
  | taken cpu hm hk hh ho hp hg =>
    refine ⟨[], by simp [hg], by simp, by simp, fun _ hIdle => ?_⟩
    obtain ⟨d, hServing⟩ := hSound.flight cpu i hh
    rw [hIdle cpu] at hServing
    exact absurd hServing (by simp)
  | ended tick hm hk hn hp hg =>
    exact ⟨[tick], hg, by simp, by simpa using hp, fun _ _ => rfl⟩

/-- What the continuations of a state keep. -/
def Tracked (i : Nat) (en : Entry Nat) (old : List Nat) (s : Delays) : Prop :=
  Sound s ∧ Phase s i en old

/-- **A reschedule is honoured** whatever follows, other calls on the item apart, exactly if no CPU
has taken the item's timeout off the list and not called it yet. -/
theorem reschedule_honoured_iff (delayable : Nat → Bool) (ops : List DelayOp)
    (hOps : Admissible delayStep Orderly (Delays.start delayable) ops) (caller : Option Nat)
    (i : Nat) (queue : Option Nat) (ticks : Int) (e : Nat) (hTicks : 1 ≤ ticks) (s t : Delays)
    (hs : s = exec delayStep (Delays.start delayable) ops)
    (hOp : Orderly s (.reschedule caller i queue ticks e))
    (ht : t = delayStep s (.reschedule caller i queue ticks e)) :
    (∀ more, Admissible delayStep (fun u op => Orderly u op ∧ Leaves i op) t more →
        Honoured t i ((s.unscheduled i).newEntry i ticks e).expiry (exec delayStep t more)) ↔
      ∀ cpu, s.inFlight cpu ≠ some i := by
  have hSound : Sound s := by
    rw [hs]
    exact exec_invariant (fun _ _ h hOp => h.step hOp) ops _ (sound_start delayable) hOps
  have hNext : Sound t := by
    rw [ht]
    exact hSound.step hOp
  have hZero : ticks ≠ 0 := by omega
  have hForever : ticks ≠ -1 := by omega
  have hWorld : t.world = timerStep true (s.unscheduled i) (.add i ticks e) := by
    rw [ht]
    simp [delayStep, hZero]
  have hMark : (t.work.flags i).delayed = true := by
    rw [ht]
    simp only [delayStep, hZero, decide_false]
    exact reschedule_delayed s.work i caller queue
  have hFlight : t.inFlight = s.inFlight := by rw [ht]; rfl
  constructor
  · intro hAll cpu hCalled
    -- the call that is under way submits the item at once
    have hHere : t.inFlight cpu = some i := by rw [hFlight]; exact hCalled
    have hAdm : Admissible delayStep (fun u op => Orderly u op ∧ Leaves i op) t
        [.callback cpu] := ⟨⟨by rw [Orderly, hHere]; simp, trivial⟩, trivial⟩
    obtain ⟨new, hNew, _, hPast, _⟩ := hAll _ hAdm
    have hLog : (exec delayStep t [.callback cpu]).submitted i =
        t.submitted i ++ [t.world.now] := by
      simp [delayStep, Delays.call, hHere, Delays.submitted, hMark]
    have hEq : new = [t.world.now] := List.append_cancel_left (hNew.symm.trans hLog)
    have hEarly := hPast t.world.now (by simp [hEq])
    -- but the new timeout is later than that
    obtain ⟨q, hCore, _⟩ := (hSound.unscheduled i).1
    obtain ⟨hNew, he, hBound⟩ := (hOp.2 hZero).resolve_left hForever
    have hLater := (hCore.add true hForever hNew he hBound).2
    have hNow : t.world.now = (s.unscheduled i).now := by
      have hQuiet : (TimerOp.add i ticks e).Quiet := trivial
      rw [hWorld, (timerStep_same true (s.unscheduled i) hQuiet).now]
    omega
  · intro hNone more hMore
    have hStart : Tracked i ((s.unscheduled i).newEntry i ticks e) (t.submitted i) t := by
      obtain ⟨hListed, hEntry⟩ := keys_add (s.unscheduled i) i e hForever
      refine ⟨hNext, .waiting hMark (hWorld ▸ hListed) (hWorld ▸ hEntry) (fun c => ?_) rfl⟩
      rw [hFlight]
      exact hNone c
    have hKeep : ∀ u op, Tracked i ((s.unscheduled i).newEntry i ticks e) (t.submitted i) u →
        Orderly u op ∧ Leaves i op →
        Tracked i ((s.unscheduled i).newEntry i ticks e) (t.submitted i) (delayStep u op) :=
      fun u op h hOp => ⟨h.1.step hOp.1, h.2.step h.1 hOp.1 hOp.2⟩
    have hEnd := exec_invariant hKeep more t hStart hMore
    exact hEnd.2.honoured hEnd.1

/-- An item that is scheduled and waits is rescheduled for an earlier time. -/
theorem reschedule_honoured_iff_waiting :
    Admissible delayStep Orderly (Delays.start fun _ => true)
        [.other (.start 0), .schedule none 7 (some 0) 5 0] ∧
      ∃ s, s = exec delayStep (Delays.start fun _ => true)
          [.other (.start 0), .schedule none 7 (some 0) 5 0] ∧
        Orderly s (.reschedule none 7 (some 0) 2 0) ∧
        ∀ more, Admissible delayStep (fun u op => Orderly u op ∧ Leaves 7 op)
            (delayStep s (.reschedule none 7 (some 0) 2 0)) more →
          Honoured (delayStep s (.reschedule none 7 (some 0) 2 0)) 7
            ((s.unscheduled 7).newEntry 7 2 0).expiry
            (exec delayStep (delayStep s (.reschedule none 7 (some 0) 2 0)) more) := by
  have hOps : Admissible delayStep Orderly (Delays.start fun _ => true)
      [.other (.start 0), .schedule none 7 (some 0) 5 0] :=
    ⟨⟨rfl, by decide⟩, ⟨by decide, fun _ => Or.inr (by decide)⟩, trivial⟩
  refine ⟨hOps, _, rfl, ?_⟩
  have hOp : Orderly (exec delayStep (Delays.start fun _ => true)
      [.other (.start 0), .schedule none 7 (some 0) 5 0]) (.reschedule none 7 (some 0) 2 0) :=
    ⟨by decide, fun _ => Or.inr (by decide)⟩
  exact ⟨hOp, (reschedule_honoured_iff (fun _ => true) _ hOps none 7 (some 0) 2 0 (by decide) _ _
    rfl hOp rfl).mpr (fun cpu => by simp [delayStep, Delays.start])⟩

/-- The timeout of item 7 expires and CPU 0 takes it off the list.  Before CPU 0 calls it, the item
is rescheduled for tick 103.  The call then submits it at tick 2, and the new timeout is left on the
list without the mark. -/
theorem reschedule_in_flight_is_early :
    Admissible delayStep Orderly (Delays.start fun _ => true)
        [.other (.start 0), .schedule none 7 (some 0) 1 0, .announce 0 2,
          .reschedule none 7 (some 0) 100 0, .callback 0] ∧
      ∃ s t, s = exec delayStep (Delays.start fun _ => true)
          [.other (.start 0), .schedule none 7 (some 0) 1 0, .announce 0 2] ∧
        t = exec delayStep s [.reschedule none 7 (some 0) 100 0, .callback 0] ∧
        ((s.unscheduled 7).newEntry 7 100 0).expiry = 103 ∧ t.submitted 7 = [2] ∧
        t.work.pending 0 = [.item 7] ∧ 7 ∈ keys t.world ∧ (t.work.flags 7).delayed = false := by
  refine ⟨⟨⟨rfl, by decide⟩, ⟨by decide, fun _ => Or.inr (by decide)⟩,
    ⟨⟨fun _ => rfl, by decide, by decide⟩, rfl⟩, ⟨by decide, fun _ => Or.inr (by decide)⟩, ?_,
    trivial⟩, _, _, rfl, rfl, ?_⟩
  · unfold Orderly
    decide +kernel
  · decide +kernel

end Zvm.Kernel.WorkQueue
