import Zvm.Kernel.WorkQueue

/-!
# Where work items are

The moves the operations of the work queues are made of, and the invariant that every move keeps:
the lists and the current items of the queues agree with the flags of the items, and every accepted
submission is queued, has been run or has been removed, one of the three and once.

From it follow the statement about the flags in every state of a run and, with the order of the
pending list, that an item which is queued gets its turn (`work_items_run_once`).
-/

namespace Zvm.Kernel.WorkQueue

open Zvm.Verified Zvm.Verified.FunArray Zvm.Verified.Run

/-! ## Moves -/

/-- The moves that put a flusher into a list, that take the first work of `q` and that finish the
current one; in all others works leave a list or join it at the end, or no list changes. -/
inductive Kind where
  | calm
  | flush
  | turn (q : Nat)
  | finish (q : Nat)

/-- One change of the state, with what the code has checked before it makes it. -/
inductive Move (s : State) : Kind → State → Prop
  | enqueue (i q : Nat) (hFree : (s.flags i).canceling = false) (hOut : (s.flags i).queued = false)
      (hHome : (s.flags i).running = true → s.queue i = some q)
      (hOn : (s.qflags q).started = true) : Move s .calm (s.enqueue i q)
  | remove (i q : Nat) (hIn : (s.flags i).queued = true) (hAt : s.queue i = some q) :
      Move s .calm (queueRemoveLocked s i)
  | mark (i : Nat) (hRun : (s.flags i).running = true) (hOut : (s.flags i).queued = false) :
      Move s .calm (s.mark i)
  | delay (i : Nat) (b : Bool) (dq : Nat → Option Nat) (hKind : s.delayable i = true) :
      Move s .calm { s.delay i b with delayQueue := dq }
  | record (c i : Nat) (hMark : (s.flags i).canceling = true) (hFree : s.waiting c = none) :
      Move s .calm (s.record c i)
  | flusher (f i q : Nat) (hBusy : (s.flags i).queued = true ∨ (s.flags i).running = true)
      (hAt : s.queue i = some q) (hFree : s.waiting f = none) :
      Move s .flush (queueFlusherLocked s q i f)
  | take (q : Nat) (hOn : (s.qflags q).started = true) (hDone : s.current q = none)
      (hAwake : s.asleep q = false) : Move s (.turn q) (takeWork s q)
  | finish (q : Nat) (w : Work) (hCurrent : s.current q = some w) :
      Move s (.finish q) (finishWork s q)
  | drain (d q : Nat) (plug : Bool) (hOn : (s.qflags q).started = true)
      (hFree : s.waiting d = none) : Move s .calm (s.drainWait d q plug)
  | unplug (q : Nat) : Move s .calm (kWorkQueueUnplug s q).1
  | start (q : Nat) (hOff : (s.qflags q).started = false) : Move s .calm (kWorkQueueStart s q)

/-! ## The invariant -/

/-- The flags of the items against the lists and the current items of the queues. -/
structure Places (s : State) : Prop where
  listed : ∀ i q, .item i ∈ s.pending q ↔ (s.flags i).queued = true ∧ s.queue i = some q
  once : ∀ q, (s.pending q).Nodup
  runs : ∀ i q, s.current q = some (.item i) ↔ (s.flags i).running = true ∧ s.queue i = some q
  placed : ∀ i, (s.flags i).queued = true ∨ (s.flags i).running = true → ∃ q, s.queue i = some q
  opened : ∀ q, s.pending q ≠ [] ∨ s.current q ≠ none → (s.qflags q).started = true
  awake : ∀ q, s.asleep q = true → s.pending q = [] ∧ s.current q = none

/-- Which flags an item can have at one time; only a delayable one is ever delayed. -/
structure Flags.Legal (f : Flags) (delayable : Bool) : Prop where
  canceling : f.canceling = true → f.running = true ∧ f.queued = false
  delayed : delayable = false → f.delayed = false
  flushing : f.flushing = false

def Marks (s : State) : Prop := ∀ i, (s.flags i).Legal (s.delayable i)

/-- The work of flusher `f` is in the list of `q` or its thread has taken it. -/
def HasFlusher (s : State) (f q : Nat) : Prop :=
  .flusher f ∈ s.pending q ∨ s.current q = some (.flusher f)

structure Flushers (s : State) : Prop where
  waits : ∀ f q, HasFlusher s f q → s.waiting f = some (.flush q)
  marked : ∀ f q, HasFlusher s f q → (s.flusherFlags f).flushing = true
  apart : ∀ f q, s.current q = some (.flusher f) → .flusher f ∉ s.pending q
  plain : ∀ f, (s.flusherFlags f).canceling = false

/-- The threads in the list of cancellations and in the drain queues wait for just that. -/
structure Waits (s : State) : Prop where
  records : ∀ r ∈ s.cancels, s.waiting r.1 = some (.cancel r.2)
  single : (s.cancels.map Prod.fst).Nodup
  drainers : ∀ q, ∀ d ∈ s.drainq q, s.waiting d = some (.drain q)

/-- Every accepted submission is queued, started or removed: one of the three, and once. -/
structure Tickets (s : State) : Prop where
  counted : ∀ n i, s.accepted[n]? = some i →
    s.started.count (n, i) + s.removed.count (n, i) +
      (if (s.flags i).queued = true ∧ s.ticket i = n then 1 else 0) = 1
  logged : ∀ p ∈ s.started ++ s.removed, s.accepted[p.1]? = some p.2
  issued : ∀ i, (s.flags i).queued = true → s.accepted[s.ticket i]? = some i

structure Inv (s : State) : Prop where
  places : Places s
  marks : Marks s
  flushers : Flushers s
  waits : Waits s
  tickets : Tickets s

theorem inv_init (delayable : Nat → Bool) :
    Inv (init delayable) where
  places := by constructor <;> simp [init, Flags.idle]
  marks := by intro i; constructor <;> simp [init, Flags.idle]
  flushers := by constructor <;> simp [init, HasFlusher, Flags.idle]
  waits := by constructor <;> simp [init]
  tickets := by constructor <;> simp [init, Flags.idle]

variable {s t : State} {k : Kind}

/-! ## The two parts of a round -/

variable {q f i n m p : Nat} {w x y : Work} {l : List Work} {op : Op}

theorem takeWork_cons {rest : List Work} (hHead : s.pending q = w :: rest) :
    takeWork s q =
      { s.startRun w with
        pending := set s.pending q rest
        qflags := set s.qflags q { s.qflags q with busy := true }
        current := set s.current q (some w) } := by
  unfold takeWork
  rw [hHead]

theorem takeWork_nil (hEmpty : s.pending q = []) :
    takeWork s q =
      if (s.qflags q).drain then
        { s.wakeDrainers q with
          qflags := set s.qflags q { s.qflags q with drain := false }
          asleep := set s.asleep q true }
      else { s with asleep := set s.asleep q true } := by
  unfold takeWork
  rw [hEmpty]

/-- The end of a flusher releases its thread. -/
theorem Flushers.finishWork_eq (h : Flushers s) (hCurrent : s.current q = some (.flusher f)) :
    finishWork s q =
      { s with
        flusherFlags :=
          set s.flusherFlags f { s.flusherFlags f with running := false, flushing := false }
        waiting := set s.waiting f none
        qflags := set s.qflags q { s.qflags q with busy := false }
        current := set s.current q none } := by
  simp [finishWork, hCurrent, finalize, State.endRun, State.flagsOf, finalizeFlushLocked,
    State.setFlags, h.marked f q (Or.inr hCurrent), h.plain f]

/-- The threads that wait after the end of an item: one with a record of it no longer does. -/
def waitingAfter (s : State) (i : Nat) : Nat → Option Wait :=
  match if (s.flags i).canceling then s.cancels.find? (fun r => r.2 = .item i) else none with
  | none => s.waiting
  | some r => set s.waiting r.1 none

theorem finishWork_item (hCurrent : s.current q = some (.item i))
    (hPlain : (s.flags i).flushing = false) :
    finishWork s q =
      { s with
        flags := set s.flags i { s.flags i with running := false, canceling := false }
        finished := s.finished ++ [(s.run i, i)]
        cancels :=
          if (s.flags i).canceling then s.cancels.eraseP (fun r => r.2 = .item i) else s.cancels
        waiting := waitingAfter s i
        qflags := set s.qflags q { s.qflags q with busy := false }
        current := set s.current q none } := by
  simp only [finishWork, hCurrent, finalize, State.endRun, State.flagsOf, set_same, hPlain,
    Bool.false_eq_true, if_false]
  cases hMark : (s.flags i).canceling with
  | false =>
    simp only [Bool.false_eq_true, if_false, waitingAfter, hMark]
  | true =>
    simp only [if_true, waitingAfter, hMark, finalizeCancelLocked]
    cases hFind : s.cancels.find? (fun r => r.2 = .item i) with
    | none =>
      have hNone : s.cancels.eraseP (fun r => r.2 = .item i) = s.cancels :=
        List.eraseP_of_forall_not (List.find?_eq_none.mp hFind)
      simp [State.setFlags, State.flagsOf, hNone]
    | some r => simp [State.setFlags, State.flagsOf]

/-! ## The moves keep the invariant -/

/-- The places depend on no more than this. -/
theorem Places.frame (h : Places s) (hPending : t.pending = s.pending)
    (hFlags : ∀ i, (t.flags i).queued = (s.flags i).queued ∧
      (t.flags i).running = (s.flags i).running)
    (hQueue : t.queue = s.queue) (hCurrent : t.current = s.current)
    (hStarted : ∀ q, (s.qflags q).started = true → (t.qflags q).started = true)
    (hAsleep : ∀ q, t.asleep q = true → s.asleep q = true) : Places t where
  listed i q := by rw [hPending, hQueue, (hFlags i).1]; exact h.listed i q
  once q := by rw [hPending]; exact h.once q
  runs i q := by rw [hCurrent, hQueue, (hFlags i).2]; exact h.runs i q
  placed i := by rw [hQueue, (hFlags i).1, (hFlags i).2]; exact h.placed i
  opened q := by rw [hPending, hCurrent]; exact fun hSome => hStarted q (h.opened q hSome)
  awake q hSleep := by rw [hPending, hCurrent]; exact h.awake q (hAsleep q hSleep)

/-- An item that is not queued is in no list. -/
theorem Places.not_mem (h : Places s) (hOut : (s.flags i).queued = false) (q : Nat) :
    .item i ∉ s.pending q := by
  intro hMem
  have hIn := ((h.listed i q).mp hMem).1
  rw [hOut] at hIn
  exact Bool.false_ne_true hIn

theorem Places.enqueue (h : Places s) (hOut : (s.flags i).queued = false)
    (hHome : (s.flags i).running = true → s.queue i = some q) (hOn : (s.qflags q).started = true) :
    Places (s.enqueue i q) where
  listed j p := by
    have hOld := h.listed j p
    have hNew := h.not_mem hOut p
    simp only [State.enqueue]
    grind -linarith
  once p := by
    have hOld := h.once p
    have hNew := h.not_mem hOut p
    simp only [State.enqueue]
    grind -linarith
  runs j p := by
    have hOld := h.runs j p
    simp only [State.enqueue]
    grind -linarith
  placed j := by
    have hOld := h.placed j
    simp only [State.enqueue]
    grind -linarith
  opened p := by
    have hOld := h.opened p
    simp only [State.enqueue]
    grind -linarith
  awake p := by
    have hOld := h.awake p
    simp only [State.enqueue]
    grind -linarith

theorem queueRemoveLocked_eq (hIn : (s.flags i).queued = true) (hAt : s.queue i = some q) :
    queueRemoveLocked s i =
      { s with
        flags := set s.flags i { s.flags i with queued := false }
        pending := set s.pending q ((s.pending q).erase (.item i))
        removed := s.removed ++ [(s.ticket i, i)] } := by
  unfold queueRemoveLocked
  rw [hIn, hAt]

theorem Places.remove (h : Places s) (hIn : (s.flags i).queued = true) (hAt : s.queue i = some q) :
    Places (queueRemoveLocked s i) := by
  rw [queueRemoveLocked_eq hIn hAt]
  have hErase : ∀ w p, w ∈ set s.pending q ((s.pending q).erase (.item i)) p ↔
      w ∈ s.pending p ∧ (w = .item i → p ≠ q) := by
    intro w p
    have hOnce := (h.once q).mem_erase_iff (a := Work.item i) (b := w)
    grind -linarith
  exact
    { listed := by
        intro j p
        have hOld := h.listed j p
        rw [hErase]
        grind -linarith
      once := by
        intro p
        have hOld := h.once p
        have hSub := (h.once q).erase (Work.item i)
        grind -linarith
      runs := by
        intro j p
        have hOld := h.runs j p
        grind -linarith
      placed := by
        intro j
        have hOld := h.placed j
        grind -linarith
      opened := by
        intro p
        have hOld := h.opened p
        grind -linarith
      awake := by
        intro p
        have hOld := h.awake p
        grind -linarith }

theorem mem_insertAfter (hMem : x ∈ l) : w ∈ insertAfter x y l ↔ w = y ∨ w ∈ l := by
  induction l with
  | nil => simp at hMem
  | cons a l ih =>
    rw [insertAfter]
    split
    · simp only [List.mem_cons]
      tauto
    · next hNe =>
        have hTail : x ∈ l := (List.mem_cons.mp hMem).resolve_left (Ne.symm hNe)
        simp only [List.mem_cons, ih hTail]
        tauto

theorem mem_placeFlusher : w ∈ placeFlusher l x y ↔ w = y ∨ w ∈ l := by
  unfold placeFlusher
  split
  · next hMem => exact mem_insertAfter hMem
  · exact List.mem_cons

/-- The list with the flusher is the list with one item more somewhere. -/
theorem placeFlusher_split (l : List Work) (x y : Work) :
    ∃ pre post, l = pre ++ post ∧ placeFlusher l x y = pre ++ y :: post := by
  unfold placeFlusher
  split
  · next hMem =>
      induction l with
      | nil => simp at hMem
      | cons a l ih =>
        rw [insertAfter]
        split
        · exact ⟨[a], l, rfl, rfl⟩
        · next hNe =>
            obtain ⟨pre, post, hEq, hPlace⟩ :=
              ih ((List.mem_cons.mp hMem).resolve_left (Ne.symm hNe))
            exact ⟨a :: pre, post, by rw [hEq]; rfl, by rw [hPlace]; rfl⟩
  · exact ⟨[], l, rfl, rfl⟩

theorem nodup_placeFlusher (hNodup : l.Nodup) (hNew : y ∉ l) : (placeFlusher l x y).Nodup := by
  obtain ⟨pre, post, hEq, hPlace⟩ := placeFlusher_split l x y
  rw [hPlace]
  rw [hEq] at hNodup hNew
  exact List.perm_middle.nodup_iff.mpr (List.nodup_cons.mpr ⟨hNew, hNodup⟩)

theorem Places.flusher (h : Places s)
    (hBusy : (s.flags i).queued = true ∨ (s.flags i).running = true) (hAt : s.queue i = some q)
    (hNew : .flusher f ∉ s.pending q) :
    Places (queueFlusherLocked s q i f) where
  listed j p := by
    have hOld := h.listed j p
    simp only [queueFlusherLocked]
    by_cases hp : p = q
    · subst hp
      rw [set_same, mem_placeFlusher]
      simpa using hOld
    · rwa [set_ne _ _ hp]
  once p := by
    have hOld := h.once p
    simp only [queueFlusherLocked]
    by_cases hp : p = q
    · subst hp
      rw [set_same]
      exact nodup_placeFlusher hOld hNew
    · rwa [set_ne _ _ hp]
  runs := h.runs
  placed := h.placed
  opened p := by
    have hOld := h.opened p
    have hHere : (s.qflags q).started = true := by
      rcases hBusy with hIn | hRun
      · exact h.opened q (Or.inl (List.ne_nil_of_mem ((h.listed i q).mpr ⟨hIn, hAt⟩)))
      · exact h.opened q (Or.inr (by rw [(h.runs i q).mpr ⟨hRun, hAt⟩]; simp))
    simp only [queueFlusherLocked]
    grind
  awake p := by
    have hOld := h.awake p
    simp only [queueFlusherLocked]
    grind

theorem Places.take (h : Places s) (hOn : (s.qflags q).started = true)
    (hDone : s.current q = none) : Places (takeWork s q) := by
  cases hList : s.pending q with
  | nil =>
    rw [takeWork_nil hList]
    have hSleep : ∀ p, set s.asleep q true p = true → s.pending p = [] ∧ s.current p = none := by
      intro p
      have hOld := h.awake p
      grind -linarith
    have hSame : ∀ p, (s.qflags p).started = true →
        (set s.qflags q { s.qflags q with drain := false } p).started = true := by
      intro p
      grind -linarith
    split
    · exact ⟨h.listed, h.once, h.runs, h.placed, fun p hp => hSame p (h.opened p hp), hSleep⟩
    · exact ⟨h.listed, h.once, h.runs, h.placed, h.opened, hSleep⟩
  | cons w rest =>
    rw [takeWork_cons hList]
    have hOnce := h.once q
    rw [hList] at hOnce
    have hFirst : w ∉ rest := (List.nodup_cons.mp hOnce).1
    have hMem : ∀ v p, v ∈ set s.pending q rest p ↔ v ∈ s.pending p ∧ (v = w → p ≠ q) := by
      intro v p
      grind -linarith
    have hNodup : ∀ p, (set s.pending q rest p).Nodup := by
      intro p
      have hOld := h.once p
      have hRest := (List.nodup_cons.mp hOnce).2
      grind -linarith
    have hOpen : ∀ p, set s.pending q rest p ≠ [] ∨ set s.current q (some w) p ≠ none →
        (set s.qflags q { s.qflags q with busy := true } p).started = true := by
      intro p
      have hOld := h.opened p
      grind -linarith
    have hAwake : ∀ p, s.asleep p = true →
        set s.pending q rest p = [] ∧ set s.current q (some w) p = none := by
      intro p
      have hOld := h.awake p
      grind -linarith
    cases w with
    | flusher f =>
      exact
        { listed := by intro j p; rw [hMem]; simpa [State.startRun] using h.listed j p
          once := hNodup
          runs := by
            intro j p
            have hOld := h.runs j p
            simp only [State.startRun]
            grind -linarith
          placed := h.placed
          opened := hOpen
          awake := hAwake }
    | item i =>
      have hHere := (h.listed i q).mp (by rw [hList]; simp)
      exact
        { listed := by
            intro j p
            have hOld := h.listed j p
            rw [hMem]
            simp only [State.startRun]
            grind -linarith
          once := hNodup
          runs := by
            intro j p
            have hOld := h.runs j p
            simp only [State.startRun]
            grind -linarith
          placed := by
            intro j
            have hOld := h.placed j
            simp only [State.startRun]
            grind -linarith
          opened := hOpen
          awake := hAwake }

theorem Places.finish (h : Places s) (hCurrent : s.current q = some w) (hMarks : Marks s)
    (hFlushers : Flushers s) : Places (finishWork s q) := by
  have hOpen : ∀ p, s.pending p ≠ [] ∨ set s.current q none p ≠ none →
      (set s.qflags q { s.qflags q with busy := false } p).started = true := by
    intro p
    have hOld := h.opened p
    grind -linarith
  have hAwake : ∀ p, s.asleep p = true → s.pending p = [] ∧ set s.current q none p = none := by
    intro p
    have hOld := h.awake p
    grind -linarith
  cases w with
  | flusher f =>
    rw [hFlushers.finishWork_eq hCurrent]
    exact
      { listed := h.listed
        once := h.once
        runs := by
          intro j p
          have hOld := h.runs j p
          grind -linarith
        placed := h.placed
        opened := hOpen
        awake := hAwake }
  | item i =>
    have hHere := (h.runs i q).mp hCurrent
    rw [finishWork_item hCurrent ((hMarks i).flushing)]
    exact
      { listed := by
          intro j p
          have hOld := h.listed j p
          grind -linarith
        once := h.once
        runs := by
          intro j p
          have hOld := h.runs j p
          grind -linarith
        placed := by
          intro j
          have hOld := h.placed j
          grind -linarith
        opened := hOpen
        awake := hAwake }

/-- The list of a queue that is not started is empty already. -/
theorem Places.set_nil (h : Places s) (hOff : (s.qflags q).started = false) :
    FunArray.set s.pending q [] = s.pending := by
  have hNil : s.pending q = [] := by
    by_contra hSome
    have hOn := h.opened q (Or.inl hSome)
    rw [hOff] at hOn
    exact Bool.false_ne_true hOn
  rw [← hNil, set_self]

theorem Places.start (h : Places s) (hOff : (s.qflags q).started = false) :
    Places (kWorkQueueStart s q) := by
  refine h.frame (h.set_nil hOff) (fun _ => ⟨rfl, rfl⟩) rfl rfl (fun p => ?_)
    (fun _ hSleep => hSleep)
  simp only [kWorkQueueStart]
  grind

theorem Places.move (h : Places s) (hMarks : Marks s) (hFlushers : Flushers s)
    (hMove : Move s k t) : Places t := by
  cases hMove with
  | enqueue i q _ hOut hHome hOn => exact h.enqueue hOut hHome hOn
  | remove i q hIn hAt => exact h.remove hIn hAt
  | mark i _ _ =>
    refine h.frame rfl (fun j => ?_) rfl rfl (fun _ hOn => hOn) (fun _ hSleep => hSleep)
    simp only [State.mark]
    grind
  | delay i b dq _ =>
    refine h.frame rfl (fun j => ?_) rfl rfl (fun _ hOn => hOn) (fun _ hSleep => hSleep)
    simp only [State.delay]
    grind
  | record c i _ _ =>
    exact h.frame rfl (fun _ => ⟨rfl, rfl⟩) rfl rfl (fun _ hOn => hOn) (fun _ hSleep => hSleep)
  | flusher f i q hBusy hAt hFree =>
    refine h.flusher hBusy hAt (fun hMem => ?_)
    have hWait := hFlushers.waits f q (Or.inl hMem)
    rw [hFree] at hWait
    exact absurd hWait (by simp)
  | take q hOn hDone _ => exact h.take hOn hDone
  | finish q w hCurrent => exact h.finish hCurrent hMarks hFlushers
  | drain d q plug hOn _ =>
    refine h.frame rfl (fun _ => ⟨rfl, rfl⟩) rfl rfl (fun p => ?_) (fun p => ?_)
    · simp only [State.drainWait]
      grind
    · simp only [State.drainWait]
      grind
  | unplug q =>
    refine h.frame rfl (fun _ => ⟨rfl, rfl⟩) rfl rfl (fun p => ?_) (fun _ hSleep => hSleep)
    simp only [kWorkQueueUnplug]
    grind
  | start q hOff => exact h.start hOff

/-- What an item's flags are set to is all that has to be checked. -/
theorem Marks.set (h : Marks s) {f : Flags} (hNew : f.Legal (s.delayable i)) (j : Nat) :
    (FunArray.set s.flags i f j).Legal (s.delayable j) := by
  exact set_elim (fun hj => hj ▸ hNew) fun _ => h j

theorem Marks.move (h : Marks s) (hFlushers : Flushers s) (hMove : Move s k t) : Marks t := by
  cases hMove with
  | enqueue i q hFree _ _ _ =>
    exact h.set ⟨fun hMark => absurd (hFree.symm.trans hMark) Bool.false_ne_true,
      (h i).delayed, (h i).flushing⟩
  | remove i q hIn hAt =>
    rw [queueRemoveLocked_eq hIn hAt]
    exact h.set ⟨fun hMark => ⟨((h i).canceling hMark).1, rfl⟩, (h i).delayed, (h i).flushing⟩
  | mark i hRun hOut => exact h.set ⟨fun _ => ⟨hRun, hOut⟩, (h i).delayed, (h i).flushing⟩
  | delay i b dq hKind =>
    exact h.set ⟨(h i).canceling,
      fun hPlain => absurd (hPlain.symm.trans hKind) Bool.false_ne_true, (h i).flushing⟩
  | take q _ _ _ =>
    cases hList : s.pending q with
    | nil =>
      rw [takeWork_nil hList]
      split <;> exact h
    | cons w rest =>
      rw [takeWork_cons hList]
      cases w with
      | flusher f => exact h
      | item i => exact h.set ⟨fun _ => ⟨rfl, rfl⟩, (h i).delayed, (h i).flushing⟩
  | finish q w hCurrent =>
    cases w with
    | flusher f =>
      rw [hFlushers.finishWork_eq hCurrent]
      exact h
    | item i =>
      rw [finishWork_item hCurrent (h i).flushing]
      exact h.set ⟨fun hMark => absurd hMark Bool.false_ne_true, (h i).delayed,
        (h i).flushing⟩
  | _ => exact h

/-- No flusher comes in, and those there are keep their threads waiting. -/
theorem Flushers.frame (h : Flushers s) (hHas : ∀ f q, HasFlusher t f q → HasFlusher s f q)
    (hApart : ∀ f q, t.current q = some (.flusher f) → .flusher f ∉ t.pending q)
    (hWait : ∀ f q, s.waiting f = some (.flush q) → HasFlusher t f q →
      t.waiting f = some (.flush q))
    (hFlags : ∀ f q, HasFlusher t f q →
      (t.flusherFlags f).flushing = (s.flusherFlags f).flushing)
    (hPlain : ∀ f, (t.flusherFlags f).canceling = (s.flusherFlags f).canceling) : Flushers t where
  waits f q hf := hWait f q (h.waits f q (hHas f q hf)) hf
  marked f q hf := by rw [hFlags f q hf]; exact h.marked f q (hHas f q hf)
  apart := hApart
  plain f := by rw [hPlain f]; exact h.plain f

/-- A move that brings no flusher into a list or onto a thread. -/
theorem Flushers.fewer (h : Flushers s)
    (hPending : ∀ f q, .flusher f ∈ t.pending q → .flusher f ∈ s.pending q)
    (hCurrent : ∀ f q, t.current q = some (.flusher f) → s.current q = some (.flusher f))
    (hWait : ∀ f q, s.waiting f = some (.flush q) → t.waiting f = some (.flush q))
    (hFlags : t.flusherFlags = s.flusherFlags) : Flushers t :=
  h.frame (fun f q => Or.imp (hPending f q) (hCurrent f q))
    (fun f q hCur hMem => h.apart f q (hCurrent f q hCur) (hPending f q hMem))
    (fun f q hw _ => hWait f q hw) (fun f _ _ => by rw [hFlags]) (fun f => by rw [hFlags])

/-- A thread whose record is not that of the item goes on waiting when the item ends. -/
theorem Waits.waitingAfter_eq (h : Waits s) {d : Nat}
    (hOther : s.waiting d ≠ some (.cancel (.item i))) : waitingAfter s i d = s.waiting d := by
  unfold waitingAfter
  cases hMark : (s.flags i).canceling with
  | false => simp
  | true =>
    cases hFind : s.cancels.find? (fun r => r.2 = .item i) with
    | none => simp
    | some r =>
      have hRec := h.records r (List.mem_of_find?_eq_some hFind)
      have hItem : r.2 = .item i := by simpa using List.find?_some hFind
      have hNe : d ≠ r.1 := by
        rintro rfl
        exact hOther (hItem ▸ hRec)
      simp [set_ne _ _ hNe]

theorem Flushers.move (h : Flushers s) (hPlaces : Places s) (hMarks : Marks s) (hWaits : Waits s)
    (hMove : Move s k t) : Flushers t := by
  cases hMove with
  | enqueue i q _ _ _ _ =>
    refine h.fewer (fun f p => ?_) (fun _ _ hCur => hCur) (fun _ _ hw => hw) rfl
    simp only [State.enqueue]
    grind -linarith
  | remove i q hIn hAt =>
    rw [queueRemoveLocked_eq hIn hAt]
    refine h.fewer (fun f p => ?_) (fun _ _ hCur => hCur) (fun _ _ hw => hw) rfl
    grind -linarith [List.mem_of_mem_erase]
  | record c i _ hFree =>
    refine h.fewer (fun _ _ hMem => hMem) (fun _ _ hCur => hCur) (fun f q hw => ?_) rfl
    simp only [State.record]
    grind -linarith
  | flusher f i q _ _ hFree =>
    have hNew : ∀ p, ¬ HasFlusher s f p := by
      intro p hHas
      have hWait := h.waits f p hHas
      rw [hFree] at hWait
      exact absurd hWait (by simp)
    have hMem : ∀ g p, .flusher g ∈ (queueFlusherLocked s q i f).pending p ↔
        .flusher g ∈ s.pending p ∨ (g = f ∧ p = q) := by
      intro g p
      simp only [queueFlusherLocked]
      by_cases hp : p = q
      · subst hp
        rw [set_same, mem_placeFlusher]
        simp [or_comm]
      · simp [set_ne _ _ hp, hp]
    have hHas : ∀ g p, HasFlusher (queueFlusherLocked s q i f) g p →
        HasFlusher s g p ∨ (g = f ∧ p = q) := by
      intro g p hg
      rcases hg with hIn | hCur
      · exact ((hMem g p).mp hIn).imp_left Or.inl
      · exact Or.inl (Or.inr hCur)
    refine ⟨fun g p hg => ?_, fun g p hg => ?_, fun g p hCur hIn => ?_, fun g => ?_⟩
    · have hOld := h.waits g p
      simp only [queueFlusherLocked]
      grind -linarith
    · have hOld := h.marked g p
      simp only [queueFlusherLocked]
      grind -linarith
    · rcases (hMem g p).mp hIn with hIn | ⟨rfl, rfl⟩
      · exact h.apart g p hCur hIn
      · exact hNew p (Or.inr hCur)
    · have hOld := h.plain g
      simp only [queueFlusherLocked, Flags.idle]
      grind -linarith
  | take q _ hDone _ =>
    cases hList : s.pending q with
    | nil =>
      rw [takeWork_nil hList]
      split
      · refine h.fewer (fun _ _ hMem => hMem) (fun _ _ hCur => hCur) (fun f p hw => ?_) rfl
        have hOther : f ∉ s.drainq q := by
          intro hMem
          have hDrain := hWaits.drainers q f hMem
          rw [hw] at hDrain
          exact absurd hDrain (by simp)
        simp only [State.wakeDrainers, if_neg hOther]
        exact hw
      · exact ⟨h.waits, h.marked, h.apart, h.plain⟩
    | cons w rest =>
      rw [takeWork_cons hList]
      have hOnce := hPlaces.once q
      rw [hList] at hOnce
      have hFirst : w ∉ rest := (List.nodup_cons.mp hOnce).1
      have hSub : ∀ v p, v ∈ set s.pending q rest p → v ∈ s.pending p := by
        intro v p
        grind -linarith
      cases w with
      | item i =>
        refine h.fewer (fun _ _ => hSub _ _) (fun f p hCur => ?_) (fun _ _ hw => hw) rfl
        simp only at hCur
        grind -linarith
      | flusher f =>
        have hIn : .flusher f ∈ s.pending q := by rw [hList]; simp
        refine h.frame (fun g p hg => ?_) (fun g p hCur hMem => ?_) (fun _ _ hw _ => hw)
          (fun g p _ => ?_) (fun g => ?_)
        · simp only [HasFlusher] at hg ⊢
          grind -linarith
        · have hOld := h.apart g p
          have hOldIn := hSub _ _ hMem
          simp only at hCur hMem
          grind -linarith
        · simp only [State.startRun]
          grind -linarith
        · simp only [State.startRun]
          grind -linarith
  | finish q w hCurrent =>
    cases w with
    | flusher f =>
      rw [h.finishWork_eq hCurrent]
      have hOnly := h.waits f q (Or.inr hCurrent)
      have hNot := h.apart f q hCurrent
      have hGone : ∀ g p,
          .flusher g ∈ s.pending p ∨ set s.current q none p = some (.flusher g) →
          HasFlusher s g p ∧ g ≠ f := by
        intro g p hg
        have hHas : HasFlusher s g p := by
          unfold HasFlusher
          grind -linarith
        have hWait := h.waits g p hHas
        refine ⟨hHas, ?_⟩
        rintro rfl
        grind -linarith
      refine h.frame (fun g p hg => (hGone g p hg).1) (fun g p hCur => ?_) (fun g p hw hg => ?_)
        (fun g p hg => ?_) (fun g => ?_)
      · have hOld := h.apart g p
        simp only at hCur
        grind -linarith
      · simp only [set_ne _ _ (hGone g p hg).2]
        exact hw
      · simp only [set_ne _ _ (hGone g p hg).2]
      · simp only
        grind -linarith
    | item i =>
      rw [finishWork_item hCurrent (hMarks i).flushing]
      refine h.fewer (fun _ _ hMem => hMem) (fun f p hCur => ?_) (fun f p hw => ?_) rfl
      · simp only at hCur
        grind -linarith
      · have hOther : s.waiting f ≠ some (.cancel (.item i)) := by rw [hw]; simp
        simp only [hWaits.waitingAfter_eq hOther]
        exact hw
  | drain d q plug _ hFree =>
    refine h.fewer (fun _ _ hMem => hMem) (fun _ _ hCur => hCur) (fun f p hw => ?_) rfl
    simp only [State.drainWait]
    grind -linarith
  | start q hOff =>
    refine h.fewer (fun f p hMem => ?_) (fun _ _ hCur => hCur) (fun _ _ hw => hw) rfl
    rwa [← hPlaces.set_nil hOff]
  | _ => exact ⟨h.waits, h.marked, h.apart, h.plain⟩

/-- A move that lets nobody go who has a record or waits for a drain keeps the waits. -/
theorem Waits.frame (h : Waits s) (hCancels : t.cancels = s.cancels)
    (hDrainq : ∀ q d, d ∈ t.drainq q → d ∈ s.drainq q)
    (hWait : ∀ d, (∀ q, s.waiting d ≠ some (.flush q)) → s.waiting d ≠ none →
      t.waiting d = s.waiting d) : Waits t where
  records r hr := by
    rw [hCancels] at hr
    have hOld := h.records r hr
    rw [hWait r.1 (by simp [hOld]) (by simp [hOld]), hOld]
  single := by rw [hCancels]; exact h.single
  drainers q d hd := by
    have hOld := h.drainers q d (hDrainq q d hd)
    rw [hWait d (by simp [hOld]) (by simp [hOld]), hOld]

theorem Waits.record (h : Waits s) {c : Nat} (hFree : s.waiting c = none) :
    Waits (s.record c i) where
  records r hr := by
    simp only [State.record, List.mem_append, List.mem_singleton] at hr ⊢
    rcases hr with hr | rfl
    · have hOld := h.records r hr
      grind
    · simp
  single := by
    have hNew : c ∉ s.cancels.map Prod.fst := by
      intro hMem
      obtain ⟨r, hr, rfl⟩ := List.mem_map.mp hMem
      rw [h.records r hr] at hFree
      exact absurd hFree (by simp)
    simp only [State.record, List.map_append, List.map_cons, List.map_nil]
    refine List.nodup_append.mpr ⟨h.single, List.nodup_singleton c, ?_⟩
    intro a ha b hb hEq
    rw [List.mem_singleton] at hb
    exact hNew (hb ▸ hEq ▸ ha)
  drainers q d hd := by
    have hOld := h.drainers q d hd
    simp only [State.record]
    grind

theorem Waits.wakeDrainers (h : Waits s) (q : Nat) :
    Waits (s.wakeDrainers q) where
  records r hr := by
    have hOld := h.records r hr
    have hOther := h.drainers q r.1
    simp only [State.wakeDrainers]
    grind
  single := h.single
  drainers p d hd := by
    have hOld := h.drainers p d
    have hOther := h.drainers q d
    simp only [State.wakeDrainers] at hd ⊢
    grind

/-- What is found is what is removed. -/
theorem eraseP_of_find?_eq_some {α : Type*} {p : α → Bool} {l : List α} {a : α}
    (hFind : l.find? p = some a) : ∃ pre post, l = pre ++ a :: post ∧ l.eraseP p = pre ++ post := by
  obtain ⟨hHere, pre, post, hSplit, hPre⟩ := List.find?_eq_some_iff_append.mp hFind
  refine ⟨pre, post, hSplit, ?_⟩
  rw [hSplit, List.eraseP_append_right _ (by simpa using hPre), List.eraseP_cons_of_pos hHere]

/-- The end of an item lets one thread go and removes its record. -/
theorem Waits.finishItem (h : Waits s) (hCurrent : s.current q = some (.item i))
    (hPlain : (s.flags i).flushing = false) : Waits (finishWork s q) := by
  rw [finishWork_item hCurrent hPlain]
  have hDrain : ∀ p, ∀ d ∈ s.drainq p, waitingAfter s i d = some (.drain p) := by
    intro p d hd
    have hOld := h.drainers p d hd
    rw [h.waitingAfter_eq (by simp [hOld]), hOld]
  cases hMark : (s.flags i).canceling with
  | false =>
    have hSame : waitingAfter s i = s.waiting := by simp [waitingAfter, hMark]
    refine ⟨?_, ?_, hDrain⟩
    · simpa [hSame] using h.records
    · simpa using h.single
  | true =>
    simp only [if_true]
    have hSub : ∀ r ∈ s.cancels.eraseP (fun r => r.2 = .item i), r ∈ s.cancels :=
      fun r hr => List.mem_of_mem_eraseP hr
    refine ⟨fun r hr => ?_, ?_, hDrain⟩
    · have hOld := h.records r (hSub r hr)
      simp only [waitingAfter, hMark, if_true]
      cases hFind : s.cancels.find? (fun r => r.2 = .item i) with
      | none => exact hOld
      | some r' =>
        obtain ⟨pre, post, hSplit, hErase⟩ := eraseP_of_find?_eq_some hFind
        have hNe : r.1 ≠ r'.1 := by
          have hSingle := h.single
          rw [hSplit, List.map_append, List.map_cons] at hSingle
          have hOut := (List.nodup_cons.mp (List.perm_middle.nodup_iff.mp hSingle)).1
          rw [hErase] at hr
          intro hEq
          exact hOut (by rw [← List.map_append, ← hEq]; exact List.mem_map_of_mem hr)
        simp only [set_ne _ _ hNe]
        exact hOld
    · exact h.single.sublist ((List.eraseP_sublist).map Prod.fst)

theorem Waits.move (h : Waits s) (hMarks : Marks s) (hFlushers : Flushers s) (hMove : Move s k t) :
    Waits t := by
  cases hMove with
  | remove i q hIn hAt =>
    rw [queueRemoveLocked_eq hIn hAt]
    exact ⟨h.records, h.single, h.drainers⟩
  | record c i _ hFree => exact h.record hFree
  | flusher f i q _ _ hFree =>
    refine h.frame rfl (fun _ _ hd => hd) (fun d _ hSome => ?_)
    simp only [queueFlusherLocked]
    grind
  | take q _ _ _ =>
    cases hList : s.pending q with
    | nil =>
      rw [takeWork_nil hList]
      split
      · have hWake := h.wakeDrainers q
        exact ⟨hWake.records, hWake.single, hWake.drainers⟩
      · exact ⟨h.records, h.single, h.drainers⟩
    | cons w rest =>
      rw [takeWork_cons hList]
      cases w <;> exact ⟨h.records, h.single, h.drainers⟩
  | finish q w hCurrent =>
    cases w with
    | flusher f =>
      have hOnly := hFlushers.waits f q (Or.inr hCurrent)
      rw [hFlushers.finishWork_eq hCurrent]
      refine h.frame rfl (fun _ _ hd => hd) (fun d hOther _ => ?_)
      grind
    | item i => exact h.finishItem hCurrent (hMarks i).flushing
  | drain d q plug _ hFree =>
    refine ⟨fun r hr => ?_, h.single, fun p e he => ?_⟩
    · have hOld := h.records r hr
      simp only [State.drainWait]
      grind
    · have hOld := h.drainers p e
      simp only [State.drainWait] at he ⊢
      grind
  | start q _ =>
    refine h.frame rfl (fun p d hd => ?_) (fun _ _ _ => rfl)
    simp only [kWorkQueueStart] at hd
    grind
  | _ => exact ⟨h.records, h.single, h.drainers⟩

theorem Tickets.frame (h : Tickets s) (hAccepted : t.accepted = s.accepted)
    (hStarted : t.started = s.started) (hRemoved : t.removed = s.removed)
    (hTicket : t.ticket = s.ticket) (hQueued : ∀ i, (t.flags i).queued = (s.flags i).queued) :
    Tickets t where
  counted n i := by
    rw [hAccepted, hStarted, hRemoved, hTicket, hQueued i]
    exact h.counted n i
  logged p := by
    rw [hAccepted, hStarted, hRemoved]
    exact h.logged p
  issued i := by
    rw [hAccepted, hTicket, hQueued i]
    exact h.issued i

/-- The number of a new submission is in neither list. -/
theorem Tickets.fresh (h : Tickets s) (i : Nat) :
    s.started.count (s.accepted.length, i) = 0 ∧ s.removed.count (s.accepted.length, i) = 0 := by
  constructor
  · refine List.count_eq_zero.mpr fun hMem => ?_
    have hLog := h.logged _ (List.mem_append_left _ hMem)
    simp at hLog
  · refine List.count_eq_zero.mpr fun hMem => ?_
    have hLog := h.logged _ (List.mem_append_right _ hMem)
    simp at hLog

theorem Tickets.enqueue (h : Tickets s) (q : Nat) (hOut : (s.flags i).queued = false) :
    Tickets (s.enqueue i q) where
  counted n j hn := by
    simp only [State.enqueue] at hn ⊢
    by_cases hNew : n = s.accepted.length
    · subst hNew
      have hj : j = i := by simpa using hn.symm
      subst hj
      obtain ⟨hStart, hRemove⟩ := h.fresh j
      simp [hStart, hRemove]
    · have hOld : s.accepted[n]? = some j := by grind
      have hCount := h.counted n j hOld
      have hLt : n < s.accepted.length := by grind
      grind
  logged p hp := by
    have hOld := h.logged p hp
    simp only [State.enqueue]
    grind
  issued j hj := by
    have hOld := h.issued j
    simp only [State.enqueue] at hj ⊢
    grind

/-- An item leaves the list for good: its submission is started or removed. -/
theorem Tickets.leave (h : Tickets s) {i : Nat} {f : Flags} (hIn : (s.flags i).queued = true)
    (hOut : f.queued = false) (hFlags : t.flags = FunArray.set s.flags i f)
    (hAccepted : t.accepted = s.accepted) (hTicket : t.ticket = s.ticket)
    (hLog : (t.started = s.started ++ [(s.ticket i, i)] ∧ t.removed = s.removed) ∨
      (t.started = s.started ∧ t.removed = s.removed ++ [(s.ticket i, i)])) : Tickets t where
  counted n j hn := by
    rw [hAccepted] at hn
    have hCount := h.counted n j hn
    rw [hFlags, hTicket]
    have hNew : List.count (n, j) [(s.ticket i, i)] =
        if j = i ∧ s.ticket i = n then 1 else 0 := by
      rw [List.count_singleton]
      grind
    rcases hLog with ⟨hStart, hRemove⟩ | ⟨hStart, hRemove⟩
    · rw [hStart, hRemove, List.count_append, hNew]
      grind
    · rw [hStart, hRemove, List.count_append, hNew]
      grind
  logged p hp := by
    rw [hAccepted]
    have hOld := h.logged p
    have hIssued := h.issued i hIn
    rcases hLog with ⟨hStart, hRemove⟩ | ⟨hStart, hRemove⟩
    · rw [hStart, hRemove] at hp
      grind
    · rw [hStart, hRemove] at hp
      grind
  issued j hj := by
    rw [hAccepted, hTicket]
    have hOld := h.issued j
    rw [hFlags] at hj
    grind

theorem Tickets.move (h : Tickets s) (hPlaces : Places s) (hMarks : Marks s)
    (hFlushers : Flushers s) (hMove : Move s k t) : Tickets t := by
  cases hMove with
  | enqueue i q _ hOut _ _ => exact h.enqueue q hOut
  | remove i q hIn hAt =>
    rw [queueRemoveLocked_eq hIn hAt]
    exact h.leave hIn rfl rfl rfl rfl (Or.inr ⟨rfl, rfl⟩)
  | mark i _ _ =>
    refine h.frame rfl rfl rfl rfl (fun j => ?_)
    simp only [State.mark]
    grind
  | delay i b dq _ =>
    refine h.frame rfl rfl rfl rfl (fun j => ?_)
    simp only [State.delay]
    grind
  | take q _ _ _ =>
    cases hList : s.pending q with
    | nil =>
      rw [takeWork_nil hList]
      split <;> exact h.frame rfl rfl rfl rfl (fun _ => rfl)
    | cons w rest =>
      rw [takeWork_cons hList]
      cases w with
      | flusher f => exact h.frame rfl rfl rfl rfl (fun _ => rfl)
      | item i =>
        have hIn := ((hPlaces.listed i q).mp (by rw [hList]; simp)).1
        exact h.leave hIn rfl rfl rfl rfl (Or.inl ⟨rfl, rfl⟩)
  | finish q w hCurrent =>
    cases w with
    | flusher f =>
      rw [hFlushers.finishWork_eq hCurrent]
      exact h.frame rfl rfl rfl rfl (fun _ => rfl)
    | item i =>
      rw [finishWork_item hCurrent (hMarks i).flushing]
      refine h.frame rfl rfl rfl rfl (fun j => ?_)
      grind
  | _ => exact h.frame rfl rfl rfl rfl (fun _ => rfl)

theorem Inv.move (h : Inv s) (hMove : Move s k t) :
    Inv t where
  places := h.places.move h.marks h.flushers hMove
  marks := h.marks.move h.flushers hMove
  flushers := h.flushers.move h.places h.marks h.waits hMove
  waits := h.waits.move h.marks h.flushers hMove
  tickets := h.tickets.move h.places h.marks h.flushers hMove

/-! ## The operations as moves -/

/-- A chain of calm moves. -/
abbrev Calm : State → State → Prop := Relation.ReflTransGen (fun s t => Move s .calm t)

theorem Inv.calm (h : Inv s) (hCalm : Calm s t) : Inv t := by
  induction hCalm with
  | refl => exact h
  | tail _ hMove ih => exact ih.move hMove

theorem submit_calm (caller : Option Nat) (i : Nat) (queue : Option Nat) :
    Calm s (submitToQueueLocked s caller i queue).1 := by
  unfold submitToQueueLocked
  split
  · exact .refl
  · next hFree =>
      split
      · exact .refl
      · next hOut =>
          split
          · exact .refl
          · next q hTarget =>
              split
              · exact .refl
              · next hOk =>
                  refine .single (.enqueue i q (by simpa using hFree) (by simpa using hOut) ?_ ?_)
                  · intro hRun
                    simpa [submitTarget, hRun] using hTarget
                  · by_contra hOff
                    rw [Bool.not_eq_true] at hOff
                    simp [queueAnswer, hOff] at hOk

theorem Inv.remove_calm (h : Inv s) (i : Nat) : Calm s (queueRemoveLocked s i) := by
  cases hIn : (s.flags i).queued with
  | false =>
    have hSame : queueRemoveLocked s i = s := by simp [queueRemoveLocked, hIn]
    rw [hSame]
  | true =>
    obtain ⟨q, hAt⟩ := h.places.placed i (Or.inl hIn)
    exact .single (.remove i q hIn hAt)

theorem queueRemoveLocked_flags (i : Nat) :
    (queueRemoveLocked s i).flags i = { s.flags i with queued := false } := by
  unfold queueRemoveLocked
  split
  · simp
  · simp
  · next hOut => rw [← hOut]

/-- `cancel_async_locked` on an item that is not delayed. -/
theorem Inv.cancel_calm (h : Inv s) (hNow : (s.flags i).delayed = false) :
    Calm s (cancelAsyncLocked s i).1 := by
  unfold cancelAsyncLocked
  cases hMark : (s.flags i).canceling with
  | true =>
    obtain ⟨hRun, hOut⟩ := (h.marks i).canceling hMark
    simp only [if_true]
    split
    · exact .single (.mark i hRun hOut)
    · exact .refl
  | false =>
    simp only [Bool.false_eq_true, if_false]
    have hRemove := h.remove_calm i
    split
    · next hBusy =>
        refine hRemove.tail (.mark i ?_ ?_)
        · have hFlush := (h.marks i).flushing
          simpa [queueRemoveLocked_flags, workBusy, hMark, hNow, hFlush] using hBusy
        · rw [queueRemoveLocked_flags]
    · exact hRemove

theorem cancelSync_calm {c : Nat} (i : Nat) (hFree : s.waiting c = none) :
    Calm s (cancelSyncLocked s c i).1 := by
  unfold cancelSyncLocked
  split
  · next hMark => exact .single (.record c i hMark hFree)
  · exact .refl

theorem flush_move (i : Nat) (hFree : s.waiting f = none) :
    s = (workFlushLocked s f i).1 ∨ Move s .flush (workFlushLocked s f i).1 := by
  unfold workFlushLocked
  split
  · next hBusy =>
      split
      · next q hAt => exact Or.inr (.flusher f i q (by simpa using hBusy) hAt hFree)
      · exact Or.inl rfl
  · exact Or.inl rfl

theorem unschedule_calm (hKind : s.delayable i = true) (aborted : Bool) :
    Calm s (unscheduleLocked s i aborted).1 := by
  unfold unscheduleLocked
  split
  · exact .single (.delay i false s.delayQueue hKind)
  · exact .refl

theorem unscheduleLocked_delayed (i : Nat) (aborted : Bool) :
    ((unscheduleLocked s i aborted).1.flags i).delayed = false := by
  unfold unscheduleLocked
  split
  · simp [State.delay]
  · next hNot => simpa using hNot

@[simp]
theorem unscheduleLocked_waiting (i : Nat) (aborted : Bool) :
    (unscheduleLocked s i aborted).1.waiting = s.waiting := by
  unfold unscheduleLocked
  split <;> rfl

@[simp]
theorem submitToQueueLocked_waiting (caller : Option Nat) (i : Nat) (queue : Option Nat) :
    (submitToQueueLocked s caller i queue).1.waiting = s.waiting := by
  unfold submitToQueueLocked
  repeat' split
  all_goals rfl

@[simp]
theorem cancelAsyncLocked_waiting (i : Nat) : (cancelAsyncLocked s i).1.waiting = s.waiting := by
  have hRemove : (queueRemoveLocked s i).waiting = s.waiting := by
    unfold queueRemoveLocked
    split <;> rfl
  unfold cancelAsyncLocked
  cases (s.flags i).canceling with
  | true =>
    simp only [if_true]
    split <;> rfl
  | false =>
    simp only [Bool.false_eq_true, if_false]
    split <;> exact hRemove

theorem schedule_calm (hKind : s.delayable i = true) (caller queue : Option Nat) (noWait : Bool) :
    Calm s (scheduleForQueueLocked s caller i queue noWait).1 := by
  unfold scheduleForQueueLocked
  split
  · exact submit_calm caller i queue
  · exact .single (.delay i true _ hKind)

@[simp]
theorem unscheduleLocked_delayable (i : Nat) (aborted : Bool) :
    (unscheduleLocked s i aborted).1.delayable = s.delayable := by
  unfold unscheduleLocked
  split <;> rfl

/-- The kind of the one move of an operation that may not be calm. -/
def Op.kind : Op → Kind
  | .flush _ _ => .flush
  | .flushDelayable _ _ _ _ => .flush
  | .take q => .turn q
  | .finish q => .finish q
  | _ => .calm

/-- **Every operation is a chain of calm moves and at most one other.** -/
theorem Inv.step_moves (h : Inv s) (hDom : InDomain s op) :
    ∃ u, Calm s u ∧ (u = WorkQueue.step s op ∨ Move u op.kind (WorkQueue.step s op)) := by
  cases op with
  | start q => exact ⟨s, .refl, Or.inr (.start q hDom)⟩
  | submit caller i queue => exact ⟨_, submit_calm caller i queue, Or.inl rfl⟩
  | schedule caller i queue noWait =>
    refine ⟨_, ?_, Or.inl rfl⟩
    change Calm s (kWorkScheduleForQueue s caller i queue noWait).1
    unfold kWorkScheduleForQueue
    split
    · exact .refl
    · exact schedule_calm hDom caller queue noWait
  | reschedule caller i queue noWait =>
    have hFirst := unschedule_calm (s := s) hDom true
    exact ⟨_, hFirst.trans (schedule_calm (by rw [unscheduleLocked_delayable]; exact hDom)
      caller queue noWait), Or.inl rfl⟩
  | cancel i => exact ⟨_, h.cancel_calm ((h.marks i).delayed hDom), Or.inl rfl⟩
  | cancelDelayable i =>
    have hFirst := unschedule_calm (s := s) hDom true
    exact ⟨_, hFirst.trans ((h.calm hFirst).cancel_calm (unscheduleLocked_delayed i true)),
      Or.inl rfl⟩
  | cancelSync c i =>
    refine ⟨_, ?_, Or.inl rfl⟩
    change Calm s (kWorkCancelSync s c i).1
    unfold kWorkCancelSync
    split
    · exact (h.cancel_calm ((h.marks i).delayed hDom.1)).trans
        (cancelSync_calm i (by simpa using hDom.2))
    · exact .refl
  | cancelDelayableSync c i =>
    refine ⟨_, ?_, Or.inl rfl⟩
    change Calm s (kWorkCancelDelayableSync s c i).1
    unfold kWorkCancelDelayableSync
    split
    · have hFirst := unschedule_calm (s := s) hDom.1 true
      have hThen := (h.calm hFirst).cancel_calm (unscheduleLocked_delayed i true)
      exact (hFirst.trans hThen).trans
        (cancelSync_calm i (by simpa [cancelDelayableAsyncLocked] using hDom.2))
    · exact .refl
  | flush f i => exact ⟨s, .refl, flush_move i hDom.2⟩
  | flushDelayable caller f i aborted =>
    have hFirst := unschedule_calm (s := s) hDom.1 aborted
    change ∃ u, Calm s u ∧ (u = (kWorkFlushDelayable s caller f i aborted).1 ∨
      Move u .flush (kWorkFlushDelayable s caller f i aborted).1)
    unfold kWorkFlushDelayable
    split
    · exact ⟨s, .refl, Or.inl rfl⟩
    · have hWait : (unscheduleLocked s i aborted).1.waiting = s.waiting := by simp
      have hFree := (congrFun hWait f).trans hDom.2
      split
      · next s' hEq =>
          rw [hEq] at hFirst hFree
          exact ⟨_, hFirst.trans (submit_calm caller i _), flush_move i (by simpa using hFree)⟩
      · next s' hEq =>
          rw [hEq] at hFirst hFree
          exact ⟨_, hFirst, flush_move i hFree⟩
  | timeout i =>
    refine ⟨_, ?_, Or.inl rfl⟩
    change Calm s (workTimeout s i)
    unfold workTimeout
    split
    · exact (Relation.ReflTransGen.single (.delay i false s.delayQueue hDom)).trans
        (submit_calm none i _)
    · exact .refl
  | take q => exact ⟨s, .refl, Or.inr (.take q hDom.1 hDom.2.1 hDom.2.2)⟩
  | finish q =>
    obtain ⟨w, hCurrent⟩ := Option.ne_none_iff_exists'.mp hDom
    exact ⟨s, .refl, Or.inr (.finish q w hCurrent)⟩
  | drain d q plug =>
    refine ⟨_, ?_, Or.inl rfl⟩
    change Calm s (kWorkQueueDrain s d q plug)
    unfold kWorkQueueDrain
    split
    · exact .single (.drain d q plug hDom.1 hDom.2)
    · exact .refl
  | unplug q => exact ⟨s, .refl, Or.inr (.unplug q)⟩

theorem Inv.step (h : Inv s) (hDom : InDomain s op) : Inv (WorkQueue.step s op) := by
  obtain ⟨u, hCalm, rfl | hMove⟩ := h.step_moves hDom
  · exact h.calm hCalm
  · exact (h.calm hCalm).move hMove

/-! ## An item gets its turn -/

/-- The history only grows. -/
theorem Inv.logs (h : Inv s) (hMove : Move s k t) :
    s.started <+: t.started ∧ s.finished <+: t.finished ∧ s.removed <+: t.removed := by
  cases hMove with
  | remove i q hIn hAt =>
    rw [queueRemoveLocked_eq hIn hAt]
    exact ⟨List.prefix_rfl, List.prefix_rfl, List.prefix_append _ _⟩
  | take q _ _ _ =>
    cases hList : s.pending q with
    | nil =>
      rw [takeWork_nil hList]
      split <;> exact ⟨List.prefix_rfl, List.prefix_rfl, List.prefix_rfl⟩
    | cons w rest =>
      rw [takeWork_cons hList]
      cases w with
      | flusher f => exact ⟨List.prefix_rfl, List.prefix_rfl, List.prefix_rfl⟩
      | item i => exact ⟨List.prefix_append _ _, List.prefix_rfl, List.prefix_rfl⟩
  | finish q w hCurrent =>
    cases w with
    | flusher f =>
      rw [h.flushers.finishWork_eq hCurrent]
      exact ⟨List.prefix_rfl, List.prefix_rfl, List.prefix_rfl⟩
    | item i =>
      rw [finishWork_item hCurrent (h.marks i).flushing]
      exact ⟨List.prefix_rfl, List.prefix_append _ _, List.prefix_rfl⟩
  | _ => exact ⟨List.prefix_rfl, List.prefix_rfl, List.prefix_rfl⟩

theorem Inv.logs_calm (h : Inv s) (hCalm : Calm s t) :
    s.started <+: t.started ∧ s.finished <+: t.finished ∧ s.removed <+: t.removed := by
  induction hCalm with
  | refl => exact ⟨List.prefix_rfl, List.prefix_rfl, List.prefix_rfl⟩
  | tail hFirst hMove ih =>
    obtain ⟨hStarted, hFinished, hRemoved⟩ := (h.calm hFirst).logs hMove
    exact ⟨ih.1.trans hStarted, ih.2.1.trans hFinished, ih.2.2.trans hRemoved⟩

theorem Inv.logs_step (h : Inv s) (hDom : InDomain s op) :
    s.started <+: (WorkQueue.step s op).started ∧ s.finished <+: (WorkQueue.step s op).finished ∧
      s.removed <+: (WorkQueue.step s op).removed := by
  obtain ⟨u, hCalm, rfl | hMove⟩ := h.step_moves hDom
  · exact h.logs_calm hCalm
  · obtain ⟨hStarted, hFinished, hRemoved⟩ := (h.calm hCalm).logs hMove
    have hFirst := h.logs_calm hCalm
    exact ⟨hFirst.1.trans hStarted, hFirst.2.1.trans hFinished, hFirst.2.2.trans hRemoved⟩

/-- Submission `n` of item `i` has been started or removed. -/
def Settled (s : State) (n i : Nat) : Prop := (n, i) ∈ s.started ∨ (n, i) ∈ s.removed

/-- The last submission of item `i` is number `n`, and it waits for `q` with at most `m` works in
front of it. -/
def Ahead (s : State) (q i n m : Nat) : Prop :=
  s.ticket i = n ∧ ∃ pre post, s.pending q = pre ++ Work.item i :: post ∧ pre.length ≤ m

theorem Ahead.queued (hAhead : Ahead s q i n m) (h : Inv s) : (s.flags i).queued = true := by
  obtain ⟨_, pre, post, hList, _⟩ := hAhead
  exact ((h.places.listed i q).mp (by rw [hList]; simp)).1

/-- A move that leaves the list of the queue and the number of the item alone. -/
theorem Ahead.frame (hAhead : Ahead s q i n m) (hList : t.pending q = s.pending q)
    (hTicket : t.ticket i = s.ticket i) : Ahead t q i n m := by
  obtain ⟨hn, pre, post, hSplit, hLen⟩ := hAhead
  exact ⟨hTicket.trans hn, pre, post, hList.trans hSplit, hLen⟩

theorem Ahead.enqueue (hAhead : Ahead s q i n m) {j : Nat} (hNe : i ≠ j) :
    Ahead (s.enqueue j p) q i n m := by
  obtain ⟨hn, pre, post, hSplit, hLen⟩ := hAhead
  refine ⟨(set_ne _ _ hNe).trans hn, ?_⟩
  by_cases hq : q = p
  · subst hq
    exact ⟨pre, post ++ [Work.item j], by simp [State.enqueue, hSplit], hLen⟩
  · exact ⟨pre, post, (set_ne _ _ hq).trans hSplit, hLen⟩

/-- A removal settles the submission or leaves no more in front of it. -/
theorem Ahead.remove (hAhead : Ahead s q i n m) {j : Nat} (hIn : (s.flags j).queued = true)
    (hAt : s.queue j = some p) :
    Settled (queueRemoveLocked s j) n i ∨ Ahead (queueRemoveLocked s j) q i n m := by
  rw [queueRemoveLocked_eq hIn hAt]
  obtain ⟨hn, pre, post, hSplit, hLen⟩ := hAhead
  by_cases hj : i = j
  · subst hj
    exact Or.inl (Or.inr (by simp [hn]))
  · refine Or.inr ⟨hn, ?_⟩
    by_cases hq : q = p
    · subst hq
      simp only [set_same]
      rw [hSplit]
      by_cases hPre : .item j ∈ pre
      · refine ⟨pre.erase (.item j), post, List.erase_append_left _ hPre, ?_⟩
        exact Nat.le_trans (List.length_erase_le ..) hLen
      · refine ⟨pre, post.erase (.item j), ?_, hLen⟩
        rw [List.erase_append_right _ hPre, List.erase_cons_tail (by simpa using hj)]
    · exact ⟨pre, post, (set_ne _ _ hq).trans hSplit, hLen⟩

theorem Inv.calm_ahead (h : Inv s) (hMove : Move s .calm t) (hAhead : Ahead s q i n m) :
    Settled t n i ∨ Ahead t q i n m := by
  cases hMove with
  | enqueue j p _ hOut _ _ =>
    refine Or.inr (hAhead.enqueue ?_)
    rintro rfl
    exact absurd (hOut.symm.trans (hAhead.queued h)) Bool.false_ne_true
  | remove j p hIn hAt => exact hAhead.remove hIn hAt
  | start p hOff =>
    refine Or.inr (hAhead.frame (set_ne _ _ ?_) rfl)
    rintro rfl
    obtain ⟨_, pre, post, hSplit, _⟩ := hAhead
    have hOn := h.places.opened q (Or.inl (by rw [hSplit]; simp))
    exact absurd (hOff.symm.trans hOn) Bool.false_ne_true
  | _ => exact Or.inr (hAhead.frame rfl rfl)

/-- A flusher puts at most one more in front of the item. -/
theorem Ahead.flush (hAhead : Ahead s q i n m) (hMove : Move s .flush t) :
    Ahead t q i n (m + 1) := by
  cases hMove with
  | flusher f j p _ _ _ =>
    obtain ⟨hn, pre, post, hSplit, hLen⟩ := hAhead
    refine ⟨hn, ?_⟩
    by_cases hq : q = p
    · subst hq
      obtain ⟨front, back, hEq, hPlace⟩ :=
        placeFlusher_split (s.pending q) (.item j) (.flusher f)
      simp only [queueFlusherLocked, set_same, hPlace]
      rw [hSplit] at hEq
      -- the flusher is put either in front of the item or behind it
      rcases List.append_eq_append_iff.mp hEq with ⟨mid, hFront, hBack⟩ | ⟨mid, hPre, hBack⟩
      · cases mid with
        | nil =>
          rw [List.append_nil] at hFront
          rw [List.nil_append] at hBack
          exact ⟨front ++ [Work.flusher f], post, by simp [← hBack], by
            rw [hFront, List.length_append]
            exact Nat.add_le_add_right hLen 1⟩
        | cons a mid =>
          obtain ⟨rfl, hPost⟩ := List.cons.inj hBack
          exact ⟨pre, mid ++ Work.flusher f :: back, by simp [hFront], Nat.le_succ_of_le hLen⟩
      · refine ⟨front ++ Work.flusher f :: mid, post, by simp [hBack], ?_⟩
        rw [hPre, List.length_append] at hLen
        simp only [List.length_append, List.length_cons]
        omega
    · exact ⟨pre, post, (set_ne _ _ hq).trans hSplit, Nat.le_succ_of_le hLen⟩

/-- A take brings the item one place forward, and the first one is started. -/
theorem Ahead.turn (hAhead : Ahead s q i n m) (hMove : Move s (.turn q) t) :
    Settled t n i ∨ (m ≠ 0 ∧ Ahead t q i n (m - 1)) := by
  cases hMove with
  | take _ _ _ _ =>
    obtain ⟨hn, pre, post, hSplit, hLen⟩ := hAhead
    cases pre with
    | nil =>
      rw [List.nil_append] at hSplit
      rw [takeWork_cons hSplit]
      exact Or.inl (Or.inl (by simp [State.startRun, hn]))
    | cons w pre =>
      rw [List.cons_append] at hSplit
      rw [takeWork_cons hSplit]
      rw [List.length_cons] at hLen
      refine Or.inr ⟨by omega, ?_, pre, post, by simp, by omega⟩
      cases w <;> exact hn

theorem Ahead.turn_other (hAhead : Ahead s q i n m) (hNe : q ≠ p) (hMove : Move s (.turn p) t) :
    Ahead t q i n m := by
  cases hMove with
  | take _ _ _ _ =>
    cases hList : s.pending p with
    | nil =>
      rw [takeWork_nil hList]
      split <;> exact hAhead.frame rfl rfl
    | cons w rest =>
      rw [takeWork_cons hList]
      cases w <;> exact hAhead.frame (set_ne _ _ hNe) rfl

theorem Ahead.finish (hAhead : Ahead s q i n m) (h : Inv s) (hMove : Move s (.finish p) t) :
    Ahead t q i n m := by
  cases hMove with
  | finish _ w hCurrent =>
    cases w with
    | flusher f =>
      rw [h.flushers.finishWork_eq hCurrent]
      exact hAhead.frame rfl rfl
    | item j =>
      rw [finishWork_item hCurrent (h.marks j).flushing]
      exact hAhead.frame rfl rfl

theorem Inv.calm_chain (h : Inv s) (hCalm : Calm s t) (hAhead : Ahead s q i n m) :
    Settled t n i ∨ Ahead t q i n m := by
  induction hCalm with
  | refl => exact Or.inr hAhead
  | tail hFirst hMove ih =>
    have hMid := h.calm hFirst
    rcases ih with hSettled | hAhead
    · obtain ⟨hStarted, _, hRemoved⟩ := hMid.logs hMove
      exact Or.inl (hSettled.imp (hStarted.subset ·) (hRemoved.subset ·))
    · exact hMid.calm_ahead hMove hAhead

def Op.isTake (q : Nat) : Op → Bool
  | .take p => p = q
  | _ => false

def Op.isFlush : Op → Bool
  | .flush _ _ => true
  | .flushDelayable _ _ _ _ => true
  | _ => false

/-- How often the thread of `q` looks for work in a run. -/
def takes (q : Nat) (ops : List Op) : Nat := ops.countP (Op.isTake q)

/-- The calls of the flush functions in a run. -/
def flushes (ops : List Op) : Nat := ops.countP Op.isFlush

theorem Ahead.mono {m' : Nat} (hAhead : Ahead s q i n m) (hLe : m ≤ m') : Ahead s q i n m' := by
  obtain ⟨hn, pre, post, hSplit, hLen⟩ := hAhead
  exact ⟨hn, pre, post, hSplit, Nat.le_trans hLen hLe⟩

/-- Only a flush puts something in front of an item that waits. -/
theorem Inv.step_ahead (h : Inv s) (hDom : InDomain s op) (hAhead : Ahead s q i n m) :
    Settled (WorkQueue.step s op) n i ∨
      Ahead (WorkQueue.step s op) q i n (m + if op.isFlush then 1 else 0) := by
  obtain ⟨u, hCalm, hLast⟩ := h.step_moves hDom
  have hMid := h.calm hCalm
  rcases hLast with rfl | hMove
  · exact (h.calm_chain hCalm hAhead).imp_right (·.mono (Nat.le_add_right _ _))
  rcases h.calm_chain hCalm hAhead with hSettled | hAhead
  · obtain ⟨hStarted, _, hRemoved⟩ := hMid.logs hMove
    exact Or.inl (hSettled.imp (hStarted.subset ·) (hRemoved.subset ·))
  · cases op with
    | flush _ _ | flushDelayable _ _ _ _ => exact Or.inr (hAhead.flush hMove)
    | take p =>
      by_cases hq : q = p
      · subst hq
        exact (hAhead.turn hMove).imp_right fun hLess =>
          hLess.2.mono (Nat.le_trans (Nat.sub_le _ _) (Nat.le_add_right _ _))
      · exact Or.inr (hAhead.turn_other hq hMove)
    | finish p => exact Or.inr (hAhead.finish hMid hMove)
    | _ => exact hMid.calm_ahead hMove hAhead

/-- What is settled stays settled. -/
theorem Inv.settled_run (h : Inv s) (hSettled : Settled s n i) {ops : List Op}
    (hAdm : Admissible WorkQueue.step InDomain s ops) :
    Settled (exec WorkQueue.step s ops) n i := by
  have hBoth : ∀ s op, Inv s ∧ Settled s n i → InDomain s op →
      Inv (WorkQueue.step s op) ∧ Settled (WorkQueue.step s op) n i := by
    intro s op hs hDom
    obtain ⟨hStarted, _, hRemoved⟩ := hs.1.logs_step hDom
    exact ⟨hs.1.step hDom, hs.2.imp (hStarted.subset ·) (hRemoved.subset ·)⟩
  exact (exec_invariant hBoth ops s ⟨h, hSettled⟩ hAdm).2

/-- **Progress**: with more takes of the queue than there are works in front of an item and flushes
that may put others there, its submission is started or removed. -/
theorem Inv.settles (ops : List Op) :
    ∀ s m, Inv s → Admissible WorkQueue.step InDomain s ops → Ahead s q i n m →
      m + flushes ops < takes q ops → Settled (exec WorkQueue.step s ops) n i := by
  induction ops with
  | nil =>
    intro s m _ _ _ hMany
    exact absurd hMany (Nat.not_lt_zero _)
  | cons op ops ih =>
    intro s m h hAdm hAhead hMany
    have hNext := h.step hAdm.1
    simp only [flushes, takes, List.countP_cons] at hMany
    cases hTake : op.isTake q with
    | true =>
      -- a take of the queue itself: the item is started or one place further on
      obtain rfl : op = .take q := by
        cases op <;> simp [Op.isTake] at hTake
        rw [hTake]
      rcases hAhead.turn (.take q hAdm.1.1 hAdm.1.2.1 hAdm.1.2.2) with hSettled | hLess
      · exact hNext.settled_run hSettled hAdm.2
      · refine ih _ (m - 1) hNext hAdm.2 hLess.2 ?_
        have hPos := hLess.1
        rw [hTake] at hMany
        simp only [Op.isFlush, Bool.false_eq_true, if_false, if_true] at hMany
        unfold flushes takes
        omega
    | false =>
      rcases h.step_ahead hAdm.1 hAhead with hSettled | hAhead
      · exact hNext.settled_run hSettled hAdm.2
      · refine ih _ _ hNext hAdm.2 hAhead ?_
        rw [hTake] at hMany
        simp only [Bool.false_eq_true, if_false] at hMany
        unfold flushes takes
        omega

/-! ## The flags tell the truth -/

/-- What the flags of an item say in a state, and that every submission that was accepted is still
queued or has led to one run or one removal. -/
structure Truthful (s : State) : Prop where
  queued : ∀ i, (s.flags i).queued = true ↔
    ∃ q, s.queue i = some q ∧ (s.pending q).count (.item i) = 1 ∧
      ∀ p, p ≠ q → .item i ∉ s.pending p
  listed : ∀ i q, .item i ∈ s.pending q → (s.flags i).queued = true
  running : ∀ i, (s.flags i).running = true ↔
    ∃ q, s.queue i = some q ∧ s.current q = some (.item i)
  canceling : ∀ i, (s.flags i).canceling = true →
    (s.flags i).running = true ∧ (s.flags i).queued = false
  alone : ∀ i p q, s.current p = some (.item i) → s.current q = some (.item i) → p = q
  counted : ∀ n i, s.accepted[n]? = some i →
    s.started.count (n, i) + s.removed.count (n, i) +
      (if (s.flags i).queued = true ∧ s.ticket i = n then 1 else 0) = 1
  ready : ∀ q, s.pending q ≠ [] → (s.qflags q).started = true ∧ s.asleep q = false

theorem Inv.truthful (h : Inv s) :
    Truthful s where
  queued i := by
    constructor
    · intro hIn
      obtain ⟨q, hAt⟩ := h.places.placed i (Or.inl hIn)
      have hMem := (h.places.listed i q).mpr ⟨hIn, hAt⟩
      refine ⟨q, hAt, List.count_eq_one_of_mem (h.places.once q) hMem, fun p hp hOther => hp ?_⟩
      have hThere := ((h.places.listed i p).mp hOther).2
      exact Option.some.inj (hThere.symm.trans hAt)
    · rintro ⟨q, _, hCount, _⟩
      have hMem : .item i ∈ s.pending q := List.count_pos_iff.mp (by omega)
      exact ((h.places.listed i q).mp hMem).1
  listed i q hMem := ((h.places.listed i q).mp hMem).1
  running i := by
    constructor
    · intro hRun
      obtain ⟨q, hAt⟩ := h.places.placed i (Or.inr hRun)
      exact ⟨q, hAt, (h.places.runs i q).mpr ⟨hRun, hAt⟩⟩
    · rintro ⟨q, _, hCurrent⟩
      exact ((h.places.runs i q).mp hCurrent).1
  canceling i := (h.marks i).canceling
  alone i p q hp hq := by
    have hAtP := ((h.places.runs i p).mp hp).2
    have hAtQ := ((h.places.runs i q).mp hq).2
    exact Option.some.inj (hAtP.symm.trans hAtQ)
  counted := h.tickets.counted
  ready q hSome := by
    refine ⟨h.places.opened q (Or.inl hSome), ?_⟩
    cases hSleep : s.asleep q with
    | false => rfl
    | true => exact absurd (h.places.awake q hSleep).1 hSome

end Zvm.Kernel.WorkQueue
