import Zvm.Verified.FunArray
import Zvm.Verified.Run

/-!
# Polling

`k_poll` registers its events one by one on the lists of their objects, waits if no object was
available, and takes its registrations off again one by one before it returns.  A notification
takes the first registration off an object's list, wakes its thread if that one waits, and marks the
event ready.

The registration of a thread that has timed out stays on the list until the thread takes it off.  A
notification that meets it is lost: the thread returns `-EAGAIN`, and a thread behind it on the list
sleeps on although the object is available.
-/

namespace Zvm.Kernel.Poll

open Zvm.Verified.FunArray Zvm.Verified.Run

/-! ## The code -/

inductive EventType where
  | ignore | signal | sem | data | msgq | pipe
deriving DecidableEq

/-- The `K_POLL_STATE` that `is_condition_met` reports. -/
def EventType.state : EventType → Nat
  | .ignore => 0
  | .signal => 1
  | .sem => 2
  | .data => 4
  | .msgq => 16
  | .pipe => 32

/-- `K_POLL_STATE_CANCELLED`. -/
def cancelled : Nat := 8

structure Event where
  type : EventType
  obj : Nat
  state : Nat
  poller : Option Nat

/-- Where a thread is in `k_poll`: before event `ii` of `register_events`, in the wait queue, or
with `n` registrations still to clear before it returns `rc`. -/
inductive Phase where
  | idle
  | registering (ii : Nat)
  | pended
  | clearing (n : Nat) (rc : Int)
deriving DecidableEq

/-- A thread, the arguments and variables of its call of `k_poll`, and its `z_poller`; `returned`
has what its calls have returned and the events then, and no code reads it. -/
structure Thread where
  phase : Phase
  events : Nat → Event
  numEvents : Nat
  justCheck : Bool
  registered : Nat
  isPolling : Bool
  returned : List (Int × (Nat → Event))

/-- `polls` has the `poll_events` of each object, an event being a thread and an index. -/
structure State where
  polls : Nat → List (Nat × Nat)
  available : Nat → Bool
  threads : Nat → Thread

def isConditionMet (available : Nat → Bool) (e : Event) : Bool :=
  e.type != .ignore && available e.obj

def setEventReady (e : Event) (state : Nat) : Event :=
  { e with poller := none, state := e.state ||| state }

section Code

-- `z_sched_prio_cmp`: positive if the first thread has the higher priority
variable (cmp : Nat → Nat → Int)

/-- The loop of `add_event`. -/
def insertEvent (r : Nat × Nat) : List (Nat × Nat) → List (Nat × Nat)
  | [] => [r]
  | p :: l => if cmp r.1 p.1 > 0 then r :: p :: l else p :: insertEvent r l

def addEvent (l : List (Nat × Nat)) (r : Nat × Nat) : List (Nat × Nat) :=
  match l.getLast? with
  | none => l ++ [r]
  | some p => if cmp p.1 r.1 > 0 then l ++ [r] else insertEvent cmp r l

def State.setThread (s : State) (th : Nat) (T : Thread) : State :=
  { s with threads := set s.threads th T }

/-- One iteration of `register_events`. -/
def registerOne (s : State) (th ii : Nat) : State :=
  let T := s.threads th
  let e := T.events ii
  if isConditionMet s.available e then
    s.setThread th
      { T with
        phase := .registering (ii + 1)
        events := set T.events ii (setEventReady e e.type.state)
        isPolling := false }
  else if !T.justCheck && T.isPolling then
    let s' := s.setThread th
      { T with
        phase := .registering (ii + 1)
        events := set T.events ii { e with poller := some th }
        registered := T.registered + 1 }
    if e.type = .ignore then s'
    else { s' with polls := set s.polls e.obj (addEvent cmp (s.polls e.obj) (th, ii)) }
  else s.setThread th { T with phase := .registering (ii + 1) }

/-- `return rc` of `z_impl_k_poll`. -/
def Thread.ret (T : Thread) (rc : Int) : Thread :=
  { T with phase := .idle, returned := T.returned ++ [(rc, T.events)] }

/-- `z_impl_k_poll` from the end of `register_events` to `z_pend_curr`. -/
def Thread.pend (T : Thread) : Thread :=
  if !T.isPolling then { T with phase := .clearing T.registered 0 }
  else if T.justCheck then { T with isPolling := false }.ret (-11)
  else { T with isPolling := false, phase := .pended }

/-- `clear_event_registration` of event `i`. -/
def clearEventRegistration (s : State) (th i : Nat) (rc : Int) : State :=
  let T := s.threads th
  let e := T.events i
  let s' := s.setThread th
    { T with phase := .clearing i rc, events := set T.events i { e with poller := none } }
  if e.type = .ignore then s'
  else { s' with polls := set s.polls e.obj ((s.polls e.obj).erase (th, i)) }

/-- `signal_poller`; the thread stops to be pended and is to clear its registrations. -/
def signalPoller (T : Thread) (state : Nat) : Thread :=
  if T.phase = .pended then
    { T with phase := .clearing T.registered (if state = cancelled then -4 else 0) }
  else T

/-- `signal_poll_event` for event `i` of thread `th`. -/
def signalPollEvent (s : State) (th i state : Nat) : State :=
  let T := s.threads th
  let T' := if (T.events i).poller = none then T
    else { signalPoller T state with isPolling := false }
  s.setThread th { T' with events := set T.events i (setEventReady (T.events i) state) }

def zHandleObjPollEvents (s : State) (o state : Nat) : State :=
  match s.polls o with
  | [] => s
  | (th, i) :: l => signalPollEvent { s with polls := set s.polls o l } th i state

/-- The locked sections of the calls; `run` is the next one of a thread that is not blocked.  The
first `clear_event_registration` of a call that did not wait belongs to the section before it. -/
inductive Op where
  | poll (th : Nat) (events : Nat → Event) (numEvents : Nat) (noWait : Bool)
  | run (th : Nat)
  | timeout (th : Nat)
  | become (o : Nat) (available : Bool)
  | notify (o state : Nat)
  | raise (o : Nat)

def runThread (s : State) (th : Nat) : State :=
  let T := s.threads th
  match T.phase with
  | .idle | .pended => s
  | .registering ii =>
    if ii < T.numEvents then registerOne cmp s th ii else s.setThread th T.pend
  | .clearing 0 rc => s.setThread th (T.ret rc)
  | .clearing (i + 1) rc => clearEventRegistration s th i rc

def step (s : State) : Op → State
  | .poll th events numEvents noWait =>
    let T := s.threads th
    if T.phase = .idle then
      s.setThread th ⟨.registering 0, events, numEvents, noWait, 0, true, T.returned⟩
    else s
  | .run th => runThread cmp s th
  | .timeout th =>
    let T := s.threads th
    if T.phase = .pended then s.setThread th { T with phase := .clearing T.registered (-11) }
    else s
  | .become o available => { s with available := set s.available o available }
  | .notify o state => zHandleObjPollEvents s o state
  | .raise o => zHandleObjPollEvents { s with available := set s.available o true } o 1

end Code

def init : State :=
  ⟨fun _ => [], fun _ => false,
    fun _ => ⟨.idle, fun _ => ⟨.ignore, 0, 0, none⟩, 0, false, 0, false, []⟩⟩

/-! ## The lists -/

variable {cmp : Nat → Nat → Int}

theorem insertEvent_perm (r : Nat × Nat) (l : List (Nat × Nat)) :
    (insertEvent cmp r l).Perm (r :: l) := by
  induction l with
  | nil => exact .refl _
  | cons p l ih =>
    unfold insertEvent
    split
    · exact .refl _
    · exact (ih.cons p).trans (.swap r p l)

theorem addEvent_perm (cmp : Nat → Nat → Int) (l : List (Nat × Nat)) (r : Nat × Nat) :
    (addEvent cmp l r).Perm (r :: l) := by
  unfold addEvent
  split
  · exact List.perm_append_singleton r l
  · split
    · exact List.perm_append_singleton r l
    · exact insertEvent_perm r l

@[grind =]
theorem mem_addEvent {l : List (Nat × Nat)} {r p : Nat × Nat} :
    p ∈ addEvent cmp l r ↔ p = r ∨ p ∈ l := by
  rw [(addEvent_perm cmp l r).mem_iff, List.mem_cons]

/-- The registrations of a thread have indices below this. -/
def Thread.limit (T : Thread) : Nat :=
  match T.phase with
  | .idle => 0
  | .clearing n _ => n
  | _ => T.registered

/-- The thread waits, or will if it finds no object available. -/
def Thread.Waiting (T : Thread) : Prop :=
  T.phase = .pended ∨ (∃ ii, T.phase = .registering ii) ∧ T.isPolling = true

/-- What the lists have of thread `th`. -/
structure Good (polls : Nat → List (Nat × Nat)) (th : Nat) (T : Thread) : Prop where
  reg : ∀ o i, (th, i) ∈ polls o → i < T.limit ∧ (T.events i).obj = o ∧
    (T.events i).type ≠ .ignore ∧ (T.events i).poller = some th
  waits : ∀ i, T.Waiting → i < T.registered → (T.events i).type ≠ .ignore →
    (th, i) ∈ polls (T.events i).obj
  count : ∀ ii, T.phase = .registering ii → T.registered ≤ ii ∧
    (T.isPolling = true → T.justCheck = false → T.registered = ii) ∧
    (T.justCheck = true → T.registered = 0)

structure Inv (s : State) : Prop where
  nodup : ∀ o, (s.polls o).Nodup
  good : ∀ th, Good s.polls th (s.threads th)

theorem inv_init : Inv init :=
  ⟨fun _ => List.nodup_nil,
    fun _ => ⟨by simp [init], by simp [init, Thread.Waiting], by simp [init]⟩⟩

variable {s : State} {th ii i u n : Nat} {T : Thread} {rc : Int}

/-- A step changes one thread, and of the lists only what they have of it. -/
theorem Inv.update {s' : State} (h : Inv s) (hThreads : s'.threads = set s.threads th T)
    (hNodup : ∀ o, (s'.polls o).Nodup)
    (hOther : ∀ u, u ≠ th → ∀ o i, (u, i) ∈ s'.polls o ↔ (u, i) ∈ s.polls o)
    (hGood : Good s'.polls th T) : Inv s' := by
  refine ⟨hNodup, fun u => ?_⟩
  rw [hThreads]
  refine set_elim (fun hu => hu ▸ hGood) fun hu => ?_
  obtain ⟨hReg, hWaits, hCount⟩ := h.good u
  exact ⟨fun o i hIn => hReg o i ((hOther u hu o i).mp hIn),
    fun i hWait hi hType => (hOther u hu _ i).mpr (hWaits i hWait hi hType), hCount⟩

theorem Inv.setThread (h : Inv s) (hGood : Good s.polls th T) : Inv (s.setThread th T) :=
  h.update rfl h.nodup (fun _ _ _ _ => Iff.rfl) hGood

theorem Inv.registerOne (h : Inv s) (hPhase : (s.threads th).phase = .registering ii) :
    Inv (registerOne cmp s th ii) := by
  obtain ⟨hReg, hWaits, hCount⟩ := h.good th
  obtain ⟨hLe, hEq, hNone⟩ := hCount ii hPhase
  simp only [Thread.limit, hPhase] at hReg
  simp only [Poll.registerOne]
  split
  · exact h.setThread ⟨by grind -linarith [Thread.limit], by simp [Thread.Waiting], by grind -linarith⟩
  · split
    · next hPolling =>
        rw [Bool.and_eq_true, Bool.not_eq_true'] at hPolling
        have hNew := hEq hPolling.2 hPolling.1
        have hWait : (s.threads th).Waiting := .inr ⟨⟨ii, hPhase⟩, hPolling.2⟩
        split
        · exact h.setThread
            ⟨by grind -linarith [Thread.limit], by grind -linarith, by grind -linarith⟩
        · refine h.update rfl (fun o => ?_) ?_ ⟨?_, ?_, by grind -linarith⟩
          · have hFresh : (th, ii) ∉ s.polls ((s.threads th).events ii).obj := fun hIn => by
              have := (hReg _ _ hIn).1
              omega
            have hNodup := (addEvent_perm cmp _ _).nodup_iff.mpr
              (List.nodup_cons.mpr ⟨hFresh, h.nodup _⟩)
            simp only [set_apply]
            split
            · exact hNodup
            · exact h.nodup o
          · grind -linarith
          · grind -linarith [Thread.limit]
          · grind -linarith
    · exact h.setThread
        ⟨by grind -linarith [Thread.limit], by grind -linarith [Thread.Waiting], by grind -linarith⟩

theorem Inv.clearEventRegistration (h : Inv s)
    (hPhase : (s.threads th).phase = .clearing (i + 1) rc) :
    Inv (clearEventRegistration s th i rc) := by
  have hReg := (h.good th).reg
  simp only [Thread.limit, hPhase] at hReg
  simp only [Poll.clearEventRegistration]
  split
  · exact h.setThread
      ⟨by grind [Thread.limit], by simp [Thread.Waiting], by simp⟩
  · refine h.update rfl (fun o => ?_) ?_ ⟨?_, by simp [Thread.Waiting], by simp⟩
    · simp only [set_apply]
      split
      · exact (h.nodup _).erase _
      · exact h.nodup o
    · grind [(h.nodup ((s.threads th).events i).obj).mem_erase_iff]
    · grind [Thread.limit, (h.nodup ((s.threads th).events i).obj).mem_erase_iff]

theorem Inv.zHandleObjPollEvents (h : Inv s) (o state : Nat) :
    Inv (zHandleObjPollEvents s o state) := by
  unfold Poll.zHandleObjPollEvents
  split
  · exact h
  · next th i l hList =>
      obtain ⟨hReg, hWaits, hCount⟩ := h.good th
      obtain ⟨-, hObj, -, hHead⟩ := hReg o i (hList ▸ List.mem_cons_self)
      have hNodup := h.nodup o
      rw [hList, List.nodup_cons] at hNodup
      -- the event is on no other list
      have hMem : ∀ u j p,
          (u, j) ∈ set s.polls o l p ↔ (u, j) ∈ s.polls p ∧ ¬ (u = th ∧ j = i) := by
        intro u j p
        by_cases hp : p = o
        · subst hp
          rw [set_same, hList, List.mem_cons, Prod.mk.injEq]
          grind
        · rw [set_ne _ _ hp]
          grind
      have hOthers : ∀ u, u ≠ th → ∀ p j, (u, j) ∈ set s.polls o l p ↔ (u, j) ∈ s.polls p :=
        fun u hu p j => (hMem u j p).trans (and_iff_left fun hEq => hu hEq.1)
      have hKeep : ∀ p j, (th, j) ∈ set s.polls o l p → j ≠ i ∧ (th, j) ∈ s.polls p :=
        fun p j hIn => ⟨fun hj => ((hMem th j p).mp hIn).2 ⟨rfl, hj⟩, ((hMem th j p).mp hIn).1⟩
      simp only [signalPollEvent, hHead, reduceCtorEq, if_false, signalPoller]
      refine h.update rfl (fun p => ?_) hOthers ?_
      · simp only [State.setThread, set_apply]
        split
        · exact hNodup.2
        · exact h.nodup p
      · split
        · next hPended =>
            simp only [Thread.limit, hPended] at hReg
            refine ⟨fun p j hIn => ?_, by simp [Thread.Waiting], by simp⟩
            obtain ⟨hj, hOld⟩ := hKeep p j hIn
            simpa only [Thread.limit, set_ne _ _ hj] using hReg p j hOld
        · next hPended =>
            refine ⟨fun p j hIn => ?_, by simp [Thread.Waiting, hPended], by simpa using
              fun ii hPhase => ⟨(hCount ii hPhase).1, (hCount ii hPhase).2.2⟩⟩
            obtain ⟨hj, hOld⟩ := hKeep p j hIn
            simpa only [Thread.limit, set_ne _ _ hj] using hReg p j hOld

theorem Inv.step (h : Inv s) (op : Op) : Inv (step cmp s op) := by
  cases op with
  | poll th events numEvents noWait =>
    obtain ⟨hReg, -, -⟩ := h.good th
    simp only [Poll.step]
    split
    · next hIdle =>
        simp only [Thread.limit, hIdle] at hReg
        exact h.setThread ⟨by grind -linarith, by simp, by simp⟩
    · exact h
  | run th =>
    obtain ⟨hReg, hWaits, hCount⟩ := h.good th
    simp only [Poll.step, runThread]
    split
    · exact h
    · exact h
    · next ii hPhase =>
        split
        · exact h.registerOne hPhase
        · have hWait : (s.threads th).isPolling = true → (s.threads th).Waiting :=
            fun hPolling => .inr ⟨⟨ii, hPhase⟩, hPolling⟩
          simp only [Thread.limit, hPhase] at hReg
          refine h.setThread ?_
          unfold Thread.pend Thread.ret
          split
          · exact ⟨by grind -linarith [Thread.limit], by simp [Thread.Waiting], by simp⟩
          · split
            · exact ⟨by grind -linarith, by simp [Thread.Waiting], by simp⟩
            · exact ⟨by grind -linarith [Thread.limit], by grind -linarith, by simp⟩
    · next rc hPhase =>
        simp only [Thread.limit, hPhase] at hReg
        exact h.setThread ⟨by grind -linarith [Thread.ret], by simp [Thread.ret, Thread.Waiting],
          by simp [Thread.ret]⟩
    · next i rc hPhase => exact h.clearEventRegistration hPhase
  | timeout th =>
    obtain ⟨hReg, -, -⟩ := h.good th
    simp only [Poll.step]
    split
    · next hPended =>
        simp only [Thread.limit, hPended] at hReg
        exact h.setThread ⟨by grind -linarith [Thread.limit], by simp [Thread.Waiting], by simp⟩
    · exact h
  | become o available => exact ⟨h.nodup, h.good⟩
  | notify o state => exact h.zHandleObjPollEvents o state
  | raise o =>
    have h' : Inv { s with available := set s.available o true } := ⟨h.nodup, h.good⟩
    exact h'.zHandleObjPollEvents o 1

/-! ## What a call returns -/

/-- The call will return 0. -/
def Thread.Settled (T : Thread) : Prop :=
  ((∃ ii, T.phase = .registering ii) ∧ T.isPolling = false) ∨ ∃ n, T.phase = .clearing n 0

/-- The call will return an error: it has timed out or was cancelled. -/
def Thread.Failed (T : Thread) : Prop := ∃ n rc, T.phase = .clearing n rc ∧ rc ≠ 0

/-- Event `i` is marked with `state`. -/
def Marked (events : Nat → Event) (i state : Nat) : Prop :=
  (events i).state ||| state = (events i).state

theorem marked_setEventReady (events : Nat → Event) (j i bits state : Nat)
    (h : Marked events i state) :
    Marked (set events j (setEventReady (events j) bits)) i state := by
  unfold Marked at *
  by_cases hi : i = j
  · subst hi
    simp only [set_same, setEventReady]
    rw [Nat.or_assoc, Nat.or_comm bits, ← Nat.or_assoc, h]
  · rwa [set_ne _ _ hi]

/-- How a step changes a thread: its call goes on, and what was settled stays so, or it returns. -/
def Moves (T T' : Thread) : Prop :=
  (T'.returned = T.returned ∧
    (T.Settled → T'.Settled ∧ ∀ i state, Marked T.events i state → Marked T'.events i state)) ∨
  ∃ r, T'.returned = T.returned ++ [r] ∧ (T.Settled → r = (0, T.events))

theorem Moves.refl (T : Thread) : Moves T T := .inl ⟨rfl, fun h => ⟨h, fun _ _ h => h⟩⟩

theorem moves_setThread (h : Moves (s.threads u) T) (th : Nat) :
    Moves (s.threads th) ((s.setThread u T).threads th) := by
  by_cases hu : th = u
  · subst hu
    simpa only [State.setThread, set_same] using h
  · simpa only [State.setThread, set_ne _ _ hu] using Moves.refl (s.threads th)

theorem moves_registerOne (hPhase : (s.threads u).phase = .registering ii) (th : Nat) :
    Moves (s.threads th) ((registerOne cmp s u ii).threads th) := by
  have hThread : ∃ T, (registerOne cmp s u ii).threads = (s.setThread u T).threads ∧
      Moves (s.threads u) T := by
    simp only [registerOne]
    split
    · exact ⟨_, rfl, .inl ⟨rfl, fun _ =>
        ⟨.inl ⟨⟨_, rfl⟩, rfl⟩, fun i state h => marked_setEventReady _ ii i _ state h⟩⟩⟩
    · split
      · next hPolling =>
          rw [Bool.and_eq_true] at hPolling
          have hOpen : ¬ (s.threads u).Settled := by
            simp [Thread.Settled, hPhase, hPolling.2]
          split <;> exact ⟨_, rfl, .inl ⟨rfl, fun h => absurd h hOpen⟩⟩
      · refine ⟨_, rfl, .inl ⟨rfl, fun h => ⟨.inl ⟨⟨_, rfl⟩, ?_⟩, fun _ _ h => h⟩⟩⟩
        simpa [Thread.Settled, hPhase] using h
  obtain ⟨T, hT, hMoves⟩ := hThread
  rw [hT]
  exact moves_setThread hMoves th

theorem moves_clear (hPhase : (s.threads u).phase = .clearing (i + 1) rc) (th : Nat) :
    Moves (s.threads th) ((clearEventRegistration s u i rc).threads th) := by
  have hThread : (clearEventRegistration s u i rc).threads = (s.setThread u
      { s.threads u with
        phase := .clearing i rc
        events := set (s.threads u).events i
          { (s.threads u).events i with poller := none } }).threads := by
    simp only [clearEventRegistration]
    split <;> rfl
  rw [hThread]
  refine moves_setThread ?_ th
  refine .inl ⟨rfl, fun h => ⟨.inr ⟨i, ?_⟩, fun j state hMarked => ?_⟩⟩
  · simpa [Thread.Settled, hPhase] using h
  · unfold Marked at *
    grind

theorem moves_signal (s : State) (u i state th : Nat) :
    Moves (s.threads th) ((signalPollEvent s u i state).threads th) := by
  refine moves_setThread (.inl ⟨?_, fun h => ⟨?_, fun j bits hMarked =>
    marked_setEventReady _ i j state bits hMarked⟩⟩) th
  · unfold signalPoller
    split_ifs <;> rfl
  · have hPended : (s.threads u).phase ≠ .pended := by
      rcases h with ⟨⟨ii, hPhase⟩, -⟩ | ⟨n, hPhase⟩ <;> simp [hPhase]
    rw [signalPoller, if_neg hPended]
    rcases h with ⟨hPhase, hPolling⟩ | hPhase
    · exact .inl ⟨by split_ifs <;> exact hPhase, by split_ifs <;> simp [hPolling]⟩
    · exact .inr (by split_ifs <;> exact hPhase)

theorem moves_handle (s : State) (o state th : Nat) :
    Moves (s.threads th) ((zHandleObjPollEvents s o state).threads th) := by
  unfold zHandleObjPollEvents
  split
  · exact .refl _
  · next u i l hList => exact moves_signal { s with polls := set s.polls o l } u i state th

theorem moves_pend (hPhase : (s.threads u).phase = .registering ii) :
    Moves (s.threads u) (s.threads u).pend := by
  have hOpen : (s.threads u).isPolling = true → ¬ (s.threads u).Settled := by
    simp +contextual [Thread.Settled, hPhase]
  unfold Thread.pend
  split
  · exact .inl ⟨rfl, fun _ => ⟨.inr ⟨_, rfl⟩, fun _ _ h => h⟩⟩
  · next hPolling =>
      rw [Bool.not_eq_true', Bool.not_eq_false] at hPolling
      split
      · exact .inr ⟨_, rfl, fun h => absurd h (hOpen hPolling)⟩
      · exact .inl ⟨rfl, fun h => absurd h (hOpen hPolling)⟩

theorem step_moves (s : State) (op : Op) (th : Nat) :
    Moves (s.threads th) ((step cmp s op).threads th) := by
  cases op with
  | poll u events numEvents noWait =>
    simp only [step]
    split
    · next hIdle =>
        refine moves_setThread ?_ th
        exact .inl ⟨rfl, fun h => by simp [Thread.Settled, hIdle] at h⟩
    · exact .refl _
  | run u =>
    simp only [step, runThread]
    split
    · exact .refl _
    · exact .refl _
    · next ii hPhase =>
        split
        · exact moves_registerOne hPhase th
        · exact moves_setThread (moves_pend hPhase) th
    · next rc hPhase =>
        refine moves_setThread (.inr ⟨_, rfl, fun h => ?_⟩) th
        simpa [Thread.Settled, hPhase] using h
    · next i rc hPhase => exact moves_clear hPhase th
  | timeout u =>
    simp only [step]
    split
    · next hPended =>
        refine moves_setThread ?_ th
        exact .inl ⟨rfl, fun h => by simp [Thread.Settled, hPended] at h⟩
    · exact .refl _
  | become o available => exact .refl _
  | notify o state => exact moves_handle s o state th
  | raise o => exact moves_handle { s with available := set s.available o true } o 1 th

/-- Call `n` of the thread will return 0 with event `i` marked, or it has. -/
def Served (T : Thread) (n i state : Nat) : Prop :=
  (T.returned.length = n ∧ T.Settled ∧ Marked T.events i state) ∨
    ∃ r, T.returned[n]? = some r ∧ r.1 = 0 ∧ Marked r.2 i state

theorem Served.moves {T' : Thread} {state : Nat} (h : Served T n i state) (hMoves : Moves T T') :
    Served T' n i state := by
  rcases h with ⟨hLen, hSettled, hMarked⟩ | ⟨r, hRet, hZero, hMarked⟩
  · rcases hMoves with ⟨hRet, hKeep⟩ | ⟨r, hRet, hr⟩
    · obtain ⟨hSettled', hMarks⟩ := hKeep hSettled
      exact .inl ⟨hRet ▸ hLen, hSettled', hMarks i state hMarked⟩
    · refine .inr ⟨r, ?_, by rw [hr hSettled], by rwa [hr hSettled]⟩
      rw [hRet, ← hLen, List.getElem?_concat_length]
  · refine .inr ⟨r, ?_, hZero, hMarked⟩
    obtain ⟨hLt, -⟩ := List.getElem?_eq_some_iff.mp hRet
    rcases hMoves with ⟨hSame, -⟩ | ⟨r', hSame, -⟩
    · rwa [hSame]
    · rwa [hSame, List.getElem?_append_left hLt]

theorem Served.exec (cmp : Nat → Nat → Int) {state : Nat} (ops : List Op) (s : State)
    (h : Served (s.threads th) n i state) :
    Served ((exec (step cmp) s ops).threads th) n i state := by
  induction ops generalizing s with
  | nil => exact h
  | cons op ops ih => exact ih _ (h.moves (step_moves s op th))

/-- The thread on its own takes off its registrations and returns. -/
theorem clearing_returns (cmp : Nat → Nat → Int) (n : Nat) :
    ∀ s : State, (s.threads th).phase = .clearing n rc → ∃ events,
      ((exec (step cmp) s (List.replicate (n + 1) (.run th))).threads th).returned =
        (s.threads th).returned ++ [(rc, events)] := by
  induction n with
  | zero =>
    intro s hPhase
    simp [step, runThread, hPhase, State.setThread, Thread.ret, exec]
  | succ n ih =>
    intro s hPhase
    have hStep : (step cmp s (.run th)).threads th =
        { s.threads th with
          phase := .clearing n rc
          events := set (s.threads th).events n
            { (s.threads th).events n with poller := none } } := by
      simp only [step, runThread, hPhase, clearEventRegistration]
      split <;> simp [State.setThread]
    obtain ⟨events, hRet⟩ := ih (step cmp s (.run th)) (by rw [hStep])
    rw [List.replicate_succ, exec_cons, hRet, hStep]
    exact ⟨events, rfl⟩

/-- A thread that does not poll any more goes through the rest of its events. -/
theorem run_registering (cmp : Nat → Nat → Int) (hPhase : (s.threads th).phase = .registering ii)
    (hPolling : (s.threads th).isPolling = false) :
    let T := s.threads th
    let T' := (step cmp s (.run th)).threads th
    T'.returned = T.returned ∧
      if ii < T.numEvents then
        T'.phase = .registering (ii + 1) ∧ T'.isPolling = false ∧ T'.numEvents = T.numEvents
      else T'.phase = .clearing T.registered 0 := by
  simp only [step, runThread, hPhase]
  split
  · simp only [registerOne, hPolling, Bool.and_false, Bool.false_eq_true, if_false]
    split <;> simp [State.setThread]
  · simp [State.setThread, Thread.pend, hPolling]

theorem registering_returns (cmp : Nat → Nat → Int) (m : Nat) :
    ∀ (s : State) (ii : Nat), (s.threads th).phase = .registering ii →
      (s.threads th).isPolling = false → (s.threads th).numEvents ≤ ii + m →
      ∃ k, (s.threads th).returned.length <
        ((exec (step cmp) s (List.replicate k (.run th))).threads th).returned.length := by
  -- on the events that are left, the last section being the one that begins to clear
  induction m with
  | zero =>
    intro s ii hPhase hPolling hLeft
    obtain ⟨hRet, hNext⟩ := run_registering cmp hPhase hPolling
    rw [if_neg (by omega)] at hNext
    obtain ⟨events, hEnd⟩ := clearing_returns cmp _ _ hNext
    refine ⟨(s.threads th).registered + 1 + 1, ?_⟩
    rw [List.replicate_succ, exec_cons, hEnd, hRet]
    simp
  | succ m ih =>
    intro s ii hPhase hPolling hLeft
    obtain ⟨hRet, hNext⟩ := run_registering cmp hPhase hPolling
    split at hNext
    · obtain ⟨hPhase', hPolling', hNum⟩ := hNext
      obtain ⟨k, hEnd⟩ := ih _ (ii + 1) hPhase' hPolling' (by omega)
      exact ⟨k + 1, by rwa [List.replicate_succ, exec_cons, ← hRet]⟩
    · obtain ⟨events, hEnd⟩ := clearing_returns cmp _ _ hNext
      refine ⟨(s.threads th).registered + 1 + 1, ?_⟩
      rw [List.replicate_succ, exec_cons, hEnd, hRet]
      simp

/-- Whatever else happens, call `n` of the thread returns 0 with event `i` marked and nothing else,
and at any time the thread needs only to run for that. -/
def Told (cmp : Nat → Nat → Int) (s : State) (th n i state : Nat) : Prop :=
  ∀ ops, let u := exec (step cmp) s ops
    (∀ r, (u.threads th).returned[n]? = some r → r.1 = 0 ∧ Marked r.2 i state) ∧
      ∃ k, n < ((exec (step cmp) u (List.replicate k (.run th))).threads th).returned.length

theorem told_of_served {state : Nat} (h : Served (s.threads th) n i state) :
    Told cmp s th n i state := by
  intro ops
  have hServed := Served.exec cmp ops s h
  refine ⟨fun r hr => ?_, ?_⟩
  · rcases hServed with ⟨hLen, -, -⟩ | ⟨r', hr', hZero, hMarked⟩
    · rw [List.getElem?_eq_none (Nat.le_of_eq hLen)] at hr
      cases hr
    · obtain rfl : r' = r := Option.some.inj (hr'.symm.trans hr)
      exact ⟨hZero, hMarked⟩
  · rcases hServed with ⟨hLen, ⟨⟨ii, hPhase⟩, hPolling⟩ | ⟨m, hPhase⟩, -⟩ | ⟨r, hr, -⟩
    · obtain ⟨k, hk⟩ := registering_returns cmp _ _ ii hPhase hPolling (Nat.le_add_left _ _)
      exact ⟨k, hLen ▸ hk⟩
    · obtain ⟨events, hEnd⟩ := clearing_returns cmp m _ hPhase
      exact ⟨m + 1, by rw [hEnd]; simp [hLen]⟩
    · exact ⟨0, (List.getElem?_eq_some_iff.mp hr).1⟩

theorem not_told_of_failed (cmp : Nat → Nat → Int) (h : (s.threads th).Failed) (i state : Nat) :
    ¬ Told cmp s th (s.threads th).returned.length i state := by
  obtain ⟨n, rc, hPhase, hRc⟩ := h
  intro hTold
  obtain ⟨events, hEnd⟩ := clearing_returns cmp n s hPhase
  exact hRc ((hTold (List.replicate (n + 1) (.run th))).1 (rc, events) (by rw [hEnd]; simp)).1

/-! ## Notifications -/

/-- The object and the state of a notification. -/
def Op.notification : Op → Option (Nat × Nat)
  | .notify o state => some (o, state)
  | .raise o => some (o, 1)
  | _ => none

/-- The thread waits in `k_poll` for the object. -/
def PendedOn (T : Thread) (o : Nat) : Prop :=
  T.phase = .pended ∧ ∃ i < T.registered, (T.events i).type ≠ .ignore ∧ (T.events i).obj = o

/-- The thread of the first registration is served, unless it was to return an error. -/
theorem handle_told_iff (h : Inv s) {o state : Nat} {l : List (Nat × Nat)}
    (hList : s.polls o = (th, i) :: l) (hState : state ≠ cancelled) :
    Told cmp (zHandleObjPollEvents s o state) th (s.threads th).returned.length i state ↔
      ¬ (s.threads th).Failed := by
  obtain ⟨hLimit, -, -, hPoller⟩ := (h.good th).reg o i (hList ▸ List.mem_cons_self)
  have hThread : (zHandleObjPollEvents s o state).threads th =
      { signalPoller (s.threads th) state with
        isPolling := false
        events := set (s.threads th).events i
          (setEventReady ((s.threads th).events i) state) } := by
    simp [zHandleObjPollEvents, hList, signalPollEvent, hPoller, State.setThread]
  have hRet : ((zHandleObjPollEvents s o state).threads th).returned =
      (s.threads th).returned := by
    rw [hThread, signalPoller]
    split_ifs <;> rfl
  have hMarked : Marked ((zHandleObjPollEvents s o state).threads th).events i state := by
    simp [hThread, Marked, setEventReady, Nat.or_assoc]
  constructor
  · rintro hTold ⟨n, rc, hPhase, hRc⟩
    refine not_told_of_failed cmp ⟨n, rc, ?_, hRc⟩ i state (hRet.symm ▸ hTold)
    rw [hThread, signalPoller, if_neg (by simp [hPhase])]
    exact hPhase
  · intro hFailed
    refine told_of_served (.inl ⟨by rw [hRet], ?_, hMarked⟩)
    rw [hThread]
    cases hPhase : (s.threads th).phase with
    | idle => simp [Thread.limit, hPhase] at hLimit
    | registering ii => exact .inl ⟨⟨ii, by simp [signalPoller, hPhase]⟩, rfl⟩
    | pended => exact .inr ⟨(s.threads th).registered, by simp [signalPoller, hPhase, hState]⟩
    | clearing n rc =>
      have hRc : rc = 0 := by
        by_contra hRc
        exact hFailed ⟨n, rc, hPhase, hRc⟩
      exact .inr ⟨n, by simp [signalPoller, hPhase, hRc]⟩

/-- In every run a notification that takes a registration off a list leads to a call that returns 0
with the event marked if and only if the thread of the registration was not to return an error.  And
there is a registration to take off if a thread waits for the object. -/
theorem notification_told_iff (cmp : Nat → Nat → Int) (ops : List Op) (op : Op) (o state : Nat)
    (hOp : op.notification = some (o, state)) (hState : state ≠ cancelled) :
    let s := exec (step cmp) init ops
    (∀ th i l, s.polls o = (th, i) :: l →
      (Told cmp (step cmp s op) th (s.threads th).returned.length i state ↔
        ¬ (s.threads th).Failed)) ∧
    ∀ th, PendedOn (s.threads th) o → s.polls o ≠ [] := by
  intro s
  have hInv : Inv s := exec_invariant_of_mem ops (fun op _ u hu => hu.step op) init inv_init
  refine ⟨fun th i l hList => ?_, fun th hPended hNil => ?_⟩
  · cases op with
    | notify p bits =>
      obtain ⟨rfl, rfl⟩ : p = o ∧ bits = state := by simpa [Op.notification] using hOp
      exact handle_told_iff hInv hList hState
    | raise p =>
      obtain ⟨rfl, rfl⟩ : p = o ∧ 1 = state := by simpa [Op.notification] using hOp
      have hInv' : Inv { s with available := set s.available p true } := ⟨hInv.nodup, hInv.good⟩
      exact handle_told_iff hInv' hList hState
    | poll _ _ _ _ | run _ | timeout _ | become _ _ => cases hOp
  · obtain ⟨hPhase, i, hi, hType, rfl⟩ := hPended
    have hIn := (hInv.good th).waits i (.inl hPhase) hi hType
    rw [hNil] at hIn
    cases hIn

/-- In every run an object's list has a pended thread once for each of its events on the object,
and a thread that has returned not at all. -/
theorem registered_while_polling (cmp : Nat → Nat → Int) (ops : List Op) (th o : Nat) :
    let s := exec (step cmp) init ops
    let T := s.threads th
    (s.polls o).Nodup ∧ (T.phase = .idle → ∀ i, (th, i) ∉ s.polls o) ∧
      (T.phase = .pended → ∀ i, (th, i) ∈ s.polls o ↔
        i < T.registered ∧ (T.events i).type ≠ .ignore ∧ (T.events i).obj = o) := by
  intro s T
  have hInv : Inv s := exec_invariant_of_mem ops (fun op _ u hu => hu.step op) init inv_init
  obtain ⟨hReg, hWaits, -⟩ := hInv.good th
  refine ⟨hInv.nodup o, fun hIdle i hIn => ?_, fun hPended i => ⟨fun hIn => ?_, ?_⟩⟩
  · have hLimit := (hReg o i hIn).1
    rw [Thread.limit, hIdle] at hLimit
    exact Nat.not_lt_zero i hLimit
  · obtain ⟨hLimit, hObj, hType, -⟩ := hReg o i hIn
    rw [Thread.limit, hPended] at hLimit
    exact ⟨hLimit, hType, hObj⟩
  · rintro ⟨hi, hType, rfl⟩
    exact hWaits i (.inl hPended) hi hType

/-- A semaphore event, as `k_poll_event_init` leaves it. -/
def semEvents (sem : Nat) : Nat → Event := fun _ => ⟨.sem, sem, 0, none⟩

/-- One thread waits for a semaphore, and is told. -/
theorem notification_told_iff_one :
    let s := exec (step fun _ _ => 0) init [.poll 1 (semEvents 7) 1 false, .run 1, .run 1]
    s.polls 7 = [(1, 0)] ∧ Told (fun _ _ => 0) (step (fun _ _ => 0) s (.notify 7 2)) 1 0 0 2 := by
  refine ⟨by decide,
    ((notification_told_iff _ _ _ 7 2 rfl (by decide)).1 1 0 [] (by decide)).mpr ?_⟩
  rintro ⟨n, rc, hPhase, -⟩
  cases hPhase

/-- Threads 1 and 2 wait for a semaphore and thread 1 times out.  The semaphore is given: thread 1
returns `-EAGAIN`, and thread 2 still waits although the semaphore is available. -/
theorem stale_registration_absorbs :
    let s := exec (step fun _ _ => 0) init
      [.poll 1 (semEvents 7) 1 false, .run 1, .run 1, .poll 2 (semEvents 7) 1 false, .run 2, .run 2,
        .timeout 1, .become 7 true]
    let u := exec (step fun _ _ => 0) (step (fun _ _ => 0) s (.notify 7 2)) [.run 1, .run 1]
    s.polls 7 = [(1, 0), (2, 0)] ∧ (s.threads 2).phase = .pended ∧
      ¬ Told (fun _ _ => 0) (step (fun _ _ => 0) s (.notify 7 2)) 1 0 0 2 ∧
      (u.threads 1).returned.map Prod.fst = [-11] ∧
      (u.threads 2).phase = .pended ∧ u.available 7 = true := by
  refine ⟨by decide, by decide, ?_, by decide, by decide, by decide⟩
  exact not_told_of_failed _ ⟨1, -11, by decide, by decide⟩ 0 2

end Zvm.Kernel.Poll
