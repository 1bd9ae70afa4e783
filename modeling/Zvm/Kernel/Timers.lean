import Zvm.Kernel.ThreadTimeout

/-!
# Kernel timers

A `k_timer` has a timeout, a status that counts its expiries and a queue of threads that wait for
one.  An announce takes the expired timeout off the list and then calls the handler, which adds it
again for a periodic timer, counts the expiry, calls the user's function and wakes one thread.

`k_timer_stop` does something only if the timeout is on the list.  A handler that is still to come
is not stopped by it: it counts, calls the function and arms a periodic timer again.  And of the
threads that wait it wakes one, or none if the timeout is not on the list.
-/

namespace Zvm.Kernel.Timers

open Zvm.Verified.FunArray Zvm.Verified.Run

/-! ## The code -/

/-- `inFlight` has the timer whose handler a CPU is to run, and `calling` the one whose function it
is in. -/
structure State where
  k : Timeouts Nat
  inFlight : Nat → Option Nat
  calling : Nat → Option Nat
  hasFn : Nat → Bool
  period : Nat → Int
  status : Nat → Nat
  waitq : Nat → List Nat

/-- The end of `z_timer_expiration_handler`: the first waiting thread is made ready. -/
def wakeFirst (s : State) (t : Nat) : State :=
  { s with waitq := set s.waitq t (s.waitq t).tail }

/-- What a periodic timer is added for: `K_TIMEOUT_ABS_TICKS` of a time counted from
`k_uptime_ticks`, which returns a `uint64_t` sum as an `int64_t`. -/
def nextTicks (k : Timeouts Nat) (period : Int) (e : Nat) : Int :=
  tickAbs (max ((k.currTick + elapsed k e).bmod (2 ^ 64) + 1 + max (period - 1) 0) 0)

/-- `z_timer_expiration_handler` from its first check up to the call of the user's function, or to
its end if there is none. -/
def expirationHandler (s : State) (cpu t e : Nat) : State :=
  if t ∈ s.k.keys then { s with inFlight := set s.inFlight cpu none }
  else
    let s' :=
      { s with
        k :=
          if s.period t ≠ 0 ∧ s.period t ≠ -1 then
            zAddTimeout s.k t (nextTicks s.k (s.period t) e) e
          else s.k
        inFlight := set s.inFlight cpu none
        status := set s.status t ((s.status t + 1) % 2 ^ 32) }
    if s.hasFn t then { s' with calling := set s.calling cpu (some t) }
    else wakeFirst s' t

/-- `z_impl_k_timer_start`. -/
def kTimerStart (s : State) (t : Nat) (duration period : Int) (e : Nat) : State :=
  if duration = -1 then s
  else
    { s with
      k := zAddTimeout (zAbortTimeout s.k t).1 t
        (if tickAbs duration < 0 then max (duration - 1) 0 else duration) e
      period := set s.period t period
      status := set s.status t 0 }

/-- `z_impl_k_timer_stop`; the stop function does not concern the timers. -/
def kTimerStop (s : State) (t : Nat) : State :=
  if (zAbortTimeout s.k t).2 ≠ 0 then s
  else { wakeFirst s t with k := (zAbortTimeout s.k t).1 }

/-- `z_impl_k_timer_status_sync` by thread `th`, which finds its place after `i` others if it
waits.  What it does after that is `k_timer_status_get`. -/
def kTimerStatusSync (s : State) (th t i : Nat) : State :=
  if s.status t = 0 ∧ t ∈ s.k.keys then
    { s with waitq := set s.waitq t ((s.waitq t).take i ++ th :: (s.waitq t).drop i) }
  else { s with status := set s.status t 0 }

/-- The CPU goes on with the timeout that its loop came to, if any. -/
def State.goOn (s : State) (cpu : Nat) (res : Timeouts Nat × Option Nat) : State :=
  { s with
    k := res.1
    inFlight := match res.2 with
      | none => s.inFlight
      | some t => set s.inFlight cpu (some t) }

inductive Op where
  | start (t : Nat) (duration period : Int) (e : Nat)
  | stop (t : Nat)
  | statusGet (t : Nat)
  | statusSync (th t i : Nat)
  | announce (cpu : Nat) (ticks : Int)
  | handler (cpu e : Nat)
  | fnReturn (cpu : Nat)
  | ret (cpu : Nat)

def step (s : State) : Op → State
  | .start t duration period e => kTimerStart s t duration period e
  | .stop t => kTimerStop s t
  | .statusGet t => { s with status := set s.status t 0 }
  | .statusSync th t i => kTimerStatusSync s th t i
  | .announce cpu ticks => s.goOn cpu (sysClockAnnounce true cpu ticks s.k)
  | .handler cpu e =>
    match s.inFlight cpu with
    | none => s
    | some t => expirationHandler s cpu t e
  | .fnReturn cpu =>
    match s.calling cpu with
    | none => s
    | some t => wakeFirst { s with calling := set s.calling cpu none } t
  | .ret cpu => s.goOn cpu (callbackReturn cpu s.k)

/-- A CPU is done with a handler before it comes to the next. -/
def Orderly (s : State) : Op → Prop
  | .announce cpu _ => s.inFlight cpu = none ∧ s.calling cpu = none
  | .ret cpu => s.inFlight cpu = none ∧ s.calling cpu = none
  | _ => True

instance (s : State) : ∀ op, Decidable (Orderly s op)
  | .announce _ _ => inferInstanceAs (Decidable (_ ∧ _))
  | .ret _ => inferInstanceAs (Decidable (_ ∧ _))
  | .start _ _ _ _ | .stop _ | .statusGet _ | .statusSync _ _ _ | .handler _ _ | .fnReturn _ =>
    .isTrue trivial

def init (hasFn : Nat → Bool) : State :=
  ⟨⟨0, [], 0, fun _ => none⟩, fun _ => none, fun _ => none, hasFn, fun _ => 0, fun _ => 0,
    fun _ => []⟩

/-! ## The list -/

variable {s : State} {t : Nat}

/-- A start with no duration leaves the list alone; any other puts the timer in anew. -/
theorem kTimerStart_keys (s : State) (t : Nat) (duration period : Int) (e : Nat) :
    (kTimerStart s t duration period e).k.keys = s.k.keys ∨
      (kTimerStart s t duration period e).k.keys.Perm (t :: s.k.keys.erase t) := by
  unfold kTimerStart
  split
  · exact .inl rfl
  · next hDuration =>
      have hTicks : (if tickAbs duration < 0 then max (duration - 1) 0 else duration) ≠ -1 := by
        split <;> omega
      exact .inr (keys_abort s.k t ▸ keys_add _ t e hTicks)

theorem expirationHandler_keys (h : s.k.keys.Nodup) (cpu t e : Nat) :
    (expirationHandler s cpu t e).k.keys.Nodup ∧
      ∀ u, u ≠ t → (u ∈ (expirationHandler s cpu t e).k.keys ↔ u ∈ s.k.keys) := by
  by_cases hLinked : t ∈ s.k.keys
  · simpa [expirationHandler, hLinked] using h
  · have hKeys : (expirationHandler s cpu t e).k =
        if s.period t ≠ 0 ∧ s.period t ≠ -1 then
          zAddTimeout s.k t (nextTicks s.k (s.period t) e) e
        else s.k := by
      simp only [expirationHandler, if_neg hLinked]
      split <;> rfl
    rw [hKeys]
    split
    · have hTicks : nextTicks s.k (s.period t) e ≠ -1 := by
        unfold nextTicks tickAbs
        omega
      have hPerm := keys_add s.k t e hTicks
      refine ⟨hPerm.nodup_iff.mpr (List.nodup_cons.mpr ⟨hLinked, h⟩), fun u hu => ?_⟩
      rw [hPerm.mem_iff, List.mem_cons, or_iff_right hu]
    · exact ⟨h, fun _ _ => Iff.rfl⟩

/-- What the announcing CPU takes was on the list, and the rest stays. -/
theorem goOn_keys (h : s.k.keys.Nodup) (cpu : Nat) {res : Timeouts Nat × Option Nat}
    (hTakes : Takes s.k res) :
    (s.goOn cpu res).k.keys.Nodup ∧ (∀ t, t ∈ (s.goOn cpu res).k.keys → t ∈ s.k.keys) ∧
      ∀ c t, (s.goOn cpu res).inFlight c = some t → s.inFlight c = some t ∨ t ∈ s.k.keys := by
  rcases hTakes with ⟨hNext, hKeys⟩ | ⟨t, hNext, hKeys⟩
  · have hSame : (s.goOn cpu res).k.keys = s.k.keys := hKeys
    rw [hSame, State.goOn, hNext]
    exact ⟨h, fun _ ht => ht, fun _ _ hFlight => Or.inl hFlight⟩
  · have hOld : s.k.keys = t :: (s.goOn cpu res).k.keys := hKeys
    rw [hOld, List.nodup_cons] at h
    refine ⟨h.2, fun u hu => by rw [hOld]; exact List.mem_cons_of_mem t hu, fun c u hFlight => ?_⟩
    simp only [State.goOn, hNext] at hFlight
    by_cases hc : c = cpu
    · obtain rfl : t = u := by simpa [hc] using hFlight
      exact Or.inr (by rw [hOld]; exact List.mem_cons_self)
    · exact Or.inl (by rwa [set_ne _ _ hc] at hFlight)

theorem step_keys (h : s.k.keys.Nodup) (op : Op) : (step s op).k.keys.Nodup := by
  cases op with
  | start t duration period e =>
    rcases kTimerStart_keys s t duration period e with hSame | hPerm
    · exact hSame ▸ h
    · exact hPerm.nodup_iff.mpr (List.nodup_cons.mpr ⟨h.not_mem_erase, h.erase t⟩)
  | stop t =>
    change (kTimerStop s t).k.keys.Nodup
    unfold kTimerStop
    split
    · exact h
    · rw [show ({ wakeFirst s t with k := (zAbortTimeout s.k t).1 } : State).k.keys =
        (zAbortTimeout s.k t).1.keys from rfl, keys_abort]
      exact h.erase t
  | statusGet t => exact h
  | statusSync th t i =>
    change (kTimerStatusSync s th t i).k.keys.Nodup
    unfold kTimerStatusSync
    split <;> exact h
  | announce cpu ticks => exact (goOn_keys h cpu (sysClockAnnounce_takes cpu ticks s.k)).1
  | handler cpu e =>
    cases hFlight : s.inFlight cpu with
    | none => simpa only [step, hFlight] using h
    | some t => simpa only [step, hFlight] using (expirationHandler_keys h cpu t e).1
  | fnReturn cpu =>
    cases hCalling : s.calling cpu <;> simpa only [step, hCalling, wakeFirst] using h
  | ret cpu => exact (goOn_keys h cpu (callbackReturn_takes cpu s.k)).1

/-! ## A stopped timer -/

def Op.starts (t : Nat) : Op → Bool
  | .start u _ _ _ => u == t
  | _ => false

/-- A step until the next `k_timer_start` of `t`. -/
def Leaves (t : Nat) (s : State) (op : Op) : Prop := Orderly s op ∧ op.starts t = false

instance (t : Nat) (s : State) (op : Op) : Decidable (Leaves t s op) :=
  inferInstanceAs (Decidable (_ ∧ _))

/-- Its timeout is not on the list and nobody waits for it. -/
def Stopped (s : State) (t : Nat) : Prop := t ∉ s.k.keys ∧ s.waitq t = []

/-- The step leaves `t` stopped, does not raise its status and begins no call of its function. -/
def Calm (t : Nat) (s s' : State) : Prop :=
  Stopped s' t ∧ s'.status t ≤ s.status t ∧ ∀ c, s'.calling c = some t → s.calling c = some t

/-- The timer is stopped, and every step that follows is calm. -/
def StaysStopped (s : State) (t : Nat) : Prop :=
  Stopped s t ∧ ∀ ops op, Admissible step (Leaves t) s (ops ++ [op]) →
    Calm t (exec step s ops) (step (exec step s ops) op)

/-- No CPU has taken the timeout off the list without having run the locked part of its handler. -/
def NotInFlight (s : State) (t : Nat) : Prop := ∀ c, s.inFlight c ≠ some t

theorem not_linked_start {u : Nat} (h : t ∉ s.k.keys) (hu : u ≠ t) (duration period : Int)
    (e : Nat) : t ∉ (kTimerStart s u duration period e).k.keys := by
  intro hIn
  rcases kTimerStart_keys s u duration period e with hSame | hPerm
  · exact h (hSame ▸ hIn)
  · rcases List.mem_cons.mp (hPerm.mem_iff.mp hIn) with rfl | hIn
    · exact hu rfl
    · exact h (List.mem_of_mem_erase hIn)

/-- The handler of another timer. -/
theorem expirationHandler_other {u : Nat} (hu : t ≠ u) (cpu e : Nat) :
    let s' := expirationHandler s cpu u e
    s'.waitq t = s.waitq t ∧ s'.status t = s.status t ∧
      (∀ c, s'.calling c = some t → s.calling c = some t) ∧
      ∀ c, s'.inFlight c = some t → s.inFlight c = some t := by
  simp only [expirationHandler, wakeFirst]
  split_ifs <;> grind

section

variable (hKeys : s.k.keys.Nodup) (hStopped : Stopped s t)
include hKeys hStopped

theorem goOn_calm (hFlight : NotInFlight s t) (cpu : Nat) {res : Timeouts Nat × Option Nat}
    (hTakes : Takes s.k res) : Calm t s (s.goOn cpu res) ∧ NotInFlight (s.goOn cpu res) t := by
  obtain ⟨-, hOld, hNew⟩ := goOn_keys hKeys cpu hTakes
  refine ⟨⟨⟨fun hIn => hStopped.1 (hOld t hIn), hStopped.2⟩, le_rfl, fun _ hc => hc⟩,
    fun c hc => ?_⟩
  rcases hNew c t hc with hBefore | hLinked
  · exact hFlight c hBefore
  · exact hStopped.1 hLinked

theorem step_calm (hFlight : NotInFlight s t) {op : Op} (hOp : op.starts t = false) :
    Calm t s (step s op) ∧ NotInFlight (step s op) t := by
  obtain ⟨hOff, hNobody⟩ := hStopped
  cases op with
  | start u duration period e =>
    have hu : u ≠ t := by simpa [Op.starts] using hOp
    have hOff' := not_linked_start hOff hu duration period e
    change Calm t s (kTimerStart s u duration period e) ∧ NotInFlight (kTimerStart s u _ _ e) t
    unfold Calm Stopped NotInFlight
    refine ⟨⟨⟨hOff', ?_⟩, ?_, ?_⟩, ?_⟩ <;> unfold kTimerStart <;> split <;>
      grind [NotInFlight]
  | stop u =>
    have hOff' : t ∉ (zAbortTimeout s.k u).1.keys := by
      rw [keys_abort]
      exact fun hIn => hOff (List.mem_of_mem_erase hIn)
    change Calm t s (kTimerStop s u) ∧ NotInFlight (kTimerStop s u) t
    unfold Calm Stopped NotInFlight kTimerStop wakeFirst
    split <;> grind [NotInFlight]
  | statusGet u =>
    refine ⟨⟨⟨hOff, hNobody⟩, ?_, fun _ hc => hc⟩, hFlight⟩
    simp only [step, set_apply]
    split <;> omega
  | statusSync th u i =>
    -- nobody begins to wait for a timer that is not on the list
    change Calm t s (kTimerStatusSync s th u i) ∧ NotInFlight (kTimerStatusSync s th u i) t
    unfold Calm Stopped NotInFlight kTimerStatusSync
    split <;> grind [NotInFlight]
  | announce cpu ticks =>
    exact goOn_calm hKeys ⟨hOff, hNobody⟩ hFlight cpu (sysClockAnnounce_takes cpu ticks s.k)
  | handler cpu e =>
    cases hCpu : s.inFlight cpu with
    | none =>
      simp only [step, hCpu]
      exact ⟨⟨⟨hOff, hNobody⟩, le_rfl, fun _ hc => hc⟩, hFlight⟩
    | some u =>
      have hu : t ≠ u := fun hEq => hFlight cpu (hEq ▸ hCpu)
      obtain ⟨hWaitq, hStatus, hCalling, hOld⟩ := expirationHandler_other (s := s) hu cpu e
      have hOff' := mt ((expirationHandler_keys hKeys cpu u e).2 t hu).mp hOff
      simp only [step, hCpu]
      exact ⟨⟨⟨hOff', hWaitq.trans hNobody⟩, hStatus.le, hCalling⟩,
        fun c hc => hFlight c (hOld c hc)⟩
  | fnReturn cpu =>
    cases hCpu : s.calling cpu with
    | none =>
      simp only [step, hCpu]
      exact ⟨⟨⟨hOff, hNobody⟩, le_rfl, fun _ hc => hc⟩, hFlight⟩
    | some u =>
      simp only [step, hCpu, wakeFirst]
      refine ⟨⟨⟨hOff, ?_⟩, le_rfl, fun c hc => ?_⟩, hFlight⟩
      · grind
      · grind
  | ret cpu =>
    exact goOn_calm hKeys ⟨hOff, hNobody⟩ hFlight cpu (callbackReturn_takes cpu s.k)

/-- A stopped timer with no handler to come stays stopped. -/
theorem staysStopped_of (hFlight : NotInFlight s t) : StaysStopped s t := by
  refine ⟨hStopped, fun ops op hAdm => ?_⟩
  obtain ⟨hBefore, hOp, -⟩ := (admissible_append step (Leaves t) ops [op] s).mp hAdm
  have hKeep : ∀ u a, (u.k.keys.Nodup ∧ Stopped u t ∧ NotInFlight u t) → Leaves t u a →
      (step u a).k.keys.Nodup ∧ Stopped (step u a) t ∧ NotInFlight (step u a) t := by
    rintro u a ⟨hNodup, hOff, hNone⟩ ha
    obtain ⟨hCalm, hNone'⟩ := step_calm hNodup hOff hNone ha.2
    exact ⟨step_keys hNodup a, hCalm.1, hNone'⟩
  obtain ⟨hNodup, hOff, hNone⟩ :=
    exec_invariant hKeep ops s ⟨hKeys, hStopped, hFlight⟩ hBefore
  exact (step_calm hNodup hOff hNone hOp.2).1

end

theorem expirationHandler_status (hOff : t ∉ s.k.keys) (cpu e : Nat) :
    (expirationHandler s cpu t e).status t = (s.status t + 1) % 2 ^ 32 := by
  simp only [expirationHandler, if_neg hOff]
  split <;> simp [wakeFirst]

/-- A handler to come counts an expiry of a timer that is not on the list: after the status is
read, it raises it. -/
theorem not_staysStopped {c : Nat} (hFlight : s.inFlight c = some t) : ¬ StaysStopped s t := by
  rintro ⟨hStopped, hCalm⟩
  obtain ⟨-, hStatus, -⟩ :=
    hCalm [.statusGet t] (.handler c 0) ⟨⟨trivial, rfl⟩, ⟨trivial, rfl⟩, trivial⟩
  have hRead : (step s (.statusGet t)).status t = 0 := set_same _ _ _
  have hHandler : step (step s (.statusGet t)) (.handler c 0) =
      expirationHandler (step s (.statusGet t)) c t 0 := by
    simp only [step, hFlight]
  have hOff : t ∉ (step s (.statusGet t)).k.keys := hStopped.1
  rw [exec_cons, exec_nil, hHandler, expirationHandler_status hOff, hRead] at hStatus
  omega

theorem kTimerStop_stopped_iff (hKeys : s.k.keys.Nodup) (t : Nat) :
    Stopped (kTimerStop s t) t ↔ (s.waitq t).length ≤ if t ∈ s.k.keys then 1 else 0 := by
  by_cases hIn : t ∈ s.k.keys
  · have hLinked : t ∈ s.k.list.map Prod.fst := hIn
    have hAbort : (zAbortTimeout s.k t).2 = 0 := by rw [zAbortTimeout, if_pos hLinked]
    have hOff : t ∉ (zAbortTimeout s.k t).1.keys := by
      rw [keys_abort]
      exact hKeys.not_mem_erase
    simp only [Stopped, kTimerStop, hAbort, ne_eq, not_true_eq_false, if_false, if_pos hIn,
      wakeFirst, set_same, hOff, not_false_eq_true, true_and, ← List.length_eq_zero_iff,
      List.length_tail]
    omega
  · have hLinked : t ∉ s.k.list.map Prod.fst := hIn
    have hAbort : (zAbortTimeout s.k t).2 ≠ 0 := by simp [zAbortTimeout, hLinked]
    simp [Stopped, kTimerStop, hAbort, hIn]

theorem kTimerStop_inFlight (s : State) (t : Nat) : (kTimerStop s t).inFlight = s.inFlight := by
  unfold kTimerStop
  split <;> rfl

/-- After `k_timer_stop` in any state of any run the timer stays stopped until it is started again
if and only if no handler of it is to come and at most the one thread that is woken waits. -/
theorem timer_stays_stopped_iff (hasFn : Nat → Bool) (ops : List Op) (t : Nat)
    (hRun : Admissible step Orderly (init hasFn) ops) :
    let s := exec step (init hasFn) ops
    StaysStopped (kTimerStop s t) t ↔
      NotInFlight s t ∧ (s.waitq t).length ≤ if t ∈ s.k.keys then 1 else 0 := by
  intro s
  have hKeep : ∀ u a, u.k.keys.Nodup → Orderly u a → (step u a).k.keys.Nodup :=
    fun _ a hu _ => step_keys hu a
  have hKeys : s.k.keys.Nodup := exec_invariant hKeep ops _ List.nodup_nil hRun
  have hKeys' : (kTimerStop s t).k.keys.Nodup := step_keys hKeys (.stop t)
  rw [← kTimerStop_stopped_iff hKeys t]
  constructor
  · intro hStays
    refine ⟨fun c hc => not_staysStopped (c := c) ?_ hStays, hStays.1⟩
    rw [kTimerStop_inFlight]
    exact hc
  · rintro ⟨hFlight, hStopped⟩
    refine staysStopped_of hKeys' hStopped fun c => ?_
    rw [kTimerStop_inFlight]
    exact hFlight c

/-- A timer that is waited for by one thread is stopped. -/
theorem timer_stays_stopped_iff_one_waiter :
    let s := exec step (init fun _ => true) [.start 0 5 3 0, .statusSync 1 0 0]
    s.waitq 0 = [1] ∧ StaysStopped (kTimerStop s 0) 0 := by
  refine ⟨by decide, (timer_stays_stopped_iff _ _ 0 (by decide)).mpr ⟨?_, by decide⟩⟩
  exact fun _ hc => Option.some_ne_none 0 hc.symm

/-- CPU 0 takes the expired timeout of a periodic timer off the list, CPU 1 stops the timer, and
the handler arms it again, counts and calls its function.  And of two threads that wait for a timer
one is woken, and the other waits for a timer that is stopped. -/
theorem stopped_timer_restarts :
    let s := kTimerStop (exec step (init fun _ => true) [.start 0 1 3 0, .announce 0 1]) 0
    let u := step s (.handler 0 0)
    let v := kTimerStop (exec step (init fun _ => false)
      [.start 0 5 0 0, .statusSync 1 0 0, .statusSync 2 0 1]) 0
    (¬ StaysStopped s 0 ∧ 0 ∈ u.k.keys ∧ u.status 0 = 1 ∧ u.calling 0 = some 0) ∧
      ¬ StaysStopped v 0 ∧ v.k.keys = [] ∧ v.waitq 0 = [2] := by
  intro s u v
  have hTwo : ¬ StaysStopped v 0 := fun hStays => absurd hStays.1.2 (by decide)
  exact ⟨⟨not_staysStopped (c := 0) (by decide), by decide, by decide, by decide⟩,
    hTwo, by decide, by decide⟩

end Zvm.Kernel.Timers
