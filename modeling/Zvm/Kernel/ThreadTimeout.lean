import Zvm.Kernel.Timeout

/-!
# Timeouts of waiting threads

A thread that pends with a timeout puts the timeout that is part of its own structure on the list.
When it is woken in time, `z_unpend_first_thread` aborts that timeout.  If an announce has already
taken the timeout off the list the abort fails, which is ignored, and the announce goes on to call
`z_thread_timeout` for the thread.  That function looks only at whether the thread is pended.  So it
ends whatever wait the thread is in by then, also one that was started after the first had ended
(`stale_timeout_ends_wait`).

Waits are counted by thread, and a callback in flight carries the number of the wait that its
timeout was started for.
-/

namespace Zvm.Kernel

open Zvm.Verified.DeltaList Zvm.Verified.FunArray Zvm.Verified.Run

/-- Threads and wait queues are numbered.  `inFlight` has the thread whose timeout a CPU has taken
off the list and not called yet; `wait` counts the waits of a thread, `owner` is the wait its
timeout was last started for, and both are read by no code. -/
structure Waits where
  k : Timeouts Nat
  inFlight : Nat → Option (Nat × Nat)
  pendedOn : Nat → Option Nat
  queues : Nat → List Nat
  retval : Nat → Int
  wait : Nat → Nat
  owner : Nat → Nat

/-- `pend t q i ticks e` is a thread that pends and finds its place after `i` others. -/
inductive WaitOp where
  | pend (t q i : Nat) (ticks : Int) (e : Nat)
  | wake (q : Nat)
  | announce (cpu : Nat) (ticks : Int)
  | callback (cpu : Nat)
  | ret (cpu : Nat)

/-- `unpend_thread_no_timeout`. -/
def unpendThreadNoTimeout (w : Waits) (t : Nat) : Waits :=
  match w.pendedOn t with
  | none => w
  | some q =>
    { w with
      queues := set w.queues q ((w.queues q).erase t)
      pendedOn := set w.pendedOn t none }

/-- `z_pend_curr` up to the switch: the value returned unless somebody sets another is
`-EAGAIN`. -/
def zPendCurr (w : Waits) (t q i : Nat) (ticks : Int) (e : Nat) : Waits :=
  { w with
    k := zAddTimeout w.k t ticks e
    pendedOn := set w.pendedOn t (some q)
    queues := set w.queues q ((w.queues q).take i ++ t :: (w.queues q).drop i)
    retval := set w.retval t (-11)
    wait := set w.wait t (w.wait t + 1)
    owner := if ticks = -1 then w.owner else set w.owner t (w.wait t + 1) }

/-- `z_unpend_first_thread`, by a caller that then sets the return value to zero. -/
def zUnpendFirstThread (w : Waits) (q : Nat) : Waits :=
  match w.queues q with
  | [] => w
  | t :: _ =>
    { unpendThreadNoTimeout w t with
      k := (zAbortTimeout w.k t).1
      retval := set w.retval t 0 }

/-- The CPU goes on with the timeout that its loop came to, if any. -/
def Waits.goOn (w : Waits) (cpu : Nat) (res : Timeouts Nat × Option Nat) : Waits :=
  { w with
    k := res.1
    inFlight := match res.2 with
      | none => w.inFlight
      | some t => set w.inFlight cpu (some (t, w.owner t)) }

/-- `callback` is `z_thread_timeout`, which does the same as `z_sched_wake_thread`. -/
def waitStep (w : Waits) : WaitOp → Waits
  | .pend t q i ticks e => zPendCurr w t q i ticks e
  | .wake q => zUnpendFirstThread w q
  | .announce cpu ticks => w.goOn cpu (sysClockAnnounce true cpu ticks w.k)
  | .callback cpu =>
    match w.inFlight cpu with
    | none => w
    | some (t, _) => { unpendThreadNoTimeout w t with inFlight := set w.inFlight cpu none }
  | .ret cpu => w.goOn cpu (callbackReturn cpu w.k)

def Waits.start : Waits :=
  ⟨⟨0, [], 0, fun _ => none⟩, fun _ => none, fun _ => none, fun _ => [], fun _ => 0, fun _ => 0,
    fun _ => 0⟩

/-- Threads pend that are not pended, and a CPU finishes one callback before it comes to the
next. -/
def InOrder (w : Waits) : WaitOp → Prop
  | .pend t _ _ _ _ => w.pendedOn t = none
  | .announce cpu _ => w.inFlight cpu = none
  | .ret cpu => w.inFlight cpu = none
  | _ => True

instance decidableInOrder (w : Waits) : ∀ op, Decidable (InOrder w op)
  | .pend t _ _ _ _ => inferInstanceAs (Decidable (w.pendedOn t = none))
  | .wake _ => inferInstanceAs (Decidable True)
  | .announce cpu _ => inferInstanceAs (Decidable (w.inFlight cpu = none))
  | .callback _ => inferInstanceAs (Decidable True)
  | .ret cpu => inferInstanceAs (Decidable (w.inFlight cpu = none))

/-- No CPU is about to call the timeout of a thread that pends. -/
def NoneInFlight (w : Waits) : WaitOp → Prop
  | .pend t _ _ _ _ => ∀ cpu n, w.inFlight cpu ≠ some (t, n)
  | _ => True

/-- If this CPU calls its timeout now, a wait that is ended by it is the one the timeout was
started for. -/
def EndsOwnWait (w : Waits) (cpu : Nat) : Prop :=
  ∀ t, w.pendedOn t ≠ none → (waitStep w (.callback cpu)).pendedOn t = none →
    w.inFlight cpu = some (t, w.wait t)

/-- The timeouts on the list belong to the waits in progress, and so do the callbacks in flight
for threads that wait. -/
structure WaitInv (w : Waits) : Prop where
  keys : (w.k.list.map Prod.fst).Nodup
  timed : ∀ t ∈ w.k.list.map Prod.fst, w.pendedOn t ≠ none ∧ w.owner t = w.wait t
  queued : ∀ q t, t ∈ w.queues q → w.pendedOn t = some q
  distinct : ∀ q, (w.queues q).Nodup
  flight : ∀ cpu t n, w.inFlight cpu = some (t, n) →
    n ≤ w.wait t ∧ t ∉ w.k.list.map Prod.fst ∧ (w.pendedOn t ≠ none → n = w.wait t)

theorem unpend_pendedOn (w : Waits) (t : Nat) :
    (unpendThreadNoTimeout w t).pendedOn = set w.pendedOn t none := by
  unfold unpendThreadNoTimeout
  split
  · rename_i hNone
    rw [← hNone, set_self]
  · rfl

/-- The law in terms of the state. -/
theorem endsOwnWait_iff {w : Waits} :
    (∀ cpu, EndsOwnWait w cpu) ↔
      ∀ cpu t n, w.inFlight cpu = some (t, n) → w.pendedOn t ≠ none → n = w.wait t := by
  constructor
  · intro hAll cpu t n hFlight hPended
    have hOwn := hAll cpu t hPended (by
      rw [waitStep, hFlight]
      show (unpendThreadNoTimeout w t).pendedOn t = none
      rw [unpend_pendedOn, set_same])
    rw [hFlight] at hOwn
    cases hOwn
    rfl
  · intro hAll cpu t hPended hEnded
    rw [waitStep] at hEnded
    split at hEnded
    · exact absurd hEnded hPended
    · rename_i t' n hFlight
      have hEnded : (unpendThreadNoTimeout w t').pendedOn t = none := hEnded
      rw [unpend_pendedOn] at hEnded
      by_cases ht : t = t'
      · subst ht
        rw [hFlight, hAll cpu t n hFlight hPended]
      · rw [set_ne _ _ ht] at hEnded
        exact absurd hEnded hPended

/-! ## Steps -/

/-- What the announcing CPU takes off the list. -/
def Takes (s : Timeouts Nat) (res : Timeouts Nat × Option Nat) : Prop :=
  (res.2 = none ∧ res.1.list.map Prod.fst = s.list.map Prod.fst) ∨
    ∃ t, res.2 = some t ∧ s.list.map Prod.fst = t :: res.1.list.map Prod.fst

theorem loopHead_takes (cpu : Nat) (s : Timeouts Nat) : Takes s (loopHead cpu s) := by
  rcases loopHead_cases cpu s with ⟨-, hRes⟩ | ⟨t, d, l, hList, -, hRes⟩
  · rw [hRes]
    exact .inl ⟨rfl, map_fst_carry _ _⟩
  · rw [hRes]
    exact .inr ⟨t, rfl, by rw [hList, List.map_cons]⟩

theorem sysClockAnnounce_takes (cpu : Nat) (ticks : Int) (s : Timeouts Nat) :
    Takes s (sysClockAnnounce true cpu ticks s) := by
  unfold sysClockAnnounce
  split
  · exact .inl ⟨rfl, rfl⟩
  · exact loopHead_takes cpu { s with remaining := ticks }

theorem callbackReturn_takes (cpu : Nat) (s : Timeouts Nat) : Takes s (callbackReturn cpu s) := by
  unfold callbackReturn
  split
  · exact .inl ⟨rfl, rfl⟩
  · exact loopHead_takes cpu _

theorem WaitInv.goOn {w : Waits} (hW : WaitInv w) (cpu : Nat) {res : Timeouts Nat × Option Nat}
    (hTakes : Takes w.k res) : WaitInv (w.goOn cpu res) := by
  rcases hTakes with ⟨hNone, hKeys⟩ | ⟨t, hSome, hKeys⟩
  · rw [Waits.goOn, hNone]
    refine ⟨?_, ?_, hW.queued, hW.distinct, ?_⟩
    · rw [hKeys]
      exact hW.keys
    · rw [hKeys]
      exact hW.timed
    · rw [hKeys]
      exact hW.flight
  · rw [Waits.goOn, hSome]
    have hNodup := hW.keys
    rw [hKeys, List.nodup_cons] at hNodup
    have hHead := hW.timed t (by rw [hKeys]; exact List.mem_cons_self)
    have hRest : ∀ x ∈ res.1.list.map Prod.fst, x ∈ w.k.list.map Prod.fst := by
      intro x hx
      rw [hKeys]
      exact List.mem_cons_of_mem t hx
    refine ⟨hNodup.2, fun x hx => hW.timed x (hRest x hx), hW.queued, hW.distinct, ?_⟩
    intro c x n hFlight
    by_cases hc : c = cpu
    · -- the timeout just taken belongs to the wait in progress
      subst hc
      have hEq := (set_same w.inFlight c _).symm.trans hFlight
      cases hEq
      exact ⟨hHead.2.le, hNodup.1, fun _ => hHead.2⟩
    · obtain ⟨hLe, hNew, hOwn⟩ := hW.flight c x n ((set_ne _ _ hc).symm.trans hFlight)
      exact ⟨hLe, fun hx => hNew (hRest x hx), hOwn⟩

/-- A thread that stops waiting is in no queue. -/
theorem WaitInv.unpend_eq {w : Waits} (hW : WaitInv w) (t : Nat) :
    ∃ qs, unpendThreadNoTimeout w t =
        { w with queues := qs, pendedOn := set w.pendedOn t none } ∧
      ∀ q, (qs q).Sublist (w.queues q) ∧ t ∉ qs q := by
  cases hPended : w.pendedOn t with
  | none =>
    refine ⟨w.queues, ?_, ?_⟩
    · have hSet : set w.pendedOn t none = w.pendedOn := by rw [← hPended, set_self]
      simp only [unpendThreadNoTimeout, hPended, hSet]
    · refine fun q => ⟨.refl _, fun hMem => ?_⟩
      rw [hW.queued q t hMem] at hPended
      cases hPended
  | some q' =>
    refine ⟨set w.queues q' ((w.queues q').erase t), by rw [unpendThreadNoTimeout, hPended], ?_⟩
    intro q
    by_cases hq : q = q'
    · rw [hq, set_same]
      exact ⟨List.erase_sublist, (hW.distinct q').not_mem_erase⟩
    · rw [set_ne _ _ hq]
      refine ⟨.refl _, fun hMem => hq ?_⟩
      rw [hW.queued q t hMem] at hPended
      cases hPended
      rfl

/-- A thread stops waiting, and its timeout is not on the list any more. -/
theorem WaitInv.unpend {w : Waits} (hW : WaitInv w) {t : Nat} {qs : Nat → List Nat}
    {s : Timeouts Nat} {fl : Nat → Option (Nat × Nat)} {rv : Nat → Int}
    (hQueues : ∀ q, (qs q).Sublist (w.queues q) ∧ t ∉ qs q) (hNodup : (s.list.map Prod.fst).Nodup)
    (hKeys : ∀ x ∈ s.list.map Prod.fst, x ∈ w.k.list.map Prod.fst ∧ x ≠ t)
    (hFlight : ∀ c x, fl c = some x → w.inFlight c = some x) :
    WaitInv { w with
      k := s
      inFlight := fl
      pendedOn := set w.pendedOn t none
      queues := qs
      retval := rv } := by
  refine ⟨hNodup, ?_, ?_, fun q => (hW.distinct q).sublist (hQueues q).1, ?_⟩
  · intro x hx
    obtain ⟨hOld, hNe⟩ := hKeys x hx
    show set w.pendedOn t none x ≠ none ∧ w.owner x = w.wait x
    rw [set_ne _ _ hNe]
    exact hW.timed x hOld
  · intro q x hx
    have hNe : x ≠ t := fun hEq => (hQueues q).2 (hEq ▸ hx)
    exact (set_ne _ _ hNe).trans (hW.queued q x ((hQueues q).1.subset hx))
  · intro c x n hSome
    obtain ⟨hLe, hNew, hOwn⟩ := hW.flight c x n (hFlight c _ hSome)
    refine ⟨hLe, fun hx => hNew (hKeys x hx).1, fun hPended => hOwn ?_⟩
    by_cases hx : x = t
    · rw [hx] at hPended
      exact absurd (set_same _ _ _) hPended
    · exact fun hNone => hPended ((set_ne _ _ hx).trans hNone)

theorem WaitInv.pend {w : Waits} (hW : WaitInv w) {t q i : Nat} {ticks : Int} {e : Nat}
    (hFree : w.pendedOn t = none) (hNone : ∀ cpu n, w.inFlight cpu ≠ some (t, n)) :
    WaitInv (zPendCurr w t q i ticks e) := by
  have hNew : t ∉ w.k.list.map Prod.fst := fun hMem => (hW.timed t hMem).1 hFree
  have hOut : ∀ q', t ∉ w.queues q' := by
    intro q' hMem
    rw [hW.queued q' t hMem] at hFree
    cases hFree
  have hKeys : ((zAddTimeout w.k t ticks e).list.map Prod.fst).Nodup ∧
      ∀ x ∈ (zAddTimeout w.k t ticks e).list.map Prod.fst,
        (x = t ∧ ticks ≠ -1) ∨ x ∈ w.k.list.map Prod.fst := by
    unfold zAddTimeout
    split
    · exact ⟨hW.keys, fun x hx => .inr hx⟩
    · rename_i hTicks
      have hPerm := map_fst_insert_perm t (newDticks w.k ticks e) w.k.list
      refine ⟨hPerm.nodup_iff.mpr (List.nodup_cons.mpr ⟨hNew, hW.keys⟩), ?_⟩
      intro x hx
      rcases List.mem_cons.mp (hPerm.mem_iff.mp hx) with hEq | hOld
      · exact .inl ⟨hEq, hTicks⟩
      · exact .inr hOld
  have hQueue : ((w.queues q).take i ++ t :: (w.queues q).drop i).Perm (t :: w.queues q) := by
    refine List.perm_middle.trans ?_
    rw [List.take_append_drop]
  refine ⟨hKeys.1, ?_, ?_, ?_, ?_⟩
  · intro x hx
    show set w.pendedOn t (some q) x ≠ none ∧
      (if ticks = -1 then w.owner else set w.owner t (w.wait t + 1)) x =
        set w.wait t (w.wait t + 1) x
    rcases hKeys.2 x hx with ⟨rfl, hTicks⟩ | hOld
    · rw [if_neg hTicks, set_same, set_same, set_same]
      exact ⟨by simp, rfl⟩
    · have hNe : x ≠ t := fun hEq => hNew (hEq ▸ hOld)
      have hOwner : (if ticks = -1 then w.owner else set w.owner t (w.wait t + 1)) x =
          w.owner x := by
        split
        · rfl
        · exact set_ne _ _ hNe
      rw [hOwner, set_ne _ _ hNe, set_ne _ _ hNe]
      exact hW.timed x hOld
  · intro q' x hx
    show set w.pendedOn t (some q) x = some q'
    have hx : x ∈ set w.queues q ((w.queues q).take i ++ t :: (w.queues q).drop i) q' := hx
    by_cases hq : q' = q
    · subst hq
      rw [set_same, hQueue.mem_iff] at hx
      rcases List.mem_cons.mp hx with rfl | hOld
      · exact set_same _ _ _
      · have hNe : x ≠ t := fun hEq => hOut q' (hEq ▸ hOld)
        rw [set_ne _ _ hNe]
        exact hW.queued q' x hOld
    · rw [set_ne _ _ hq] at hx
      have hNe : x ≠ t := fun hEq => hOut q' (hEq ▸ hx)
      rw [set_ne _ _ hNe]
      exact hW.queued q' x hx
  · intro q'
    show (set w.queues q ((w.queues q).take i ++ t :: (w.queues q).drop i) q').Nodup
    refine set_elim (fun _ => ?_) fun _ => hW.distinct q'
    exact hQueue.nodup_iff.mpr (List.nodup_cons.mpr ⟨hOut q, hW.distinct q⟩)
  · intro c x n hFlight
    have hNe : x ≠ t := fun hEq => hNone c n (hEq ▸ hFlight)
    obtain ⟨hLe, hOld, hOwn⟩ := hW.flight c x n hFlight
    show n ≤ set w.wait t (w.wait t + 1) x ∧ x ∉ (zAddTimeout w.k t ticks e).list.map Prod.fst ∧
      (set w.pendedOn t (some q) x ≠ none → n = set w.wait t (w.wait t + 1) x)
    rw [set_ne _ _ hNe, set_ne _ _ hNe]
    refine ⟨hLe, fun hx => ?_, hOwn⟩
    rcases hKeys.2 x hx with ⟨hEq, -⟩ | hx
    · exact hNe hEq
    · exact hOld hx

theorem WaitInv.step {w : Waits} {op : WaitOp} (hW : WaitInv w) (hOrder : InOrder w op)
    (hNone : NoneInFlight w op) : WaitInv (waitStep w op) := by
  cases op with
  | pend t q i ticks e => exact hW.pend hOrder hNone
  | wake q =>
    rw [waitStep, zUnpendFirstThread]
    split
    · exact hW
    · rename_i t l hQueue
      have hKeys : (((zAbortTimeout w.k t).1.list).map Prod.fst).Nodup ∧
          ∀ x ∈ (zAbortTimeout w.k t).1.list.map Prod.fst,
            x ∈ w.k.list.map Prod.fst ∧ x ≠ t := by
        unfold zAbortTimeout
        split
        · simp only [map_fst_remove]
          refine ⟨hW.keys.erase t, fun x hx => ?_⟩
          obtain ⟨hNe, hx⟩ := hW.keys.mem_erase_iff.mp hx
          exact ⟨hx, hNe⟩
        · rename_i hOut
          exact ⟨hW.keys, fun x hx => ⟨hx, fun hEq => hOut (hEq ▸ hx)⟩⟩
      obtain ⟨qs, hEq, hQueues⟩ := hW.unpend_eq t
      rw [hEq]
      exact hW.unpend hQueues hKeys.1 hKeys.2 fun _ _ hx => hx
  | announce cpu ticks => exact hW.goOn cpu (sysClockAnnounce_takes cpu ticks w.k)
  | callback cpu =>
    rw [waitStep]
    split
    · exact hW
    · rename_i t n hFlight
      have hOut := (hW.flight cpu t n hFlight).2.1
      obtain ⟨qs, hEq, hQueues⟩ := hW.unpend_eq t
      rw [hEq]
      refine hW.unpend hQueues hW.keys (fun x hx => ⟨hx, fun hEq => hOut (hEq ▸ hx)⟩) ?_
      intro c x hx
      by_cases hc : c = cpu
      · rw [hc, set_same] at hx
        cases hx
      · rwa [set_ne _ _ hc] at hx
  | ret cpu => exact hW.goOn cpu (callbackReturn_takes cpu w.k)

theorem waitInv_start : WaitInv Waits.start := by
  refine ⟨List.nodup_nil, ?_, ?_, fun _ => List.nodup_nil, ?_⟩
  · intro t ht
    cases ht
  · intro q t ht
    cases ht
  · intro cpu t n hFlight
    cases hFlight

/-- In every run, a callback that runs ends no other wait than the one its timeout was started
for, exactly if no thread pends while its timeout is in flight. -/
theorem timeout_ends_own_wait_iff (ops : List WaitOp)
    (hOrder : Admissible waitStep InOrder Waits.start ops) :
    Always waitStep (fun w => ∀ cpu, EndsOwnWait w cpu) Waits.start ops ↔
      Admissible waitStep NoneInFlight Waits.start ops := by
  have hOwn : ∀ w, WaitInv w → ∀ cpu, EndsOwnWait w cpu := by
    intro w hW
    exact endsOwnWait_iff.mpr fun cpu t n hFlight => (hW.flight cpu t n hFlight).2.2
  have hBreak : ∀ w op, WaitInv w → InOrder w op →
      (∀ cpu, EndsOwnWait (waitStep w op) cpu) → NoneInFlight w op := by
    intro w op hW _ hNext
    cases op with
    | pend t q i ticks e =>
      -- the new wait has a number that no callback in flight can have
      intro cpu n hFlight
      have hLe := (hW.flight cpu t n hFlight).1
      have hNew : n = set w.wait t (w.wait t + 1) t :=
        endsOwnWait_iff.mp hNext cpu t n hFlight (by
          show set w.pendedOn t (some q) t ≠ none
          simp)
      rw [set_same] at hNew
      omega
    | wake q => trivial
    | announce cpu ticks => trivial
    | callback cpu => trivial
    | ret cpu => trivial
  exact always_iff_within hOwn (fun _ _ hW hIn hNone => hW.step hIn hNone) hBreak ops _
    waitInv_start hOrder

/-- A wait that times out, one that is ended in time, and one for ever. -/
theorem timeout_ends_own_wait_iff_three :
    Always waitStep (fun w => ∀ cpu, EndsOwnWait w cpu) Waits.start
      [.pend 7 0 0 1 0, .announce 0 2, .callback 0, .ret 0, .pend 7 1 0 5 0, .wake 1,
        .pend 7 0 0 (-1) 0] := by
  refine (timeout_ends_own_wait_iff _ ?_).mpr ?_
  · decide +kernel
  · have hNone : ∀ (w : Waits) q i ticks e, w.inFlight = (fun _ => none) →
        NoneInFlight w (.pend 7 q i ticks e) := by
      intro w q i ticks e hFlight cpu n
      rw [hFlight]
      simp
    have hClear : set (set (fun _ => none) 0 (some (7, 1))) 0 none =
        (fun _ => none : Nat → Option (Nat × Nat)) := by
      funext c
      simp only [set_apply]
      split <;> rfl
    exact ⟨hNone _ _ _ _ _ rfl, trivial, trivial, trivial, hNone _ _ _ _ _ hClear, trivial,
      hNone _ _ _ _ _ hClear, trivial⟩

/-- Thread 7 pends on queue 0 for a tick; CPU 0 takes its timeout off the list; the thread is woken
in time, pends on queue 1 for ever, and is thrown out of that wait with `-EAGAIN`. -/
theorem stale_timeout_ends_wait :
    Admissible waitStep InOrder Waits.start
        [.pend 7 0 0 1 0, .announce 0 2, .wake 0, .pend 7 1 0 (-1) 0, .callback 0] ∧
      (exec waitStep Waits.start [.pend 7 0 0 1 0, .announce 0 2, .wake 0]).retval 7 = 0 ∧
      (exec waitStep Waits.start
        [.pend 7 0 0 1 0, .announce 0 2, .wake 0, .pend 7 1 0 (-1) 0]).pendedOn 7 = some 1 ∧
      (exec waitStep Waits.start
        [.pend 7 0 0 1 0, .announce 0 2, .wake 0, .pend 7 1 0 (-1) 0, .callback 0]).pendedOn 7 =
          none ∧
      (exec waitStep Waits.start
        [.pend 7 0 0 1 0, .announce 0 2, .wake 0, .pend 7 1 0 (-1) 0, .callback 0]).retval 7 =
          -11 := by
  refine ⟨?_, ?_, ?_, ?_, ?_⟩ <;> decide +kernel

end Zvm.Kernel
