import Mathlib.Algebra.Order.Group.Int
import Mathlib.Data.List.Perm.Basic
import Zvm.Verified.DeltaList
import Zvm.Verified.FunArray
import Zvm.Verified.OrderedInsert
import Zvm.Verified.Run

/-!
# Timeouts

`timeout.c` keeps the timeouts of the kernel in one list, each with the ticks from the one before
it.  `sys_clock_announce` lets time pass: it moves `curr_tick` to the expiry of the first timeout
that is reached, takes it off the list, and calls it with the lock released, so that timeouts are
added and aborted between any two rounds of its loop.  The loop is cut there: a step of the model
is what happens under the lock, up to the next callback or the end.

`World` has the history beside the kernel's state: every addition with the expiry it should have,
and what became of it.  The invariant says that the list shows the additions still queued in the
order of their expiry, and everything said about runs is read off it.
-/

namespace Zvm.Kernel

open Zvm.Verified Zvm.Verified.DeltaList Zvm.Verified.FunArray Zvm.Verified.Run
  Zvm.Verified.OrderedInsert

/-! ## The code -/

/-- A value of type `uint64_t`. -/
def u64 (x : Int) : Nat := (x % 2 ^ 64).toNat

/-- The state of `timeout.c`, with the local variables `t` and `dt` of the loops that wait for a
callback, by CPU. -/
structure Timeouts (τ : Type*) where
  currTick : Nat
  list : List (τ × Int)
  remaining : Int
  serving : Nat → Option (τ × Int)

variable {τ : Type*}

/-- `Z_TICK_ABS`. -/
def tickAbs (ticks : Int) : Int := -1 - 1 - ticks

/-- `elapsed`, if `sys_clock_elapsed` returns `e`. -/
def elapsed (s : Timeouts τ) (e : Nat) : Int :=
  if s.remaining = 0 then (e : Int).bmod (2 ^ 32) else 0

/-- The `dticks` of a new timeout, counted from `curr_tick`. -/
def newDticks (s : Timeouts τ) (ticks : Int) (e : Nat) : Int :=
  if 0 ≤ tickAbs ticks then max 1 ((tickAbs ticks - s.currTick).bmod (2 ^ 64))
  else ticks + 1 + elapsed s e

/-- `z_add_timeout`; `-1` is `K_FOREVER`. -/
def zAddTimeout (s : Timeouts τ) (t : τ) (ticks : Int) (e : Nat) : Timeouts τ :=
  if ticks = -1 then s else { s with list := insert t (newDticks s ticks e) s.list }

/-- The end of `sys_clock_announce`. -/
def finish (cpu : Nat) (s : Timeouts τ) : Timeouts τ :=
  { currTick := u64 (s.currTick + s.remaining)
    list := carry (-s.remaining) s.list
    remaining := 0
    serving := set s.serving cpu none }

/-- `z_abort_timeout`, which returns `-EINVAL` for a timeout that is not queued. -/
def zAbortTimeout [DecidableEq τ] (s : Timeouts τ) (t : τ) : Timeouts τ × Int :=
  if t ∈ s.list.map Prod.fst then ({ s with list := remove t s.list }, 0) else (s, -22)

/-- `z_timeout_expires`. -/
def zTimeoutExpires [DecidableEq τ] (s : Timeouts τ) (t : τ) : Int :=
  if t ∈ s.list.map Prod.fst then (s.currTick : Int).bmod (2 ^ 64) + timeTo t s.list
  else (s.currTick : Int).bmod (2 ^ 64)

/-- The head of the loop of `sys_clock_announce`: the timeout that is called next, or the end. -/
def loopHead [DecidableEq τ] (cpu : Nat) (s : Timeouts τ) : Timeouts τ × Option τ :=
  match s.list with
  | [] => (finish cpu s, none)
  | (t, d) :: l =>
    if d ≤ s.remaining then
      ({ s with
          currTick := u64 (s.currTick + d)
          list := remove t ((t, 0) :: l)
          serving := set s.serving cpu (some (t, d)) }, some t)
    else (finish cpu s, none)

/-- `sys_clock_announce` up to its first callback. -/
def sysClockAnnounce [DecidableEq τ] (smp : Bool) (cpu : Nat) (ticks : Int)
    (s : Timeouts τ) : Timeouts τ × Option τ :=
  if smp = true ∧ s.remaining ≠ 0 then ({ s with remaining := s.remaining + ticks }, none)
  else loopHead cpu { s with remaining := ticks }

/-- `sys_clock_announce` from the return of a callback on. -/
def callbackReturn [DecidableEq τ] (cpu : Nat) (s : Timeouts τ) : Timeouts τ × Option τ :=
  match s.serving cpu with
  | none => (s, none)
  | some (_, dt) =>
    loopHead cpu { s with remaining := s.remaining - dt, serving := set s.serving cpu none }

/-- The timeouts on the list. -/
def Timeouts.keys (s : Timeouts τ) : List τ := s.list.map Prod.fst

theorem keys_abort [DecidableEq τ] (s : Timeouts τ) (t : τ) :
    (zAbortTimeout s t).1.keys = s.keys.erase t := by
  unfold zAbortTimeout
  split
  · exact map_fst_remove t s.list
  · next hOut => exact (List.erase_of_not_mem hOut).symm

theorem keys_add (s : Timeouts τ) (t : τ) {ticks : Int} (e : Nat) (hTicks : ticks ≠ -1) :
    (zAddTimeout s t ticks e).keys.Perm (t :: s.keys) := by
  rw [zAddTimeout, if_neg hTicks]
  exact map_fst_insert_perm t _ s.list

/-! ## Histories -/

/-- One addition of a timeout: when it should fire, and the number of additions before it. -/
@[ext]
structure Entry (τ : Type*) where
  timeout : τ
  expiry : Nat
  seq : Nat

/-- A call of a timeout: its last addition, and `curr_tick` during the call. -/
structure Firing (τ : Type*) where
  entry : Entry τ
  tick : Nat

/-- The kernel and its history.  `now` is `curr_tick` without the wrap-around, and `announced` the
ticks announced so far. -/
structure World (τ : Type*) where
  k : Timeouts τ
  now : Nat
  announced : Nat
  added : List (Entry τ)
  current : τ → Entry τ
  fired : List (Firing τ)
  aborted : List (Entry τ)

inductive TimerOp (τ : Type*) where
  | add (t : τ) (ticks : Int) (e : Nat)
  | abort (t : τ)
  | announce (cpu : Nat) (ticks : Int)
  | ret (cpu : Nat)

/-- The expiry that an addition should have. -/
def expiry (now : Nat) (s : Timeouts τ) (ticks : Int) (e : Nat) : Int :=
  if 0 ≤ tickAbs ticks then max (tickAbs ticks) (now + 1) else now + ticks + 1 + elapsed s e

/-- The history goes on as the announcing CPU has moved. -/
def World.advance (w : World τ) (res : Timeouts τ × Option τ) : World τ :=
  { w with
    k := res.1
    now := w.now + u64 (res.1.currTick - w.k.currTick)
    fired := w.fired ++ res.2.toList.map fun t => ⟨w.current t, res.1.currTick⟩ }

def World.newEntry (w : World τ) (t : τ) (ticks : Int) (e : Nat) : Entry τ :=
  ⟨t, (expiry w.now w.k ticks e).toNat, w.added.length⟩

def timerStep [DecidableEq τ] (smp : Bool) (w : World τ) : TimerOp τ → World τ
  | .add t ticks e =>
    if ticks = -1 then w
    else
      { w with
        k := zAddTimeout w.k t ticks e
        added := w.added ++ [w.newEntry t ticks e]
        current := Function.update w.current t (w.newEntry t ticks e) }
  | .abort t =>
    { w with
      k := (zAbortTimeout w.k t).1
      aborted :=
        if (zAbortTimeout w.k t).2 = 0 then w.aborted ++ [w.current t] else w.aborted }
  | .announce cpu ticks =>
    World.advance { w with announced := w.announced + ticks.toNat }
      (sysClockAnnounce smp cpu ticks w.k)
  | .ret cpu => w.advance (callbackReturn cpu w.k)

/-- After boot. -/
def World.start : World τ :=
  ⟨⟨0, [], 0, fun _ => none⟩, 0, 0, [], fun t => ⟨t, 0, 0⟩, [], []⟩

/-- The calls that are considered: timeouts are added while they are not queued and with deadlines
below `2 ^ 62`, `sys_clock_elapsed` is below `2 ^ 31` where it is read, and announces do not
overlap. -/
def InDomain (w : World τ) : TimerOp τ → Prop
  | .add t ticks e => ticks = -1 ∨
      (t ∉ w.k.list.map Prod.fst ∧ (w.k.remaining = 0 → e < 2 ^ 31) ∧
        expiry w.now w.k ticks e < 2 ^ 62)
  | .abort _ => True
  | .announce _ ticks => (∀ c, w.k.serving c = none) ∧ 1 ≤ ticks ∧ ticks < 2 ^ 31
  | .ret cpu => w.k.serving cpu ≠ none

/-! ## What the list shows -/

/-- The list, read from the tick `now`, has these additions. -/
def Shows (now : Nat) (l : List (τ × Int)) (q : List (Entry τ)) : Prop :=
  due (now : Int) l = q.map fun e => (e.timeout, (e.expiry : Int))

/-- In order of expiry, and of addition for equal expiry. -/
def Before (a b : Entry τ) : Prop := a.expiry < b.expiry ∨ (a.expiry = b.expiry ∧ a.seq < b.seq)

variable {now cpu : Nat} {ticks : Int} {l : List (τ × Int)} {q : List (Entry τ)} {w : World τ}
  {op : TimerOp τ}

theorem Before.le {a b : Entry τ} (hab : Before a b) : a.expiry ≤ b.expiry := by
  rcases hab with hLt | ⟨hEq, -⟩ <;> omega

theorem Shows.keys (hShows : Shows now l q) : l.map Prod.fst = q.map Entry.timeout := by
  rw [← map_fst_due (now : Int) l, hShows, List.map_map]
  rfl

theorem Shows.insert {d : Int} {e : Entry τ} (hShows : Shows now l q)
    (hExpiry : (e.expiry : Int) = now + d) :
    Shows now (DeltaList.insert e.timeout d l)
      (q.orderedInsert (fun a b => a.expiry < b.expiry) e) := by
  rw [Shows, due_insert, hShows, ← hExpiry]
  exact (List.map_orderedInsert (fun a b => a.expiry < b.expiry) (fun a b => a.2 < b.2)
    (fun a => (a.timeout, (a.expiry : Int))) q e (fun _ _ => Int.ofNat_lt.symm)
    fun _ _ => Int.ofNat_lt.symm).symm

theorem Shows.remove [DecidableEq τ] (hShows : Shows now l q) (t : τ) :
    Shows now (DeltaList.remove t l) (q.eraseP fun e => decide (e.timeout = t)) := by
  rw [Shows, due_remove, hShows, List.eraseP_map]
  rfl

theorem Shows.cons {t : τ} {d : Int} (hShows : Shows now ((t, d) :: l) q) :
    ∃ e q', q = e :: q' ∧ e.timeout = t ∧ (e.expiry : Int) = now + d ∧ Shows e.expiry l q' := by
  cases q with
  | nil => simp [Shows] at hShows
  | cons e q' =>
    rw [Shows, due_cons, List.map_cons, List.cons.injEq, Prod.mk.injEq] at hShows
    obtain ⟨⟨rfl, hExpiry⟩, hRest⟩ := hShows
    exact ⟨e, q', rfl, rfl, hExpiry.symm, by rw [Shows, ← hExpiry, hRest]⟩

theorem Shows.pass {now' : Nat} {x : Int} (hShows : Shows now l q) (hNow : (now' : Int) = now + x) :
    Shows now' (carry (-x) l) q := by
  rw [Shows, due_carry, hNow, Int.add_neg_cancel_right]
  exact hShows

/-! ## The invariant -/

/-- What is true of the history and the list, wherever the loop stands. -/
structure Core (w : World τ) (q : List (Entry τ)) : Prop where
  list_shows : Shows w.now w.k.list q
  tick : w.k.currTick = w.now % 2 ^ 64
  sorted : q.Pairwise Before
  bound : ∀ e ∈ q, e.expiry < 2 ^ 62
  current : ∀ e ∈ q, w.current e.timeout = e
  ahead : ∀ e ∈ q, w.now ≤ e.expiry
  fired_sorted : w.fired.Pairwise fun f g => Before f.entry g.entry
  fired_tick : ∀ f ∈ w.fired, f.tick = f.entry.expiry
  fired_past : ∀ f ∈ w.fired, f.entry.expiry ≤ w.now
  fired_before : ∀ f ∈ w.fired, ∀ e ∈ q, Before f.entry e
  seqs : w.added.map Entry.seq = List.range w.added.length
  parts : (w.fired.map Firing.entry ++ w.aborted ++ q).Perm w.added

/-- No announce is going on, and nothing that is queued is due. -/
structure IdleAt (w : World τ) (q : List (Entry τ)) : Prop where
  no_server : ∀ c, w.k.serving c = none
  remaining : w.k.remaining = 0
  now : w.now = w.announced
  later : ∀ e ∈ q, w.now < e.expiry

/-- One CPU waits for a callback. -/
structure ServedBy (w : World τ) (cpu : Nat) (dt : Int) : Prop where
  server : ∃ f, w.fired.getLast? = some f ∧ f.tick = w.k.currTick ∧
    w.k.serving cpu = some (f.entry.timeout, dt)
  only : ∀ c, c ≠ cpu → w.k.serving c = none
  nonneg : 0 ≤ dt
  le : dt ≤ w.k.remaining
  small : w.k.remaining < 2 ^ 31
  now : (w.now : Int) + (w.k.remaining - dt) = w.announced

def Inv (w : World τ) (q : List (Entry τ)) : Prop :=
  Core w q ∧ (IdleAt w q ∨ ∃ cpu dt, ServedBy w cpu dt)

def Good (w : World τ) : Prop := ∃ q, Inv w q

/-- Nobody serves: the idle part of the invariant. -/
theorem Inv.idle (h : Inv w q) (hFree : ∀ c, w.k.serving c = none) : IdleAt w q := by
  rcases h.2 with hIdle | ⟨c, dt, hS⟩
  · exact hIdle
  · obtain ⟨f, -, -, ht⟩ := hS.server
    rw [hFree c] at ht
    cases ht

/-- A CPU serves: it is the one of the invariant. -/
theorem Inv.served (h : Inv w q) (hServing : w.k.serving cpu ≠ none) : ∃ dt, ServedBy w cpu dt := by
  rcases h.2 with hIdle | ⟨c, dt, hS⟩
  · exact absurd (hIdle.no_server cpu) hServing
  · by_cases hc : cpu = c
    · exact ⟨dt, hc ▸ hS⟩
    · exact absurd (hS.only cpu hc) hServing

theorem Core.added_nodup (hC : Core w q) : w.added.Nodup := by
  refine List.Nodup.of_map Entry.seq ?_
  rw [hC.seqs]
  exact List.nodup_range

theorem Core.seq_lt (hC : Core w q) {e : Entry τ} (he : e ∈ q) : e.seq < w.added.length := by
  have hAdded : e ∈ w.added := hC.parts.mem_iff.mp (List.mem_append_right _ he)
  rw [← List.mem_range, ← hC.seqs]
  exact List.mem_map_of_mem hAdded

theorem Core.queue_nodup (hC : Core w q) : q.Nodup :=
  (List.nodup_append.mp (hC.parts.nodup_iff.mpr hC.added_nodup)).2.1

/-- A timeout is queued at most once. -/
theorem Core.keys_nodup (hC : Core w q) : (w.k.list.map Prod.fst).Nodup := by
  rw [hC.list_shows.keys]
  refine List.Nodup.map_on ?_ hC.queue_nodup
  intro a ha b hb hab
  rw [← hC.current a ha, hab, hC.current b hb]

/-! ## Additions and abortions -/

/-- Counted from `curr_tick`, a new timeout has the expiry that it should have, and it is not
due yet. -/
theorem newDticks_eq {s : Timeouts τ} {e : Nat} (hTick : s.currTick = now % 2 ^ 64)
    (hTicks : ticks ≠ -1) (he : s.remaining = 0 → e < 2 ^ 31)
    (hBound : expiry now s ticks e < 2 ^ 62) :
    (now : Int) + newDticks s ticks e = expiry now s ticks e ∧
      (now : Int) + 1 ≤ expiry now s ticks e := by
  have hElapsed : 0 ≤ elapsed s e := by
    unfold elapsed
    split
    · rename_i hZero
      have hSmall := he hZero
      rw [Int.bmod_eq_of_le (by omega) (by omega)]
      omega
    · exact Int.le_refl 0
  unfold expiry newDticks at *
  by_cases hAbs : 0 ≤ tickAbs ticks
  · rw [if_pos hAbs] at hBound ⊢
    rw [if_pos hAbs]
    have hNow : s.currTick = now := by omega
    rw [hNow, Int.bmod_eq_of_le (by omega) (by omega)]
    omega
  · rw [if_neg hAbs] at hBound ⊢
    rw [if_neg hAbs]
    unfold tickAbs at hAbs
    omega

theorem Core.add [DecidableEq τ] (hC : Core w q) (smp : Bool) {t : τ} {e : Nat}
    (hTicks : ticks ≠ -1) (hNew : t ∉ w.k.list.map Prod.fst) (he : w.k.remaining = 0 → e < 2 ^ 31)
    (hBound : expiry w.now w.k ticks e < 2 ^ 62) :
    Core (timerStep smp w (.add t ticks e))
        (q.orderedInsert (fun a b => a.expiry < b.expiry) (w.newEntry t ticks e)) ∧
      w.now < (w.newEntry t ticks e).expiry := by
  obtain ⟨hDticks, hLater⟩ := newDticks_eq hC.tick hTicks he hBound
  have hExpiry : ((w.newEntry t ticks e).expiry : Int) = expiry w.now w.k ticks e :=
    Int.toNat_of_nonneg (by omega)
  have hNow : w.now < (w.newEntry t ticks e).expiry := by omega
  have hOther : ∀ a ∈ q, a.timeout ≠ t := by
    rintro a ha rfl
    refine hNew ?_
    rw [hC.list_shows.keys]
    exact List.mem_map_of_mem ha
  refine ⟨?_, hNow⟩
  rw [timerStep, if_neg hTicks, zAddTimeout, if_neg hTicks]
  refine
    { list_shows := hC.list_shows.insert (e := w.newEntry t ticks e) (by rw [hExpiry, hDticks])
      tick := hC.tick
      sorted := ?_
      bound := ?_
      current := ?_
      ahead := ?_
      fired_sorted := hC.fired_sorted
      fired_tick := hC.fired_tick
      fired_past := hC.fired_past
      fired_before := ?_
      seqs := ?_
      parts := ?_ }
  · refine pairwise_orderedInsert hC.sorted
      (hC.sorted.imp fun hab hLt => Nat.lt_of_lt_of_le hLt hab.le) ?_ ?_
    · intro a ha hNot
      have hSeq := hC.seq_lt ha
      rcases Nat.lt_or_eq_of_le (Nat.le_of_not_lt hNot) with hLt | hEq
      · exact .inl hLt
      · exact .inr ⟨hEq, hSeq⟩
    · intro a _ hLt
      exact .inl hLt
  · intro a ha
    rcases (List.mem_orderedInsert _).mp ha with rfl | ha
    · omega
    · exact hC.bound a ha
  · intro a ha
    rcases (List.mem_orderedInsert _).mp ha with rfl | ha
    · exact Function.update_self ..
    · exact (Function.update_of_ne (hOther a ha) ..).trans (hC.current a ha)
  · intro a ha
    rcases (List.mem_orderedInsert _).mp ha with rfl | ha
    · exact hNow.le
    · exact hC.ahead a ha
  · intro f hf a ha
    rcases (List.mem_orderedInsert _).mp ha with rfl | ha
    · exact .inl (Nat.lt_of_le_of_lt (hC.fired_past f hf) hNow)
    · exact hC.fired_before f hf a ha
  · rw [List.map_append, hC.seqs, List.length_append, List.length_singleton, List.range_succ]
    rfl
  · exact ((List.perm_orderedInsert _ _ q).append_left _).trans
      (List.perm_middle.trans ((hC.parts.cons _).trans (List.perm_append_singleton _ _).symm))

theorem Core.abort [DecidableEq τ] (hC : Core w q) (smp : Bool) (t : τ) :
    ∃ q', q'.Sublist q ∧ Core (timerStep smp w (.abort t)) q' := by
  by_cases hMem : t ∈ w.k.list.map Prod.fst
  · rw [timerStep, zAbortTimeout, if_pos hMem]
    rw [hC.list_shows.keys, List.mem_map] at hMem
    obtain ⟨e, he, het⟩ := hMem
    obtain ⟨a, q₁, q₂, -, hat, hq, hErase⟩ :=
      List.exists_of_eraseP (p := fun e => decide (e.timeout = t)) he (by simpa using het)
    have hCurrent : w.current t = a := by
      rw [← of_decide_eq_true hat]
      exact hC.current a (by simp [hq])
    have hSub : (q₁ ++ q₂).Sublist q := by
      rw [hq]
      exact (List.sublist_cons_self a q₂).append_left q₁
    refine ⟨q₁ ++ q₂, hSub, ?_⟩
    exact
      { list_shows := hErase ▸ hC.list_shows.remove t
        tick := hC.tick
        sorted := hC.sorted.sublist hSub
        bound := fun b hb => hC.bound b (hSub.subset hb)
        current := fun b hb => hC.current b (hSub.subset hb)
        ahead := fun b hb => hC.ahead b (hSub.subset hb)
        fired_sorted := hC.fired_sorted
        fired_tick := hC.fired_tick
        fired_past := hC.fired_past
        fired_before := fun f hf b hb => hC.fired_before f hf b (hSub.subset hb)
        seqs := hC.seqs
        parts := by
          refine List.Perm.trans ?_ hC.parts
          rw [if_pos rfl, hCurrent, hq, ← List.append_assoc _ w.aborted, List.append_assoc _ [a]]
          refine List.Perm.append_left _ ?_
          show (a :: (q₁ ++ q₂)).Perm _
          exact List.perm_middle.symm }
  · rw [timerStep, zAbortTimeout, if_neg hMem]
    exact ⟨q, .refl q, hC⟩

/-! ## The loop -/

theorem loopHead_cases [DecidableEq τ] (cpu : Nat) (s : Timeouts τ) :
    ((∀ t d l, s.list = (t, d) :: l → s.remaining < d) ∧
        loopHead cpu s = (finish cpu s, none)) ∨
      ∃ t d l, s.list = (t, d) :: l ∧ d ≤ s.remaining ∧
        loopHead cpu s = ({ s with
          currTick := u64 (s.currTick + d)
          list := l
          serving := set s.serving cpu (some (t, d)) }, some t) := by
  cases hList : s.list with
  | nil => exact .inl ⟨by simp, by rw [loopHead, hList]⟩
  | cons a l =>
    obtain ⟨t, d⟩ := a
    by_cases hd : d ≤ s.remaining
    · refine .inr ⟨t, d, l, rfl, hd, ?_⟩
      rw [loopHead, hList]
      simp only [if_pos hd, remove_head_zero]
    · refine .inl ⟨?_, ?_⟩
      · intro t' d' l' hEq
        cases hEq
        exact Int.lt_of_not_ge hd
      · rw [loopHead, hList]
        exact if_neg hd

/-- The end of an announce. -/
theorem Core.finish (hC : Core w q) (hOnly : ∀ c, c ≠ cpu → w.k.serving c = none)
    (hPos : 0 ≤ w.k.remaining) (hSmall : w.k.remaining < 2 ^ 31)
    (hNow : (w.now : Int) + w.k.remaining = w.announced)
    (hLater : ∀ e ∈ q, w.now + w.k.remaining < e.expiry) :
    Core (w.advance (Kernel.finish cpu w.k, none)) q ∧
      IdleAt (w.advance (Kernel.finish cpu w.k, none)) q := by
  have hTick := hC.tick
  have hNow' : (((w.advance (Kernel.finish cpu w.k, none)).now : Nat) : Int) =
      w.now + w.k.remaining := by
    show ((w.now + u64 (u64 (w.k.currTick + w.k.remaining) - w.k.currTick) : Nat) : Int) = _
    unfold u64
    omega
  refine ⟨?_, ?_⟩
  · exact
      { list_shows := hC.list_shows.pass hNow'
        tick := by
          show u64 (w.k.currTick + w.k.remaining) = _
          unfold u64
          omega
        sorted := hC.sorted
        bound := hC.bound
        current := hC.current
        ahead := fun e he => by
          have hLt := hLater e he
          omega
        fired_sorted := by simpa [World.advance] using hC.fired_sorted
        fired_tick := by simpa [World.advance] using hC.fired_tick
        fired_past := by
          intro f hf
          have hPast := hC.fired_past f (by simpa [World.advance] using hf)
          omega
        fired_before := by simpa [World.advance] using hC.fired_before
        seqs := hC.seqs
        parts := by simpa [World.advance] using hC.parts }
  · exact
      { no_server := by
          intro c
          by_cases hc : c = cpu
          · rw [hc]
            exact set_same ..
          · exact (set_ne _ _ hc).trans (hOnly c hc)
        remaining := rfl
        now := by
          have hAnnounced : (w.advance (Kernel.finish cpu w.k, none)).announced = w.announced := rfl
          omega
        later := fun e he => by
          have hLt := hLater e he
          omega }

/-- The call of the first timeout, at its expiry. -/
theorem Core.serve {e : Entry τ} (hC : Core w (e :: q)) (hShows : Shows e.expiry l q)
    (srv : Nat → Option (τ × Int)) :
    Core (w.advance ({ w.k with currTick := e.expiry, list := l, serving := srv },
        some e.timeout)) q ∧
      (w.advance ({ w.k with currTick := e.expiry, list := l, serving := srv },
        some e.timeout)).now = e.expiry := by
  have hTick := hC.tick
  have hBound := hC.bound e List.mem_cons_self
  have hAhead := hC.ahead e List.mem_cons_self
  have hSorted := List.pairwise_cons.mp hC.sorted
  have hNow : w.now + u64 (e.expiry - w.k.currTick) = e.expiry := by
    unfold u64
    omega
  have hFired : w.fired ++ [⟨w.current e.timeout, e.expiry⟩] = w.fired ++ [⟨e, e.expiry⟩] := by
    rw [hC.current e List.mem_cons_self]
  simp only [World.advance, Option.toList_some, List.map_cons, List.map_nil, hNow, hFired]
  have hMem : ∀ f ∈ w.fired ++ [⟨e, e.expiry⟩], f ∈ w.fired ∨ f = ⟨e, e.expiry⟩ := by
    intro f hf
    simpa using hf
  refine ⟨?_, trivial⟩
  refine
    { list_shows := hShows
      tick := by
        show e.expiry = e.expiry % 2 ^ 64
        omega
      sorted := hSorted.2
      bound := fun b hb => hC.bound b (List.mem_cons_of_mem e hb)
      current := fun b hb => hC.current b (List.mem_cons_of_mem e hb)
      ahead := fun b hb => (hSorted.1 b hb).le
      fired_sorted := ?_
      fired_tick := ?_
      fired_past := ?_
      fired_before := ?_
      seqs := hC.seqs
      parts := ?_ }
  · refine List.pairwise_append.mpr ⟨hC.fired_sorted, List.pairwise_singleton _ _, ?_⟩
    intro f hf g hg
    rw [List.mem_singleton.mp hg]
    exact hC.fired_before f hf e List.mem_cons_self
  · intro f hf
    rcases hMem f hf with hf | rfl
    · exact hC.fired_tick f hf
    · rfl
  · intro f hf
    rcases hMem f hf with hf | rfl
    · exact (hC.fired_past f hf).trans hAhead
    · exact Nat.le_refl _
  · intro f hf b hb
    rcases hMem f hf with hf | rfl
    · exact hC.fired_before f hf b (List.mem_cons_of_mem e hb)
    · exact hSorted.1 b hb
  · refine List.Perm.trans ?_ hC.parts
    rw [List.map_append, List.append_assoc, List.append_assoc, List.append_assoc]
    refine List.Perm.append_left _ ?_
    show (e :: (w.aborted ++ q)).Perm _
    exact List.perm_middle.symm

/-- The head of the loop: the first timeout is called at its expiry, or time passes to the end of
the announce. -/
theorem Core.loopHead [DecidableEq τ] (hC : Core w q) (cpu : Nat)
    (hFree : ∀ c, w.k.serving c = none) (hPos : 0 ≤ w.k.remaining)
    (hSmall : w.k.remaining < 2 ^ 31) (hNow : (w.now : Int) + w.k.remaining = w.announced) :
    (Core (w.advance (Kernel.loopHead cpu w.k)) q ∧
        IdleAt (w.advance (Kernel.loopHead cpu w.k)) q) ∨
      ∃ e q' dt, q = e :: q' ∧ Core (w.advance (Kernel.loopHead cpu w.k)) q' ∧
        ServedBy (w.advance (Kernel.loopHead cpu w.k)) cpu dt ∧
        (w.advance (Kernel.loopHead cpu w.k)).now = e.expiry := by
  have hShows := hC.list_shows
  rcases loopHead_cases cpu w.k with ⟨hHead, hRes⟩ | ⟨t, d, l, hList, hd, hRes⟩
  · rw [hRes]
    refine .inl (hC.finish (fun c _ => hFree c) hPos hSmall hNow ?_)
    -- the first one is not reached, and the others are not earlier
    intro b hb
    cases hList : w.k.list with
    | nil =>
      have hKeys := hShows.keys
      rw [hList] at hKeys
      rw [List.map_eq_nil_iff.mp hKeys.symm] at hb
      cases hb
    | cons a l =>
      obtain ⟨t, d⟩ := a
      rw [hList] at hShows
      obtain ⟨e, q', rfl, rfl, hExpiry, -⟩ := hShows.cons
      have hLater := hHead _ _ _ hList
      have hLe : e.expiry ≤ b.expiry := by
        rcases List.mem_cons.mp hb with rfl | hb
        · exact Nat.le_refl _
        · exact ((List.pairwise_cons.mp hC.sorted).1 b hb).le
      omega
  · rw [hList] at hShows
    obtain ⟨e, q', rfl, rfl, hExpiry, hRest⟩ := hShows.cons
    have hTick := hC.tick
    have hBound := hC.bound e List.mem_cons_self
    have hAhead := hC.ahead e List.mem_cons_self
    have hCurr : u64 (w.k.currTick + d) = e.expiry := by
      unfold u64
      omega
    rw [hRes, hCurr]
    obtain ⟨hCore, hNow'⟩ := hC.serve hRest (set w.k.serving cpu (some (e.timeout, d)))
    refine .inr ⟨e, q', d, rfl, hCore, ?_, hNow'⟩
    refine
      { server := ⟨⟨e, e.expiry⟩, ?_, rfl, set_same ..⟩
        only := fun c hc => (set_ne _ _ hc).trans (hFree c)
        nonneg := by omega
        le := hd
        small := hSmall
        now := ?_ }
    · simp [World.advance, hC.current e List.mem_cons_self]
    · rw [hNow']
      show (e.expiry : Int) + (w.k.remaining - d) = w.announced
      omega

/-! ## Runs -/

/-- Only the parts of the history and the list that `Core` reads. -/
theorem Core.of_serving (hC : Core w q) (R : Int) (A : Nat) (srv : Nat → Option (τ × Int)) :
    Core { w with announced := A, k := { w.k with remaining := R, serving := srv } } q :=
  ⟨hC.list_shows, hC.tick, hC.sorted, hC.bound, hC.current, hC.ahead, hC.fired_sorted,
    hC.fired_tick, hC.fired_past, hC.fired_before, hC.seqs, hC.parts⟩

/-- The return of a callback: the announce ends, or the next timeout is called. -/
theorem Core.ret [DecidableEq τ] (hC : Core w q) (smp : Bool) {dt : Int} (hS : ServedBy w cpu dt) :
    (Core (timerStep smp w (.ret cpu)) q ∧ IdleAt (timerStep smp w (.ret cpu)) q) ∨
      ∃ e q' dt', q = e :: q' ∧ Core (timerStep smp w (.ret cpu)) q' ∧
        ServedBy (timerStep smp w (.ret cpu)) cpu dt' ∧
        (timerStep smp w (.ret cpu)).now = e.expiry := by
  obtain ⟨f, -, -, ht⟩ := hS.server
  have hLe := hS.le
  have hSmall := hS.small
  have hNonneg := hS.nonneg
  have hFree : ∀ c, set w.k.serving cpu none c = none := by
    intro c
    exact set_elim (fun _ => rfl) (hS.only c)
  have hLoop := (hC.of_serving (w.k.remaining - dt) w.announced (set w.k.serving cpu none)).loopHead
    cpu hFree (show (0 : Int) ≤ w.k.remaining - dt by omega)
    (show w.k.remaining - dt < 2 ^ 31 by omega) hS.now
  have hStep : timerStep smp w (.ret cpu) =
      World.advance { w with k := { w.k with
          remaining := w.k.remaining - dt, serving := set w.k.serving cpu none } }
        (Kernel.loopHead cpu { w.k with
          remaining := w.k.remaining - dt, serving := set w.k.serving cpu none }) := by
    rw [timerStep, callbackReturn, ht]
    rfl
  rw [hStep]
  exact hLoop

/-- The announce is where it was. -/
structure SamePhase (w w' : World τ) : Prop where
  serving : w'.k.serving = w.k.serving
  remaining : w'.k.remaining = w.k.remaining
  currTick : w'.k.currTick = w.k.currTick
  fired : w'.fired = w.fired
  now : w'.now = w.now
  announced : w'.announced = w.announced

theorem ServedBy.of_same {w' : World τ} {dt : Int} (hS : ServedBy w cpu dt)
    (hSame : SamePhase w w') : ServedBy w' cpu dt := by
  refine ⟨?_, ?_, hS.nonneg, ?_, ?_, ?_⟩
  · rw [hSame.serving, hSame.currTick, hSame.fired]
    exact hS.server
  · rw [hSame.serving]
    exact hS.only
  · rw [hSame.remaining]
    exact hS.le
  · rw [hSame.remaining]
    exact hS.small
  · rw [hSame.remaining, hSame.now, hSame.announced]
    exact hS.now

/-- A step that leaves the announce where it is. -/
def TimerOp.Quiet : TimerOp τ → Prop
  | .add _ _ _ => True
  | .abort _ => True
  | _ => False

theorem timerStep_same [DecidableEq τ] (smp : Bool) (w : World τ) (hQuiet : op.Quiet) :
    SamePhase w (timerStep smp w op) := by
  cases op with
  | add t ticks e =>
    by_cases hTicks : ticks = -1
    · rw [timerStep, if_pos hTicks]
      exact ⟨rfl, rfl, rfl, rfl, rfl, rfl⟩
    · rw [timerStep, if_neg hTicks, zAddTimeout, if_neg hTicks]
      exact ⟨rfl, rfl, rfl, rfl, rfl, rfl⟩
  | abort t =>
    by_cases hMem : t ∈ w.k.list.map Prod.fst
    all_goals
      simp only [timerStep, zAbortTimeout, hMem, if_true, if_false]
      exact ⟨rfl, rfl, rfl, rfl, rfl, rfl⟩
  | announce _ _ | ret _ => exact hQuiet.elim

/-- The part of the queue that is due now. -/
def dueNow (now : Nat) (q : List (Entry τ)) : Nat := q.countP fun e => decide (e.expiry ≤ now)

/-- What a quiet step does: nothing that is due is added. -/
theorem Core.quiet [DecidableEq τ] (hC : Core w q) (smp : Bool) (hQuiet : op.Quiet)
    (hOp : InDomain w op) :
    ∃ q', Core (timerStep smp w op) q' ∧
      ((∀ e ∈ q, w.now < e.expiry) → ∀ e ∈ q', w.now < e.expiry) ∧
      dueNow w.now q' ≤ dueNow w.now q := by
  cases op with
  | add t ticks e =>
    by_cases hTicks : ticks = -1
    · rw [timerStep, if_pos hTicks]
      exact ⟨q, hC, id, Nat.le_refl _⟩
    · obtain ⟨hNew, he, hBound⟩ := hOp.resolve_left hTicks
      obtain ⟨hCore, hLater⟩ := hC.add smp hTicks hNew he hBound
      refine ⟨_, hCore, ?_, ?_⟩
      · intro hAll a ha
        rcases (List.mem_orderedInsert _).mp ha with rfl | ha
        · exact hLater
        · exact hAll a ha
      · rw [dueNow, (List.perm_orderedInsert _ _ q).countP_eq,
          List.countP_cons_of_neg (by simpa using hLater)]
        exact Nat.le_refl _
  | abort t =>
    obtain ⟨q', hSub, hCore⟩ := hC.abort smp t
    exact ⟨q', hCore, fun hAll a ha => hAll a (hSub.subset ha), hSub.countP_le⟩
  | announce _ _ | ret _ => exact hQuiet.elim

theorem Good.quiet [DecidableEq τ] {smp : Bool} (hGood : Good w) (hQuiet : op.Quiet)
    (hOp : InDomain w op) : Good (timerStep smp w op) := by
  obtain ⟨q, hC, hPhase⟩ := hGood
  obtain ⟨q', hC', hLater, -⟩ := hC.quiet smp hQuiet hOp
  have hSame := timerStep_same smp w hQuiet
  refine ⟨q', hC', ?_⟩
  rcases hPhase with hIdle | ⟨cpu, dt, hS⟩
  · left
    refine ⟨?_, ?_, ?_, ?_⟩
    · rw [hSame.serving]
      exact hIdle.no_server
    · rw [hSame.remaining]
      exact hIdle.remaining
    · rw [hSame.now, hSame.announced]
      exact hIdle.now
    · rw [hSame.now]
      exact hLater hIdle.later
  · exact .inr ⟨cpu, dt, hS.of_same hSame⟩

theorem Good.step [DecidableEq τ] {smp : Bool} (hGood : Good w) (hOp : InDomain w op) :
    Good (timerStep smp w op) := by
  cases op with
  | add _ _ _ | abort _ => exact hGood.quiet trivial hOp
  | announce cpu ticks =>
    obtain ⟨q, hInv⟩ := hGood
    have hC := hInv.1
    obtain ⟨hFree, hPos, hSmall⟩ := hOp
    have hIdle := hInv.idle hFree
    have hNow := hIdle.now
    have hLoop := (hC.of_serving ticks (w.announced + ticks.toNat) w.k.serving).loopHead
      cpu hFree (show (0 : Int) ≤ ticks by omega) hSmall
      (show (w.now : Int) + ticks = (w.announced + ticks.toNat : Nat) by omega)
    have hStep : timerStep smp w (.announce cpu ticks) =
        World.advance { w with
            announced := w.announced + ticks.toNat, k := { w.k with remaining := ticks } }
          (Kernel.loopHead cpu { w.k with remaining := ticks }) := by
      rw [timerStep, sysClockAnnounce, if_neg (by simp [hIdle.remaining])]
      rfl
    rw [hStep]
    rcases hLoop with ⟨hC', hIdle'⟩ | ⟨e, q', dt, -, hC', hS, -⟩
    · exact ⟨q, hC', .inl hIdle'⟩
    · exact ⟨q', hC', .inr ⟨cpu, dt, hS⟩⟩
  | ret cpu =>
    obtain ⟨q, hInv⟩ := hGood
    obtain ⟨dt, hS⟩ := hInv.served hOp
    rcases hInv.1.ret smp hS with ⟨hC', hIdle⟩ | ⟨e, q', dt', -, hC', hS', -⟩
    · exact ⟨q, hC', .inl hIdle⟩
    · exact ⟨q', hC', .inr ⟨cpu, dt', hS'⟩⟩

theorem good_start : Good (World.start : World τ) := by
  refine ⟨[], ?_, .inl ⟨fun _ => rfl, rfl, rfl, by simp⟩⟩
  exact
    { list_shows := rfl
      tick := rfl
      sorted := .nil
      bound := by simp
      current := by simp
      ahead := by simp
      fired_sorted := .nil
      fired_tick := by simp [World.start]
      fired_past := by simp [World.start]
      fired_before := by simp
      seqs := rfl
      parts := .refl _ }

/-! ## Announces end -/

/-- The rounds of the loop from a callback on: what others do and the callback itself, then its
return. -/
def rounds [DecidableEq τ] (smp : Bool) (cpu : Nat) :
    (Nat → World τ → List (TimerOp τ)) → Nat → World τ → World τ
  | _, 0, w => w
  | env, n + 1, w =>
    rounds smp cpu (fun i => env (i + 1)) n
      (timerStep smp (exec (timerStep smp) w (env 0 w)) (.ret cpu))

/-- Whoever runs during the callbacks adds and aborts timeouts only. -/
def QuietEnv [DecidableEq τ] (smp : Bool) (env : Nat → World τ → List (TimerOp τ)) : Prop :=
  ∀ n w, (∀ op ∈ env n w, op.Quiet) ∧ Admissible (timerStep smp) InDomain w (env n w)

theorem Core.quiet_run [DecidableEq τ] (smp : Bool) (ops : List (TimerOp τ)) :
    ∀ {w : World τ} {q : List (Entry τ)} {cpu : Nat} {dt : Int}, Core w q → ServedBy w cpu dt →
      (∀ op ∈ ops, op.Quiet) → Admissible (timerStep smp) InDomain w ops →
      ∃ q', Core (exec (timerStep smp) w ops) q' ∧ ServedBy (exec (timerStep smp) w ops) cpu dt ∧
        (exec (timerStep smp) w ops).now = w.now ∧
        (exec (timerStep smp) w ops).announced = w.announced ∧
        dueNow w.now q' ≤ dueNow w.now q := by
  induction ops with
  | nil =>
    intro w q cpu dt hC hS _ _
    exact ⟨q, hC, hS, rfl, rfl, Nat.le_refl _⟩
  | cons op ops ih =>
    intro w q cpu dt hC hS hQuiet hAdm
    have hSame := timerStep_same smp w (hQuiet op List.mem_cons_self)
    obtain ⟨q₁, hC₁, -, hDue⟩ := hC.quiet smp (hQuiet op List.mem_cons_self) hAdm.1
    obtain ⟨q', hC', hS', hNow', hAnnounced', hDue'⟩ :=
      ih hC₁ (hS.of_same hSame)
        (fun o ho => hQuiet o (List.mem_cons_of_mem op ho)) hAdm.2
    rw [hSame.now] at hNow' hDue'
    exact ⟨q', hC', hS', hNow', hAnnounced'.trans hSame.announced, hDue'.trans hDue⟩

/-- In every round time passes, or there is one timeout less that is due now. -/
theorem rounds_end [DecidableEq τ] (smp : Bool) (cpu : Nat) (m : Nat) :
    ∀ (n : Nat) (env : Nat → World τ → List (TimerOp τ)) (w : World τ) (q : List (Entry τ))
      (dt : Int), QuietEnv smp env → Core w q → ServedBy w cpu dt → w.announced - w.now = m →
      dueNow w.now q = n → ∃ k, ∀ c, (rounds smp cpu env k w).k.serving c = none := by
  induction m using Nat.strong_induction_on with
  | _ m ihTime =>
    intro n
    induction n using Nat.strong_induction_on with
    | _ n ihDue =>
      intro env w q dt hEnv hC hS hm hn
      obtain ⟨q₁, hC₁, hS₁, hNow₁, hAnnounced₁, hDue₁⟩ :=
        hC.quiet_run smp (env 0 w) hS (hEnv 0 w).1 (hEnv 0 w).2
      have hRest : QuietEnv smp fun i => env (i + 1) := fun i => hEnv (i + 1)
      rcases hC₁.ret smp hS₁ with ⟨-, hIdle⟩ | ⟨e, q₂, dt₂, rfl, hC₂, hS₂, hNow₂⟩
      · exact ⟨1, hIdle.no_server⟩
      · have hAhead := hC₁.ahead e List.mem_cons_self
        have hEnd := hS₂.now
        have hLe := hS₂.le
        have hAnnounced₂ : (timerStep smp (exec (timerStep smp) w (env 0 w))
            (.ret cpu)).announced = w.announced := hAnnounced₁
        rw [hNow₁] at hAhead
        have hNext : ∃ k, ∀ c, (rounds smp cpu (fun i => env (i + 1)) k
            (timerStep smp (exec (timerStep smp) w (env 0 w)) (.ret cpu))).k.serving c = none := by
          rcases Nat.lt_or_eq_of_le hAhead with hLater | hSame
          · exact ihTime _ (by omega) _ _ _ q₂ dt₂ hRest hC₂ hS₂ rfl rfl
          · refine ihDue _ ?_ _ _ q₂ dt₂ hRest hC₂ hS₂ (by omega) rfl
            rw [hNow₂, ← hSame, ← hn]
            have hOne : dueNow w.now (e :: q₂) = dueNow w.now q₂ + 1 :=
              List.countP_cons_of_pos (by simp [hSame])
            omega
        obtain ⟨k, hk⟩ := hNext
        exact ⟨k + 1, hk⟩

/-! ## The law -/

/-- What the history must look like: an addition fires or is aborted at most once and not both, at
its expiry and in order; between announces exactly those have fired whose expiry is reached; and
`z_timeout_expires` knows the others. -/
structure OnTime [DecidableEq τ] (w : World τ) : Prop where
  once : (w.fired.map Firing.entry ++ w.aborted).Nodup
  added : ∀ e ∈ w.fired.map Firing.entry ++ w.aborted, e ∈ w.added
  at_expiry : ∀ f ∈ w.fired, f.tick = f.entry.expiry
  in_order : w.fired.Pairwise fun f g => Before f.entry g.entry
  reached : (∀ c, w.k.serving c = none) → w.k.currTick = w.announced % 2 ^ 64 ∧
    ∀ e ∈ w.added, e ∉ w.aborted → (e ∈ w.fired.map Firing.entry ↔ e.expiry ≤ w.announced)
  queued : ∀ e ∈ w.added, e ∉ w.aborted → e ∉ w.fired.map Firing.entry →
    e.timeout ∈ w.k.list.map Prod.fst ∧ zTimeoutExpires w.k e.timeout = e.expiry

theorem Core.expires [DecidableEq τ] (hC : Core w q) {e : Entry τ} (he : e ∈ q) :
    e.timeout ∈ w.k.list.map Prod.fst ∧ zTimeoutExpires w.k e.timeout = e.expiry := by
  have hKey : e.timeout ∈ w.k.list.map Prod.fst := by
    rw [hC.list_shows.keys]
    exact List.mem_map_of_mem he
  have hDue : (e.timeout, (e.expiry : Int)) ∈ due (w.now : Int) w.k.list := by
    rw [hC.list_shows]
    exact List.mem_map_of_mem he
  have hTime := timeTo_of_mem_due hC.keys_nodup hDue
  have hTick := hC.tick
  have hBound := hC.bound e he
  have hAhead := hC.ahead e he
  have hNow : (w.k.currTick : Int) = w.now := by omega
  refine ⟨hKey, ?_⟩
  rw [zTimeoutExpires, if_pos hKey, hNow, Int.bmod_eq_of_le (by omega) (by omega)]
  exact hTime

theorem Inv.onTime [DecidableEq τ] (hInv : Inv w q) : OnTime w := by
  obtain ⟨hC, hPhase⟩ := hInv
  have hNodup := hC.parts.nodup_iff.mpr hC.added_nodup
  have hQueue : ∀ e ∈ w.added, e ∉ w.aborted → e ∉ w.fired.map Firing.entry → e ∈ q := by
    intro e he hAborted hFired
    have hParts := hC.parts.mem_iff.mpr he
    simp only [List.mem_append, hAborted, hFired, false_or] at hParts
    exact hParts
  refine
    { once := (List.nodup_append.mp hNodup).1
      added := fun e he => hC.parts.mem_iff.mp (List.mem_append_left q he)
      at_expiry := hC.fired_tick
      in_order := hC.fired_sorted
      reached := ?_
      queued := fun e he hAborted hFired => hC.expires (hQueue e he hAborted hFired) }
  intro hFree
  have hIdle := Inv.idle ⟨hC, hPhase⟩ hFree
  rw [← hIdle.now]
  refine ⟨hC.tick, ?_⟩
  intro e he hAborted
  constructor
  · intro hFired
    obtain ⟨f, hf, rfl⟩ := List.mem_map.mp hFired
    exact hC.fired_past f hf
  · intro hLe
    by_contra hFired
    exact absurd hLe (Nat.not_le.mpr (hIdle.later e (hQueue e he hAborted hFired)))

/-- Timeouts fire once, on time and in order in every run, and every announce ends, whatever
timeouts are added and aborted during its callbacks. -/
theorem timeouts_fire_on_time [DecidableEq τ] (smp : Bool) (ops : List (TimerOp τ))
    (hOps : Admissible (timerStep smp) InDomain World.start ops) :
    OnTime (exec (timerStep smp) World.start ops) ∧
      ∀ cpu env, QuietEnv smp env →
        (exec (timerStep smp) World.start ops).k.serving cpu ≠ none →
        ∃ n, ∀ c, (rounds smp cpu env n
          (exec (timerStep smp) World.start ops)).k.serving c = none := by
  obtain ⟨q, hInv⟩ : Good (exec (timerStep smp) World.start ops) :=
    exec_invariant (fun _ _ hGood hOp => hGood.step hOp) ops _ good_start hOps
  refine ⟨hInv.onTime, ?_⟩
  intro cpu env hEnv hServing
  obtain ⟨dt, hS⟩ := hInv.served hServing
  exact rounds_end smp cpu _ _ env _ q dt hEnv hInv.1 hS rfl rfl

/-- Two timeouts for tick 3 and one that is aborted; the first of them starts again from its
callback, for the tick after. -/
theorem timeouts_fire_on_time_three :
    OnTime (exec (timerStep true) (World.start : World Nat)
      [.add 1 1 1, .add 2 (-5) 0, .add 3 9 0, .abort 3, .announce 0 5, .add 1 0 7, .ret 0, .ret 0,
        .ret 0]) :=
  (timeouts_fire_on_time true
    [.add 1 1 1, .add 2 (-5) 0, .add 3 9 0, .abort 3, .announce 0 5, .add 1 0 7, .ret 0, .ret 0,
      .ret 0]
    ⟨.inr ⟨by decide, by decide, by decide⟩, .inr ⟨by decide, by decide, by decide⟩,
      .inr ⟨by decide, by decide, by decide⟩, trivial, ⟨fun _ => rfl, by decide, by decide⟩,
      .inr ⟨by decide +kernel, by decide, by decide +kernel⟩,
      Option.isSome_iff_ne_none.mp (by decide +kernel),
      Option.isSome_iff_ne_none.mp (by decide +kernel),
      Option.isSome_iff_ne_none.mp (by decide +kernel), trivial⟩).1

end Zvm.Kernel
