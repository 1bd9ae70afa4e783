import Zvm.Kernel.WorkRuns

/-!
# Flush and drain

A flush puts a work of its own into the list of a queue, behind the item it is for or in front of
all others, and waits until that work has run.  A queue runs one work at a time and from the front,
so the runs of the item the flush was called for are over by then.  A drain waits until the thread
of the queue finds the list empty.  With a plug, the queue then refuses works until it is unplugged.

The three barriers hold in every state of a run (`flush_and_drain_are_barriers`), the last of them
for the submissions that get as far as the queue: an item that is queued already is left where it is
and the answer is zero (`queued_item_gets_zero`), and one that runs on another queue goes there.
-/

namespace Zvm.Kernel.WorkQueue

open Zvm.Verified.FunArray Zvm.Verified.Run

variable {s t : State} {k : Kind}

/-! ## The three barriers -/

/-- A submission's run is over, or it was removed. -/
def Done (s : State) (p : Nat × Nat) : Prop := p ∈ s.finished ∨ p ∈ s.removed

/-- Every flush that is not waiting any more has its runs behind it. -/
def FlushBarrier (s : State) : Prop :=
  ∀ f, (∀ q, s.waiting f ≠ some (.flush q)) → ∀ p ∈ s.awaits f, Done s p

/-- If a step ends the wait of a drain, then the queue is empty and idle before it. -/
def DrainBarrier (s : State) : Prop :=
  ∀ op, InDomain s op → ∀ d q, s.waiting d = some (.drain q) →
    (step s op).waiting d ≠ some (.drain q) → s.pending q = [] ∧ s.current q = none

/-- A submission to a queue that is plugged, unless it comes from a handler of the queue while that
is drained: it is refused and nothing changes, or the item was queued already and nothing changes,
or the item runs on another queue and the submission is one to that queue. -/
def PlugBarrier (s : State) : Prop :=
  ∀ q, s.closed q = true → ∀ caller i, ¬ (caller = some q ∧ (s.qflags q).drain = true) →
    submitToQueueLocked s caller i (some q) = (s, -16) ∨
      ((s.flags i).queued = true ∧ submitToQueueLocked s caller i (some q) = (s, 0)) ∨
      ∃ p, p ≠ q ∧ s.current p = some (.item i) ∧
        submitToQueueLocked s caller i (some q) = submitToQueueLocked s caller i (some p) ∧
        (submitToQueueLocked s caller i (some q)).1.pending q = s.pending q

/-! ## What a flusher in a list stands for -/

/-- The thread of `q` is at the run for the submission. -/
def Active (s : State) (q : Nat) (p : Nat × Nat) : Prop :=
  s.current q = some (.item p.2) ∧ s.run p.2 = p.1

/-- The submission waits in front of the flusher. -/
def InFront (s : State) (q f : Nat) (p : Nat × Nat) : Prop :=
  s.ticket p.2 = p.1 ∧ List.Sublist [.item p.2, .flusher f] (s.pending q)

structure Barrier (s : State) : Prop where
  done : FlushBarrier s
  held : ∀ f q, HasFlusher s f q → ∀ p ∈ s.awaits f, Done s p ∨ Active s q p ∨ InFront s q f p
  closed : ∀ q, s.closed q = true → (s.qflags q).plugged = true ∧ (s.qflags q).started = true

variable {p : Nat × Nat} {q f i : Nat}

theorem Done.mono (hDone : Done s p) (hFinished : s.finished <+: t.finished)
    (hRemoved : s.removed <+: t.removed) : Done t p :=
  hDone.imp (hFinished.subset ·) (hRemoved.subset ·)

theorem FlushBarrier.mono (h : FlushBarrier s) (hInv : Inv s) (hMove : Move s k t)
    (hAwaits : t.awaits = s.awaits)
    (hWait : ∀ f q, s.waiting f = some (.flush q) → t.waiting f = some (.flush q)) :
    FlushBarrier t := by
  intro f hFree p hp
  rw [hAwaits] at hp
  obtain ⟨_, hFinished, hRemoved⟩ := hInv.logs hMove
  exact (h f (fun q hq => hFree q (hWait f q hq)) p hp).mono hFinished hRemoved

/-- The list of a queue keeps the order of an item and a flusher if nothing but others leave it. -/
theorem InFront.frame (hFront : InFront s q f p) (hTicket : t.ticket p.2 = s.ticket p.2)
    (hList : (s.pending q).Sublist (t.pending q)) : InFront t q f p :=
  ⟨hTicket.trans hFront.1, hFront.2.trans hList⟩

theorem InFront.queued (hFront : InFront s q f p) (h : Inv s) :
    (s.flags p.2).queued = true ∧ s.queue p.2 = some q :=
  (h.places.listed p.2 q).mp (hFront.2.subset (by simp))

theorem sublist_placeFlusher (l : List Work) (x y : Work) : l.Sublist (placeFlusher l x y) := by
  obtain ⟨pre, post, hEq, hPlace⟩ := placeFlusher_split l x y
  rw [hPlace, hEq]
  exact (List.sublist_cons_self y post).append_left pre

/-- The flusher is put behind the item. -/
theorem pair_sublist_placeFlusher {l : List Work} {x : Work} (y : Work) (hMem : x ∈ l) :
    List.Sublist [x, y] (placeFlusher l x y) := by
  rw [placeFlusher, if_pos hMem]
  induction l with
  | nil => simp at hMem
  | cons a l ih =>
    rw [insertAfter]
    split
    · next hEq =>
        rw [hEq]
        exact ((List.nil_sublist l).cons_cons y).cons_cons x
    · next hNe => exact (ih ((List.mem_cons.mp hMem).resolve_left (Ne.symm hNe))).cons a

/-! ## The moves keep the barriers -/

section

variable (h : Barrier s) (hInv : Inv s)
include h hInv

/-- A move after which the lists, the current works and the numbers are as before. -/
theorem Barrier.frame (hMove : Move s k t) (hAwaits : t.awaits = s.awaits)
    (hPending : t.pending = s.pending) (hCurrent : t.current = s.current)
    (hTicket : t.ticket = s.ticket) (hRun : t.run = s.run)
    (hWait : ∀ f q, s.waiting f = some (.flush q) → t.waiting f = some (.flush q))
    (hClosed : ∀ q, t.closed q = true → (t.qflags q).plugged = true ∧ (t.qflags q).started = true) :
    Barrier t where
  done := h.done.mono hInv hMove hAwaits hWait
  held f q hf p hp := by
    obtain ⟨_, hFinished, hRemoved⟩ := hInv.logs hMove
    rw [hAwaits] at hp
    unfold HasFlusher at hf
    rw [hPending, hCurrent] at hf
    unfold Active InFront
    rw [hPending, hCurrent, hTicket, hRun]
    exact (h.held f q hf p hp).imp_left (·.mono hFinished hRemoved)
  closed := hClosed

theorem Barrier.enqueue (hMove : Move s .calm (s.enqueue i q)) (hOut : (s.flags i).queued = false) :
    Barrier (s.enqueue i q) where
  done := h.done.mono hInv hMove rfl (fun _ _ hw => hw)
  held f p hf r hr := by
    have hOld : HasFlusher s f p := by
      refine hf.imp_left fun hMem => ?_
      simp only [State.enqueue] at hMem
      grind
    refine (h.held f p hOld r hr).imp_right (Or.imp_right fun hFront => ?_)
    have hNe : r.2 ≠ i := by
      intro hEq
      have hIn := (hFront.queued hInv).1
      rw [hEq, hOut] at hIn
      exact Bool.false_ne_true hIn
    refine hFront.frame (set_ne _ _ hNe) ?_
    simp only [State.enqueue]
    by_cases hp : p = q
    · rw [hp, set_same]
      exact List.sublist_append_left _ _
    · rw [set_ne _ _ hp]
  closed := h.closed

theorem Barrier.remove (hMove : Move s .calm (queueRemoveLocked s i))
    (hIn : (s.flags i).queued = true) (hAt : s.queue i = some q) :
    Barrier (queueRemoveLocked s i) := by
  rw [queueRemoveLocked_eq hIn hAt] at hMove ⊢
  refine ⟨h.done.mono hInv hMove rfl (fun _ _ hw => hw), fun f p hf r hr => ?_, h.closed⟩
  have hOld : HasFlusher s f p := by
    refine hf.imp_left fun hMem => ?_
    simp only at hMem
    grind [List.mem_of_mem_erase]
  obtain ⟨_, hFinished, hRemoved⟩ := hInv.logs hMove
  rcases h.held f p hOld r hr with hDone | hActive | hFront
  · exact Or.inl (hDone.mono hFinished hRemoved)
  · exact Or.inr (Or.inl hActive)
  · by_cases hi : r.2 = i
    · -- the submission itself is removed
      left
      right
      rw [← hi, hFront.1]
      simp
    · refine Or.inr (Or.inr ⟨hFront.1, ?_⟩)
      simp only
      by_cases hp : p = q
      · subst hp
        rw [set_same]
        have hSub := hFront.2.erase (.item i)
        rwa [List.erase_of_not_mem (by simp [Ne.symm hi])] at hSub
      · rw [set_ne _ _ hp]
        exact hFront.2

theorem Barrier.flusher (hAt : s.queue i = some q) (hFree : s.waiting f = none) :
    Barrier (queueFlusherLocked s q i f) := by
  have hNew : ∀ p, ¬ HasFlusher s f p := by
    intro p hHas
    have hWait := hInv.flushers.waits f p hHas
    rw [hFree] at hWait
    exact absurd hWait (by simp)
  refine ⟨fun g hg p hp => ?_, fun g p hg r hr => ?_, h.closed⟩
  · by_cases hgf : g = f
    · exact absurd (by simp [queueFlusherLocked, hgf]) (hg q)
    · simp only [queueFlusherLocked, set_ne _ _ hgf] at hg hp
      exact h.done g hg p hp
  · by_cases hgf : g = f
    · -- the new flusher: its runs are in front of it or under way
      subst hgf
      have hpq : p = q := by
        rcases hg with hMem | hCur
        · by_contra hp
          simp only [queueFlusherLocked, set_ne _ _ hp] at hMem
          exact hNew p (Or.inl hMem)
        · exact absurd (Or.inr hCur) (hNew p)
      subst hpq
      simp only [queueFlusherLocked, set_same, List.mem_append] at hr
      right
      rcases hr with hr | hr
      · split at hr
        · next hIn =>
            rw [List.mem_singleton] at hr
            subst hr
            refine Or.inr ⟨rfl, ?_⟩
            simp only [queueFlusherLocked, set_same]
            exact pair_sublist_placeFlusher _ ((hInv.places.listed i p).mpr ⟨hIn, hAt⟩)
        · simp at hr
      · split at hr
        · next hRun =>
            rw [List.mem_singleton] at hr
            subst hr
            exact Or.inl ⟨(hInv.places.runs i p).mpr ⟨hRun, hAt⟩, rfl⟩
        · simp at hr
    · have hOld : HasFlusher s g p := by
        refine hg.imp_left fun hMem => ?_
        simp only [queueFlusherLocked] at hMem
        by_cases hp : p = q
        · subst hp
          rw [set_same, mem_placeFlusher] at hMem
          exact hMem.resolve_left (by simpa using hgf)
        · rwa [set_ne _ _ hp] at hMem
      simp only [queueFlusherLocked, set_ne _ _ hgf] at hr
      refine (h.held g p hOld r hr).imp_right (Or.imp_right fun hFront => hFront.frame rfl ?_)
      simp only [queueFlusherLocked]
      by_cases hp : p = q
      · rw [hp, set_same]
        exact sublist_placeFlusher _ _ _
      · rw [set_ne _ _ hp]

theorem Barrier.take (hMove : Move s (.turn q) (takeWork s q)) (hDone : s.current q = none) :
    Barrier (takeWork s q) := by
  have hIdle : ∀ r, ¬ Active s q r := by
    rintro r ⟨hCurrent, _⟩
    rw [hDone] at hCurrent
    exact absurd hCurrent (by simp)
  cases hList : s.pending q with
  | nil =>
    rw [takeWork_nil hList] at hMove ⊢
    split at hMove
    · next hDrain =>
        rw [if_pos hDrain]
        refine h.frame hInv hMove rfl rfl rfl rfl rfl (fun f p hw => ?_) (fun p hp => ?_)
        · have hOther : f ∉ s.drainq q := by
            intro hMem
            have hWait := hInv.waits.drainers q f hMem
            rw [hw] at hWait
            exact absurd hWait (by simp)
          simpa only [State.wakeDrainers, if_neg hOther] using hw
        · have hOld := h.closed p hp
          grind
    · next hQuiet =>
        rw [if_neg hQuiet]
        exact h.frame hInv hMove rfl rfl rfl rfl rfl (fun _ _ hw => hw) h.closed
  | cons w rest =>
    obtain ⟨_, hFinished, hRemoved⟩ := hInv.logs hMove
    have hOnce := hInv.places.once q
    rw [hList] at hOnce
    have hClosed : ∀ p, s.closed p = true →
        (set s.qflags q { s.qflags q with busy := true } p).plugged = true ∧
          (set s.qflags q { s.qflags q with busy := true } p).started = true := by
      intro p hp
      have hOld := h.closed p hp
      grind
    have hSame : (s.startRun w).waiting = s.waiting ∧ (s.startRun w).awaits = s.awaits ∧
        (s.startRun w).closed = s.closed ∧ (s.startRun w).ticket = s.ticket := by
      cases w <;> exact ⟨rfl, rfl, rfl, rfl⟩
    rw [takeWork_cons hList] at hMove hFinished hRemoved ⊢
    refine ⟨h.done.mono hInv hMove hSame.2.1 (fun _ _ hw => hSame.1 ▸ hw), fun f p hf r hr => ?_,
      fun p hp => hClosed p (hSame.2.2.1 ▸ hp)⟩
    simp only [hSame.2.1] at hr
    have hOld : HasFlusher s f p := by
      simp only [HasFlusher] at hf ⊢
      grind
    rcases h.held f p hOld r hr with hOver | hActive | hFront
    · exact Or.inl (hOver.mono hFinished hRemoved)
    · have hp : p ≠ q := fun hEq => hIdle r (hEq ▸ hActive)
      refine Or.inr (Or.inl ⟨(set_ne _ _ hp).trans hActive.1, ?_⟩)
      cases w with
      | flusher g => exact hActive.2
      | item j =>
        have hHere := (hInv.places.listed j q).mp (by rw [hList]; simp)
        have hAt := ((hInv.places.runs r.2 p).mp hActive.1).2
        have hNe : r.2 ≠ j := by
          intro hEq
          rw [hEq, hHere.2] at hAt
          exact hp (Option.some.inj hAt).symm
        exact (set_ne _ _ hNe).trans hActive.2
    · by_cases hp : p = q
      · subst hp
        have hPair := hFront.2
        rw [hList] at hPair
        by_cases hj : w = .item r.2
        · -- its run starts now
          right; left
          refine ⟨by simp [hj], ?_⟩
          rw [hj]
          simp only [State.startRun, set_same]
          exact hFront.1
        · refine Or.inr (Or.inr ⟨hSame.2.2.2 ▸ hFront.1, ?_⟩)
          simp only [set_same]
          exact (List.sublist_cons_iff.mp hPair).resolve_right (by simp [Ne.symm hj])
      · refine Or.inr (Or.inr ⟨hSame.2.2.2 ▸ hFront.1, ?_⟩)
        simp only [set_ne _ _ hp]
        exact hFront.2

theorem Barrier.finishFlusher {g : Nat} (hCurrent : s.current q = some (.flusher g)) :
    Barrier (finishWork s q) := by
  -- the flusher is not in a list and no item runs on its queue, so its runs are over
  have hOver : ∀ p ∈ s.awaits g, Done s p := by
    intro p hp
    rcases h.held g q (Or.inr hCurrent) p hp with hOver | hActive | hFront
    · exact hOver
    · exact absurd (hActive.1.symm.trans hCurrent) (by simp)
    · exact absurd (hFront.2.subset (by simp)) (hInv.flushers.apart g q hCurrent)
  rw [hInv.flushers.finishWork_eq hCurrent]
  refine ⟨fun f hf p hp => ?_, fun f p hf r hr => ?_, fun p hp => ?_⟩
  · by_cases hfg : f = g
    · exact hOver p (hfg ▸ hp)
    · simp only [set_ne _ _ hfg] at hf
      exact h.done f hf p hp
  · have hOld : HasFlusher s f p := by
      simp only [HasFlusher] at hf ⊢
      grind
    refine (h.held f p hOld r hr).imp_right (Or.imp_left fun hActive => ⟨?_, hActive.2⟩)
    have hp : p ≠ q := by
      rintro rfl
      exact absurd (hActive.1.symm.trans hCurrent) (by simp)
    exact (set_ne _ _ hp).trans hActive.1
  · have hOld := h.closed p hp
    grind

theorem Barrier.finishItem (hMove : Move s (.finish q) (finishWork s q))
    (hCurrent : s.current q = some (.item i)) : Barrier (finishWork s q) := by
  obtain ⟨_, hFinished, hRemoved⟩ := hInv.logs hMove
  rw [finishWork_item hCurrent (hInv.marks i).flushing] at hMove hFinished hRemoved ⊢
  refine ⟨h.done.mono hInv hMove rfl (fun f p hw => ?_), fun f p hf r hr => ?_, fun p hp => ?_⟩
  · simp only
    rw [hInv.waits.waitingAfter_eq (by simp [hw]), hw]
  · have hOld : HasFlusher s f p := by
      simp only [HasFlusher] at hf ⊢
      grind
    rcases h.held f p hOld r hr with hOver | hActive | hFront
    · exact Or.inl (hOver.mono hFinished hRemoved)
    · by_cases hp : p = q
      · -- this run ends here
        left; left
        subst hp
        have hItem : r.2 = i := by
          have hSame := hActive.1.symm.trans hCurrent
          simpa using hSame
        have hPair : r = (s.run i, i) := Prod.ext (by rw [← hItem, hActive.2]) hItem
        rw [hPair]
        simp
      · exact Or.inr (Or.inl ⟨(set_ne _ _ hp).trans hActive.1, hActive.2⟩)
    · exact Or.inr (Or.inr hFront)
  · have hOld := h.closed p hp
    grind

theorem Barrier.move (hMove : Move s k t) : Barrier t := by
  have hKeep := hMove
  cases hMove with
  | enqueue i q _ hOut _ _ => exact h.enqueue hInv hKeep hOut
  | remove i q hIn hAt => exact h.remove hInv hKeep hIn hAt
  | mark _ _ _ | delay _ _ _ _ =>
    exact h.frame hInv hKeep rfl rfl rfl rfl rfl (fun _ _ hw => hw) h.closed
  | record c i _ hFree =>
    refine h.frame hInv hKeep rfl rfl rfl rfl rfl (fun f q hw => ?_) h.closed
    simp only [State.record]
    grind
  | flusher f i q _ hAt hFree => exact h.flusher hInv hAt hFree
  | take q _ hDone _ => exact h.take hInv hKeep hDone
  | finish q w hCurrent =>
    cases w with
    | flusher g => exact h.finishFlusher hInv hCurrent
    | item i => exact h.finishItem hInv hKeep hCurrent
  | drain d q plug hOn hFree =>
    refine h.frame hInv hKeep rfl rfl rfl rfl rfl (fun f p hw => ?_) (fun p hp => ?_)
    · simp only [State.drainWait]
      grind
    · have hOld := h.closed p
      simp only [State.drainWait] at hp ⊢
      grind
  | unplug q =>
    refine h.frame hInv hKeep rfl rfl rfl rfl rfl (fun _ _ hw => hw) (fun p hp => ?_)
    have hOld := h.closed p
    simp only [kWorkQueueUnplug] at hp ⊢
    grind
  | start q hOff =>
    refine h.frame hInv hKeep rfl (hInv.places.set_nil hOff) rfl rfl rfl (fun _ _ hw => hw)
      (fun p hp => ?_)
    have hOld := h.closed p hp
    simp only [kWorkQueueStart]
    grind

end

/-- What holds in the states of a run. -/
def Guarded (s : State) : Prop := Inv s ∧ Barrier s

theorem Guarded.calm (h : Guarded s) (hCalm : Calm s t) : Guarded t := by
  induction hCalm with
  | refl => exact h
  | tail _ hMove ih => exact ⟨ih.1.move hMove, ih.2.move ih.1 hMove⟩

theorem Guarded.step (h : Guarded s) {op : Op} (hDom : InDomain s op) :
    Guarded (WorkQueue.step s op) := by
  obtain ⟨u, hCalm, rfl | hMove⟩ := h.1.step_moves hDom
  · exact h.calm hCalm
  · have hMid := h.calm hCalm
    exact ⟨hMid.1.move hMove, hMid.2.move hMid.1 hMove⟩

/-! ## Drains -/

/-- Only a take ends the wait of a drain. -/
theorem Inv.drain_waits (h : Inv s) (hMove : Move s k t) (hKind : ∀ q, k ≠ .turn q) {d : Nat}
    (hWait : s.waiting d = some (.drain q)) : t.waiting d = some (.drain q) := by
  cases hMove with
  | remove i p hIn hAt =>
    rw [queueRemoveLocked_eq hIn hAt]
    exact hWait
  | record c i _ hFree =>
    simp only [State.record]
    grind
  | flusher f i p _ _ hFree =>
    simp only [queueFlusherLocked]
    grind
  | take p _ _ _ => exact absurd rfl (hKind p)
  | finish p w hCurrent =>
    cases w with
    | flusher f =>
      have hOther := h.flushers.waits f p (Or.inr hCurrent)
      rw [h.flushers.finishWork_eq hCurrent]
      grind
    | item i =>
      rw [finishWork_item hCurrent (h.marks i).flushing]
      simp only
      rw [h.waits.waitingAfter_eq (by simp [hWait]), hWait]
  | drain e p plug _ hFree =>
    simp only [State.drainWait]
    grind
  | _ => exact hWait

theorem Inv.drain_waits_calm (h : Inv s) (hCalm : Calm s t) {d : Nat}
    (hWait : s.waiting d = some (.drain q)) : t.waiting d = some (.drain q) := by
  induction hCalm with
  | refl => exact hWait
  | tail hFirst hMove ih => exact (h.calm hFirst).drain_waits hMove (by simp) ih

theorem Inv.drainBarrier (h : Inv s) : DrainBarrier s := by
  intro op hDom d q hWait hEnd
  by_cases hTake : ∃ p, op = .take p
  · obtain ⟨p, rfl⟩ := hTake
    change (takeWork s p).waiting d ≠ some (.drain q) at hEnd
    cases hList : s.pending p with
    | cons w rest =>
      rw [takeWork_cons hList] at hEnd
      cases w <;> exact absurd hWait hEnd
    | nil =>
      rw [takeWork_nil hList] at hEnd
      split at hEnd
      · simp only [State.wakeDrainers] at hEnd
        split at hEnd
        · next hMem =>
            have hHere := hWait.symm.trans (h.waits.drainers p d hMem)
            obtain rfl : q = p := by simpa using hHere
            exact ⟨hList, hDom.2.1⟩
        · exact absurd hWait hEnd
      · exact absurd hWait hEnd
  · obtain ⟨u, hCalm, rfl | hMove⟩ := h.step_moves hDom
    · exact absurd (h.drain_waits_calm hCalm hWait) hEnd
    · refine absurd ((h.calm hCalm).drain_waits hMove (fun p hKind => ?_)
        (h.drain_waits_calm hCalm hWait)) hEnd
      cases op with
      | take p => exact hTake ⟨p, rfl⟩
      | _ => simp [Op.kind] at hKind

/-! ## Plugged queues -/

/-- A plugged queue takes works from its own handlers during a drain and from nobody else. -/
theorem queueAnswer_plugged {caller : Option Nat} (hOn : (s.qflags q).started = true)
    (hPlug : (s.qflags q).plugged = true)
    (hOther : ¬ (caller = some q ∧ (s.qflags q).drain = true)) :
    queueAnswer s caller (some q) = -16 := by
  cases hDrain : (s.qflags q).drain with
  | false => simp [queueAnswer, hOn, hPlug, hDrain]
  | true =>
    have hCaller : caller ≠ some q := fun hEq => hOther ⟨hEq, hDrain⟩
    simp [queueAnswer, hOn, hDrain, hCaller]

theorem submitToQueueLocked_refused {caller queue : Option Nat}
    (hFree : (s.flags i).canceling = false) (hOut : (s.flags i).queued = false)
    (hTarget : submitTarget s i queue = some q) (hNo : queueAnswer s caller (some q) = -16) :
    submitToQueueLocked s caller i queue = (s, -16) := by
  simp [submitToQueueLocked, hFree, hOut, hTarget, hNo]

theorem Guarded.plugBarrier (h : Guarded s) : PlugBarrier s := by
  intro q hClosed caller i hOther
  obtain ⟨hPlug, hOn⟩ := h.2.closed q hClosed
  have hNo := queueAnswer_plugged hOn hPlug hOther
  cases hFree : (s.flags i).canceling with
  | true => exact Or.inl (by simp [submitToQueueLocked, hFree])
  | false =>
    cases hOut : (s.flags i).queued with
    | true => exact Or.inr (Or.inl ⟨rfl, by simp [submitToQueueLocked, hFree, hOut]⟩)
    | false =>
      cases hRun : (s.flags i).running with
      | false =>
        exact Or.inl (submitToQueueLocked_refused hFree hOut (by simp [submitTarget, hRun])
          hNo)
      | true =>
        -- the item goes to the queue it runs on
        obtain ⟨p, hAt⟩ := h.1.places.placed i (Or.inr hRun)
        have hTarget : ∀ queue, submitTarget s i queue = some p := by
          intro queue
          simp [submitTarget, hRun, hAt]
        by_cases hp : p = q
        · subst hp
          exact Or.inl (submitToQueueLocked_refused hFree hOut (hTarget _) hNo)
        · refine Or.inr (Or.inr ⟨p, hp, (h.1.places.runs i p).mpr ⟨hRun, hAt⟩, ?_, ?_⟩)
          · simp only [submitToQueueLocked, hTarget]
          · simp only [submitToQueueLocked, hTarget, hFree, hOut, Bool.false_eq_true,
              if_false]
            split
            · rfl
            · exact set_ne _ _ (Ne.symm hp)

end Zvm.Kernel.WorkQueue
