import Zvm.Kernel.WorkRuns

/-!
# Threads that wait for a cancellation

A synchronous cancel of an item that runs puts a record into a list and waits.  When the item is
finished, `finalize_cancel_locked` goes through the list, and stops at the first record of the item.
With one record that is all there is to do.  With two, the second one stays in the list, its thread
is not released, and the flag that would make anybody look for it is cleared
(`second_canceller_stays`).

Every thread is released with the item exactly when no item is finished with more than one record
(`cancellers_released_iff`).
-/

namespace Zvm.Kernel.WorkQueue

open Zvm.Verified.FunArray Zvm.Verified.Run

variable {s t : State} {k : Kind}

/-- No thread waits for the cancellation of an item whose handler is not running, and no record of
such an item is in the list. -/
def Released (s : State) : Prop :=
  ∀ i, (s.flags i).running = false →
    (∀ c, s.waiting c ≠ some (.cancel (.item i))) ∧ ∀ r ∈ s.cancels, r.2 ≠ .item i

/-- The records of an item in the list of cancellations. -/
def records (s : State) (i : Nat) : Nat := s.cancels.countP (fun r => r.2 = .item i)

/-- An item is finished with at most one record. -/
def OneRecord (s : State) : Op → Prop
  | .finish q => ∀ i, s.current q = some (.item i) → records s i ≤ 1
  | _ => True

instance (s : State) : ∀ op, Decidable (OneRecord s op)
  | .finish q =>
    match hCurrent : s.current q with
    | some (.item i) =>
      decidable_of_iff (records s i ≤ 1) (by simp [OneRecord, hCurrent])
    | some (.flusher f) => .isTrue (by simp [OneRecord, hCurrent])
    | none => .isTrue (by simp [OneRecord, hCurrent])
  | .start _ | .submit _ _ _ | .schedule _ _ _ _ | .reschedule _ _ _ _ | .cancel _
  | .cancelDelayable _ | .cancelSync _ _ | .cancelDelayableSync _ _ | .flush _ _
  | .flushDelayable _ _ _ _ | .timeout _ | .take _ | .drain _ _ _ | .unplug _ => .isTrue trivial

/-- Every record is of an item that is being cancelled, and every thread that waits for a
cancellation has a record. -/
structure Covered (s : State) : Prop where
  marked : ∀ r ∈ s.cancels, ∃ i, r.2 = .item i ∧ (s.flags i).canceling = true
  recorded : ∀ c w, s.waiting c = some (.cancel w) → (c, w) ∈ s.cancels

theorem Covered.released (h : Covered s) (hInv : Inv s) : Released s := by
  intro i hIdle
  have hNone : ∀ r ∈ s.cancels, r.2 ≠ .item i := by
    intro r hr hItem
    obtain ⟨j, hj, hMark⟩ := h.marked r hr
    obtain rfl : j = i := by simpa using hj.symm.trans hItem
    have hRun := ((hInv.marks j).canceling hMark).1
    exact absurd (hIdle.symm.trans hRun) Bool.false_ne_true
  exact ⟨fun c hc => hNone _ (h.recorded c _ hc) rfl, hNone⟩

/-- A move that adds no thread to those that wait for a cancellation and takes no mark away. -/
theorem Covered.frame (h : Covered s) (hCancels : t.cancels = s.cancels)
    (hMark : ∀ i, (s.flags i).canceling = true → (t.flags i).canceling = true)
    (hWait : ∀ c w, t.waiting c = some (.cancel w) → s.waiting c = some (.cancel w)) :
    Covered t where
  marked r hr := by
    rw [hCancels] at hr
    obtain ⟨i, hi, hOld⟩ := h.marked r hr
    exact ⟨i, hi, hMark i hOld⟩
  recorded c w hc := by
    rw [hCancels]
    exact h.recorded c w (hWait c w hc)

theorem Covered.move (h : Covered s) (hKind : ∀ q, k ≠ .finish q) (hMove : Move s k t) :
    Covered t := by
  cases hMove with
  | enqueue i q _ _ _ _ =>
    refine h.frame rfl (fun j => ?_) (fun _ _ hc => hc)
    simp only [State.enqueue]
    grind
  | remove i q hIn hAt =>
    rw [queueRemoveLocked_eq hIn hAt]
    refine h.frame rfl (fun j => ?_) (fun _ _ hc => hc)
    grind
  | mark i _ _ =>
    refine h.frame rfl (fun j => ?_) (fun _ _ hc => hc)
    simp only [State.mark]
    grind
  | delay i b dq _ =>
    refine h.frame rfl (fun j => ?_) (fun _ _ hc => hc)
    simp only [State.delay]
    grind
  | record c i hMark _ =>
    constructor
    · exact List.forall_mem_append.mpr ⟨h.marked, List.forall_mem_singleton.mpr ⟨i, rfl, hMark⟩⟩
    · intro d w hd
      have hOld := h.recorded d w
      simp only [State.record] at hd ⊢
      grind
  | flusher f i q _ _ _ =>
    refine h.frame rfl (fun _ hMark => hMark) (fun c w hc => ?_)
    simp only [queueFlusherLocked] at hc
    grind
  | take q _ _ _ =>
    cases hList : s.pending q with
    | nil =>
      rw [takeWork_nil hList]
      split
      · refine h.frame rfl (fun _ hMark => hMark) (fun c w hc => ?_)
        simp only [State.wakeDrainers] at hc
        grind
      · exact h.frame rfl (fun _ hMark => hMark) (fun _ _ hc => hc)
    | cons w rest =>
      rw [takeWork_cons hList]
      cases w with
      | flusher f => exact h.frame rfl (fun _ hMark => hMark) (fun _ _ hc => hc)
      | item i =>
        refine h.frame rfl (fun j => ?_) (fun _ _ hc => hc)
        simp only [State.startRun]
        grind
  | finish q _ _ => exact absurd rfl (hKind q)
  | drain d q plug _ _ =>
    refine h.frame rfl (fun _ hMark => hMark) (fun c w hc => ?_)
    simp only [State.drainWait] at hc
    grind
  | unplug _ | start _ _ => exact ⟨h.marked, h.recorded⟩

theorem Covered.calm (h : Covered s) (hCalm : Calm s t) : Covered t := by
  induction hCalm with
  | refl => exact h
  | tail _ hMove ih => exact ih.move (by simp) hMove

/-! ## The end of an item -/

theorem countP_eraseP {α : Type*} (p : α → Bool) (l : List α) :
    (l.eraseP p).countP p = l.countP p - 1 := by
  induction l with
  | nil => rfl
  | cons a l ih =>
    by_cases ha : p a = true
    · rw [List.eraseP_cons_of_pos ha, List.countP_cons_of_pos ha, Nat.add_sub_cancel]
    · rw [List.eraseP_cons_of_neg ha, List.countP_cons_of_neg ha, List.countP_cons_of_neg ha, ih]

theorem records_eq_zero_iff {i : Nat} : records s i = 0 ↔ ∀ r ∈ s.cancels, r.2 ≠ .item i := by
  simp [records, List.countP_eq_zero]

/-- An item that is not being cancelled has no record. -/
theorem Covered.records_eq_zero (h : Covered s) {i : Nat} (hFree : (s.flags i).canceling = false) :
    records s i = 0 := by
  refine records_eq_zero_iff.mpr fun r hr hItem => ?_
  obtain ⟨j, hj, hMark⟩ := h.marked r hr
  obtain rfl : j = i := by simpa using hj.symm.trans hItem
  exact absurd (hFree.symm.trans hMark) Bool.false_ne_true

/-- The end of an item removes one of its records. -/
theorem Covered.records_finish (h : Covered s) {i q : Nat}
    (hCurrent : s.current q = some (.item i)) (hPlain : (s.flags i).flushing = false) :
    records (finishWork s q) i = records s i - 1 := by
  rw [finishWork_item hCurrent hPlain]
  cases hMark : (s.flags i).canceling with
  | false =>
    have hZero := h.records_eq_zero hMark
    simp only [records, Bool.false_eq_true, if_false] at hZero ⊢
    rw [hZero]
  | true =>
    simp only [records, if_true]
    exact countP_eraseP _ _

theorem Covered.finishItem (h : Covered s) {i q : Nat} (hCurrent : s.current q = some (.item i))
    (hPlain : (s.flags i).flushing = false) (hOne : records s i ≤ 1) :
    Covered (finishWork s q) := by
  have hNone : ∀ r ∈ (finishWork s q).cancels, r.2 ≠ .item i :=
    records_eq_zero_iff.mp (by rw [h.records_finish hCurrent hPlain]; omega)
  rw [finishWork_item hCurrent hPlain] at hNone ⊢
  constructor
  · intro r hr
    have hOld : r ∈ s.cancels := by
      simp only at hr
      split at hr
      · exact List.mem_of_mem_eraseP hr
      · exact hr
    obtain ⟨j, hj, hMark⟩ := h.marked r hOld
    have hNe : j ≠ i := by
      rintro rfl
      exact hNone r hr hj
    exact ⟨j, hj, by simpa [set_ne _ _ hNe] using hMark⟩
  · intro c w hc
    simp only [waitingAfter] at hc ⊢
    cases hMark : (s.flags i).canceling with
    | false =>
      simp only [hMark, Bool.false_eq_true, if_false] at hc ⊢
      exact h.recorded c w hc
    | true =>
      simp only [hMark, if_true] at hc ⊢
      cases hFind : s.cancels.find? (fun r => r.2 = .item i) with
      | none =>
        simp only [hFind] at hc
        rw [List.eraseP_of_forall_not (List.find?_eq_none.mp hFind)]
        exact h.recorded c w hc
      | some r =>
        simp only [hFind] at hc
        obtain ⟨pre, post, hSplit, hErase⟩ := eraseP_of_find?_eq_some hFind
        -- a thread that still waits is not the one that was let go
        have hNe : c ≠ r.1 := by
          rintro rfl
          simp at hc
        rw [set_ne _ _ hNe] at hc
        have hOld := h.recorded c w hc
        rw [hSplit] at hOld
        rw [hErase]
        grind

/-- What holds in the states of a run. -/
def Counted (s : State) : Prop := Inv s ∧ Covered s

theorem Counted.step (h : Counted s) {op : Op} (hDom : InDomain s op) (hOne : OneRecord s op) :
    Counted (WorkQueue.step s op) := by
  refine ⟨h.1.step hDom, ?_⟩
  by_cases hFinish : ∃ q, op = .finish q
  · obtain ⟨q, rfl⟩ := hFinish
    obtain ⟨w, hCurrent⟩ := Option.ne_none_iff_exists'.mp hDom
    cases w with
    | flusher f =>
      change Covered (finishWork s q)
      rw [h.1.flushers.finishWork_eq hCurrent]
      refine h.2.frame rfl (fun _ hMark => hMark) (fun c w hc => ?_)
      grind
    | item i => exact h.2.finishItem hCurrent (h.1.marks i).flushing (hOne i hCurrent)
  · obtain ⟨u, hCalm, rfl | hMove⟩ := h.1.step_moves hDom
    · exact h.2.calm hCalm
    · refine (h.2.calm hCalm).move (fun q hKind => ?_) hMove
      cases op with
      | finish p => exact hFinish ⟨p, rfl⟩
      | _ => simp [Op.kind] at hKind

/-- A second record is left behind. -/
theorem Counted.oneRecord (h : Counted s) {op : Op} (hDom : InDomain s op)
    (hReleased : Released (WorkQueue.step s op)) : OneRecord s op := by
  cases op with
  | finish q =>
    intro i hCurrent
    have hPlain := (h.1.marks i).flushing
    have hIdle : ((finishWork s q).flags i).running = false := by
      rw [finishWork_item hCurrent hPlain]
      simp
    have hLeft := records_eq_zero_iff.mpr (hReleased i hIdle).2
    have hCount := h.2.records_finish hCurrent hPlain
    change records (finishWork s q) i = 0 at hLeft
    omega
  | _ => trivial

/-- **Cancelling threads are released** with the item in every state of a run exactly when no item
of the run is finished with more than one record. -/
theorem cancellers_released_iff (delayable : Nat → Bool) (ops : List Op)
    (hDom : Admissible WorkQueue.step InDomain (init delayable) ops) :
    Always WorkQueue.step Released (init delayable) ops ↔
      Admissible WorkQueue.step OneRecord (init delayable) ops := by
  have hLaw : ∀ s, Counted s → Released s := fun s h => h.2.released h.1
  have hInit : Counted (init delayable) :=
    ⟨inv_init delayable, by constructor <;> simp [init]⟩
  exact always_iff_within hLaw (fun s op h hDom hOne => h.step hDom hOne)
    (fun s op h hDom hReleased => h.oneRecord hDom hReleased) ops _ hInit hDom

/-- Two items, each with one thread that cancels it while it runs. -/
theorem cancellers_released_iff_two :
    Admissible WorkQueue.step InDomain (init fun _ => false)
        [.start 0, .start 1, .submit none 7 (some 0), .submit none 8 (some 1), .take 0, .take 1,
          .cancelSync 1 7, .cancelSync 2 8, .finish 1, .finish 0] ∧
      Always WorkQueue.step Released (init fun _ => false)
        [.start 0, .start 1, .submit none 7 (some 0), .submit none 8 (some 1), .take 0, .take 1,
          .cancelSync 1 7, .cancelSync 2 8, .finish 1, .finish 0] :=
  ⟨by decide +kernel,
    (cancellers_released_iff (fun _ => false) _ (by decide +kernel)).mpr (by decide +kernel)⟩

/-- Two threads cancel one item while it runs.  When it is finished the second one goes on waiting,
and its record is still in the list. -/
theorem second_canceller_stays :
    Admissible WorkQueue.step InDomain (init fun _ => false)
        [.start 0, .submit none 7 (some 0), .take 0, .cancelSync 1 7, .cancelSync 2 7, .finish 0] ∧
      ∃ s, s = exec WorkQueue.step (init fun _ => false)
          [.start 0, .submit none 7 (some 0), .take 0, .cancelSync 1 7, .cancelSync 2 7,
            .finish 0] ∧
        s.flags 7 = Flags.idle ∧ s.waiting 1 = none ∧ s.waiting 2 = some (.cancel (.item 7)) ∧
        s.cancels = [(2, .item 7)] ∧ ¬ Released s := by
  refine ⟨by decide +kernel, _, rfl, by decide +kernel, by decide +kernel, by decide +kernel,
    by decide +kernel, fun hReleased => ?_⟩
  exact (hReleased 7 (by decide +kernel)).1 2 (by decide +kernel)

end Zvm.Kernel.WorkQueue
