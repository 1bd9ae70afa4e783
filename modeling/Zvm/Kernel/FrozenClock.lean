import Zvm.Kernel.Timeout

/-!
# The clock during callbacks

`announce_remaining` tells everybody that an announce is going on: while it is not zero, relative
timeouts count from the timeout being called and not from the hardware clock, and another CPU that
announces leaves its ticks to the loop that runs.  The loop subtracts the ticks of a timeout after
its callback.  So the callback of a timeout that shares the last announced tick with the one before
it runs with `announce_remaining` at zero, as if there were no announce: a relative timeout
started there is late by the hardware clock, and another CPU serves timeouts at the same time
(`shared_last_tick`).
-/

namespace Zvm.Kernel

open Zvm.Verified.FunArray Zvm.Verified.Run

variable {τ : Type*} [DecidableEq τ]

/-- The calls that are considered: as for single announces, but on SMP another CPU may announce
during a callback, as long as the ticks fit in `announce_remaining`. -/
def InSmpDomain (smp : Bool) (w : World τ) : TimerOp τ → Prop
  | .announce cpu ticks => 1 ≤ ticks ∧ w.k.remaining + ticks < 2 ^ 31 ∧ w.k.serving cpu = none ∧
      (smp = false → ∀ c, w.k.serving c = none)
  | op => InDomain w op

/-- The timeout whose callback returns is the last one for the last announced tick. -/
def LastOfTick (w : World τ) : TimerOp τ → Prop
  | .ret cpu => ∀ t dt, w.k.serving cpu = some (t, dt) → w.k.remaining = dt →
      ∀ t' d l, w.k.list = (t', d) :: l → 0 < d
  | _ => True

/-- Callbacks see `announce_remaining` set, one at a time; relative timeouts count from the expiry
of the timeout being called, whatever the hardware clock says; and announces by other CPUs only
add their ticks. -/
structure Frozen (smp : Bool) (w : World τ) : Prop where
  nonzero : ∀ c, w.k.serving c ≠ none → w.k.remaining ≠ 0
  alone : ∀ c c', w.k.serving c ≠ none → w.k.serving c' ≠ none → c = c'
  offsets : ∀ c, w.k.serving c ≠ none → ∃ f, w.fired.getLast? = some f ∧
    w.k.currTick = f.entry.expiry ∧ ∀ n e, 0 ≤ n → newDticks w.k n e = n + 1
  adds_only : smp = true → (∃ c, w.k.serving c ≠ none) → ∀ cpu ticks,
    sysClockAnnounce smp cpu ticks w.k = ({ w.k with remaining := w.k.remaining + ticks }, none)

/-- Everything follows from the first. -/
theorem Good.frozen {w : World τ} (hGood : Good w)
    (hNonzero : ∀ c, w.k.serving c ≠ none → w.k.remaining ≠ 0) (smp : Bool) : Frozen smp w := by
  obtain ⟨q, hC, hPhase⟩ := hGood
  refine ⟨hNonzero, ?_, ?_, ?_⟩
  · intro c c' hc hc'
    rcases hPhase with hIdle | ⟨cpu, dt, hS⟩
    · exact absurd (hIdle.no_server c) hc
    · have hOne : ∀ i, w.k.serving i ≠ none → i = cpu := by
        intro i hi
        by_contra hNe
        exact hi (hS.only i hNe)
      rw [hOne c hc, hOne c' hc']
  · intro c hc
    rcases hPhase with hIdle | ⟨cpu, dt, hS⟩
    · exact absurd (hIdle.no_server c) hc
    · obtain ⟨f, hLast, hTick, -⟩ := hS.server
      refine ⟨f, hLast, ?_, ?_⟩
      · rw [← hTick, hC.fired_tick f (List.mem_of_getLast? hLast)]
      · intro n e hn
        have hRel : ¬ 0 ≤ tickAbs n := by
          unfold tickAbs
          omega
        rw [newDticks, if_neg hRel, elapsed, if_neg (hNonzero c hc), Int.add_zero]
  · intro hSmp hServing cpu ticks
    obtain ⟨c, hc⟩ := hServing
    exact if_pos ⟨hSmp, hNonzero c hc⟩

/-- An announce during a callback only adds its ticks. -/
theorem Good.extend {w : World τ} (hGood : Good w) (cpu : Nat) {c : Nat} {ticks : Int}
    (hPos : 1 ≤ ticks) (hSmall : w.k.remaining + ticks < 2 ^ 31) (hServing : w.k.serving c ≠ none)
    (hNonzero : w.k.remaining ≠ 0) :
    Good (timerStep true w (.announce cpu ticks)) ∧
      (timerStep true w (.announce cpu ticks)).k.remaining ≠ 0 := by
  obtain ⟨q, hC, hPhase⟩ := hGood
  obtain hIdle | ⟨cpu', dt, hS⟩ := hPhase
  · exact absurd (hIdle.no_server c) hServing
  · have hLe := hS.le
    have hNonneg := hS.nonneg
    have hNow := hS.now
    have hStep : timerStep true w (.announce cpu ticks) =
        { w with
          announced := w.announced + ticks.toNat
          k := { w.k with remaining := w.k.remaining + ticks } } := by
      rw [timerStep, sysClockAnnounce, if_pos ⟨rfl, hNonzero⟩]
      simp [World.advance, u64]
    rw [hStep]
    refine ⟨⟨q, hC.of_serving _ _ _, .inr ⟨cpu', dt, ?_⟩⟩, ?_⟩
    · refine ⟨hS.server, hS.only, hNonneg, ?_, hSmall, ?_⟩
      · show dt ≤ w.k.remaining + ticks
        omega
      · show (w.now : Int) + (w.k.remaining + ticks - dt) = (w.announced + ticks.toNat : Nat)
        omega
    · show w.k.remaining + ticks ≠ 0
      omega

/-- What is known in the good runs. -/
def Clocked (w : World τ) : Prop := Good w ∧ ∀ c, w.k.serving c ≠ none → w.k.remaining ≠ 0

/-- From the head of the loop on, callbacks see the counter set exactly if no timeout is called
with nothing left. -/
theorem loopHead_nonzero_iff {cpu : Nat} {s : Timeouts τ} (hFree : ∀ c, s.serving c = none) :
    (∀ c, (loopHead cpu s).1.serving c ≠ none → (loopHead cpu s).1.remaining ≠ 0) ↔
      (s.remaining = 0 → ∀ t d l, s.list = (t, d) :: l → 0 < d) := by
  rcases loopHead_cases cpu s with ⟨hHead, hRes⟩ | ⟨t, d, l, hList, hd, hRes⟩
  · rw [hRes]
    refine iff_of_true ?_ ?_
    · intro c hc
      refine absurd ?_ hc
      show set s.serving cpu none c = none
      rw [set_apply]
      split
      · rfl
      · exact hFree c
    · intro hZero t d l hList
      rw [← hZero]
      exact hHead t d l hList
  · rw [hRes]
    constructor
    · intro hAll hZero
      exact absurd hZero (hAll cpu (by simp))
    · intro hLast c _ hZero
      have hPos := hLast hZero t d l hList
      have hLe : d ≤ 0 := hZero ▸ hd
      omega

theorem ret_nonzero_iff {smp : Bool} {w : World τ} {cpu : Nat} (hGood : Good w)
    (hServing : w.k.serving cpu ≠ none) :
    (∀ c, (timerStep smp w (.ret cpu)).k.serving c ≠ none →
        (timerStep smp w (.ret cpu)).k.remaining ≠ 0) ↔ LastOfTick w (.ret cpu) := by
  obtain ⟨⟨t, dt⟩, hServed⟩ := Option.ne_none_iff_exists'.mp hServing
  have hFree : ∀ c, set w.k.serving cpu none c = none := by
    intro c
    rw [set_apply]
    split
    · rfl
    · rename_i hNe
      obtain ⟨q, -, hIdle | ⟨cpu', dt', hS⟩⟩ := hGood
      · exact hIdle.no_server c
      · have hcpu : cpu = cpu' := by
          by_contra hOther
          exact hServing (hS.only cpu hOther)
        exact hS.only c (hcpu ▸ hNe)
  have hStep : (timerStep smp w (.ret cpu)).k = (loopHead cpu { w.k with
      remaining := w.k.remaining - dt, serving := set w.k.serving cpu none }).1 := by
    rw [timerStep, callbackReturn, hServed]
    rfl
  rw [hStep, loopHead_nonzero_iff hFree]
  constructor
  · intro hLast t' dt' hEq hRem
    rw [hServed] at hEq
    cases hEq
    exact hLast (Int.sub_eq_zero.mpr hRem)
  · intro hLast hRem
    exact hLast t dt hServed (Int.sub_eq_zero.mp hRem)

theorem Clocked.step {smp : Bool} {w : World τ} {op : TimerOp τ} (hW : Clocked w)
    (hDom : InSmpDomain smp w op) (hLast : LastOfTick w op) : Clocked (timerStep smp w op) := by
  obtain ⟨hGood, hNonzero⟩ := hW
  have hQuiet : op.Quiet → InDomain w op → Clocked (timerStep smp w op) := by
    intro hQuiet hOp
    have hSame := timerStep_same smp w hQuiet
    refine ⟨hGood.quiet hQuiet hOp, ?_⟩
    rw [hSame.serving, hSame.remaining]
    exact hNonzero
  cases op with
  | add _ _ _ | abort _ => exact hQuiet trivial hDom
  | announce cpu ticks =>
    obtain ⟨hPos, hSmall, -, hUni⟩ := hDom
    by_cases hFree : ∀ c, w.k.serving c = none
    · have hZero : w.k.remaining = 0 := by
        obtain ⟨q, -, hIdle | ⟨c, dt, hS⟩⟩ := hGood
        · exact hIdle.remaining
        · obtain ⟨f, -, -, hServed⟩ := hS.server
          rw [hFree c] at hServed
          cases hServed
      refine ⟨hGood.step ⟨hFree, hPos, by omega⟩, ?_⟩
      rw [timerStep, sysClockAnnounce, if_neg (by simp [hZero])]
      refine (loopHead_nonzero_iff (s := { w.k with remaining := ticks }) hFree).mpr ?_
      intro hNone
      have hNone : ticks = 0 := hNone
      omega
    · obtain ⟨c, hc⟩ := not_forall.mp hFree
      cases smp with
      | false => exact absurd (hUni rfl c) hc
      | true =>
        obtain ⟨hGood', hRemaining⟩ := hGood.extend cpu hPos hSmall hc (hNonzero c hc)
        exact ⟨hGood', fun _ _ => hRemaining⟩
  | ret cpu => exact ⟨hGood.step hDom, (ret_nonzero_iff hGood hDom).mpr hLast⟩

/-- The clock stands still during every callback of a run, and they run one at a time, exactly if
no callback returns while another timeout is left for the last announced tick. -/
theorem callbacks_frozen_iff (smp : Bool) (ops : List (TimerOp τ))
    (hDom : Admissible (timerStep smp) (InSmpDomain smp) World.start ops) :
    Always (timerStep smp) (Frozen smp) World.start ops ↔
      Admissible (timerStep smp) LastOfTick World.start ops := by
  have hFrozen : ∀ w : World τ, Clocked w → Frozen smp w := fun w hW => hW.1.frozen hW.2 smp
  have hBreak : ∀ (w : World τ) op, Clocked w → InSmpDomain smp w op →
      Frozen smp (timerStep smp w op) → LastOfTick w op := by
    intro w op hW hOp hStep
    cases op with
    | ret cpu => exact (ret_nonzero_iff hW.1 hOp).mp hStep.nonzero
    | add t ticks e => trivial
    | abort t => trivial
    | announce cpu ticks => trivial
  exact always_iff_within hFrozen (fun _ _ hW hOp hLast => hW.step hOp hLast) hBreak ops _
    ⟨good_start, fun c hc => absurd rfl hc⟩ hDom

/-- Timeouts for ticks 1 and 2 in an announce of three ticks, with an announce by another CPU and
a new timeout during the first callback. -/
theorem callbacks_frozen_iff_two :
    Always (timerStep true) (Frozen true) (World.start : World Nat)
      [.add 1 0 0, .add 2 1 0, .announce 0 3, .announce 1 2, .add 3 0 99, .ret 0, .ret 0, .ret 0] := by
  have hLast : ∀ (w : World Nat), (w.k.serving 0).map Prod.snd ≠ some w.k.remaining →
      LastOfTick w (.ret 0) := by
    intro w hNe t dt hServed hRem
    refine absurd ?_ hNe
    rw [hServed, hRem]
    rfl
  refine (callbacks_frozen_iff true _ ?_).mpr ?_
  · exact ⟨.inr ⟨by decide, by decide, by decide⟩, .inr ⟨by decide, by decide, by decide⟩,
      ⟨by decide, by decide, rfl, fun h => absurd h (by decide)⟩,
      ⟨by decide, by decide +kernel, by decide +kernel, fun h => absurd h (by decide)⟩,
      .inr ⟨by decide +kernel, by decide +kernel, by decide +kernel⟩,
      Option.isSome_iff_ne_none.mp (by decide +kernel),
      Option.isSome_iff_ne_none.mp (by decide +kernel),
      Option.isSome_iff_ne_none.mp (by decide +kernel), trivial⟩
  · exact ⟨trivial, trivial, trivial, trivial, trivial, hLast _ (by decide +kernel),
      hLast _ (by decide +kernel), hLast _ (by decide +kernel), trivial⟩

/-- Two timeouts for tick 1, announced alone: the second one is called with `announce_remaining`
at zero, and an announce by another CPU then calls a third one at the same time. -/
theorem shared_last_tick :
    Admissible (timerStep true) (InSmpDomain true) (World.start : World Nat)
        [.add 1 0 0, .add 2 0 0, .add 3 1 0, .announce 0 1, .ret 0, .announce 1 1] ∧
      (exec (timerStep true) (World.start : World Nat)
        [.add 1 0 0, .add 2 0 0, .add 3 1 0, .announce 0 1, .ret 0]).k.serving 0 = some (2, 0) ∧
      (exec (timerStep true) (World.start : World Nat)
        [.add 1 0 0, .add 2 0 0, .add 3 1 0, .announce 0 1, .ret 0]).k.remaining = 0 ∧
      (exec (timerStep true) (World.start : World Nat)
        [.add 1 0 0, .add 2 0 0, .add 3 1 0, .announce 0 1, .ret 0, .announce 1 1]).k.serving 0 =
          some (2, 0) ∧
      (exec (timerStep true) (World.start : World Nat)
        [.add 1 0 0, .add 2 0 0, .add 3 1 0, .announce 0 1, .ret 0, .announce 1 1]).k.serving 1 =
          some (3, 1) := by
  refine ⟨?_, by decide +kernel, by decide +kernel, by decide +kernel, by decide +kernel⟩
  exact ⟨.inr ⟨by decide, by decide, by decide⟩, .inr ⟨by decide, by decide, by decide⟩,
    .inr ⟨by decide, by decide, by decide⟩,
    ⟨by decide, by decide, rfl, fun h => absurd h (by decide)⟩,
    Option.isSome_iff_ne_none.mp (by decide +kernel),
    ⟨by decide, by decide +kernel, by decide +kernel, fun h => absurd h (by decide)⟩, trivial⟩

end Zvm.Kernel
