import Mathlib.Data.List.Basic

/-!
# Runs of a deterministic step function

The components verified in this development are state machines: a state, a
type of labelled operations, and a total function that performs one operation.
Every "for every sequence of …" statement is then a statement about `exec`,
the state after a list of operations, and every proof of such a statement is
one step lemma and one use of `exec_invariant`.

A condition on the operations of a run is not a condition on the list alone:
whether an operation is acceptable depends on the state it is issued in.
`Admissible` says that each operation of the run meets such a condition in the
state just before it.
-/

namespace Zvm.Verified.Run

variable {σ α : Type*}

/-- The state after performing the operations of `ops` in order. -/
def exec (step : σ → α → σ) : σ → List α → σ
  | s, [] => s
  | s, a :: ops => exec step (step s a) ops

/-- Every operation of the run meets `cond` in the state it is issued in. -/
def Admissible (step : σ → α → σ) (cond : σ → α → Prop) : σ → List α → Prop
  | _, [] => True
  | s, a :: ops => cond s a ∧ Admissible step cond (step s a) ops

instance decidableAdmissible (step : σ → α → σ) (cond : σ → α → Prop)
    [∀ s a, Decidable (cond s a)] : ∀ s ops, Decidable (Admissible step cond s ops)
  | _, [] => inferInstanceAs (Decidable True)
  | s, a :: ops =>
    have := decidableAdmissible step cond (step s a) ops
    inferInstanceAs (Decidable (cond s a ∧ Admissible step cond (step s a) ops))

@[simp]
theorem exec_nil (step : σ → α → σ) (s : σ) : exec step s [] = s := rfl

@[simp]
theorem exec_cons (step : σ → α → σ) (s : σ) (a : α) (ops : List α) :
    exec step s (a :: ops) = exec step (step s a) ops := rfl

theorem exec_append (step : σ → α → σ) (s : σ) (ops more : List α) :
    exec step s (ops ++ more) = exec step (exec step s ops) more := by
  induction ops generalizing s with
  | nil => rfl
  | cons a ops ih => exact ih (step s a)

theorem admissible_append (step : σ → α → σ) (cond : σ → α → Prop) (ops more : List α) :
    ∀ s, Admissible step cond s (ops ++ more) ↔
      Admissible step cond s ops ∧ Admissible step cond (exec step s ops) more := by
  induction ops with
  | nil => intro s; simp [Admissible]
  | cons a ops ih => intro s; simp [Admissible, ih, and_assoc]

variable {step : σ → α → σ} {cond : σ → α → Prop} {inv strong P : σ → Prop}

/--
**Invariant rule**: what holds at the start and survives every acceptable step
holds at the end of every run made of acceptable steps.
-/
theorem exec_invariant (hStep : ∀ s a, inv s → cond s a → inv (step s a)) (ops : List α) :
    ∀ s, inv s → Admissible step cond s ops → inv (exec step s ops) := by
  induction ops with
  | nil =>
    intro s hInv _
    exact hInv
  | cons a ops ih =>
    intro s hInv hAdm
    exact ih (step s a) (hStep s a hInv hAdm.1) hAdm.2

/-- The same where which operations a run is made of is all that matters. -/
theorem exec_invariant_of_mem (ops : List α) :
    (∀ a ∈ ops, ∀ s, inv s → inv (step s a)) → ∀ s, inv s → inv (exec step s ops) := by
  induction ops with
  | nil =>
    intro _ s hInv
    exact hInv
  | cons a ops ih =>
    intro hStep s hInv
    exact ih (fun b hb => hStep b (by simp [hb])) (step s a) (hStep a (by simp) s hInv)

/-- `P` holds in every state of the run, the first and the last one included. -/
def Always (step : σ → α → σ) (P : σ → Prop) : σ → List α → Prop
  | s, [] => P s
  | s, a :: ops => P s ∧ Always step P (step s a) ops

theorem always_head {s : σ} {ops : List α} (hAlways : Always step P s ops) : P s := by
  cases ops with
  | nil => exact hAlways
  | cons a ops => exact hAlways.1

/-- The states of a run are those after its beginnings. -/
theorem always_iff_forall_take (step : σ → α → σ) (P : σ → Prop) (ops : List α) :
    ∀ s, Always step P s ops ↔ ∀ m, P (exec step s (ops.take m)) := by
  induction ops with
  | nil =>
    intro s
    simp [Always]
  | cons a ops ih =>
    intro s
    rw [Always, ih]
    constructor
    · rintro ⟨hFirst, hRest⟩ m
      cases m with
      | zero => exact hFirst
      | succ m => exact hRest m
    · intro hAll
      exact ⟨hAll 0, fun m => hAll (m + 1)⟩

/--
**Exact condition of a run**: where a step from a good state reaches a good state
exactly under `cond`, the good runs are those whose steps all meet `cond`.
-/
theorem always_iff_admissible (hInv : ∀ s a, inv s → inv (step s a))
    (hStep : ∀ s a, inv s → P s → (P (step s a) ↔ cond s a)) (ops : List α) :
    ∀ s, inv s → P s → (Always step P s ops ↔ Admissible step cond s ops) := by
  induction ops with
  | nil =>
    intro s _ hP
    exact iff_of_true hP trivial
  | cons a ops ih =>
    intro s hs hP
    have hHead := hStep s a hs hP
    constructor
    · intro hAlways
      have hNext : P (step s a) := always_head hAlways.2
      exact ⟨hHead.mp hNext, (ih _ (hInv s a hs) hNext).mp hAlways.2⟩
    · intro hAdm
      exact ⟨hP, (ih _ (hInv s a hs) (hHead.mpr hAdm.1)).mpr hAdm.2⟩

/-- Acceptable steps lead through good states only, if they keep more than that. -/
theorem always_of_admissible (hP : ∀ s, strong s → P s)
    (hKeep : ∀ s a, strong s → cond s a → strong (step s a)) (ops : List α) :
    ∀ s, strong s → Admissible step cond s ops → Always step P s ops := by
  induction ops with
  | nil =>
    intro s hs _
    exact hP s hs
  | cons a ops ih =>
    intro s hs hAdm
    exact ⟨hP s hs, ih _ (hKeep s a hs hAdm.1) hAdm.2⟩

/-- A run through good states is made of acceptable steps, if the others lead to bad ones. -/
theorem admissible_of_always (hKeep : ∀ s a, strong s → cond s a → strong (step s a))
    (hBreak : ∀ s a, strong s → P (step s a) → cond s a) (ops : List α) :
    ∀ s, strong s → Always step P s ops → Admissible step cond s ops := by
  induction ops with
  | nil =>
    intro s _ _
    exact trivial
  | cons a ops ih =>
    intro s hs hAlways
    have hCond := hBreak s a hs (always_head hAlways.2)
    exact ⟨hCond, ih _ (hKeep s a hs hCond) hAlways.2⟩

/-- A condition that follows from another in the states of its runs is met by them too. -/
theorem admissible_of_strong {cond' : σ → α → Prop}
    (hKeep : ∀ s a, strong s → cond s a → strong (step s a))
    (hImp : ∀ s a, strong s → cond s a → cond' s a) (ops : List α) :
    ∀ s, strong s → Admissible step cond s ops → Admissible step cond' s ops := by
  induction ops with
  | nil =>
    intro s _ _
    exact trivial
  | cons a ops ih =>
    intro s hs hAdm
    exact ⟨hImp s a hs hAdm.1, ih _ (hKeep s a hs hAdm.1) hAdm.2⟩

/--
The same where more than `P` is known of the states of a good run: `strong` survives the
acceptable steps, and `P` does not survive the others.
-/
theorem always_iff_of_strong (hP : ∀ s, strong s → P s)
    (hKeep : ∀ s a, strong s → cond s a → strong (step s a))
    (hBreak : ∀ s a, strong s → P (step s a) → cond s a) (ops : List α) :
    ∀ s, strong s → (Always step P s ops ↔ Admissible step cond s ops) := by
  intro s hs
  exact ⟨admissible_of_always hKeep hBreak ops s hs, always_of_admissible hP hKeep ops s hs⟩

/-- The same for the runs within a domain. -/
theorem always_iff_within {dom : σ → α → Prop} (hP : ∀ s, strong s → P s)
    (hKeep : ∀ s a, strong s → dom s a → cond s a → strong (step s a))
    (hBreak : ∀ s a, strong s → dom s a → P (step s a) → cond s a) (ops : List α) :
    ∀ s, strong s → Admissible step dom s ops →
      (Always step P s ops ↔ Admissible step cond s ops) := by
  induction ops with
  | nil =>
    intro s hs _
    exact iff_of_true (hP s hs) trivial
  | cons a ops ih =>
    intro s hs hDom
    constructor
    · intro hAlways
      have hCond := hBreak s a hs hDom.1 (always_head hAlways.2)
      exact ⟨hCond, (ih _ (hKeep s a hs hDom.1 hCond) hDom.2).mp hAlways.2⟩
    · intro hAdm
      exact ⟨hP s hs, (ih _ (hKeep s a hs hDom.1 hAdm.1) hDom.2).mpr hAdm.2⟩

end Zvm.Verified.Run
