import Mathlib.Data.List.Count

/-!
# Effects of a call

What a call does to the world is the list of its effects, in order, and whether it
returns: a call that takes a lock twice or jumps to a null pointer has the effects up to
that point and no more.  Calls are put together with `andThen` and, for a loop, `seqAll`.
-/

namespace Zvm.Verified.Effects

variable {ε : Type*}

/-- The effects of a call, and whether it returns. -/
structure Effects (ε : Type*) where
  events : List ε
  returns : Bool
  deriving DecidableEq

/-- The call has the effects and returns. -/
def done (events : List ε) : Effects ε := ⟨events, true⟩

/-- The call has the effects and does not return. -/
def stops (events : List ε) : Effects ε := ⟨events, false⟩

/-- One call after the other. -/
def Effects.andThen (a b : Effects ε) : Effects ε :=
  if a.returns then ⟨a.events ++ b.events, b.returns⟩ else a

/-- The calls of a loop. -/
def seqAll : List (Effects ε) → Effects ε
  | [] => done []
  | a :: calls => a.andThen (seqAll calls)

@[simp]
theorem done_andThen (events : List ε) (b : Effects ε) :
    (done events).andThen b = ⟨events ++ b.events, b.returns⟩ := rfl

theorem andThen_of_returns {a : Effects ε} (hRet : a.returns = true) (b : Effects ε) :
    a.andThen b = ⟨a.events ++ b.events, b.returns⟩ := if_pos hRet

theorem andThen_of_stops {a : Effects ε} (hStop : a.returns = false) (b : Effects ε) :
    a.andThen b = a := by
  simp [Effects.andThen, hStop]

/-- A loop whose calls all return has all their effects. -/
theorem seqAll_of_returns {calls : List (Effects ε)} (hRet : ∀ a ∈ calls, a.returns = true) :
    seqAll calls = ⟨calls.flatMap (·.events), true⟩ := by
  induction calls with
  | nil => rfl
  | cons a calls ih =>
    rw [seqAll, andThen_of_returns (hRet a List.mem_cons_self),
      ih fun b hb => hRet b (List.mem_cons_of_mem a hb), List.flatMap_cons]

/-- A loop with a call that does not return does not return. -/
theorem seqAll_stops {calls : List (Effects ε)} (hStop : ∃ a ∈ calls, a.returns = false) :
    (seqAll calls).returns = false := by
  induction calls with
  | nil => simp at hStop
  | cons a calls ih =>
    cases hRet : a.returns with
    | false =>
      rw [seqAll, andThen_of_stops hRet]
      exact hRet
    | true =>
      rw [seqAll, andThen_of_returns hRet]
      obtain ⟨b, hMem, hb⟩ := hStop
      rcases List.mem_cons.mp hMem with rfl | hRest
      · rw [hRet] at hb
        exact absurd hb (by decide)
      · exact ih ⟨b, hRest, hb⟩

/-- Every effect of a loop is one of its calls'. -/
theorem mem_seqAll {calls : List (Effects ε)} {e : ε} (hMem : e ∈ (seqAll calls).events) :
    ∃ a ∈ calls, e ∈ a.events := by
  induction calls with
  | nil => simp [seqAll, done] at hMem
  | cons a calls ih =>
    cases hRet : a.returns with
    | false =>
      rw [seqAll, andThen_of_stops hRet] at hMem
      exact ⟨a, List.mem_cons_self, hMem⟩
    | true =>
      rw [seqAll, andThen_of_returns hRet] at hMem
      rcases List.mem_append.mp hMem with hHead | hTail
      · exact ⟨a, List.mem_cons_self, hHead⟩
      · obtain ⟨b, hb, hIn⟩ := ih hTail
        exact ⟨b, List.mem_cons_of_mem a hb, hIn⟩

end Zvm.Verified.Effects
