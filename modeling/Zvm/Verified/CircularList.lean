import Mathlib.Data.List.Nodup
import Mathlib.Logic.Function.Iterate

/-!
# Circular doubly linked lists without a header

Nodes are linked by two functions `next` and `prev`.  A ring is a list of nodes
in the order of `next`, with the last one linked back to the first.  There is no
header node: the owner keeps the first node, and an empty ring has none.

The functions are what a memory holds, so removing or adding a node is given by
which links differ from before, and not as an update.

## Main results

* `Ring.swap`: a ring may be cut anywhere.
* `Ring.remove`: two changed links take the first node out.
* `Ring.add`: four changed links put a node in front of the first, which is the
  end of the list.
-/

namespace Zvm.Verified.CircularList

variable {α : Type*} {x : α} {l : List α}

/-- Consecutive nodes are linked both ways. -/
def Links (next prev : α → α) : List α → Prop
  | [] => True
  | [_] => True
  | x :: y :: rest => next x = y ∧ prev y = x ∧ Links next prev (y :: rest)

/-- `y` follows `x`. -/
def Joined (next prev : α → α) (x y : α) : Prop := next x = y ∧ prev y = x

/-- The nodes of the list form a ring. -/
structure Ring (next prev : α → α) (l : List α) : Prop where
  links : Links next prev l
  close : ∀ x ∈ l.getLast?, ∀ y ∈ l.head?, Joined next prev x y

variable {next prev next' prev' : α → α}

/-- Links of a concatenation: of both parts, and over the seam. -/
theorem links_append (l : List α) (y : α) (r : List α) :
    Links next prev (l ++ y :: r) ↔
      Links next prev l ∧ (∀ x ∈ l.getLast?, Joined next prev x y) ∧
        Links next prev (y :: r) := by
  induction l with
  | nil => simp [Links]
  | cons a l ih =>
    cases l with
    | nil => simp [Links, Joined, and_assoc]
    | cons b l =>
      have hLast : (a :: b :: l).getLast? = (b :: l).getLast? := by
        simp [List.getLast?_cons]
      rw [hLast]
      simp only [List.cons_append, Links] at ih ⊢
      rw [ih]
      tauto

/-- Links read `next` of every node but the last and `prev` of every node but the first. -/
theorem Links.congr (h : Links next prev l) (hNext : ∀ x ∈ l.dropLast, next' x = next x)
    (hPrev : ∀ x ∈ l.tail, prev' x = prev x) : Links next' prev' l := by
  induction l with
  | nil => trivial
  | cons a l ih =>
    cases l with
    | nil => trivial
    | cons b l =>
      obtain ⟨hn, hp, hl⟩ := h
      refine ⟨?_, ?_, ih hl ?_ ?_⟩
      · rw [hNext a (by simp), hn]
      · rw [hPrev b (by simp), hp]
      · intro x hx
        exact hNext x (by simp [hx])
      · intro x hx
        exact hPrev x (by simp at hx ⊢; exact .inr hx)

theorem Ring.nil : Ring next prev ([] : List α) := ⟨trivial, by simp⟩

theorem ring_singleton (x : α) : Ring next prev [x] ↔ Joined next prev x x := by
  constructor
  · intro h
    exact h.close x rfl x rfl
  · intro h
    refine ⟨trivial, ?_⟩
    intro a ha b hb
    cases ha
    cases hb
    exact h

/-- A ring with another pair of link functions that agree on its nodes. -/
theorem Ring.congr (h : Ring next prev l) (hNext : ∀ x ∈ l, next' x = next x)
    (hPrev : ∀ x ∈ l, prev' x = prev x) : Ring next' prev' l := by
  refine ⟨h.links.congr ?_ ?_, ?_⟩
  · intro x hx
    exact hNext x (List.dropLast_subset _ hx)
  · intro x hx
    exact hPrev x (List.mem_of_mem_tail hx)
  · intro x hx y hy
    obtain ⟨hn, hp⟩ := h.close x hx y hy
    exact ⟨by rw [hNext x (List.mem_of_getLast? hx), hn],
      by rw [hPrev y (List.mem_of_mem_head? hy), hp]⟩

/-- The first node may become the last. -/
theorem Ring.rotate_one (h : Ring next prev (x :: l)) : Ring next prev (l ++ [x]) := by
  cases l with
  | nil => exact h
  | cons y l =>
    obtain ⟨hn, hp, hl⟩ := h.links
    have hLast : (x :: y :: l).getLast? = (y :: l).getLast? := by simp [List.getLast?_cons]
    refine ⟨?_, ?_⟩
    · rw [links_append]
      refine ⟨hl, ?_, trivial⟩
      intro z hz
      exact h.close z (by rw [hLast]; exact hz) x rfl
    · intro z hz w hw
      simp only [List.getLast?_append, List.getLast?_singleton, Option.some_or] at hz
      cases hz
      cases hw
      exact ⟨hn, hp⟩

/-- A ring may be cut anywhere. -/
theorem Ring.swap {r : List α} (h : Ring next prev (l ++ r)) : Ring next prev (r ++ l) := by
  induction l generalizing r with
  | nil => simpa using h
  | cons x l ih =>
    have hOne : Ring next prev (l ++ (r ++ [x])) := by
      rw [← List.append_assoc]
      exact Ring.rotate_one h
    have hRest := ih hOne
    rwa [List.append_assoc, List.singleton_append] at hRest

/-- The node after the first one. -/
theorem Ring.next_head {y : α} (h : Ring next prev (x :: y :: l)) : next x = y :=
  h.links.1

/-- The node before the first is the last. -/
theorem Ring.getLast_eq_prev (h : Ring next prev (x :: l)) : (x :: l).getLast? = some (prev x) := by
  obtain ⟨z, hz⟩ : ∃ z, (x :: l).getLast? = some z := by simp [List.getLast?_cons]
  rw [hz, (h.close z hz x rfl).2]

theorem Ring.prev_mem (h : Ring next prev (x :: l)) : prev x ∈ x :: l :=
  List.mem_of_getLast? h.getLast_eq_prev

/-- With another node in the ring, the one before the first is one of the others. -/
theorem Ring.prev_mem_tail {y : α} (h : Ring next prev (x :: y :: l)) : prev x ∈ y :: l := by
  apply List.mem_of_getLast?
  rw [← h.getLast_eq_prev]
  simp [List.getLast?_cons]

/-- The first node is its own successor only when it is alone. -/
theorem Ring.next_eq_self (h : Ring next prev (x :: l)) (hNodup : (x :: l).Nodup) :
    next x = x ↔ l = [] := by
  cases l with
  | nil => simp [(h.close x rfl x rfl).1]
  | cons y l =>
    have hNe : x ≠ y := by
      rintro rfl
      simp at hNodup
    simp [h.next_head, Ne.symm hNe]

/-- Without repetition the last node does not occur before the end. -/
theorem ne_last_of_mem_dropLast {z : α} (hNodup : l.Nodup) (hLast : l.getLast? = some z)
    (hx : x ∈ l.dropLast) : x ≠ z := by
  have hNil : l ≠ [] := by
    rintro rfl
    simp at hx
  rw [List.getLast?_eq_some_getLast hNil, Option.some.injEq] at hLast
  rw [← List.dropLast_append_getLast hNil, hLast] at hNodup
  exact (List.nodup_append.mp hNodup).2.2 x hx z (by simp)

/-- The two links that a removal changes, and the rest. -/
structure Unlinked (next prev next' prev' : α → α) (l : List α) (c : α) : Prop where
  next_first : next' (prev c) = next c
  prev_second : prev' (next c) = prev c
  next_else : ∀ x ∈ l, x ≠ prev c → next' x = next x
  prev_else : ∀ x ∈ l, x ≠ next c → prev' x = prev x

/-- Taking the first node out of a ring that has another. -/
theorem Ring.remove {c y : α} (h : Ring next prev (c :: y :: l)) (hNodup : (c :: y :: l).Nodup)
    (hCut : Unlinked next prev next' prev' (y :: l) c) : Ring next' prev' (y :: l) := by
  obtain ⟨hn, hp, hl⟩ := h.links
  have hLast : (c :: y :: l).getLast? = (y :: l).getLast? := by simp [List.getLast?_cons]
  have hNodupRest : (y :: l).Nodup := (List.nodup_cons.mp hNodup).2
  have hz : (y :: l).getLast? = some (prev c) := by rw [← hLast, h.getLast_eq_prev]
  refine ⟨hl.congr ?_ ?_, ?_⟩
  · -- the last node is not among those whose successor the links name
    intro x hx
    apply hCut.next_else x (List.dropLast_subset _ hx)
    exact ne_last_of_mem_dropLast hNodupRest hz hx
  · intro x hx
    apply hCut.prev_else x (List.mem_of_mem_tail hx)
    rw [hn]
    rintro rfl
    exact (List.nodup_cons.mp hNodupRest).1 hx
  · intro x hx w hw
    rw [hz] at hx
    cases hx
    cases hw
    refine ⟨?_, ?_⟩
    · rw [hCut.next_first, hn]
    · rw [← hn, hCut.prev_second]

/-- The four links that an insertion changes, and the rest. -/
structure Linked (next prev next' prev' : α → α) (l : List α) (first second c : α) : Prop where
  prev_new : prev' c = first
  next_new : next' c = second
  next_first : next' first = c
  prev_second : prev' second = c
  next_else : ∀ x ∈ l, x ≠ first → next' x = next x
  prev_else : ∀ x ∈ l, x ≠ second → prev' x = prev x

/-- Putting a node in front of the first. -/
theorem Ring.add {c : α} (h : Ring next prev (x :: l)) (hNodup : (x :: l).Nodup)
    (hPut : Linked next prev next' prev' (x :: l) (prev x) x c) :
    Ring next' prev' (x :: l ++ [c]) := by
  have hz := h.getLast_eq_prev
  refine ⟨?_, ?_⟩
  · rw [links_append]
    refine ⟨h.links.congr ?_ ?_, ?_, trivial⟩
    · intro w hw
      apply hPut.next_else w (List.dropLast_subset _ hw)
      exact ne_last_of_mem_dropLast hNodup hz hw
    · intro w hw
      apply hPut.prev_else w (List.mem_of_mem_tail hw)
      rintro rfl
      exact (List.nodup_cons.mp hNodup).1 hw
    · intro w hw
      rw [hz] at hw
      cases hw
      exact ⟨hPut.next_first, hPut.prev_new⟩
  · intro w hw v hv
    simp only [List.getLast?_append, List.getLast?_singleton, Option.some_or] at hw
    cases hw
    cases hv
    exact ⟨hPut.next_new, hPut.prev_second⟩

/-! ## Going round -/

/-- The node `j` steps after the first, as long as the list goes. -/
theorem links_iterate (j : Nat) :
    ∀ {x : α}, Links next prev (x :: l) → ∀ hj : j < (x :: l).length,
      next^[j] x = (x :: l).get ⟨j, hj⟩ := by
  induction j generalizing l with
  | zero => intro x _ _; rfl
  | succ j ih =>
    intro x h hj
    cases l with
    | nil => simp at hj
    | cons y l =>
      obtain ⟨hn, -, hl⟩ := h
      rw [Function.iterate_succ_apply, hn, ih hl (by simpa using hj)]
      rfl

/-- The first `n` nodes are those reached in fewer than `n` steps, also when the steps go round. -/
theorem Ring.mem_take_iff (h : Ring next prev (x :: l)) (n : Nat) (e : α) :
    e ∈ (x :: l).take n ↔ ∃ i < n, next^[i] x = e := by
  have hAround : next^[(x :: l).length] x = x := by
    have hEnd := links_iterate l.length h.links (by simp)
    obtain ⟨hn, -⟩ := h.close _ h.getLast_eq_prev x rfl
    have hLast : (x :: l).get ⟨l.length, by simp⟩ = prev x := by
      have hGet := h.getLast_eq_prev
      rw [List.getLast?_eq_getElem?] at hGet
      simpa using (List.getElem?_eq_some_iff.mp hGet).2
    rw [List.length_cons, Function.iterate_succ_apply', hEnd, hLast, hn]
  constructor
  · intro he
    obtain ⟨i, hi, rfl⟩ := List.getElem_of_mem he
    rw [List.length_take] at hi
    refine ⟨i, by omega, ?_⟩
    rw [links_iterate i h.links (by omega)]
    simp
  · rintro ⟨i, hi, rfl⟩
    have hPos : 0 < (x :: l).length := by simp
    -- whole rounds do not count
    have hRounds : next^[i] x = next^[i % (x :: l).length] x := by
      have hFix : ∀ m, next^[(x :: l).length * m] x = x := by
        intro m
        induction m with
        | zero => rfl
        | succ m ih => rw [Nat.mul_succ, Function.iterate_add_apply, hAround, ih]
      conv_lhs => rw [← Nat.mod_add_div i (x :: l).length, Function.iterate_add_apply, hFix]
    have hLt := Nat.mod_lt i hPos
    have hLe := Nat.mod_le i (x :: l).length
    rw [hRounds, links_iterate _ h.links hLt, List.mem_take_iff_getElem]
    exact ⟨i % (x :: l).length, by omega, rfl⟩

end Zvm.Verified.CircularList
