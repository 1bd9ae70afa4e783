import Zvm.Verified.FunArray
import Mathlib.Data.List.Infix
import Mathlib.Data.Nat.ModEq

/-!
# A ring with a reader and writers that do not look at it

The writer stores an entry at the tail and advances the tail, whatever the reader has
done; the reader takes the entry at the head while the head is not at the tail.  A ring of
`n` slots is a queue as long as fewer than `n` entries are unread, and then `Tracks` says
which.  The entry that makes it `n` puts the tail on the head, so that the ring looks
empty.
-/

namespace Zvm.Verified.RingBuffer

open Zvm.Verified.FunArray

variable {α : Type*}

structure RingBuf (α : Type*) where
  entries : Nat → α
  prodTail : Nat
  consHead : Nat

/-- Store an entry and advance the tail. -/
def RingBuf.push (n : Nat) (r : RingBuf α) (x : α) : RingBuf α :=
  { r with entries := set r.entries r.prodTail x, prodTail := (r.prodTail + 1) % n }

/-- The entry at the head, if the ring does not look empty. -/
def RingBuf.front? (r : RingBuf α) : Option α :=
  if r.consHead = r.prodTail then none else some (r.entries r.consHead)

/-- Advance the head. -/
def RingBuf.advance (n : Nat) (r : RingBuf α) : RingBuf α :=
  { r with consHead := (r.consHead + 1) % n }

/-- The number of unread entries that the two indices show. -/
def RingBuf.unread (n : Nat) (r : RingBuf α) : Nat := (r.prodTail + n - r.consHead) % n

/-- The ring holds the entries `queue`, oldest first. -/
structure Holds (n : Nat) (r : RingBuf α) (queue : List α) : Prop where
  length_lt : queue.length < n
  head_lt : r.consHead < n
  tail_eq : r.prodTail = (r.consHead + queue.length) % n
  entries : ∀ k, k < queue.length → queue[k]? = some (r.entries ((r.consHead + k) % n))

/-- The entries from the head on are `queue`. -/
structure Shows (n : Nat) (r : RingBuf α) (queue : List α) : Prop where
  head_lt : r.consHead < n
  tail_eq : r.prodTail = (r.consHead + queue.length) % n
  entries : ∀ k, k < queue.length → queue[k]? = some (r.entries ((r.consHead + k) % n))

/-- What was accepted and not taken is what the ring holds. -/
def Tracks (n : Nat) (r : RingBuf α) (accepted taken : List α) : Prop :=
  ∃ queue, accepted = taken ++ queue ∧ Holds n r queue

section Holds

variable {n : Nat} {r : RingBuf α} {queue : List α} {x : α}

theorem Shows.front (h : Shows n r (x :: queue)) : r.entries r.consHead = x := by
  have hFirst := h.entries 0 (by simp)
  rw [Nat.add_zero, Nat.mod_eq_of_lt h.head_lt] at hFirst
  exact (Option.some.inj hFirst).symm

theorem Shows.advance (h : Shows n r (x :: queue)) :
    Shows n (r.advance n) queue where
  head_lt := Nat.mod_lt _ (Nat.lt_of_le_of_lt (Nat.zero_le _) h.head_lt)
  tail_eq := by
    have hTail := h.tail_eq
    simp only [RingBuf.advance]
    rw [hTail, Nat.mod_add_mod, List.length_cons]
    congr 1
    omega
  entries := by
    intro k hk
    have hNext := h.entries (k + 1) (by simpa using hk)
    simp only [RingBuf.advance]
    rw [Nat.mod_add_mod, Nat.add_assoc, Nat.add_comm 1 k, ← hNext]
    rfl

theorem Holds.shows (h : Holds n r queue) : Shows n r queue := ⟨h.head_lt, h.tail_eq, h.entries⟩

theorem Holds.unread_eq (h : Holds n r queue) : r.unread n = queue.length := by
  have hLength := h.length_lt
  have hHead := h.head_lt
  have hTail := h.tail_eq
  unfold RingBuf.unread
  by_cases hWrap : r.consHead + queue.length < n
  · rw [Nat.mod_eq_of_lt hWrap] at hTail
    have hSum : r.prodTail + n - r.consHead = queue.length + n := by omega
    rw [hSum, Nat.add_mod_right, Nat.mod_eq_of_lt hLength]
  · have hSub : (r.consHead + queue.length) % n = r.consHead + queue.length - n := by
      rw [Nat.mod_eq_sub_mod (by omega), Nat.mod_eq_of_lt (by omega)]
    have hSum : r.prodTail + n - r.consHead = queue.length := by omega
    rw [hSum, Nat.mod_eq_of_lt hLength]

/-- The ring looks empty exactly if it is. -/
theorem Holds.looks_empty_iff (h : Holds n r queue) : r.consHead = r.prodTail ↔ queue = [] := by
  have hUnread := h.unread_eq
  have hHead := h.head_lt
  constructor
  · intro hEq
    have hZero : r.unread n = 0 := by
      unfold RingBuf.unread
      rw [← hEq, Nat.add_sub_cancel_left, Nat.mod_self]
    exact List.length_eq_zero_iff.mp (by omega)
  · rintro rfl
    have hTail := h.tail_eq
    rw [List.length_nil, Nat.add_zero, Nat.mod_eq_of_lt hHead] at hTail
    exact hTail.symm

/-- Two offsets of less than `n` name different slots. -/
theorem slot_ne {head j k : Nat} (hj : j < k) (hk : k < n) : (head + j) % n ≠ (head + k) % n := by
  intro hEq
  have hMod : j ≡ k [MOD n] := Nat.ModEq.add_left_cancel' head hEq
  have hSame := hMod.eq_of_lt_of_lt (hj.trans hk) hk
  omega

/-- With two free slots, the new entry is the last one of the queue. -/
theorem Holds.push (h : Holds n r queue) (hRoom : queue.length + 1 < n) :
    Holds n (r.push n x) (queue ++ [x]) where
  length_lt := by
    rw [List.length_append, List.length_singleton]
    exact hRoom
  head_lt := h.head_lt
  tail_eq := by
    have hTail := h.tail_eq
    simp only [RingBuf.push, hTail, List.length_append, List.length_singleton]
    rw [Nat.mod_add_mod, Nat.add_assoc]
  entries := by
    intro k hk
    rw [List.length_append, List.length_singleton] at hk
    simp only [RingBuf.push]
    by_cases hLast : k = queue.length
    · subst hLast
      rw [← h.tail_eq, set_same]
      simp
    · have hOld : k < queue.length := by omega
      have hNe : (r.consHead + k) % n ≠ r.prodTail := by
        rw [h.tail_eq]
        exact slot_ne hOld h.length_lt
      rw [set_ne _ _ hNe, List.getElem?_append_left hOld]
      exact h.entries k hOld

/-- With one free slot, the tail comes to the head. -/
theorem Holds.push_full (h : Holds n r queue) (hFull : queue.length + 1 = n) :
    (r.push n x).consHead = (r.push n x).prodTail := by
  have hTail := h.tail_eq
  have hHead := h.head_lt
  simp only [RingBuf.push, hTail]
  rw [Nat.mod_add_mod, Nat.add_assoc, hFull, Nat.add_mod_right, Nat.mod_eq_of_lt hHead]

theorem Holds.front (h : Holds n r (x :: queue)) : r.front? = some x := by
  have hNe : r.consHead ≠ r.prodTail := by
    intro hEq
    cases h.looks_empty_iff.mp hEq
  rw [RingBuf.front?, if_neg hNe, h.shows.front]

theorem Holds.advance (h : Holds n r (x :: queue)) :
    Holds n (r.advance n) queue where
  length_lt := Nat.lt_of_succ_lt h.length_lt
  head_lt := h.shows.advance.head_lt
  tail_eq := h.shows.advance.tail_eq
  entries := h.shows.advance.entries

end Holds

section Tracks

variable {n : Nat} {r : RingBuf α} {accepted taken : List α}

section

variable (h : Tracks n r accepted taken)
include h

theorem Tracks.isPrefix : taken <+: accepted := by
  obtain ⟨queue, rfl, _⟩ := h
  exact List.prefix_append taken queue

theorem Tracks.caught_up (hEmpty : r.consHead = r.prodTail) : taken = accepted := by
  obtain ⟨queue, rfl, hHolds⟩ := h
  rw [hHolds.looks_empty_iff.mp hEmpty, List.append_nil]

theorem Tracks.push (x : α) (hRoom : r.unread n + 1 < n) :
    Tracks n (r.push n x) (accepted ++ [x]) taken := by
  obtain ⟨queue, rfl, hHolds⟩ := h
  rw [hHolds.unread_eq] at hRoom
  exact ⟨queue ++ [x], List.append_assoc _ _ _, hHolds.push hRoom⟩

/-- Without room, an entry makes the ring look empty though entries are unread. -/
theorem Tracks.push_full (x : α) (hFull : ¬ r.unread n + 1 < n) :
    (r.push n x).consHead = (r.push n x).prodTail ∧ taken ≠ accepted ++ [x] := by
  obtain ⟨queue, rfl, hHolds⟩ := h
  rw [hHolds.unread_eq] at hFull
  have hLength := hHolds.length_lt
  refine ⟨hHolds.push_full (by omega), ?_⟩
  intro hEq
  have hSame := congrArg List.length hEq
  simp only [List.length_append, List.length_singleton] at hSame
  omega

theorem Tracks.take {x : α} (hFront : r.front? = some x) :
    Tracks n (r.advance n) accepted (taken ++ [x]) := by
  obtain ⟨queue, rfl, hHolds⟩ := h
  cases queue with
  | nil =>
    have hEmpty := hHolds.looks_empty_iff.mpr rfl
    rw [RingBuf.front?, if_pos hEmpty] at hFront
    cases hFront
  | cons y queue =>
    rw [hHolds.front] at hFront
    obtain rfl := Option.some.inj hFront
    exact ⟨queue, by simp, hHolds.advance⟩

end

end Tracks

/-! ## Rings that may be overrun

A writer that looks at neither the head nor the number of unread entries may store over
entries that are still unread.  `Shows` says that the reader nevertheless finds the entries
of a queue, which may be longer than the ring. -/

/-- Store the entries one after the other. -/
def RingBuf.pushAll (n : Nat) (r : RingBuf α) : List α → RingBuf α
  | [] => r
  | x :: xs => (r.push n x).pushAll n xs

section Shows

variable {n : Nat} {r : RingBuf α} {queue : List α} {x : α}

theorem pushAll_consHead (n : Nat) (xs : List α) :
    ∀ r : RingBuf α, (r.pushAll n xs).consHead = r.consHead := by
  induction xs with
  | nil =>
    intro r
    rfl
  | cons x xs ih =>
    intro r
    exact ih (r.push n x)

theorem pushAll_prodTail (n : Nat) (xs : List α) :
    ∀ r : RingBuf α, r.prodTail < n → (r.pushAll n xs).prodTail = (r.prodTail + xs.length) % n := by
  induction xs with
  | nil =>
    intro r hTail
    exact (Nat.mod_eq_of_lt hTail).symm
  | cons x xs ih =>
    intro r hTail
    have hNext : (r.push n x).prodTail < n := Nat.mod_lt _ (by omega)
    rw [RingBuf.pushAll, ih _ hNext, RingBuf.push, Nat.mod_add_mod, List.length_cons]
    congr 1
    omega

/-- Entries that do not go round the end of the ring are stored side by side. -/
theorem pushAll_entries (n : Nat) (xs : List α) :
    ∀ r : RingBuf α, r.prodTail + xs.length ≤ n → ∀ c, (r.pushAll n xs).entries c =
      if r.prodTail ≤ c then xs[c - r.prodTail]?.getD (r.entries c) else r.entries c := by
  induction xs with
  | nil =>
    intro r _ c
    simp [RingBuf.pushAll]
  | cons x xs ih =>
    intro r hRoom c
    rw [List.length_cons] at hRoom
    cases xs with
    | nil =>
      by_cases hc : c = r.prodTail
      · subst hc
        simp [RingBuf.pushAll, RingBuf.push]
      · by_cases hLe : r.prodTail ≤ c
        · have hPast : [x][c - r.prodTail]? = none :=
            List.getElem?_eq_none (by rw [List.length_singleton]; omega)
          rw [if_pos hLe, hPast]
          exact set_ne _ _ hc
        · simp [RingBuf.pushAll, RingBuf.push, set_ne _ _ hc, hLe]
    | cons y ys =>
      have hNext : (r.push n x).prodTail = r.prodTail + 1 := by
        rw [List.length_cons] at hRoom
        exact Nat.mod_eq_of_lt (by omega)
      rw [RingBuf.pushAll, ih (r.push n x) (by omega) c, hNext]
      by_cases hc : c = r.prodTail
      · subst hc
        simp [RingBuf.push]
      · have hKeep : (r.push n x).entries c = r.entries c := set_ne _ _ hc
        rw [hKeep]
        by_cases hLe : r.prodTail ≤ c
        · rw [if_pos (by omega), if_pos hLe, show c - r.prodTail = c - (r.prodTail + 1) + 1 by omega,
            List.getElem?_cons_succ]
        · rw [if_neg (by omega), if_neg hLe]

/--
**When new entries leave the unread ones readable**: an entry that is stored where an unread
one is has to be the same.
-/
theorem Shows.pushAll_iff (h : Shows n r queue) {xs : List α} (hRoom : r.prodTail + xs.length ≤ n) :
    Shows n (r.pushAll n xs) (queue ++ xs) ↔
      ∀ i, i < xs.length →
        queue.length + i < n ∨ xs[i]? = some (r.entries (r.prodTail + i)) := by
  have hHead := h.head_lt
  have hTail : r.prodTail < n := by
    rw [h.tail_eq]
    exact Nat.mod_lt _ (by omega)
  have hStored := pushAll_entries n xs r hRoom
  -- the slot of an offset from the tail, seen from the head
  have hSlot : ∀ i, r.prodTail + i < n → (r.consHead + (queue.length + i)) % n = r.prodTail + i := by
    intro i hi
    rw [← Nat.add_assoc, ← Nat.mod_add_mod, ← h.tail_eq]
    exact Nat.mod_eq_of_lt hi
  have hNew : ∀ i, i < xs.length →
      xs[i]? = some ((r.pushAll n xs).entries (r.prodTail + i)) := by
    intro i hi
    rw [hStored, if_pos (by omega), Nat.add_sub_cancel_left]
    simp [hi]
  constructor
  · intro hShows i hi
    by_cases hFree : queue.length + i < n
    · exact Or.inl hFree
    · right
      -- the entry before the new one in the same slot is unread
      have hOld : queue.length + i - n < queue.length := by omega
      have hSame : (r.consHead + (queue.length + i - n)) % n = r.prodTail + i := by
        rw [← hSlot i (by omega), ← Nat.add_mod_right]
        congr 1
        omega
      have hRead := hShows.entries (queue.length + i - n) (by rw [List.length_append]; omega)
      rw [pushAll_consHead, hSame, List.getElem?_append_left hOld, h.entries _ hOld, hSame] at hRead
      rw [hNew i hi, hRead]
  · intro hSame
    refine ⟨by rw [pushAll_consHead]; exact hHead, ?_, ?_⟩
    · rw [pushAll_consHead, pushAll_prodTail n xs r hTail, h.tail_eq, Nat.mod_add_mod,
        List.length_append, Nat.add_assoc]
    · intro k hk
      rw [List.length_append] at hk
      rw [pushAll_consHead]
      by_cases hOld : k < queue.length
      · rw [List.getElem?_append_left hOld, h.entries k hOld, hStored]
        by_cases hIn : r.prodTail ≤ (r.consHead + k) % n ∧
            (r.consHead + k) % n < r.prodTail + xs.length
        · obtain ⟨i, hi⟩ := Nat.exists_eq_add_of_le hIn.1
          rcases hSame i (by omega) with hFree | hEq
          · exact absurd (hi.trans (hSlot i (by omega)).symm) (slot_ne (by omega) hFree)
          · rw [if_pos hIn.1, hi, Nat.add_sub_cancel_left, hEq]
            rfl
        · by_cases hLe : r.prodTail ≤ (r.consHead + k) % n
          · have hNone : xs[(r.consHead + k) % n - r.prodTail]? = none :=
              List.getElem?_eq_none (by omega)
            rw [if_pos hLe, hNone]
            rfl
          · rw [if_neg hLe]
      · obtain ⟨i, rfl⟩ := Nat.exists_eq_add_of_le (Nat.le_of_not_lt hOld)
        have hi : i < xs.length := by omega
        rw [List.getElem?_append_right (by omega), Nat.add_sub_cancel_left, hSlot i (by omega)]
        exact hNew i hi

end Shows

end Zvm.Verified.RingBuffer
