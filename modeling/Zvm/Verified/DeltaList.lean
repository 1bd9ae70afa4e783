import Mathlib.Algebra.Order.Group.Defs
import Mathlib.Data.List.Sort
import Mathlib.Tactic.Abel

/-!
# Lists of differences

A queue of deadlines may be kept as a list in which every entry has the time from the entry
before it, so that time passes for all of them by a change of the first.  `due` gives the
deadlines back, counted from a base.  In terms of them the operations on the list are the plain
ones: an insertion after everything that is not later, an erasure, and no change at all when the
base moves and the first entry makes up for it.
-/

namespace Zvm.Verified.DeltaList

variable {κ M : Type*}

variable [AddCommGroup M]

/-- The deadlines, counted from `base`. -/
def due (base : M) : List (κ × M) → List (κ × M)
  | [] => []
  | (k, d) :: l => (k, base + d) :: due (base + d) l

/-- The time from the base to the entry `k`. -/
def timeTo [DecidableEq κ] (k : κ) : List (κ × M) → M
  | [] => 0
  | (k', d) :: l => if k' = k then d else d + timeTo k l

/-- More time to the first entry. -/
def carry (x : M) : List (κ × M) → List (κ × M)
  | [] => []
  | (k, d) :: l => (k, d + x) :: l

/-- Removal of the entry `k`, whose time the next one takes over. -/
def remove [DecidableEq κ] (k : κ) : List (κ × M) → List (κ × M)
  | [] => []
  | (k', d) :: l => if k' = k then carry d l else (k', d) :: remove k l

@[simp]
theorem due_nil (base : M) : due base ([] : List (κ × M)) = [] := rfl

@[simp]
theorem due_cons (base : M) (k : κ) (d : M) (l : List (κ × M)) :
    due base ((k, d) :: l) = (k, base + d) :: due (base + d) l := rfl

theorem map_fst_due (base : M) (l : List (κ × M)) : (due base l).map Prod.fst = l.map Prod.fst := by
  induction l generalizing base with
  | nil => rfl
  | cons e l ih => rw [due, List.map_cons, List.map_cons, ih]

/-- Time is added to all entries when it is added to the first. -/
theorem due_carry (base x : M) (l : List (κ × M)) : due base (carry x l) = due (base + x) l := by
  cases l with
  | nil => rfl
  | cons e l =>
    have hSum : base + (e.2 + x) = base + x + e.2 := by abel
    rw [carry, due, due, hSum]

@[simp]
theorem map_fst_carry (x : M) (l : List (κ × M)) : (carry x l).map Prod.fst = l.map Prod.fst := by
  cases l with
  | nil => rfl
  | cons e l => rfl

theorem carry_zero (l : List (κ × M)) : carry 0 l = l := by
  cases l with
  | nil => rfl
  | cons e l => rw [carry, add_zero]

theorem due_remove [DecidableEq κ] (base : M) (k : κ) (l : List (κ × M)) :
    due base (remove k l) = (due base l).eraseP fun e => decide (e.1 = k) := by
  induction l generalizing base with
  | nil => rfl
  | cons e l ih =>
    obtain ⟨k', d⟩ := e
    rw [remove, due_cons]
    by_cases hk : k' = k
    · rw [if_pos hk, List.eraseP_cons_of_pos (by simpa using hk), due_carry]
    · rw [if_neg hk, List.eraseP_cons_of_neg (by simpa using hk), due_cons, ih]

theorem map_fst_remove [DecidableEq κ] (k : κ) (l : List (κ × M)) :
    (remove k l).map Prod.fst = (l.map Prod.fst).erase k := by
  induction l with
  | nil => rfl
  | cons e l ih =>
    obtain ⟨k', d⟩ := e
    rw [remove, List.map_cons]
    by_cases hk : k' = k
    · rw [if_pos hk, hk, List.erase_cons_head, map_fst_carry]
    · rw [if_neg hk, List.map_cons, ih, List.erase_cons_tail (by simpa using hk)]

/-- The first entry goes without a trace once its time has passed. -/
theorem remove_head_zero [DecidableEq κ] (k : κ) (l : List (κ × M)) :
    remove k ((k, 0) :: l) = l := by
  rw [remove, if_pos rfl, carry_zero]

theorem timeTo_of_mem_due [DecidableEq κ] {base : M} {k : κ} {x : M} {l : List (κ × M)}
    (hKeys : (l.map Prod.fst).Nodup) (hMem : (k, x) ∈ due base l) : base + timeTo k l = x := by
  induction l generalizing base with
  | nil => simp at hMem
  | cons e l ih =>
    obtain ⟨k', d⟩ := e
    rw [List.map_cons, List.nodup_cons] at hKeys
    rw [timeTo]
    rcases List.mem_cons.mp hMem with hEq | hMem
    · obtain ⟨rfl, rfl⟩ := Prod.mk.injEq .. ▸ hEq
      rw [if_pos rfl]
    · have hNe : k' ≠ k := by
        rintro rfl
        refine hKeys.1 ?_
        rw [← map_fst_due (base + d) l, List.mem_map]
        exact ⟨_, hMem, rfl⟩
      rw [if_neg hNe, ← add_assoc]
      exact ih hKeys.2 hMem

variable [LinearOrder M]

/-- Insertion of `k` at the time `d` from the base, after everything that is not later. -/
def insert (k : κ) (d : M) : List (κ × M) → List (κ × M)
  | [] => [(k, d)]
  | (k', d') :: l => if d < d' then (k, d) :: (k', d' - d) :: l else (k', d') :: insert k (d - d') l

theorem due_insert [IsOrderedAddMonoid M] (base : M) (k : κ) (d : M) (l : List (κ × M)) :
    due base (insert k d l) =
      (due base l).orderedInsert (fun a b => a.2 < b.2) (k, base + d) := by
  induction l generalizing base d with
  | nil => rfl
  | cons e l ih =>
    obtain ⟨k', d'⟩ := e
    rw [insert, due_cons, List.orderedInsert_cons]
    by_cases hLt : d < d'
    · have hSum : base + d + (d' - d) = base + d' := by abel
      rw [if_pos hLt, if_pos (by simpa using hLt), due_cons, due_cons, hSum]
    · have hSum : base + d' + (d - d') = base + d := by abel
      rw [if_neg hLt, if_neg (by simpa using hLt), due_cons, ih, hSum]

theorem map_fst_insert_perm (k : κ) (d : M) (l : List (κ × M)) :
    ((insert k d l).map Prod.fst).Perm (k :: l.map Prod.fst) := by
  induction l generalizing d with
  | nil => exact .refl _
  | cons e l ih =>
    obtain ⟨k', d'⟩ := e
    rw [insert]
    split
    · exact .refl _
    · exact ((ih _).cons k').trans (.swap k k' _)

end Zvm.Verified.DeltaList
