import Mathlib.Data.List.Pairwise
import Mathlib.Data.List.Sort

/-!
# Insertion that respects the order of arrival

`List.orderedInsert` puts an element in front of the first one that it is related to.  For a strict
order that is a queue in which elements that the order does not tell apart stay in the order in
which they came.  The list is then sorted by a finer relation than the one the insertion looks at.
-/

namespace Zvm.Verified.OrderedInsert

variable {α : Type*}

/-- Two elements of an ordered list stand in one of the two orders. -/
theorem pairwise_cases {R : α → α → Prop} {l : List α} (hR : l.Pairwise R) {a b : α} (ha : a ∈ l)
    (hb : b ∈ l) (hNe : a ≠ b) : R a b ∨ R b a := by
  have hSymm : Std.Symm fun a b => R a b ∨ R b a := ⟨fun _ _ hab => hab.symm⟩
  have hEither : l.Pairwise fun a b => R a b ∨ R b a := hR.imp Or.inl
  exact hEither.forall ha hb hNe

variable {r : α → α → Prop} [DecidableRel r] {x : α}

/-- The list stays ordered by any relation in which the new element comes before those it is
inserted in front of and after the others. -/
theorem pairwise_orderedInsert {R : α → α → Prop} {l : List α} (hR : l.Pairwise R)
    (hMono : l.Pairwise fun a b => r x a → r x b) (hBefore : ∀ a ∈ l, ¬ r x a → R a x)
    (hAfter : ∀ a ∈ l, r x a → R x a) : (l.orderedInsert r x).Pairwise R := by
  induction l with
  | nil => exact List.pairwise_singleton R x
  | cons a l ih =>
    rw [List.pairwise_cons] at hR hMono
    rw [List.orderedInsert_cons]
    split
    · rename_i hRel
      refine List.pairwise_cons.mpr ⟨?_, List.pairwise_cons.mpr hR⟩
      intro b hb
      rcases List.mem_cons.mp hb with rfl | hb
      · exact hAfter b List.mem_cons_self hRel
      · exact hAfter b (List.mem_cons_of_mem a hb) (hMono.1 b hb hRel)
    · rename_i hRel
      have hIns := ih hR.2 hMono.2 (fun b hb => hBefore b (List.mem_cons_of_mem a hb))
        fun b hb => hAfter b (List.mem_cons_of_mem a hb)
      refine List.pairwise_cons.mpr ⟨?_, hIns⟩
      intro b hb
      rcases (List.mem_orderedInsert r).mp hb with rfl | hb
      · exact hBefore a List.mem_cons_self hRel
      · exact hR.1 b hb

theorem orderedInsert_append_right {l : List α} (hNot : ∀ a ∈ l, ¬ r x a) (l' : List α) :
    (l ++ l').orderedInsert r x = l ++ l'.orderedInsert r x := by
  induction l with
  | nil => rfl
  | cons a l ih =>
    rw [List.cons_append, List.orderedInsert_of_not_le r _ (hNot a List.mem_cons_self),
      ih fun b hb => hNot b (List.mem_cons_of_mem a hb), List.cons_append]

theorem orderedInsert_append_left {y : α} (hy : r x y) (l l' : List α) :
    (l ++ y :: l').orderedInsert r x = l.orderedInsert r x ++ y :: l' := by
  induction l with
  | nil => exact List.orderedInsert_cons_of_le r _ hy
  | cons a l ih =>
    rw [List.cons_append, List.orderedInsert_cons, List.orderedInsert_cons, ih]
    split <;> rfl

end Zvm.Verified.OrderedInsert
