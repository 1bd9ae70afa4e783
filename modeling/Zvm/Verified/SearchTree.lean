import Mathlib.Data.Tree.Basic
import Zvm.Verified.OrderedInsert

/-!
# Search trees whose order may change

Search, insertion and removal in a binary tree that follow a comparison from the root.  The
comparison is not part of the tree: it may be another one than the tree was built with, as for a
tree of records whose key fields are written to.  The meaning of a tree is its in-order list.  An
element is found by every search exactly if that list is sorted by the comparison (`reach_all_iff`),
and a search that fails makes a removal fail without notice.

Balancing is any function that keeps the in-order list.
-/

namespace Zvm.Verified.SearchTree

open BinaryTree Zvm.Verified.OrderedInsert

variable {α : Type*} {x : α} {t : BinaryTree α}

/-- The elements from left to right. -/
def inorder : BinaryTree α → List α
  | .nil => []
  | .node x l r => inorder l ++ x :: inorder r

/-- The leftmost element. -/
def least : BinaryTree α → Option α
  | .nil => none
  | .node x .nil _ => some x
  | .node _ l _ => least l

/-- The rightmost element, and the tree without it. -/
def popLast : BinaryTree α → Option (α × BinaryTree α)
  | .nil => none
  | .node x l r =>
    match popLast r with
    | none => some (x, l)
    | some (y, r') => some (y, .node x l r')

/-- What is left of two subtrees when their root goes: the rightmost element of the left one takes
its place. -/
def join (l r : BinaryTree α) : BinaryTree α :=
  match popLast l with
  | none => r
  | some (x, l') => .node x l' r

theorem least_eq (t : BinaryTree α) : least t = (inorder t).head? := by
  induction t with
  | nil => rfl
  | node x l r ihl _ =>
    cases l with
    | nil => rfl
    | node y ll lr =>
      have hNe : inorder (.node y ll lr) ≠ [] := by simp [inorder]
      calc least (.node x (.node y ll lr) r)
          = (inorder (.node y ll lr)).head? := ihl
        _ = (inorder (.node x (.node y ll lr) r)).head? :=
            (List.head?_append_of_ne_nil _ hNe).symm

theorem popLast_none (hNone : popLast t = none) : inorder t = [] := by
  cases t with
  | nil => rfl
  | node x l r =>
    rw [popLast] at hNone
    split at hNone <;> cases hNone

theorem popLast_some {t' : BinaryTree α} (hSome : popLast t = some (x, t')) :
    inorder t = inorder t' ++ [x] := by
  induction t generalizing t' with
  | nil => cases hSome
  | node y l r _ ihr =>
    rw [popLast] at hSome
    split at hSome
    · rename_i hNone
      cases hSome
      rw [inorder, popLast_none hNone]
    · rename_i z r' hRight
      cases hSome
      rw [inorder, ihr hRight, inorder]
      simp

theorem inorder_join (l r : BinaryTree α) : inorder (join l r) = inorder l ++ inorder r := by
  rw [join]
  split
  · rename_i hNone
    rw [popLast_none hNone, List.nil_append]
  · rename_i x l' hSome
    rw [popLast_some hSome, inorder]
    simp

section Compare

variable (lt : α → α → Bool)

/-- Insertion as a leaf, where the search for the element ends. -/
def insertLeaf (x : α) : BinaryTree α → BinaryTree α
  | .nil => .node x .nil .nil
  | .node y l r => if lt x y then .node y (insertLeaf x l) r else .node y l (insertLeaf x r)

variable [DecidableEq α]

/-- The search for the element ends at it. -/
def reach (x : α) : BinaryTree α → Bool
  | .nil => false
  | .node y l r => if y = x then true else if lt x y then reach x l else reach x r

/-- Removal where the search for the element ends, if it ends at the element. -/
def removeAt (x : α) : BinaryTree α → BinaryTree α
  | .nil => .nil
  | .node y l r =>
    if y = x then join l r
    else if lt x y then .node y (removeAt x l) r
    else .node y l (removeAt x r)

end Compare

variable {lt : α → α → Bool}

theorem inorder_insertLeaf_perm (x : α) (t : BinaryTree α) :
    (inorder (insertLeaf lt x t)).Perm (x :: inorder t) := by
  induction t with
  | nil => exact .refl _
  | node y l r ihl ihr =>
    rw [insertLeaf]
    split
    · rw [inorder, inorder]
      exact ihl.append_right _
    · rw [inorder, inorder]
      exact ((ihr.cons y).trans (.swap x y _)).append_left _ |>.trans List.perm_middle

/-- Where the comparison with the new element is monotone along the tree, it goes in front of the
first that is later. -/
theorem inorder_insertLeaf (hMono : (inorder t).Pairwise fun a b => lt x a = true → lt x b = true) :
    inorder (insertLeaf lt x t) = (inorder t).orderedInsert (fun a b => lt a b = true) x := by
  induction t with
  | nil => rfl
  | node y l r ihl ihr =>
    rw [inorder, List.pairwise_append, List.pairwise_cons] at hMono
    obtain ⟨hl, ⟨-, hr⟩, hlr⟩ := hMono
    rw [insertLeaf, inorder]
    by_cases hy : lt x y = true
    · rw [if_pos hy, inorder, ihl hl, orderedInsert_append_left (r := fun a b => lt a b = true) hy]
    · have hLeft : ∀ a ∈ inorder l, ¬ lt x a = true := fun a ha hTrue =>
        hy (hlr a ha y List.mem_cons_self hTrue)
      rw [if_neg hy, inorder, ihr hr,
        orderedInsert_append_right (r := fun a b => lt a b = true) hLeft,
        List.orderedInsert_of_not_le (fun a b => lt a b = true) _ hy]

variable [DecidableEq α]

theorem mem_of_reach (hReach : reach lt x t = true) : x ∈ inorder t := by
  induction t with
  | nil => cases hReach
  | node y l r ihl ihr =>
    rw [reach] at hReach
    rw [inorder, List.mem_append, List.mem_cons]
    split at hReach
    · rename_i hEq
      exact .inr (.inl hEq.symm)
    · split at hReach
      · exact .inl (ihl hReach)
      · exact .inr (.inr (ihr hReach))

/-- A search looks at the comparisons with the elements of the tree only. -/
theorem reach_congr {lt' : α → α → Bool} (hSame : ∀ y ∈ inorder t, lt' x y = lt x y) :
    reach lt' x t = reach lt x t := by
  induction t with
  | nil => rfl
  | node y l r ihl ihr =>
    have hl := ihl fun z hz => hSame z (List.mem_append_left _ hz)
    have hr := ihr fun z hz => hSame z (List.mem_append_right _ (List.mem_cons_of_mem y hz))
    have hy := hSame y (List.mem_append_right _ List.mem_cons_self)
    rw [reach, reach, hl, hr, hy]

theorem inorder_removeAt (hNodup : (inorder t).Nodup) (hReach : reach lt x t = true) :
    inorder (removeAt lt x t) = (inorder t).erase x := by
  induction t with
  | nil => cases hReach
  | node y l r ihl ihr =>
    rw [inorder, List.nodup_append, List.nodup_cons] at hNodup
    obtain ⟨hl, ⟨-, hr⟩, hlr⟩ := hNodup
    have hNotLeft : x ∈ y :: inorder r → x ∉ inorder l := by
      intro hx hl
      exact hlr x hl x hx rfl
    rw [reach] at hReach
    rw [removeAt, inorder]
    split at hReach
    · rename_i hEq
      subst hEq
      rw [if_pos rfl, inorder_join, List.erase_append_right _ (hNotLeft List.mem_cons_self),
        List.erase_cons_head]
    · rename_i hNe
      rw [if_neg hNe]
      split at hReach
      · rename_i hLt
        rw [if_pos hLt, inorder, ihl hl hReach, List.erase_append_left _ (mem_of_reach hReach)]
      · rename_i hLt
        have hMem := mem_of_reach hReach
        rw [if_neg hLt, inorder, ihr hr hReach,
          List.erase_append_right _ (hNotLeft (List.mem_cons_of_mem y hMem)),
          List.erase_cons_tail (by simpa using hNe)]

/-- Every element is found exactly if the tree is sorted by the comparison. -/
theorem reach_all_iff (hNodup : (inorder t).Nodup)
    (hTrans : ∀ a ∈ inorder t, ∀ b ∈ inorder t, ∀ c ∈ inorder t,
      lt a b = true → lt b c = true → lt a c = true)
    (hAsymm : ∀ a ∈ inorder t, ∀ b ∈ inorder t, lt a b = true → lt b a = false)
    (hTotal : ∀ a ∈ inorder t, ∀ b ∈ inorder t, a ≠ b → lt a b = true ∨ lt b a = true) :
    (∀ x ∈ inorder t, reach lt x t = true) ↔ (inorder t).Pairwise fun a b => lt a b = true := by
  induction t with
  | nil => simp [inorder]
  | node y l r ihl ihr =>
    have hl : ∀ a ∈ inorder l, a ∈ inorder (.node y l r) := fun a ha =>
      List.mem_append_left _ ha
    have hr : ∀ a ∈ inorder r, a ∈ inorder (.node y l r) := fun a ha =>
      List.mem_append_right _ (List.mem_cons_of_mem y ha)
    have hy : y ∈ inorder (.node y l r) := List.mem_append_right _ List.mem_cons_self
    have hParts := hNodup
    rw [inorder, List.nodup_append, List.nodup_cons] at hParts
    obtain ⟨hNodupL, ⟨hyR, hNodupR⟩, hApart⟩ := hParts
    have ihl := ihl hNodupL
      (fun a ha b hb c hc => hTrans a (hl a ha) b (hl b hb) c (hl c hc))
      (fun a ha b hb => hAsymm a (hl a ha) b (hl b hb))
      (fun a ha b hb => hTotal a (hl a ha) b (hl b hb))
    have ihr := ihr hNodupR
      (fun a ha b hb c hc => hTrans a (hr a ha) b (hr b hb) c (hr c hc))
      (fun a ha b hb => hAsymm a (hr a ha) b (hr b hb))
      (fun a ha b hb => hTotal a (hr a ha) b (hr b hb))
    have hNeL : ∀ a ∈ inorder l, y ≠ a := fun a ha hEq =>
      hApart a ha y List.mem_cons_self hEq.symm
    have hNeR : ∀ a ∈ inorder r, y ≠ a := fun a ha hEq => hyR (hEq ▸ ha)
    constructor
    · intro hAll
      -- a search that turned to the wrong side would not find the element there
      have hBefore : ∀ a ∈ inorder l, lt a y = true := by
        intro a ha
        by_contra hNot
        have hReach := hAll a (hl a ha)
        rw [reach, if_neg (hNeL a ha), if_neg hNot] at hReach
        exact hApart a ha a (List.mem_cons_of_mem y (mem_of_reach hReach)) rfl
      have hNotLess : ∀ a ∈ inorder r, ¬ lt a y = true := by
        intro a ha hLt
        have hReach := hAll a (hr a ha)
        rw [reach, if_neg (hNeR a ha), if_pos hLt] at hReach
        exact hApart a (mem_of_reach hReach) a (List.mem_cons_of_mem y ha) rfl
      have hAfter : ∀ a ∈ inorder r, lt y a = true := fun a ha =>
        (hTotal a (hr a ha) y hy (hNeR a ha).symm).resolve_left (hNotLess a ha)
      have hSortedL := ihl.mp fun a ha => by
        have hReach := hAll a (hl a ha)
        rwa [reach, if_neg (hNeL a ha), if_pos (hBefore a ha)] at hReach
      have hSortedR := ihr.mp fun a ha => by
        have hReach := hAll a (hr a ha)
        rwa [reach, if_neg (hNeR a ha), if_neg (hNotLess a ha)] at hReach
      rw [inorder, List.pairwise_append, List.pairwise_cons]
      refine ⟨hSortedL, ⟨hAfter, hSortedR⟩, ?_⟩
      intro a ha b hb
      rcases List.mem_cons.mp hb with rfl | hb
      · exact hBefore a ha
      · exact hTrans a (hl a ha) y hy b (hr b hb) (hBefore a ha) (hAfter b hb)
    · intro hSorted x hx
      rw [inorder, List.pairwise_append, List.pairwise_cons] at hSorted
      obtain ⟨hSortedL, ⟨hAfter, hSortedR⟩, hLR⟩ := hSorted
      rw [inorder, List.mem_append, List.mem_cons] at hx
      rcases hx with hx | rfl | hx
      · rw [reach, if_neg (hNeL x hx), if_pos (hLR x hx y List.mem_cons_self)]
        exact ihl.mpr hSortedL x hx
      · rw [reach, if_pos rfl]
      · have hNot := hAsymm y hy x (hr x hx) (hAfter x hx)
        rw [reach, if_neg (hNeR x hx), hNot, if_neg Bool.false_ne_true]
        exact ihr.mpr hSortedR x hx

end Zvm.Verified.SearchTree
