import Mathlib.Data.Nat.Find
import Mathlib.Data.Set.Insert

/-!
# An interval cut into pieces

A division of `[0, n)` into pieces is the set of its cut points, with `0` and
`n` among them; a piece lies between two cut points that follow each other.
Dividing a piece adds a cut point and joining two neighbours removes one, so
nothing has to be said about pieces covering the interval or being disjoint.

## Main results

* `Cuts.exists_right`, `Cuts.exists_left`: a piece starts at every cut point but
  the last, and ends at every one but the first.
* `Piece.apart`: different pieces are disjoint.
* `piece_insert_iff`, `piece_erase_iff`: the pieces after dividing one and after
  joining two.
-/

namespace Zvm.Verified.Pieces

/-- The cut points of a division of `[0, n)`. -/
structure Cuts (n : Nat) (B : Set Nat) : Prop where
  zero_mem : 0 ∈ B
  top_mem : n ∈ B
  le_top : ∀ c ∈ B, c ≤ n

/-- The piece between the cut points `c` and `d`. -/
structure Piece (B : Set Nat) (c d : Nat) : Prop where
  left_mem : c ∈ B
  right_mem : d ∈ B
  lt : c < d
  inside : ∀ e, c < e → e < d → e ∉ B

variable {n : Nat} {B : Set Nat}

theorem Cuts.exists_right (h : Cuts n B) {c : Nat} (hc : c ∈ B) (hLt : c < n) :
    ∃ d, Piece B c d := by
  classical
  have hEx : ∃ d, c < d ∧ d ∈ B := ⟨n, hLt, h.top_mem⟩
  refine ⟨Nat.find hEx, hc, (Nat.find_spec hEx).2, (Nat.find_spec hEx).1, ?_⟩
  intro e hLe he heB
  exact Nat.find_min hEx he ⟨hLe, heB⟩

theorem Cuts.exists_left (h : Cuts n B) {d : Nat} (hd : d ∈ B) (hPos : 0 < d) :
    ∃ c, Piece B c d := by
  classical
  -- the cut point at the smallest distance below `d`
  have hEx : ∃ k, 0 < k ∧ k ≤ d ∧ d - k ∈ B :=
    ⟨d, hPos, le_refl d, by rw [Nat.sub_self]; exact h.zero_mem⟩
  obtain ⟨hkPos, hkLe, hkMem⟩ := Nat.find_spec hEx
  refine ⟨d - Nat.find hEx, hkMem, hd, by omega, ?_⟩
  intro e hLe he heB
  refine Nat.find_min hEx (m := d - e) (by omega) ⟨by omega, by omega, ?_⟩
  rw [show d - (d - e) = e by omega]
  exact heB

theorem Piece.apart {a b c d : Nat} (h : Piece B a b) (h' : Piece B c d) (hNe : a ≠ c) :
    b ≤ c ∨ d ≤ a := by
  by_contra hCross
  rcases Nat.lt_or_gt_of_ne hNe with hLt | hLt
  · exact h.inside c hLt (by omega) h'.left_mem
  · exact h'.inside a hLt (by omega) h.left_mem

theorem Piece.right_unique {a b d : Nat} (h : Piece B a b) (h' : Piece B a d) : b = d := by
  by_contra hNe
  rcases Nat.lt_or_gt_of_ne hNe with hLt | hLt
  · exact h'.inside b h.lt hLt h.right_mem
  · exact h.inside d h'.lt hLt h'.right_mem

theorem Piece.left_unique {a b c : Nat} (h : Piece B a b) (h' : Piece B c b) : a = c := by
  by_contra hNe
  have hOff := h.apart h' hNe
  have hLt := h.lt
  have hLt' := h'.lt
  omega

/-- A cut point below the end of a piece is not inside it. -/
theorem Piece.le_left {a b e : Nat} (h : Piece B a b) (he : e ∈ B) (hLt : e < b) : e ≤ a := by
  by_contra hNot
  exact h.inside e (by omega) hLt he

theorem Piece.right_le {a b e : Nat} (h : Piece B a b) (he : e ∈ B) (hLt : a < e) : b ≤ e := by
  by_contra hNot
  exact h.inside e hLt (by omega) he

theorem Cuts.insert (h : Cuts n B) {x : Nat} (hx : x ≤ n) : Cuts n (Insert.insert x B) := by
  refine ⟨.inr h.zero_mem, .inr h.top_mem, ?_⟩
  rintro c (rfl | hc)
  · exact hx
  · exact h.le_top c hc

theorem Cuts.erase (h : Cuts n B) {x : Nat} (hPos : 0 < x) (hLt : x < n) : Cuts n (B \ {x}) := by
  refine ⟨⟨h.zero_mem, ?_⟩, ⟨h.top_mem, ?_⟩, fun c hc => h.le_top c hc.1⟩
  · exact Nat.ne_of_lt hPos
  · exact (Nat.ne_of_lt hLt).symm

/-- The pieces after dividing the one from `c` to `d` at `x`. -/
theorem piece_insert_iff {c d x : Nat} (h : Piece B c d) (hcx : c < x) (hxd : x < d) (a b : Nat) :
    Piece (Insert.insert x B) a b ↔
      (Piece B a b ∧ a ≠ c) ∨ (a = c ∧ b = x) ∨ (a = x ∧ b = d) := by
  have hxB : x ∉ B := h.inside x hcx hxd
  constructor
  · intro hP
    have hInside : ∀ e, a < e → e < b → e ∉ B := fun e h₁ h₂ he => hP.inside e h₁ h₂ (.inr he)
    rcases hP.left_mem with rfl | ha
    · right; right
      refine ⟨rfl, ?_⟩
      have hb : b ∈ B := hP.right_mem.resolve_left (Nat.ne_of_gt hP.lt)
      have hLe := h.right_le hb (Nat.lt_trans hcx hP.lt)
      by_contra hNe
      exact hInside d hxd (by omega) h.right_mem
    · by_cases hac : a = c
      · subst hac
        right; left
        refine ⟨rfl, ?_⟩
        have hxb : ¬ x < b := fun hlt => hP.inside x hcx hlt (.inl rfl)
        rcases hP.right_mem with hb | hb
        · exact hb
        · exact absurd hb (h.inside b hP.lt (by omega))
      · left
        refine ⟨⟨ha, ?_, hP.lt, hInside⟩, hac⟩
        rcases hP.right_mem with rfl | hb
        · have hLe := h.le_left ha (Nat.lt_trans hP.lt hxd)
          exact absurd h.left_mem (hInside c (by omega) hcx)
        · exact hb
  · rintro (⟨hP, hac⟩ | ⟨rfl, rfl⟩ | ⟨rfl, rfl⟩)
    · refine ⟨.inr hP.left_mem, .inr hP.right_mem, hP.lt, ?_⟩
      rintro e h₁ h₂ (rfl | he)
      · have hOff := hP.apart h hac
        omega
      · exact hP.inside e h₁ h₂ he
    · refine ⟨.inr h.left_mem, .inl rfl, hcx, ?_⟩
      rintro e h₁ h₂ (rfl | he)
      · omega
      · exact h.inside e h₁ (by omega) he
    · refine ⟨.inl rfl, .inr h.right_mem, hxd, ?_⟩
      rintro e h₁ h₂ (rfl | he)
      · omega
      · exact h.inside e (by omega) h₂ he

/-- The pieces after joining the one from `c` to `x` with the one from `x` to `d`. -/
theorem piece_erase_iff {c x d : Nat} (h : Piece B c x) (h' : Piece B x d) (a b : Nat) :
    Piece (B \ {x}) a b ↔ (Piece B a b ∧ a ≠ c ∧ a ≠ x) ∨ (a = c ∧ b = d) := by
  have hcx := h.lt
  have hxd := h'.lt
  have hcMem : c ∈ B \ {x} := ⟨h.left_mem, Nat.ne_of_lt hcx⟩
  have hdMem : d ∈ B \ {x} := ⟨h'.right_mem, Nat.ne_of_gt hxd⟩
  have hJoined : Piece (B \ {x}) c d := by
    refine ⟨hcMem, hdMem, by omega, ?_⟩
    rintro e h₁ h₂ ⟨he, hex⟩
    have hex' : e ≠ x := hex
    rcases Nat.lt_or_gt_of_ne hex' with hlt | hlt
    · exact h.inside e h₁ hlt he
    · exact h'.inside e hlt h₂ he
  constructor
  · intro hP
    by_cases hac : a = c
    · subst hac
      exact .inr ⟨rfl, hP.right_unique hJoined⟩
    · left
      have hax : a ≠ x := hP.left_mem.2
      refine ⟨⟨hP.left_mem.1, hP.right_mem.1, hP.lt, ?_⟩, hac, hax⟩
      intro e h₁ h₂ he
      by_cases hex : e = x
      · subst hex
        have hOff := hP.apart hJoined hac
        omega
      · exact hP.inside e h₁ h₂ ⟨he, hex⟩
  · rintro (⟨hP, hac, hax⟩ | ⟨rfl, rfl⟩)
    · refine ⟨⟨hP.left_mem, hax⟩, ⟨hP.right_mem, ?_⟩, hP.lt, fun e h₁ h₂ he => hP.inside e h₁ h₂ he.1⟩
      rintro rfl
      exact hac (hP.left_unique h)
    · exact hJoined

end Zvm.Verified.Pieces
