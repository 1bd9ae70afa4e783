import Zvm.Verified.FunArray
import Mathlib.Data.Finset.Card
import Mathlib.Tactic.Ring

/-!
# Radix trees stored in numbered tables

A multi-level lookup structure as hardware walks it: memory is an array of
words divided into tables of `fan` words; a word is either a leaf or a link to
the table of the next depth.  The words are arbitrary; a `Radix` only says which
of them are links, and that there are none at the last depth.

Nodes are named by their place in the tree and not by where they are stored.
The table at depth `d` for region `r` is `table d r`, with `r < fan ^ d`; the
entry at depth `d` for region `ρ` is `look d ρ`, with `ρ < fan ^ (d + 1)`.  So
the table for `ρ` at depth `d + 1` is what the entry for `ρ` at depth `d` links
to.  A memory holds a tree when no table is reached in two ways (`IsTree`).

## Main results

* `look_write_of_not_below`: writing an entry changes no entry outside the subtree
  of its region.
* `isTree_write_leaf`, `isTree_write_link`: writing a leaf, or linking a table that
  was not reached and has no links of its own, keeps the tree a tree.
* `walk_eq_iff`: a walk ends at the one entry on the path that is a leaf.
-/

namespace Zvm.Verified.RadixTree

open Zvm.Verified.FunArray

/-- Which words are links, in tables of `fan` words and at depths up to `depth`. -/
structure Radix (ω : Type*) where
  fan : Nat
  fan_pos : 0 < fan
  depth : Nat
  link : Nat → ω → Option Nat
  link_last : ∀ e, link depth e = none

variable {ω : Type*} (R : Radix ω)

/-- Where word `i` of table `t` is stored. -/
def slot (t i : Nat) : Nat := t * R.fan + i

/-- The table at depth `d` for region `r`. -/
def table (mem : Nat → ω) (root : Nat) : Nat → Nat → Option Nat
  | 0, _ => some root
  | d + 1, r =>
    (table mem root d (r / R.fan)).bind fun t => R.link d (mem (slot R t (r % R.fan)))

/-- The entry at depth `d` for region `ρ`. -/
def look (mem : Nat → ω) (root d ρ : Nat) : Option ω :=
  (table R mem root d (ρ / R.fan)).map fun t => mem (slot R t (ρ % R.fan))

/-- No table is reached in two ways. -/
def IsTree (mem : Nat → ω) (root : Nat) : Prop :=
  ∀ d r d' r' t, r < R.fan ^ d → r' < R.fan ^ d' → table R mem root d r = some t →
    table R mem root d' r' = some t → d = d' ∧ r = r'

/-- The table `t` is part of the tree. -/
def Reached (mem : Nat → ω) (root t : Nat) : Prop :=
  ∃ d r, r < R.fan ^ d ∧ table R mem root d r = some t

/-- Region `ρ` at depth `d` lies in region `ρ₀` at depth `d₀`. -/
def Below (d₀ ρ₀ d ρ : Nat) : Prop := d₀ ≤ d ∧ ρ / R.fan ^ (d - d₀) = ρ₀

/-! ## Slots and regions -/

variable {R}

variable {t i t' r d ρ d₀ ρ₀ v : Nat}

theorem slot_inj {i' : Nat} (hi : i < R.fan) (hi' : i' < R.fan) (hEq : slot R t i = slot R t' i') :
    t = t' ∧ i = i' := by
  unfold slot at hEq
  have hMod : i = i' := by
    have := congrArg (· % R.fan) hEq
    simpa [Nat.mul_add_mod_self_right, Nat.mod_eq_of_lt hi, Nat.mod_eq_of_lt hi'] using this
  subst hMod
  exact ⟨Nat.eq_of_mul_eq_mul_right R.fan_pos (by omega), rfl⟩

theorem region_split (ρ : Nat) : ρ / R.fan * R.fan + ρ % R.fan = ρ :=
  Nat.div_add_mod' ρ R.fan

theorem region_div (hi : i < R.fan) : (r * R.fan + i) / R.fan = r := by
  rw [Nat.mul_comm, Nat.mul_add_div R.fan_pos, Nat.div_eq_of_lt hi, Nat.add_zero]

theorem region_mod (hi : i < R.fan) : (r * R.fan + i) % R.fan = i := by
  rw [Nat.mul_add_mod_self_right, Nat.mod_eq_of_lt hi]

theorem region_div_lt (hρ : ρ < R.fan ^ (d + 1)) : ρ / R.fan < R.fan ^ d := by
  rw [Nat.pow_succ] at hρ
  exact Nat.div_lt_of_lt_mul (by rwa [Nat.mul_comm])

theorem mod_fan_lt (ρ : Nat) : ρ % R.fan < R.fan := Nat.mod_lt _ R.fan_pos

theorem below_refl (d ρ : Nat) : Below R d ρ d ρ := by
  simp [Below]

/-- A region below `ρ₀` has its parent region below `ρ₀`, unless it is `ρ₀`. -/
theorem below_succ_iff :
    Below R d₀ ρ₀ (d + 1) ρ ↔ (d₀ = d + 1 ∧ ρ = ρ₀) ∨ Below R d₀ ρ₀ d (ρ / R.fan) := by
  unfold Below
  constructor
  · rintro ⟨hLe, hDiv⟩
    rcases Nat.lt_or_eq_of_le hLe with hlt | rfl
    · right
      refine ⟨by omega, ?_⟩
      rw [Nat.div_div_eq_div_mul, ← Nat.pow_succ']
      rwa [show d + 1 - d₀ = d - d₀ + 1 by omega] at hDiv
    · left
      simpa using hDiv
  · rintro (⟨rfl, rfl⟩ | ⟨hLe, hDiv⟩)
    · simp
    · refine ⟨by omega, ?_⟩
      rw [Nat.div_div_eq_div_mul, ← Nat.pow_succ'] at hDiv
      rwa [show d + 1 - d₀ = d - d₀ + 1 by omega]

/-- The tables below an entry are those of the regions below its region. -/
theorem below_child (hBelow : Below R (d₀ + 1) ρ₀ d (ρ / R.fan)) : Below R d₀ ρ₀ d ρ := by
  obtain ⟨hLe, hDiv⟩ := hBelow
  refine ⟨by omega, ?_⟩
  rw [Nat.div_div_eq_div_mul, ← Nat.pow_succ'] at hDiv
  rwa [show d - d₀ = d - (d₀ + 1) + 1 by omega]

/-! ## Tables and entries -/

section Entries

variable {mem mem' : Nat → ω} {root : Nat}

theorem table_succ (d r : Nat) :
    table R mem root (d + 1) r = (look R mem root d r).bind (R.link d) := by
  simp only [table, look]
  cases table R mem root d (r / R.fan) <;> rfl

theorem look_of_table (hTable : table R mem root d r = some t) (hi : i < R.fan) :
    look R mem root d (r * R.fan + i) = some (mem (slot R t i)) := by
  simp [look, region_div hi, region_mod hi, hTable]

/-- An entry is stored in a table of the tree. -/
theorem look_eq_some {e : ω} (hLook : look R mem root d ρ = some e) :
    ∃ t, table R mem root d (ρ / R.fan) = some t ∧ mem (slot R t (ρ % R.fan)) = e := by
  simpa [look] using hLook

theorem table_eq_none_of_deep (hDeep : R.depth < d) : table R mem root d r = none := by
  induction d generalizing r with
  | zero => omega
  | succ d ih =>
    rw [table_succ]
    rcases Nat.lt_or_eq_of_le (Nat.lt_succ_iff.mp hDeep) with hlt | rfl
    · simp [look, ih hlt]
    · cases hLook : look R mem root R.depth r with
      | none => rfl
      | some e => exact R.link_last e

/-- Below an entry that is missing or a leaf there is no table. -/
theorem table_eq_none_of_below (hLeaf : table R mem root (d₀ + 1) ρ₀ = none)
    (hBelow : Below R (d₀ + 1) ρ₀ d r) : table R mem root d r = none := by
  induction d generalizing r with
  | zero =>
    have := hBelow.1
    omega
  | succ d ih =>
    rcases below_succ_iff.mp hBelow with ⟨hd, rfl⟩ | hParent
    · obtain rfl : d₀ = d := by omega
      exact hLeaf
    · rw [table_succ, look, ih hParent]
      rfl

/-- Memory that differs only in an unreached table holds the same tree. -/
theorem table_congr_unreached (hOut : ¬ Reached R mem root t')
    (hSame : ∀ t i, t ≠ t' → i < R.fan → mem' (slot R t i) = mem (slot R t i))
    (hr : r < R.fan ^ d) : table R mem' root d r = table R mem root d r := by
  induction d generalizing r with
  | zero => rfl
  | succ d ih =>
    have hParent := region_div_lt hr
    simp only [table, ih hParent]
    cases hTable : table R mem root d (r / R.fan) with
    | none => rfl
    | some t =>
      have hNe : t ≠ t' := by
        rintro rfl
        exact hOut ⟨d, r / R.fan, hParent, hTable⟩
      simp only [Option.bind_some, hSame t _ hNe (mod_fan_lt r)]

theorem look_congr_unreached (hOut : ¬ Reached R mem root t')
    (hSame : ∀ t i, t ≠ t' → i < R.fan → mem' (slot R t i) = mem (slot R t i))
    (hρ : ρ < R.fan ^ (d + 1)) : look R mem' root d ρ = look R mem root d ρ := by
  have hParent := region_div_lt hρ
  simp only [look, table_congr_unreached hOut hSame hParent]
  cases hTable : table R mem root d (ρ / R.fan) with
  | none => rfl
  | some t =>
    have hNe : t ≠ t' := by
      rintro rfl
      exact hOut ⟨d, ρ / R.fan, hParent, hTable⟩
    simp only [Option.map_some, hSame t _ hNe (mod_fan_lt ρ)]

end Entries

/-! ## Writing one entry -/

section Write

variable {mem : Nat → ω} {root d₀ r₀ t₀ i₀ : Nat} {e : ω}

/-- The memory after entry `i₀` of table `t₀` was written. -/
def write (R : Radix ω) (mem : Nat → ω) (t₀ i₀ : Nat) (e : ω) : Nat → ω :=
  set mem (slot R t₀ i₀) e

theorem write_same : write R mem t₀ i₀ e (slot R t₀ i₀) = e := set_same _ _ _

theorem write_other (hi : i < R.fan) (hi₀ : i₀ < R.fan) (hNe : t ≠ t₀ ∨ i ≠ i₀) :
    write R mem t₀ i₀ e (slot R t i) = mem (slot R t i) := by
  apply set_ne
  intro hEq
  obtain ⟨rfl, rfl⟩ := slot_inj hi hi₀ hEq
  simp at hNe

variable (hTree : IsTree R mem root) (hr₀ : r₀ < R.fan ^ d₀)
  (hTable : table R mem root d₀ r₀ = some t₀) (hi₀ : i₀ < R.fan)
include hTree hr₀ hTable hi₀

/-- Writing an entry changes no table outside the subtree of its region. -/
theorem table_write_of_not_below (hr : r < R.fan ^ d)
    (hOut : ¬ Below R (d₀ + 1) (r₀ * R.fan + i₀) d r) :
    table R (write R mem t₀ i₀ e) root d r = table R mem root d r := by
  induction d generalizing r with
  | zero => rfl
  | succ d ih =>
    have hParent := region_div_lt hr
    have hOutParent : ¬ Below R (d₀ + 1) (r₀ * R.fan + i₀) d (r / R.fan) :=
      fun hBelow => hOut (below_succ_iff.mpr (.inr hBelow))
    simp only [table, ih hParent hOutParent]
    cases hAt : table R mem root d (r / R.fan) with
    | none => rfl
    | some t =>
      have hNe : t ≠ t₀ ∨ r % R.fan ≠ i₀ := by
        by_contra hBoth
        obtain ⟨rfl, rfl⟩ : t = t₀ ∧ r % R.fan = i₀ := by
          simpa [not_or] using hBoth
        obtain ⟨rfl, rfl⟩ := hTree _ _ _ _ _ hParent hr₀ hAt hTable
        exact hOut (below_succ_iff.mpr (.inl ⟨rfl, (region_split r).symm⟩))
      simp only [Option.bind_some, write_other (mod_fan_lt r) hi₀ hNe]

/-- Writing an entry changes no entry outside the subtree of its region. -/
theorem look_write_of_not_below (hρ : ρ < R.fan ^ (d + 1))
    (hOut : ¬ Below R d₀ (r₀ * R.fan + i₀) d ρ) :
    look R (write R mem t₀ i₀ e) root d ρ = look R mem root d ρ := by
  have hParent := region_div_lt hρ
  have hOutParent : ¬ Below R (d₀ + 1) (r₀ * R.fan + i₀) d (ρ / R.fan) :=
    fun hBelow => hOut (below_child hBelow)
  simp only [look, table_write_of_not_below hTree hr₀ hTable hi₀ hParent hOutParent]
  cases hAt : table R mem root d (ρ / R.fan) with
  | none => rfl
  | some t =>
    have hNe : t ≠ t₀ ∨ ρ % R.fan ≠ i₀ := by
      by_contra hBoth
      obtain ⟨rfl, rfl⟩ : t = t₀ ∧ ρ % R.fan = i₀ := by
        simpa [not_or] using hBoth
      obtain ⟨rfl, rfl⟩ := hTree _ _ _ _ _ hParent hr₀ hAt hTable
      rw [region_split] at hOut
      exact hOut (below_refl _ _)
    simp only [Option.map_some, write_other (mod_fan_lt ρ) hi₀ hNe]

theorem table_write_self : table R (write R mem t₀ i₀ e) root d₀ r₀ = some t₀ := by
  rw [table_write_of_not_below hTree hr₀ hTable hi₀ hr₀ ?_, hTable]
  intro hBelow
  have := hBelow.1
  omega

/-- The written entry is read back. -/
theorem look_write_self : look R (write R mem t₀ i₀ e) root d₀ (r₀ * R.fan + i₀) = some e := by
  rw [look_of_table (table_write_self hTree hr₀ hTable hi₀) hi₀, write_same]

/-- What the written entry links to. -/
theorem table_write_child :
    table R (write R mem t₀ i₀ e) root (d₀ + 1) (r₀ * R.fan + i₀) = R.link d₀ e := by
  rw [table_succ, look_write_self hTree hr₀ hTable hi₀]
  rfl

/-- Below a leaf just written there is nothing. -/
theorem table_write_leaf_below (hLeaf : R.link d₀ e = none)
    (hBelow : Below R (d₀ + 1) (r₀ * R.fan + i₀) d r) :
    table R (write R mem t₀ i₀ e) root d r = none := by
  refine table_eq_none_of_below ?_ hBelow
  rw [table_write_child hTree hr₀ hTable hi₀, hLeaf]

/-- After a leaf was written, every table is where it was before. -/
theorem table_of_write_leaf (hLeaf : R.link d₀ e = none) (hr : r < R.fan ^ d)
    (hAt : table R (write R mem t₀ i₀ e) root d r = some t) :
    table R mem root d r = some t ∧ ¬ Below R (d₀ + 1) (r₀ * R.fan + i₀) d r := by
  by_cases hBelow : Below R (d₀ + 1) (r₀ * R.fan + i₀) d r
  · rw [table_write_leaf_below hTree hr₀ hTable hi₀ hLeaf hBelow] at hAt
    cases hAt
  · rw [table_write_of_not_below hTree hr₀ hTable hi₀ hr hBelow] at hAt
    exact ⟨hAt, hBelow⟩

/-- Writing a leaf keeps the tree a tree. -/
theorem isTree_write_leaf (hLeaf : R.link d₀ e = none) : IsTree R (write R mem t₀ i₀ e) root := by
  intro d r d' r' t hr hr' hAt hAt'
  exact hTree d r d' r' t hr hr'
    (table_of_write_leaf hTree hr₀ hTable hi₀ hLeaf hr hAt).1
    (table_of_write_leaf hTree hr₀ hTable hi₀ hLeaf hr' hAt').1

end Write

/-! ## Linking a fresh table -/

section Link

variable {mem : Nat → ω} {root d₀ r₀ t₀ i₀ t' : Nat} {e : ω} (hTree : IsTree R mem root)
  (hr₀ : r₀ < R.fan ^ d₀) (hTable : table R mem root d₀ r₀ = some t₀) (hi₀ : i₀ < R.fan)
  (hFresh : ¬ Reached R mem root t') (hLink : R.link d₀ e = some t')
include hTree hr₀ hTable hi₀ hFresh hLink

theorem link_child :
    t' ≠ t₀ ∧ table R (write R mem t₀ i₀ e) root (d₀ + 1) (r₀ * R.fan + i₀) = some t' := by
  refine ⟨?_, by rw [table_write_child hTree hr₀ hTable hi₀, hLink]⟩
  rintro rfl
  exact hFresh ⟨d₀, r₀, hr₀, hTable⟩

/-- The fresh table is reached at the place of the link, and nothing below it. -/
theorem table_write_link (hLeaves : ∀ i < R.fan, R.link (d₀ + 1) (mem (slot R t' i)) = none)
    (hBelow : Below R (d₀ + 1) (r₀ * R.fan + i₀) d r) :
    table R (write R mem t₀ i₀ e) root d r = if d = d₀ + 1 then some t' else none := by
  obtain ⟨hNe, hChild⟩ := link_child hTree hr₀ hTable hi₀ hFresh hLink
  induction d generalizing r with
  | zero =>
    have := hBelow.1
    omega
  | succ d ih =>
    rcases below_succ_iff.mp hBelow with ⟨hd, rfl⟩ | hParent
    · rw [if_pos hd.symm, ← hd, hChild]
    · have hLe := hParent.1
      have hDeep : d + 1 ≠ d₀ + 1 := by omega
      simp only [table, ih hParent, if_neg hDeep]
      by_cases hd : d = d₀ + 1
      · subst hd
        simp only [if_pos, Option.bind_some]
        rw [write_other (mod_fan_lt r) hi₀ (.inl hNe)]
        exact hLeaves _ (mod_fan_lt r)
      · rw [if_neg hd]
        rfl

/-- The entries of the linked table are the words stored in it. -/
theorem look_write_link (hi : i < R.fan) :
    look R (write R mem t₀ i₀ e) root (d₀ + 1) ((r₀ * R.fan + i₀) * R.fan + i) =
      some (mem (slot R t' i)) := by
  obtain ⟨hNe, hChild⟩ := link_child hTree hr₀ hTable hi₀ hFresh hLink
  rw [look_of_table hChild hi, write_other hi hi₀ (.inl hNe)]

/-- Every table after the link is an old one in its old place, or the fresh one. -/
theorem table_of_write_link (hLeaves : ∀ i < R.fan, R.link (d₀ + 1) (mem (slot R t' i)) = none)
    (hr : r < R.fan ^ d) (hAt : table R (write R mem t₀ i₀ e) root d r = some t) :
    table R mem root d r = some t ∨ (t = t' ∧ d = d₀ + 1 ∧ r = r₀ * R.fan + i₀) := by
  by_cases hBelow : Below R (d₀ + 1) (r₀ * R.fan + i₀) d r
  · rw [table_write_link hTree hr₀ hTable hi₀ hFresh hLink hLeaves hBelow] at hAt
    split at hAt
    case isTrue hd =>
      subst hd
      refine .inr ⟨(Option.some.inj hAt).symm, rfl, ?_⟩
      simpa [Below] using hBelow
    case isFalse => cases hAt
  · rw [table_write_of_not_below hTree hr₀ hTable hi₀ hr hBelow] at hAt
    exact .inl hAt

/-- Linking a fresh table without links keeps the tree a tree. -/
theorem isTree_write_link (hLeaves : ∀ i < R.fan, R.link (d₀ + 1) (mem (slot R t' i)) = none) :
    IsTree R (write R mem t₀ i₀ e) root := by
  intro d r d' r' t hr hr' hAt hAt'
  have hOld := table_of_write_link hTree hr₀ hTable hi₀ hFresh hLink hLeaves hr hAt
  have hOld' := table_of_write_link hTree hr₀ hTable hi₀ hFresh hLink hLeaves hr' hAt'
  rcases hOld with hOld | ⟨rfl, rfl, rfl⟩
  · rcases hOld' with hOld' | ⟨rfl, _, _⟩
    · exact hTree d r d' r' t hr hr' hOld hOld'
    · exact absurd ⟨d, r, hr, hOld⟩ hFresh
  · rcases hOld' with hOld' | ⟨_, rfl, rfl⟩
    · exact absurd ⟨d', r', hr', hOld'⟩ hFresh
    · exact ⟨rfl, rfl⟩

end Link

/-! ## Walks -/

section Walk

variable {mem : Nat → ω} {root : Nat}

/-- The region of leaf index `v` at depth `d`. -/
def reg (R : Radix ω) (v d : Nat) : Nat := v / R.fan ^ (R.depth - d)

theorem reg_succ_div (hd : d < R.depth) : reg R v (d + 1) / R.fan = reg R v d := by
  have hExp : R.depth - d = R.depth - (d + 1) + 1 := by omega
  unfold reg
  rw [Nat.div_div_eq_div_mul, hExp, Nat.pow_succ]

theorem reg_lt (hv : v < R.fan ^ (R.depth + 1)) (hd : d ≤ R.depth) :
    reg R v d < R.fan ^ (d + 1) := by
  unfold reg
  refine Nat.div_lt_of_lt_mul ?_
  rwa [← Nat.pow_add, show R.depth - d + (d + 1) = R.depth + 1 by omega]

/-- A path enters the subtree of `ρ₀` exactly when it passes through `ρ₀`. -/
theorem below_reg_iff (hLe : d₀ ≤ d) (hd : d ≤ R.depth) :
    Below R d₀ ρ₀ d (reg R v d) ↔ reg R v d₀ = ρ₀ := by
  unfold Below reg
  rw [Nat.div_div_eq_div_mul, ← Nat.pow_add,
    show R.depth - d + (d - d₀) = R.depth - d₀ by omega]
  simp [hLe]

/-- Follow the links for leaf index `v`, from table `t` at depth `d`, at most `n`
of them; the depth and the word the walk ends at. -/
def walkFrom (R : Radix ω) (mem : Nat → ω) (v : Nat) : Nat → Nat → Nat → Nat × ω
  | 0, d, t => (d, mem (slot R t (reg R v d % R.fan)))
  | n + 1, d, t =>
    match R.link d (mem (slot R t (reg R v d % R.fan))) with
    | none => (d, mem (slot R t (reg R v d % R.fan)))
    | some t' => walkFrom R mem v n (d + 1) t'

/-- The walk for leaf index `v` from the root. -/
def walk (R : Radix ω) (mem : Nat → ω) (root v : Nat) : Nat × ω :=
  walkFrom R mem v R.depth 0 root

/-- The entry at depth `d` on the path of `v` is the leaf `e`. -/
structure LeafAt (R : Radix ω) (mem : Nat → ω) (root v d : Nat) (e : ω) : Prop where
  depth_le : d ≤ R.depth
  look : look R mem root d (reg R v d) = some e
  leaf : R.link d e = none

theorem walkFrom_leafAt (n : Nat) :
    ∀ d t, d + n = R.depth → table R mem root d (reg R v d / R.fan) = some t →
      LeafAt R mem root v (walkFrom R mem v n d t).1 (walkFrom R mem v n d t).2 := by
  induction n with
  | zero =>
    intro d t hd hTable
    obtain rfl : d = R.depth := by omega
    exact ⟨Nat.le_refl _, by simp [walkFrom, RadixTree.look, hTable], R.link_last _⟩
  | succ n ih =>
    intro d t hd hTable
    have hLook : RadixTree.look R mem root d (reg R v d) =
        some (mem (slot R t (reg R v d % R.fan))) := by
      simp [RadixTree.look, hTable]
    simp only [walkFrom]
    cases hLink : R.link d (mem (slot R t (reg R v d % R.fan))) with
    | none =>
      have hLe : d ≤ R.depth := by omega
      exact ⟨hLe, hLook, hLink⟩
    | some t' =>
      refine ih (d + 1) t' (by omega) ?_
      rw [reg_succ_div (by omega), table_succ, hLook]
      exact hLink

theorem LeafAt.unique {d' : Nat} {e e' : ω} (hLeaf : LeafAt R mem root v d e)
    (hLeaf' : LeafAt R mem root v d' e') : d = d' ∧ e = e' := by
  -- below the leaf at the smaller depth there is no table for the other one
  have hNoLess : ∀ {d d' : Nat} {e e' : ω}, LeafAt R mem root v d e →
      LeafAt R mem root v d' e' → ¬ d < d' := by
    intro d d' e e' hL hL' hlt
    have hNone : table R mem root (d + 1) (reg R v d) = none := by
      rw [table_succ, hL.look]
      exact hL.leaf
    obtain ⟨c, rfl⟩ : ∃ c, d' = c + 1 := ⟨d' - 1, by omega⟩
    have hcLe : c + 1 ≤ R.depth := hL'.depth_le
    have hDiv : Below R d (reg R v d) c (reg R v c) :=
      (below_reg_iff (by omega) (by omega)).mpr rfl
    have hParent : table R mem root (c + 1) (reg R v (c + 1) / R.fan) = none := by
      rw [reg_succ_div (by omega)]
      refine table_eq_none_of_below hNone ⟨by omega, ?_⟩
      rw [show c + 1 - (d + 1) = c - d by omega]
      exact hDiv.2
    have hLook := hL'.look
    simp [RadixTree.look, hParent] at hLook
  have hEq : d = d' := by
    rcases Nat.lt_trichotomy d d' with hlt | heq | hgt
    · exact absurd hlt (hNoLess hLeaf hLeaf')
    · exact heq
    · exact absurd hgt (hNoLess hLeaf' hLeaf)
  subst hEq
  exact ⟨rfl, Option.some.inj (hLeaf.look.symm.trans hLeaf'.look)⟩

/-- A walk ends at the one leaf on its path. -/
theorem walk_eq_iff {e : ω} : walk R mem root v = (d, e) ↔ LeafAt R mem root v d e := by
  have hWalk : LeafAt R mem root v (walk R mem root v).1 (walk R mem root v).2 :=
    walkFrom_leafAt R.depth 0 root (by omega) rfl
  constructor
  · intro hEq
    rwa [hEq] at hWalk
  · intro hLeaf
    obtain ⟨hd, he⟩ := hWalk.unique hLeaf
    exact Prod.ext hd he

/-! ### Leaves after a write -/

variable {d₀ r₀ t₀ i₀ t' v : Nat} {e : ω}

/-- A walk that does not pass through the written entry ends where it did. -/
theorem leafAt_write_of_ne (hTree : IsTree R mem root) (hr₀ : r₀ < R.fan ^ d₀)
    (hTable : table R mem root d₀ r₀ = some t₀) (hi₀ : i₀ < R.fan)
    (hv : v < R.fan ^ (R.depth + 1)) (hOut : reg R v d₀ ≠ r₀ * R.fan + i₀) {x : ω} :
    LeafAt R (write R mem t₀ i₀ e) root v d x ↔ LeafAt R mem root v d x := by
  have hSame : d ≤ R.depth → RadixTree.look R (write R mem t₀ i₀ e) root d (reg R v d) =
      RadixTree.look R mem root d (reg R v d) := by
    intro hd
    refine look_write_of_not_below hTree hr₀ hTable hi₀ (reg_lt hv hd) ?_
    intro hBelow
    exact hOut ((below_reg_iff hBelow.1 hd).mp hBelow)
  constructor
  · rintro ⟨hd, hLook, hLeaf⟩
    exact ⟨hd, by rwa [hSame hd] at hLook, hLeaf⟩
  · rintro ⟨hd, hLook, hLeaf⟩
    exact ⟨hd, by rwa [hSame hd], hLeaf⟩

/-- A walk through a fresh link ends in the linked table. -/
theorem leafAt_write_link (hTree : IsTree R mem root) (hr₀ : r₀ < R.fan ^ d₀)
    (hTable : table R mem root d₀ r₀ = some t₀) (hi₀ : i₀ < R.fan) (hd₀ : d₀ < R.depth)
    (hFresh : ¬ Reached R mem root t') (hLink : R.link d₀ e = some t')
    (hLeaves : ∀ i < R.fan, R.link (d₀ + 1) (mem (slot R t' i)) = none)
    (hIn : reg R v d₀ = r₀ * R.fan + i₀) :
    LeafAt R (write R mem t₀ i₀ e) root v (d₀ + 1)
      (mem (slot R t' (reg R v (d₀ + 1) % R.fan))) := by
  refine ⟨hd₀, ?_, hLeaves _ (mod_fan_lt _)⟩
  have hSplit : reg R v (d₀ + 1) =
      (r₀ * R.fan + i₀) * R.fan + reg R v (d₀ + 1) % R.fan := by
    rw [← hIn, ← reg_succ_div hd₀, region_split]
  rw [hSplit, look_write_link hTree hr₀ hTable hi₀ hFresh hLink (mod_fan_lt _), ← hSplit]

/-- Walks do not see an unreached table. -/
theorem leafAt_congr_unreached {mem' : Nat → ω} (hOut : ¬ Reached R mem root t')
    (hSame : ∀ t i, t ≠ t' → i < R.fan → mem' (slot R t i) = mem (slot R t i))
    (hv : v < R.fan ^ (R.depth + 1)) {x : ω} :
    LeafAt R mem' root v d x ↔ LeafAt R mem root v d x := by
  constructor
  · rintro ⟨hd, hLook, hLeaf⟩
    exact ⟨hd, by rwa [look_congr_unreached hOut hSame (reg_lt hv hd)] at hLook, hLeaf⟩
  · rintro ⟨hd, hLook, hLeaf⟩
    exact ⟨hd, by rwa [look_congr_unreached hOut hSame (reg_lt hv hd)], hLeaf⟩

end Walk

/-! ## Occupied entries -/

section Occupied

variable [DecidableEq ω] {mem : Nat → ω} {empty e : ω} {t t₀ i₀ : Nat}

/-- The number of words of table `t` that are not `empty`. -/
def occupied (R : Radix ω) (empty : ω) (mem : Nat → ω) (t : Nat) : Nat :=
  ((Finset.range R.fan).filter fun i => mem (slot R t i) ≠ empty).card

theorem occupied_eq_zero :
    occupied R empty mem t = 0 ↔
    ∀ i < R.fan, mem (slot R t i) = empty := by
  simp [occupied, Finset.filter_eq_empty_iff]

theorem occupied_full (hFull : ∀ i < R.fan, mem (slot R t i) ≠ empty) :
    occupied R empty mem t = R.fan := by
  have hAll : (Finset.range R.fan).filter (fun i => mem (slot R t i) ≠ empty) =
      Finset.range R.fan :=
    Finset.filter_true_of_mem fun i hi => hFull i (Finset.mem_range.mp hi)
  rw [occupied, hAll, Finset.card_range]

theorem occupied_congr {mem' : Nat → ω}
    (hSame : ∀ i < R.fan, mem' (slot R t i) = mem (slot R t i)) :
    occupied R empty mem' t = occupied R empty mem t := by
  unfold occupied
  congr 1
  apply Finset.filter_congr
  intro i hi
  rw [hSame i (Finset.mem_range.mp hi)]

theorem occupied_write_other (hi₀ : i₀ < R.fan) (hNe : t ≠ t₀) :
    occupied R empty (write R mem t₀ i₀ e) t = occupied R empty mem t :=
  occupied_congr fun _ hi => write_other hi hi₀ (.inl hNe)

/-- Writing an entry changes the count by what the entry was and is. -/
theorem occupied_write_same (hi₀ : i₀ < R.fan) :
    occupied R empty (write R mem t₀ i₀ e) t₀ + (if mem (slot R t₀ i₀) = empty then 0 else 1) =
      occupied R empty mem t₀ + (if e = empty then 0 else 1) := by
  have hMem : i₀ ∈ Finset.range R.fan := Finset.mem_range.mpr hi₀
  -- count the other entries, which are the same before and after
  have hSplit : ∀ m : Nat → ω, occupied R empty m t₀ =
      (((Finset.range R.fan).erase i₀).filter fun i => m (slot R t₀ i) ≠ empty).card +
        (if m (slot R t₀ i₀) = empty then 0 else 1) := by
    intro m
    unfold occupied
    conv_lhs => rw [← Finset.insert_erase hMem, Finset.filter_insert]
    by_cases hEmpty : m (slot R t₀ i₀) = empty
    · simp [hEmpty]
    · simp [hEmpty]
  have hOthers : ((Finset.range R.fan).erase i₀).filter
      (fun i => write R mem t₀ i₀ e (slot R t₀ i) ≠ empty) =
      ((Finset.range R.fan).erase i₀).filter fun i => mem (slot R t₀ i) ≠ empty := by
    apply Finset.filter_congr
    intro i hi
    obtain ⟨hNe, hi⟩ := Finset.mem_erase.mp hi
    rw [write_other (Finset.mem_range.mp hi) hi₀ (.inr hNe)]
  rw [hSplit (write R mem t₀ i₀ e), hSplit mem, hOthers, write_same]
  omega

end Occupied

end Zvm.Verified.RadixTree
