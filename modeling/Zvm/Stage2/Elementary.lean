import Zvm.Stage2.Table

/-!
# Elementary changes of a table pool

Every operation on a stage-2 pool is a sequence of three changes: storing an
entry that is not a table (possibly over the link to an empty table), and
replacing an entry that is not a table by a table that says the same.  Each is
described here by what it does to the entries of the tree, from which walks and
invariants follow, and shown to keep the pool well formed.
-/

namespace Zvm.Stage2

open Zvm.Verified.FunArray Zvm.Verified.RadixTree

/-- 1 for an entry in use. -/
def inUse (e : Word) : Int := if e = 0#64 then 0 else 1

variable {d' ρ r' u j : Nat}

section StoreLeaf

variable {c : PoolConfig} {st st' : XlatPool} {base d r t i : Nat} {e : Word}

/-- The place of an entry: table `t` at depth `d` for region `r`, index `i`. -/
structure Place (c : PoolConfig) (st : XlatPool) (base d r t i : Nat) : Prop where
  region_lt : r < 512 ^ d
  tableAt : tableAt c st base d r = some t
  index_lt : i < 512

/-- The word stored at a place. -/
def XlatPool.word (st : XlatPool) (t i : Nat) : Word := st.xlatTables (t * 512 + i)

section

variable (hPlace : Place c st base d r t i)
include hPlace

theorem Place.depth_le : d ≤ 2 := by
  by_contra hDeep
  have hNone : Stage2.tableAt c st base d r = none :=
    table_eq_none_of_deep (show (stage2Radix c).depth < d by
      show 2 < d
      omega)
  rw [hPlace.tableAt] at hNone
  cases hNone

theorem Place.inTree : InTree c st base t :=
  ⟨d, r, hPlace.region_lt, hPlace.tableAt⟩

theorem Place.entryAt :
    entryAt c st base d (r * 512 + i) = some (st.word t i) :=
  look_of_table hPlace.tableAt hPlace.index_lt

/-- The table behind the entry. -/
theorem Place.tableAt_succ :
    Stage2.tableAt c st base (d + 1) (r * 512 + i) = (stage2Radix c).link d (st.word t i) := by
  show table (stage2Radix c) st.xlatTables base (d + 1) _ = _
  rw [table_succ]
  show (Stage2.entryAt c st base d _).bind _ = _
  rw [hPlace.entryAt]
  rfl

theorem Place.region : r * 512 + i < 512 ^ (d + 1) := by
  have hr := hPlace.region_lt
  have hi := hPlace.index_lt
  rw [Nat.pow_succ]
  omega

end

/-- Only entries above the last level link to a table. -/
theorem depth_lt_of_link (hd : d ≤ 2) (hLink : (stage2Radix c).link d e = some u) : d < 2 := by
  rcases Nat.lt_or_eq_of_le hd with hlt | rfl
  · exact hlt
  · rw [show (stage2Radix c).link 2 e = none from (stage2Radix c).link_last e] at hLink
    cases hLink

/-- An entry strictly within a region is in a table within it. -/
theorem within_parent {ρ₀ : Nat} (hDeep : d < d') (hIn : Within c d ρ₀ d' ρ) :
    Below (stage2Radix c) (d + 1) ρ₀ d' (ρ / 512) := by
  refine ⟨hDeep, ?_⟩
  show ρ / 512 / 512 ^ (d' - (d + 1)) = _
  rw [Nat.div_div_eq_div_mul, ← Nat.pow_succ', show (d' - (d + 1)).succ = d' - d by omega]
  exact hIn.2

/-- Every table outside the tree may be handed out. -/
def Accounted (c : PoolConfig) (st : XlatPool) (base : Nat) : Prop :=
  ∀ u < c.maxTables, ¬ InTree c st base u → st.useCount u = 0

/-- `st'` is `st` after the leaf `e` was stored at the place, over a leaf or over
the link to an empty table, with the use counts adjusted: the count of the table
itself moves with the entry, the other tables still in the tree keep theirs, and
what becomes free is empty. -/
structure LeafStored (c : PoolConfig) (st st' : XlatPool) (base d r t i : Nat)
    (e : Word) : Prop where
  wf : WellFormed c st base
  place : Place c st base d r t i
  stored : st'.xlatTables = write (stage2Radix c) st.xlatTables t i e
  leaf : (stage2Radix c).link d e = none
  ok : EntryOk d e
  behind : ∀ u, (stage2Radix c).link d (st.word t i) = some u → ∀ j < 512, st.word u j = 0#64
  count : st'.useCount t + inUse (st.word t i) = st.useCount t + inUse e
  others : ∀ u, u ≠ t → InTree c st' base u → st'.useCount u = st.useCount u
  freed : ∀ u < c.maxTables, u ≠ t → st'.useCount u = 0 → ∀ j < 512, st.word u j = 0#64

namespace LeafStored

variable (hS : LeafStored c st st' base d r t i e)

include hS

theorem other (hρ : ρ < 512 ^ (d' + 1)) (hOut : ¬ Within c d (r * 512 + i) d' ρ) :
    entryAt c st' base d' ρ = entryAt c st base d' ρ := by
  show look (stage2Radix c) st'.xlatTables base d' ρ = _
  rw [hS.stored]
  exact look_write_of_not_below hS.wf.tree hS.place.region_lt hS.place.tableAt
    hS.place.index_lt hρ hOut

theorem self : entryAt c st' base d (r * 512 + i) = some e := by
  show look (stage2Radix c) st'.xlatTables base d _ = _
  rw [hS.stored]
  exact look_write_self hS.wf.tree hS.place.region_lt hS.place.tableAt hS.place.index_lt

/-- Below a stored leaf there are no entries. -/
theorem deep (hDeep : d < d') (hIn : Within c d (r * 512 + i) d' ρ) :
    entryAt c st' base d' ρ = none := by
  have hParent := within_parent hDeep hIn
  show look (stage2Radix c) st'.xlatTables base d' ρ = none
  rw [hS.stored, look]
  show Option.map _ (table _ _ _ _ (ρ / 512)) = none
  rw [table_write_leaf_below hS.wf.tree hS.place.region_lt hS.place.tableAt hS.place.index_lt
    hS.leaf hParent]
  rfl

/-- Tables of the new tree were in the old one, not behind the stored entry. -/
theorem tableAt_old (hr' : r' < 512 ^ d') (hAt : tableAt c st' base d' r' = some u) :
    tableAt c st base d' r' = some u ∧ ¬ Within c (d + 1) (r * 512 + i) d' r' := by
  have hAt' : table (stage2Radix c) st'.xlatTables base d' r' = some u := hAt
  rw [hS.stored] at hAt'
  exact table_of_write_leaf hS.wf.tree hS.place.region_lt hS.place.tableAt hS.place.index_lt
    hS.leaf hr' hAt'

/-- Tables that are not behind the stored entry stay where they are. -/
theorem keep (hr' : r' < 512 ^ d') (hOut : ¬ Within c (d + 1) (r * 512 + i) d' r') :
    tableAt c st' base d' r' = tableAt c st base d' r' := by
  show table (stage2Radix c) st'.xlatTables base d' r' = _
  rw [hS.stored]
  exact table_write_of_not_below hS.wf.tree hS.place.region_lt hS.place.tableAt
    hS.place.index_lt hr' hOut

/-- Tables up to the depth of the stored entry stay where they are. -/
theorem keep_of_le (hr' : r' < 512 ^ d') (hLe : d' ≤ d) :
    tableAt c st' base d' r' = tableAt c st base d' r' := by
  apply hS.keep hr'
  intro hBelow
  have := hBelow.1
  omega

theorem inTree_old (hIn : InTree c st' base u) : InTree c st base u := by
  obtain ⟨d', r', hr', hAt⟩ := hIn
  exact ⟨d', r', hr', (hS.tableAt_old hr' hAt).1⟩

theorem ne_of_out (hOut : ¬ InTree c st' base u) : u ≠ t := by
  rintro rfl
  exact hOut ⟨d, r, hS.place.region_lt,
    (hS.keep_of_le hS.place.region_lt (Nat.le_refl d)).trans hS.place.tableAt⟩

/-- A table that left the tree was behind the stored entry. -/
theorem child_of_removed (hOld : InTree c st base u) (hNew : ¬ InTree c st' base u) :
    (stage2Radix c).link d (st.word t i) = some u := by
  obtain ⟨d', r', hr', hAt⟩ := hOld
  have hIn : Within c (d + 1) (r * 512 + i) d' r' := by
    by_contra hOut
    exact hNew ⟨d', r', hr', (hS.keep hr' hOut).trans hAt⟩
  have hChild := hS.place.tableAt_succ
  cases hLink : (stage2Radix c).link d (st.word t i) with
  | none =>
    rw [hLink] at hChild
    exact absurd ((table_eq_none_of_below hChild hIn).symm.trans hAt) (by simp)
  | some w =>
    rw [hLink] at hChild
    rcases Nat.lt_or_eq_of_le hIn.1 with hDeep | rfl
    · -- the entries behind the link are empty, so there is no deeper table
      have hParent : r' / 512 ^ (d' - (d + 2)) / 512 = r * 512 + i := by
        have hDiv : r' / 512 ^ (d' - (d + 1)) = r * 512 + i := hIn.2
        rw [Nat.div_div_eq_div_mul, ← Nat.pow_succ,
          show (d' - (d + 2)).succ = d' - (d + 1) by omega]
        exact hDiv
      have hj : r' / 512 ^ (d' - (d + 2)) % 512 < 512 := Nat.mod_lt _ (by decide)
      have hPlace : Place c st base (d + 1) (r * 512 + i) w _ := ⟨hS.place.region, hChild, hj⟩
      have hNone := hPlace.tableAt_succ
      rw [hS.behind w hLink _ hj, link_zero, ← hParent, Nat.div_add_mod'] at hNone
      exact absurd ((table_eq_none_of_below hNone ⟨hDeep, rfl⟩).symm.trans hAt) (by simp)
    · have hEq : r' = r * 512 + i := by simpa [Below] using hIn.2
      rw [hEq] at hAt
      exact hChild.symm.trans hAt

theorem words (hu : u ≠ t) (hj : j < 512) : st'.word u j = st.word u j := by
  show st'.xlatTables (slot (stage2Radix c) u j) = st.xlatTables (slot (stage2Radix c) u j)
  rw [hS.stored, write_other hj hS.place.index_lt (.inl hu)]

theorem count_self : st'.useCount t = 1 + occupied (stage2Radix c) 0#64 st'.xlatTables t := by
  have hOcc : occupied (stage2Radix c) 0#64 (write (stage2Radix c) st.xlatTables t i e) t +
      (if st.word t i = 0#64 then 0 else 1) =
      occupied (stage2Radix c) 0#64 st.xlatTables t + (if e = 0#64 then 0 else 1) :=
    occupied_write_same hS.place.index_lt
  have hOld := hS.wf.count t hS.place.inTree
  have hCount := hS.count
  rw [hS.stored]
  unfold inUse at hCount
  split_ifs at hOcc hCount <;> omega

/-- The entries of the tree are the leaf and the old ones. -/
theorem entry_cases {x : Word} (hρ : ρ < 512 ^ (d' + 1))
    (hLook : entryAt c st' base d' ρ = some x) :
    (d' = d ∧ ρ = r * 512 + i ∧ x = e) ∨ entryAt c st base d' ρ = some x := by
  by_cases hIn : Within c d (r * 512 + i) d' ρ
  · rcases Nat.lt_or_eq_of_le hIn.1 with hlt | rfl
    · rw [hS.deep hlt hIn] at hLook
      cases hLook
    · have hEq : ρ = r * 512 + i := by
        simpa [Below] using hIn.2
      rw [hEq, hS.self] at hLook
      exact .inl ⟨rfl, hEq, (Option.some.inj hLook).symm⟩
  · rw [hS.other hρ hIn] at hLook
    exact .inr hLook

theorem entries_ok {x : Word} (hρ : ρ < 512 ^ (d' + 1)) (hLook : entryAt c st' base d' ρ = some x) :
    EntryOk d' x := by
  obtain ⟨rfl, -, rfl⟩ | hOld := hS.entry_cases hρ hLook
  · exact hS.ok
  · exact hS.wf.entries d' ρ x hρ hOld

/-- The pool stays well formed. -/
theorem wellFormed :
    WellFormed c st' base where
  tree := by
    rw [hS.stored]
    exact isTree_write_leaf hS.wf.tree hS.place.region_lt hS.place.tableAt hS.place.index_lt
      hS.leaf
  inPool := fun u hIn => hS.wf.inPool u (hS.inTree_old hIn)
  count := by
    intro u hIn
    by_cases hu : u = t
    · rw [hu]
      exact hS.count_self
    · rw [hS.others u hu hIn, hS.stored, occupied_write_other hS.place.index_lt hu]
      exact hS.wf.count u (hS.inTree_old hIn)
  entries := fun _ _ _ hρ hLook => hS.entries_ok hρ hLook
  poolZero := by
    intro u hu hZero j hj
    have hNe : u ≠ t := by
      rintro rfl
      have := hS.count_self
      omega
    exact (hS.words hNe hj).trans (hS.freed u hu hNe hZero j hj)

/-- What leaves the tree is free, if it is made so. -/
theorem accounted
    (hChild : ∀ u, (stage2Radix c).link d (st.word t i) = some u → st'.useCount u = 0)
    (hOthers : ∀ u, u ≠ t → st'.useCount u = st.useCount u ∨ st'.useCount u = 0)
    (hA : Accounted c st base) : Accounted c st' base := by
  intro u hu hOut
  by_cases hOld : InTree c st base u
  · exact hChild u (hS.child_of_removed hOld hOut)
  · rcases hOthers u (hS.ne_of_out hOut) with hSame | hZero
    · rw [hSame]
      exact hA u hu hOld
    · exact hZero

end LeafStored

/-- Storing a leaf over a leaf, with the other counts as they were. -/
theorem leafStored_of_leaf (hWF : WellFormed c st base) (hPlace : Place c st base d r t i)
    (hOld : (stage2Radix c).link d (st.word t i) = none)
    (hStored : st'.xlatTables = write (stage2Radix c) st.xlatTables t i e)
    (hLeaf : (stage2Radix c).link d e = none) (hOk : EntryOk d e)
    (hCount : st'.useCount t + inUse (st.word t i) = st.useCount t + inUse e)
    (hOthers : ∀ u, u ≠ t → st'.useCount u = st.useCount u) :
    LeafStored c st st' base d r t i e where
  wf := hWF
  place := hPlace
  stored := hStored
  leaf := hLeaf
  ok := hOk
  behind := by
    intro u hu
    rw [hOld] at hu
    cases hu
  count := hCount
  others := fun u hu _ => hOthers u hu
  freed := fun u hLt hu hZero => hWF.poolZero u hLt ((hOthers u hu).symm.trans hZero)

end StoreLeaf

/-! ## Replacing an entry by a table -/

section Expand

variable {c : PoolConfig} {st st' : XlatPool} {base d r t i t' : Nat}

/-- Entry `j` of the table that replaces the entry `old` of the given level. -/
def partDesc (old : Word) (level j : Nat) : Word :=
  if vmIsFreeDesc old then 0#64 else splitDesc old level j

theorem vmNewTable_eq_some {st₁ : XlatPool} (hNew : vmNewTable c st = some (st₁, t')) :
    t' < c.maxTables ∧ st.useCount t' = 0 ∧
      st₁ = { st with useCount := set st.useCount t' 1 } := by
  unfold vmNewTable at hNew
  split at hNew
  case h_1 => cases hNew
  case h_2 u hFirst =>
    obtain ⟨rfl, rfl⟩ := Prod.mk.inj (Option.some.inj hNew)
    obtain ⟨hLt, hZero, _⟩ := firstIdx_eq_some.mp hFirst
    exact ⟨hLt, by simpa using hZero, rfl⟩

theorem not_inTree_of_count_zero (hWF : WellFormed c st base) (hZero : st.useCount t' = 0) :
    ¬ InTree c st base t' := by
  intro hIn
  have := hWF.count t' hIn
  omega

/-- An entry that is not a table is empty or an aligned block. -/
theorem EntryOk.free_or_block {old : Word} (hOk : EntryOk d old) (hd : d < 2)
    (hLeaf : (stage2Radix c).link d old = none) :
    old = 0#64 ∨ (old &&& 3#64 = 1#64 ∧ 2 ^ regionShift d ∣ outAddr old) := by
  rcases hOk with hZero | hTable | ⟨_, hBlock⟩
  · exact .inl hZero
  · rw [link_eq_none_iff] at hLeaf
    simp [vmIsTableDesc, xlatLastLevel, hTable] at hLeaf
    omega
  · exact .inr hBlock

theorem vmIsFreeDesc_block {old : Word} (hBlock : old &&& 3#64 = 1#64) :
    vmIsFreeDesc old = false := by
  simp [vmIsFreeDesc, hBlock]

/-- The parts of a split entry are again empty, blocks, or pages. -/
theorem partDesc_ok {old : Word} (hd : d < 2)
    (hOld : old = 0#64 ∨ (old &&& 3#64 = 1#64 ∧ 2 ^ regionShift d ∣ outAddr old)) (hj : j < 512) :
    EntryOk (d + 1) (partDesc old (d + 1) j) ∧
      (stage2Radix c).link (d + 1) (partDesc old (d + 1) j) = none := by
  rcases hOld with rfl | ⟨hBlock, hAlign⟩
  · exact ⟨.inl rfl, link_zero c _⟩
  · have hType : splitDesc old (d + 1) j &&& 3#64 =
        if d + 1 + 1 = xlatLastLevel then 3#64 else 1#64 := type_splitDesc hBlock
    rw [partDesc, vmIsFreeDesc_block hBlock]
    simp only [Bool.false_eq_true, if_false]
    by_cases hLast : d + 1 = 2
    · rw [if_pos (show d + 1 + 1 = xlatLastLevel by simp [xlatLastLevel]; omega)] at hType
      refine ⟨.inr (.inl hType), ?_⟩
      rw [hLast]
      exact (stage2Radix c).link_last _
    · rw [if_neg (show d + 1 + 1 ≠ xlatLastLevel by simp [xlatLastLevel]; omega)] at hType
      refine ⟨.inr (.inr ⟨by omega, hType, ?_⟩), link_block c hType⟩
      have hLess : regionShift (d + 1) ≤ regionShift d := by
        simp [regionShift, levelToVaSizeShift, xlatLastLevel]
        omega
      rw [outAddr_splitDesc (by omega) (by omega) hj hAlign]
      exact Nat.dvd_add (Nat.dvd_trans (Nat.pow_dvd_pow 2 hLess) hAlign) (Nat.dvd_mul_left _ _)

/-- The part of an entry in use is in use. -/
theorem partDesc_ne_zero {old : Word} (hBlock : old &&& 3#64 = 1#64) (level j : Nat) :
    partDesc old level j ≠ 0#64 := by
  have hType : splitDesc old level j &&& 3#64 =
      if level + 1 = xlatLastLevel then 3#64 else 1#64 := type_splitDesc hBlock
  rw [partDesc, vmIsFreeDesc_block hBlock]
  intro hZero
  simp only [Bool.false_eq_true, if_false] at hZero
  rw [hZero] at hType
  split at hType <;> exact absurd hType (by decide)

/-- `st'` is `st` after the free table `t'` was filled with the parts of the entry
at the place (giving `mem`), linked in its place, and accounted for. -/
structure Linked (c : PoolConfig) (st st' : XlatPool) (base d r t i t' : Nat)
    (mem : Nat → Word) : Prop where
  wf : WellFormed c st base
  place : Place c st base d r t i
  depth_lt : d < 2
  leaf : (stage2Radix c).link d (st.word t i) = none
  inPool : t' < c.maxTables
  free : st.useCount t' = 0
  same : ∀ u j, u ≠ t' → j < 512 →
    mem (slot (stage2Radix c) u j) = st.xlatTables (slot (stage2Radix c) u j)
  parts : ∀ j < 512, mem (slot (stage2Radix c) t' j) = partDesc (st.word t i) (d + 1) j
  stored : st'.xlatTables = write (stage2Radix c) mem t i (tableDesc c t')
  countNew : st'.useCount t' = 1 + (if st.word t i = 0#64 then 0 else 512)
  countOld : st'.useCount t = st.useCount t + (if st.word t i = 0#64 then 1 else 0)
  countOther : ∀ u, u ≠ t → u ≠ t' → st'.useCount u = st.useCount u

namespace Linked

variable {mem : Nat → Word} (hL : Linked c st st' base d r t i t' mem)

include hL

theorem fresh : ¬ InTree c st base t' := not_inTree_of_count_zero hL.wf hL.free

theorem table_ne : t ≠ t' := by
  rintro rfl
  exact hL.fresh hL.place.inTree

theorem old :
    st.word t i = 0#64 ∨
    (st.word t i &&& 3#64 = 1#64 ∧ 2 ^ regionShift d ∣ outAddr (st.word t i)) :=
  (hL.wf.entries d _ _ hL.place.region hL.place.entryAt).free_or_block hL.depth_lt hL.leaf

theorem link : (stage2Radix c).link d (tableDesc c t') = some t' :=
  link_tableDesc c hL.inPool hL.depth_lt

/-- Filling the free table does not change the tree. -/
theorem table_mem (hr' : r' < 512 ^ d') :
    table (stage2Radix c) mem base d' r' = tableAt c st base d' r' :=
  table_congr_unreached hL.fresh hL.same hr'

theorem tree_mem : IsTree (stage2Radix c) mem base := by
  intro d₁ r₁ d₂ r₂ u h₁ h₂ hAt₁ hAt₂
  rw [hL.table_mem h₁] at hAt₁
  rw [hL.table_mem h₂] at hAt₂
  exact hL.wf.tree d₁ r₁ d₂ r₂ u h₁ h₂ hAt₁ hAt₂

theorem fresh_mem : ¬ Reached (stage2Radix c) mem base t' := by
  rintro ⟨d', r', hr', hAt⟩
  rw [hL.table_mem hr'] at hAt
  exact hL.fresh ⟨d', r', hr', hAt⟩

theorem place_mem : table (stage2Radix c) mem base d r = some t :=
  (hL.table_mem hL.place.region_lt).trans hL.place.tableAt

theorem leaves_mem :
    ∀ j < 512,
    (stage2Radix c).link (d + 1) (mem (slot (stage2Radix c) t' j)) = none := by
  intro j hj
  rw [hL.parts j hj]
  exact (partDesc_ok hL.depth_lt hL.old hj).2

theorem child : tableAt c st' base (d + 1) (r * 512 + i) = some t' := by
  show table (stage2Radix c) st'.xlatTables base _ _ = _
  rw [hL.stored]
  exact (table_write_child hL.tree_mem hL.place.region_lt hL.place_mem
    hL.place.index_lt).trans hL.link

theorem self : entryAt c st' base d (r * 512 + i) = some (tableDesc c t') := by
  show look (stage2Radix c) st'.xlatTables base _ _ = _
  rw [hL.stored]
  exact look_write_self hL.tree_mem hL.place.region_lt hL.place_mem hL.place.index_lt

theorem part (hj : j < 512) :
    entryAt c st' base (d + 1) ((r * 512 + i) * 512 + j) =
      some (partDesc (st.word t i) (d + 1) j) := by
  show look (stage2Radix c) st'.xlatTables base _ _ = _
  rw [hL.stored, ← hL.parts j hj]
  exact look_write_link hL.tree_mem hL.place.region_lt hL.place_mem hL.place.index_lt
    hL.fresh_mem hL.link hj

theorem other (hρ : ρ < 512 ^ (d' + 1)) (hOut : ¬ Within c d (r * 512 + i) d' ρ) :
    entryAt c st' base d' ρ = entryAt c st base d' ρ := by
  show look (stage2Radix c) st'.xlatTables base _ _ = _
  rw [hL.stored, look_write_of_not_below hL.tree_mem hL.place.region_lt hL.place_mem
    hL.place.index_lt hρ hOut]
  exact look_congr_unreached hL.fresh hL.same hρ

theorem deep (hDeep : d + 1 < d') (hIn : Within c d (r * 512 + i) d' ρ) :
    entryAt c st' base d' ρ = none := by
  have hParent : Below (stage2Radix c) (d + 1) (r * 512 + i) d' (ρ / 512) :=
    within_parent (by omega) hIn
  show look (stage2Radix c) st'.xlatTables base _ _ = _
  rw [hL.stored, look]
  show Option.map _ (table _ _ _ _ (ρ / 512)) = none
  rw [table_write_link hL.tree_mem hL.place.region_lt hL.place_mem hL.place.index_lt
    hL.fresh_mem hL.link hL.leaves_mem hParent, if_neg (by omega)]
  rfl

/-- Every old table stays where it is. -/
theorem keep (hr' : r' < 512 ^ d') (hAt : tableAt c st base d' r' = some u) :
    tableAt c st' base d' r' = some u := by
  have hNone := hL.place.tableAt_succ.trans hL.leaf
  have hOut : ¬ Below (stage2Radix c) (d + 1) (r * 512 + i) d' r' := by
    intro hBelow
    exact absurd ((table_eq_none_of_below hNone hBelow).symm.trans hAt) (by simp)
  show table (stage2Radix c) st'.xlatTables base d' r' = _
  rw [hL.stored, table_write_of_not_below hL.tree_mem hL.place.region_lt hL.place_mem
    hL.place.index_lt hr' hOut, hL.table_mem hr', hAt]

theorem ne_of_out (hOut : ¬ InTree c st' base u) : u ≠ t ∧ u ≠ t' ∧ ¬ InTree c st base u := by
  have hOld : ¬ InTree c st base u := fun ⟨_, _, hr, hAt⟩ => hOut ⟨_, _, hr, hL.keep hr hAt⟩
  refine ⟨?_, ?_, hOld⟩
  · rintro rfl
    exact hOld hL.place.inTree
  · rintro rfl
    exact hOut ⟨d + 1, r * 512 + i, hL.place.region, hL.child⟩

theorem accounted (hA : Accounted c st base) : Accounted c st' base := by
  intro u hu hOut
  obtain ⟨hNe, hNe', hOld⟩ := hL.ne_of_out hOut
  rw [hL.countOther u hNe hNe']
  exact hA u hu hOld

theorem inTree_cases (hIn : InTree c st' base u) : InTree c st base u ∨ u = t' := by
  obtain ⟨d', r', hr', hAt⟩ := hIn
  rw [hL.stored] at hAt
  rcases table_of_write_link hL.tree_mem hL.place.region_lt hL.place_mem hL.place.index_lt
    hL.fresh_mem hL.link hL.leaves_mem hr' hAt with hOld | ⟨rfl, _, _⟩
  · rw [hL.table_mem hr'] at hOld
    exact .inl ⟨d', r', hr', hOld⟩
  · exact .inr rfl

theorem words (hu : u ≠ t) (hu' : u ≠ t') (hj : j < 512) : st'.word u j = st.word u j := by
  show st'.xlatTables (slot (stage2Radix c) u j) = st.xlatTables (slot (stage2Radix c) u j)
  rw [hL.stored, write_other hj hL.place.index_lt (.inl hu), hL.same u j hu' hj]

/-- The new table has all its entries in use, or none. -/
theorem count_new : st'.useCount t' = 1 + occupied (stage2Radix c) 0#64 st'.xlatTables t' := by
  have hOcc : occupied (stage2Radix c) 0#64 st'.xlatTables t' =
      occupied (stage2Radix c) 0#64 mem t' := by
    rw [hL.stored]
    exact occupied_write_other hL.place.index_lt (Ne.symm hL.table_ne)
  rw [hL.countNew, hOcc]
  rcases hL.old with hFree | ⟨hBlock, _⟩
  · have hEmpty : occupied (stage2Radix c) 0#64 mem t' = 0 := by
      rw [occupied_eq_zero]
      intro j hj
      rw [hL.parts j hj, hFree]
      rfl
    simp [hFree, hEmpty]
  · have hNe : st.word t i ≠ 0#64 := by
      intro hZero
      rw [hZero] at hBlock
      exact absurd hBlock (by decide)
    have hFull : occupied (stage2Radix c) 0#64 mem t' = 512 := by
      refine occupied_full fun j hj => ?_
      rw [hL.parts j hj]
      exact partDesc_ne_zero hBlock _ _
    simp [hNe, hFull]

/-- The table of the replaced entry has one more entry in use if it was free. -/
theorem count_old : st'.useCount t = 1 + occupied (stage2Radix c) 0#64 st'.xlatTables t := by
  have hOcc : occupied (stage2Radix c) 0#64
        (write (stage2Radix c) mem t i (tableDesc c t')) t +
      (if mem (slot (stage2Radix c) t i) = 0#64 then 0 else 1) =
      occupied (stage2Radix c) 0#64 mem t + (if tableDesc c t' = 0#64 then 0 else 1) :=
    occupied_write_same hL.place.index_lt
  have hMem : occupied (stage2Radix c) 0#64 mem t =
      occupied (stage2Radix c) 0#64 st.xlatTables t :=
    occupied_congr fun j hj => hL.same t j hL.table_ne hj
  have hWord : mem (slot (stage2Radix c) t i) = st.word t i :=
    hL.same t i hL.table_ne hL.place.index_lt
  have hOld := hL.wf.count t hL.place.inTree
  rw [hWord, if_neg (tableDesc_ne_zero c t'), ← hL.stored] at hOcc
  rw [hL.countOld]
  split_ifs at hOcc ⊢ <;> omega

/-- The entries of the tree are the link, the parts behind it, and the old ones. -/
theorem entry_cases {x : Word} (hρ : ρ < 512 ^ (d' + 1))
    (hLook : entryAt c st' base d' ρ = some x) :
    (d' = d ∧ ρ = r * 512 + i ∧ x = tableDesc c t') ∨
      (d' = d + 1 ∧ ∃ j < 512, ρ = (r * 512 + i) * 512 + j ∧
        x = partDesc (st.word t i) (d + 1) j) ∨
      entryAt c st base d' ρ = some x := by
  by_cases hIn : Within c d (r * 512 + i) d' ρ
  · rcases Nat.lt_trichotomy d' (d + 1) with hlt | rfl | hgt
    · obtain rfl : d' = d := by
        have := hIn.1
        omega
      have hEq : ρ = r * 512 + i := by simpa [Below] using hIn.2
      rw [hEq, hL.self] at hLook
      exact .inl ⟨rfl, hEq, (Option.some.inj hLook).symm⟩
    · have hDiv : ρ / 512 = r * 512 + i := by
        simpa [stage2Radix] using hIn.2
      have hSplit : ρ = (r * 512 + i) * 512 + ρ % 512 := by omega
      have hj : ρ % 512 < 512 := Nat.mod_lt _ (by decide)
      rw [hSplit, hL.part hj] at hLook
      exact .inr (.inl ⟨rfl, _, hj, hSplit, (Option.some.inj hLook).symm⟩)
    · rw [hL.deep hgt hIn] at hLook
      cases hLook
  · rw [hL.other hρ hIn] at hLook
    exact .inr (.inr hLook)

theorem entries_ok {x : Word} (hρ : ρ < 512 ^ (d' + 1)) (hLook : entryAt c st' base d' ρ = some x) :
    EntryOk d' x := by
  obtain ⟨-, -, rfl⟩ | ⟨rfl, j, hj, -, rfl⟩ | hOld := hL.entry_cases hρ hLook
  · exact .inr (.inl (type_tableDesc c t'))
  · exact (partDesc_ok (c := c) hL.depth_lt hL.old hj).1
  · exact hL.wf.entries d' ρ x hρ hOld

theorem pool_zero (hu : u < c.maxTables) (hZero : st'.useCount u = 0) (hj : j < 512) :
    st'.word u j = 0#64 := by
  have hNew : u ≠ t' := by
    rintro rfl
    have := hL.count_new
    omega
  have hOld : u ≠ t := by
    rintro rfl
    have := hL.count_old
    omega
  rw [hL.words hOld hNew hj]
  rw [hL.countOther u hOld hNew] at hZero
  exact hL.wf.poolZero u hu hZero j hj

/-- The pool stays well formed. -/
theorem wellFormed :
    WellFormed c st' base where
  tree := by
    rw [hL.stored]
    exact isTree_write_link hL.tree_mem hL.place.region_lt hL.place_mem hL.place.index_lt
      hL.fresh_mem hL.link hL.leaves_mem
  inPool := by
    intro u hIn
    rcases hL.inTree_cases hIn with hOld | rfl
    · exact hL.wf.inPool u hOld
    · exact hL.inPool
  count := by
    intro u hIn
    by_cases hu' : u = t'
    · rw [hu']
      exact hL.count_new
    · by_cases hu : u = t
      · rw [hu]
        exact hL.count_old
      · have hOcc : occupied (stage2Radix c) 0#64 st'.xlatTables u =
            occupied (stage2Radix c) 0#64 st.xlatTables u :=
          occupied_congr fun j hj => hL.words hu hu' hj
        rw [hL.countOther u hu hu', hOcc]
        exact hL.wf.count u ((hL.inTree_cases hIn).resolve_right hu')
  entries := fun _ _ _ hρ hLook => hL.entries_ok hρ hLook
  poolZero := fun _ hu hZero _ hj => hL.pool_zero hu hZero hj

end Linked

theorem vmTableIndex_slot (hj : j < 512) : vmTableIndex (u * 512 + j) = u := by
  unfold vmTableIndex xlatNumEntries
  omega

/-- The words of a filled table. -/
theorem fillTable_slot (st : XlatPool) (u : Nat) (entry : Nat → Word) {v : Nat} (hj : j < 512) :
    (fillTable st u entry).xlatTables (v * 512 + j) =
      if v = u then entry j else st.xlatTables (v * 512 + j) := by
  have hDiv : (v * 512 + j) / xlatNumEntries = v := by
    unfold xlatNumEntries
    omega
  have hMod : (v * 512 + j) % xlatNumEntries = j := by
    unfold xlatNumEntries
    omega
  simp [fillTable, hDiv, hMod]

/-- `vm_expand_to_table` finds no free table, or links one. -/
theorem vmExpandToTable_cases (hWF : WellFormed c st base) (hPlace : Place c st base d r t i)
    (hd : d < 2) (hLeaf : (stage2Radix c).link d (st.word t i) = none) :
    vmExpandToTable c st (t * 512 + i) (d + 1) = (st, none) ∨
      ∃ st' t' mem, vmExpandToTable c st (t * 512 + i) (d + 1) = (st', some t') ∧
        Linked c st st' base d r t i t' mem := by
  have hOk := hWF.entries d _ _ hPlace.region hPlace.entryAt
  cases hNew : vmNewTable c st with
  | none => exact .inl (by simp [vmExpandToTable, hNew])
  | some new =>
    obtain ⟨st₁, t'⟩ := new
    obtain ⟨hLt, hZero, rfl⟩ := vmNewTable_eq_some hNew
    have hNe : t ≠ t' := by
      rintro rfl
      exact not_inTree_of_count_zero hWF hZero hPlace.inTree
    have hIdx := vmTableIndex_slot (u := t) hPlace.index_lt
    have hIdx' : vmTableIndex (t' * 512) = t' := by
      simpa using vmTableIndex_slot (u := t') (show 0 < 512 by decide)
    refine .inr ?_
    by_cases hFree : st.word t i = 0#64
    · -- the free table is empty already, which is what an empty entry stands for
      have hFree' : vmIsFreeDesc (st.xlatTables (t * 512 + i)) = true :=
        (vmIsFreeDesc_iff hOk).mpr hFree
      refine ⟨_, t', st.xlatTables, by simp [vmExpandToTable, hNew, hFree']; rfl, ?_⟩
      exact
        { wf := hWF, place := hPlace, depth_lt := hd, leaf := hLeaf, inPool := hLt, free := hZero
          same := fun _ _ _ _ => rfl
          parts := fun j hj => by
            rw [hWF.poolZero t' hLt hZero j hj, hFree]
            rfl
          stored := rfl
          countNew := by simp [setPte, vmTableUsage, hIdx, set_apply, hFree, hNe.symm]
          countOld := by simp [setPte, vmTableUsage, hIdx, set_apply, hFree, hNe]
          countOther := fun u hu hu' => by
            simp [setPte, vmTableUsage, hIdx, set_apply, hu, hu'] }
    · have hFree' : vmIsFreeDesc (st.xlatTables (t * 512 + i)) = false := by
        rw [← Bool.not_eq_true]
        exact fun h => hFree ((vmIsFreeDesc_iff hOk).mp h)
      refine ⟨_, t', (fillTable st t' (splitDesc (st.word t i) (d + 1))).xlatTables,
        by simp only [vmExpandToTable, hNew, hFree', Bool.false_eq_true, if_false]; rfl, ?_⟩
      exact
        { wf := hWF, place := hPlace, depth_lt := hd, leaf := hLeaf, inPool := hLt, free := hZero
          same := fun u j hu hj => by
            show (fillTable st t' _).xlatTables (u * 512 + j) = _
            rw [fillTable_slot _ _ _ hj, if_neg hu]
            rfl
          parts := fun j hj => by
            show (fillTable st t' _).xlatTables (t' * 512 + j) = _
            rw [fillTable_slot _ _ _ hj, if_pos rfl, partDesc]
            show _ = if vmIsFreeDesc (st.xlatTables (t * 512 + i)) = true then _ else _
            rw [hFree']
            rfl
          stored := rfl
          countNew := by
            simp [setPte, vmTableUsage, fillTable, xlatNumEntries, hIdx', hFree]
          countOld := by
            simp [setPte, vmTableUsage, fillTable, xlatNumEntries, hIdx', set_apply, hFree, hNe]
          countOther := fun u hu hu' => by
            simp [setPte, vmTableUsage, fillTable, xlatNumEntries, hIdx', set_apply, hu'] }

end Expand

end Zvm.Stage2
