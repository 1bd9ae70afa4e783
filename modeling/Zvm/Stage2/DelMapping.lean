import Zvm.Stage2.Confined

/-!
# `vm_del_mapping`

Unmapping a range, level by level: a block that the range covers only in part is
replaced by a table first, and a table that has become empty is unlinked.

Two things in the code look wrong and turn out not to matter for what is mapped.
`vm_dec_table_ref` means to release a table but adds 1 to its use count, so that the
table is never handed out again; and when no table is left to split a block, the
whole block is erased.
-/

namespace Zvm.Stage2

open Zvm.Verified.FunArray Zvm.Verified.RadixTree

/-- `vm_dec_table_ref`: `0xFFFFFFFF` is -1 as an `int`, and it is negated. -/
def vmDecTableRef (st : XlatPool) (pte : Nat) : XlatPool :=
  let refUnit : Int := -1
  vmTableUsage st pte (-refUnit)

/-- `*pte = 0` and its use count. -/
def eraseEntry (st : XlatPool) (pte : Nat) : XlatPool := vmTableUsage (setPte st pte 0#64) pte (-1)

/-- The part of the loop's body for an entry in use; `sub` deletes in a table of the
next level. -/
def delUsed (c : PoolConfig) (sub : XlatPool → Nat → Nat → Nat → XlatPool) (st : XlatPool)
    (pte virt step level : Nat) : XlatPool :=
  if vmIsTableDesc (st.xlatTables pte) level then
    let subtable := vmPteDescTable c (st.xlatTables pte)
    let st₁ := sub st subtable virt step
    if vmIsTableUnused st₁ (subtable * xlatNumEntries) then
      eraseEntry (vmDecTableRef st₁ (subtable * xlatNumEntries)) pte
    else st₁
  else eraseEntry st pte

/-- The body of the loop, for `step` bytes at `virt`. -/
def delEntry (c : PoolConfig) (sub : XlatPool → Nat → Nat → Nat → XlatPool) (st : XlatPool)
    (table virt step level : Nat) : XlatPool :=
  let pte := table * xlatNumEntries + xlatTableVaIdx virt level
  if vmIsFreeDesc (st.xlatTables pte) then st
  else if step ≠ 2 ^ levelToVaSizeShift level ∧ vmIsBlockDesc (st.xlatTables pte) = true then
    -- split the block; whether there was a table for it is not looked at
    delUsed c sub (vmExpandToTable c st pte level).1 pte virt step level
  else delUsed c sub st pte virt step level

/-- The loop over the entries of a table, in at most `fuel` iterations. -/
def delLoop (levelSize : Nat) (body : XlatPool → Nat → Nat → XlatPool) :
    Nat → XlatPool → Nat → Nat → XlatPool
  | 0, st, _, _ => st
  | fuel + 1, st, virt, size =>
    if size = 0 then st
    else
      let step := min (levelSize - virt % levelSize) size
      delLoop levelSize body fuel (body st virt step) ((virt + step) % 2 ^ 64) (size - step)

/-- `vm_del_mapping` in a table with `levels` levels from it to the last one.  Each
iteration deals with at least one byte, so `size` iterations are enough. -/
def vmDelMapping (c : PoolConfig) : Nat → XlatPool → Nat → Nat → Nat → XlatPool
  | 0, st, _, _, _ => st
  | levels + 1, st, table, virt, size =>
    let level := xlatLastLevel - levels
    delLoop (2 ^ levelToVaSizeShift level)
      (fun st virt step => delEntry c (vmDelMapping c levels) st table virt step level)
      size st virt size

/-- `vm_remove_map`. -/
def vmRemoveMap (c : PoolConfig) (st : XlatPool) (base virt size : Nat) : XlatPool :=
  vmDelMapping c (xlatLastLevel - baseXlatLevel + 1) st base virt size

/-! ## Confinement to fewer pages -/

section Pages

variable {c : PoolConfig} {st st' : XlatPool} {base d r t i d₀ v₀ v : Nat} {e : Word}
  {pages gone : Nat → Prop}

/-- The pages of the addresses from `virt` to `virt + size`. -/
def RangePages (virt size p : Nat) : Prop := ∃ k < size, pageOf (virt + k) = p

theorem regionOf_eq_mod (ipa : Nat) (hd : d ≤ 2) :
    regionOf ipa d = ipa / 2 ^ regionShift d % 512 ^ (d + 1) := by
  unfold regionOf pageOf regionShift levelToVaSizeShift xlatLastLevel
  rcases depth_cases hd with rfl | rfl | rfl <;> omega

/-- Every region has an address. -/
theorem exists_regionOf {ρ : Nat} (hd : d ≤ 2) (hρ : ρ < 512 ^ (d + 1)) :
    ∃ ipa, regionOf ipa d = ρ := by
  refine ⟨ρ * 2 ^ regionShift d, ?_⟩
  rw [regionOf_eq_mod _ hd, Nat.mul_div_cancel _ (Nat.two_pow_pos _), Nat.mod_eq_of_lt hρ]

/-- Addresses of one page are in the same regions. -/
theorem regionOf_congr {ipa ipa' : Nat} (hPage : pageOf ipa = pageOf ipa') (d : Nat) :
    regionOf ipa d = regionOf ipa' d := by
  unfold regionOf
  rw [hPage]

/-- Addresses in one region are in one region above it. -/
theorem regionOf_above {ipa ipa' d' : Nat} (hLe : d' ≤ d) (hd : d ≤ 2)
    (hRegion : regionOf ipa d = regionOf ipa' d) : regionOf ipa d' = regionOf ipa' d' := by
  have hUp : ∀ x, regionOf x d' = regionOf x d / 512 ^ (d - d') := by
    intro x
    unfold regionOf
    rw [Nat.div_div_eq_div_mul, ← Nat.pow_add, show 2 - d + (d - d') = 2 - d' by omega]
  rw [hUp, hUp, hRegion]

theorem depth_le_of_entry {d' ρ : Nat} {x : Word} (hLook : entryAt c st base d' ρ = some x) :
    d' ≤ 2 := by
  obtain ⟨u, hAt, _⟩ := look_eq_some hLook
  by_contra hDeep
  have hNone : table (stage2Radix c) st.xlatTables base d' (ρ / (stage2Radix c).fan) = none :=
    table_eq_none_of_deep (show (stage2Radix c).depth < d' by show 2 < d'; omega)
  rw [hNone] at hAt
  cases hAt

/-- A link on the path of an address is above the leaf. -/
theorem link_above_leaf {ipa d' u : Nat} {x : Word} (hLeaf : PageLeaf c st base (pageOf ipa) d e)
    (hLook : entryAt c st base d' (regionOf ipa d') = some x)
    (hLink : (stage2Radix c).link d' x = some u) : d' < d := by
  have hd' := depth_le_of_entry hLook
  by_contra hGe
  rcases Nat.lt_or_eq_of_le (Nat.le_of_not_lt hGe) with hlt | rfl
  · have hNone : table (stage2Radix c) st.xlatTables base (d + 1) (regionOf ipa d) = none := by
      rw [table_succ, ← reg_pageOf c, hLeaf.look]
      exact hLeaf.leaf
    have hWithin : Within c d (regionOf ipa d) d' (regionOf ipa d') :=
      (below_reg_iff (R := stage2Radix c) (by omega) hd').mpr rfl
    obtain ⟨w, hAt, _⟩ := look_eq_some hLook
    exact absurd ((table_eq_none_of_below hNone (within_parent hlt hWithin)).symm.trans hAt)
      (by simp)
  · have hEq : x = e := Option.some.inj (hLook.symm.trans hLeaf.look)
    rw [hEq, hLeaf.leaf] at hLink
    cases hLink

/-- Once an entry is empty, the pages of its region can be taken out of the set. -/
theorem Confined.remove (hC : Confined c st base pages d v) (hd : d ≤ 2)
    (hEntry : entryAt c st base d (regionOf v d) = some 0#64)
    (hGone : ∀ ipa, gone (pageOf ipa) → regionOf ipa d = regionOf v d) :
    Confined c st base (fun p => pages p ∧ ¬ gone p) d v := by
  have hEmpty : ∀ ipa, gone (pageOf ipa) → PageLeaf c st base (pageOf ipa) d 0#64 := by
    intro ipa hOut
    exact ⟨hd, by rw [reg_pageOf, hGone ipa hOut]; exact hEntry, link_zero c d⟩
  refine ⟨hC.unlinked, ?_, ?_⟩
  · intro d' ρ x hρ hLook hLeaf hNe ipa hRegion
    refine ⟨hC.leaves d' ρ x hρ hLook hLeaf hNe ipa hRegion, fun hOut => ?_⟩
    -- the walk of `ipa` ends in the empty entry
    have hFull : PageLeaf c st base (pageOf ipa) d' x :=
      ⟨depth_le_of_entry hLook, by rw [reg_pageOf, hRegion]; exact hLook, hLeaf⟩
    exact hNe (hFull.unique (hEmpty ipa hOut)).2
  · intro d' ρ x u hρ hLook hLink
    rcases hC.links d' ρ x u hρ hLook hLink with hEx | ⟨ipa, hRegion, hIn⟩
    · exact .inl hEx
    · by_cases hOut : gone (pageOf ipa)
      · left
        have hShort := link_above_leaf (hEmpty ipa hOut) (hRegion ▸ hLook) hLink
        exact ⟨hShort, by rw [← hRegion, regionOf_above (by omega) hd (hGone ipa hOut)]⟩
      · exact .inr ⟨ipa, hRegion, hIn, hOut⟩

theorem Confined.deeper (hC : Confined c st base pages d v) :
    Confined c st base pages (d + 1) v where
  unlinked := hC.unlinked
  leaves := hC.leaves
  links := by
    intro d' ρ x u hρ hLook hLink
    rcases hC.links d' ρ x u hρ hLook hLink with ⟨hlt, hPath⟩ | hMeet
    · exact .inl ⟨by omega, hPath⟩
    · exact .inr hMeet

/-- The link at depth `d` need not be exempt any more. -/
theorem Confined.restrict (hC : Confined c st base pages (d + 1) v)
    (hMeet : ∀ x u, entryAt c st base d (regionOf v d) = some x →
      (stage2Radix c).link d x = some u →
      ∃ ipa, regionOf ipa d = regionOf v d ∧ pages (pageOf ipa)) :
    Confined c st base pages d v where
  unlinked := hC.unlinked
  leaves := hC.leaves
  links := by
    intro d' ρ x u hρ hLook hLink
    rcases hC.links d' ρ x u hρ hLook hLink with ⟨hLe, rfl⟩ | hIn
    · rcases Nat.lt_or_eq_of_le (Nat.le_of_lt_succ hLe) with hlt | rfl
      · exact .inl ⟨hlt, rfl⟩
      · exact .inr (hMeet x u hLook hLink)
    · exact .inr hIn

theorem Confined.mono {pages' : Nat → Prop} (hC : Confined c st base pages d v)
    (hSub : ∀ p, pages p → pages' p) :
    Confined c st base pages' d v where
  unlinked := hC.unlinked
  leaves := fun d' ρ x hρ hLook hLeaf hNe ipa hRegion =>
    hSub _ (hC.leaves d' ρ x hρ hLook hLeaf hNe ipa hRegion)
  links := by
    intro d' ρ x u hρ hLook hLink
    rcases hC.links d' ρ x u hρ hLook hLink with hEx | ⟨ipa, hRegion, hIn⟩
    · exact .inl hEx
    · exact .inr ⟨ipa, hRegion, hSub _ hIn⟩

/-- Which address of the table is taken for the path does not matter. -/
theorem Confined.path_congr {v' : Nat} (hC : Confined c st base pages d v) (hd : d ≤ 2)
    (hTable : regionOf v d / 512 = regionOf v' d / 512) :
    Confined c st base pages d v' where
  unlinked := hC.unlinked
  leaves := hC.leaves
  links := by
    intro d' ρ x u hρ hLook hLink
    rcases hC.links d' ρ x u hρ hLook hLink with ⟨hlt, rfl⟩ | hIn
    · left
      obtain ⟨n, rfl⟩ : ∃ n, d = n + 1 := ⟨d - 1, by omega⟩
      rw [regionOf_succ_div v (by omega), regionOf_succ_div v' (by omega)] at hTable
      exact ⟨hlt, (regionOf_above (by omega) (by omega) hTable).symm⟩
    · exact .inr hIn

end Pages

/-! ## One entry -/

/-- The pages `gone` were unmapped below the table of `v` at depth `d`. -/
structure Deleted (c : PoolConfig) (base d v : Nat) (st st' : XlatPool)
    (pages gone : Nat → Prop) : Prop where
  wf : WellFormed c st' base
  keep : ∀ d' r' u, d' ≤ d → r' < 512 ^ d' → tableAt c st base d' r' = some u →
    tableAt c st' base d' r' = some u
  confined : Confined c st' base (fun p => pages p ∧ ¬ gone p) d v

section Entry

variable {c : PoolConfig} {st st' : XlatPool} {base d t virt step : Nat}
  {pages gone : Nat → Prop}

/-- The addresses of a step are in the region of its first one. -/
theorem regionOf_step (hd : d ≤ 2) (hStep : step ≤ 2 ^ regionShift d - virt % 2 ^ regionShift d)
    {ipa : Nat} (hIn : RangePages virt step (pageOf ipa)) : regionOf ipa d = regionOf virt d := by
  obtain ⟨k, hk, hPage⟩ := hIn
  rw [← regionOf_congr hPage, regionOf_eq_mod _ hd, regionOf_eq_mod _ hd]
  have hSplit := Nat.div_add_mod virt (2 ^ regionShift d)
  have hEq : virt + k =
      2 ^ regionShift d * (virt / 2 ^ regionShift d) + (virt % 2 ^ regionShift d + k) := by
    omega
  rw [hEq, Nat.mul_add_div (Nat.two_pow_pos _),
    Nat.div_eq_of_lt (show virt % 2 ^ regionShift d + k < 2 ^ regionShift d by omega),
    Nat.add_zero]

/-- An entry that is empty already. -/
theorem deleted_free (hWF : WellFormed c st base) (hd : d ≤ 2)
    (hAt : tableAt c st base d (regionOf virt d / 512) = some t)
    (hC : Confined c st base pages d virt) (hFree : st.word t (regionOf virt d % 512) = 0#64)
    (hGone : ∀ ipa, gone (pageOf ipa) → regionOf ipa d = regionOf virt d) :
    Deleted c base d virt st st pages gone where
  wf := hWF
  keep := fun _ _ _ _ _ h => h
  confined := by
    have hEntry := (place_of_path hd hAt).entryAt
    rw [regionOf_split, hFree] at hEntry
    exact hC.remove hd hEntry hGone

/-- Erasing the entry. -/
theorem deleted_erased (hd : d ≤ 2)
    (hS : LeafStored c st st' base d (regionOf virt d / 512) t (regionOf virt d % 512) 0#64)
    (hC : Confined c st base pages d virt)
    (hGone : ∀ ipa, gone (pageOf ipa) → regionOf ipa d = regionOf virt d) :
    Deleted c base d virt st st' pages gone where
  wf := hS.wellFormed
  keep := fun _ _ _ hLe hr hOld => (hS.keep_of_le hr hLe).trans hOld
  confined := by
    have hEntry := hS.self
    rw [regionOf_split] at hEntry
    exact (hS.confined hC fun hNe => absurd rfl hNe).remove hd hEntry hGone

theorem leafStored_erase {r i : Nat} (hWF : WellFormed c st base)
    (hPlace : Place c st base d r t i) (hLeaf : (stage2Radix c).link d (st.word t i) = none)
    (hUsed : st.word t i ≠ 0#64) :
    LeafStored c st (eraseEntry st (t * 512 + i)) base d r t i 0#64 := by
  have hIdx := vmTableIndex_slot (u := t) hPlace.index_lt
  refine leafStored_of_leaf hWF hPlace hLeaf rfl (link_zero c d) (.inl rfl) ?_ fun u hu => ?_
  · simp [eraseEntry, vmTableUsage, setPte, hIdx, inUse, hUsed]
  · simp [eraseEntry, vmTableUsage, setPte, hIdx, set_apply, hu]

/-- Blocks are above the last level. -/
theorem depth_lt_of_block {x : Word} (hOk : EntryOk d x) (hBlock : x &&& 3#64 = 1#64) : d < 2 := by
  rcases hOk with rfl | hPage | ⟨hlt, _⟩
  · exact absurd hBlock (by decide)
  · rw [hPage] at hBlock
    exact absurd hBlock (by decide)
  · exact hlt

/-- A table that is still in use covers a page of the set. -/
theorem meets_of_used {u : Nat} (hWF : WellFormed c st base) (hd : d < 2)
    (hAt : tableAt c st base (d + 1) (regionOf virt d) = some u) (hUsed : st.useCount u ≠ 1)
    (hC : Confined c st base pages (d + 1) virt) :
    ∃ ipa, regionOf ipa d = regionOf virt d ∧ pages (pageOf ipa) := by
  have hr : regionOf virt d < 512 ^ (d + 1) := regionOf_lt virt (by omega)
  have hCount := hWF.count u ⟨d + 1, regionOf virt d, hr, hAt⟩
  have hNot : ¬ ∀ j < 512, st.word u j = 0#64 := by
    intro hZero
    have hNone : occupied (stage2Radix c) 0#64 st.xlatTables u = 0 := occupied_eq_zero.mpr hZero
    omega
  obtain ⟨j, hNot'⟩ := not_forall.mp hNot
  obtain ⟨hj, hNe⟩ := Classical.not_imp.mp hNot'
  have hPlace : Place c st base (d + 1) (regionOf virt d) u j := ⟨hr, hAt, hj⟩
  -- the page is found below the entry in use
  have hBelow : ∃ ipa, regionOf ipa (d + 1) = regionOf virt d * 512 + j ∧ pages (pageOf ipa) := by
    cases hLink : (stage2Radix c).link (d + 1) (st.word u j) with
    | none =>
      obtain ⟨ipa, hRegion⟩ := exists_regionOf (show d + 1 ≤ 2 by omega) hPlace.region
      exact ⟨ipa, hRegion, hC.leaves _ _ _ hPlace.region hPlace.entryAt hLink hNe ipa hRegion⟩
    | some w =>
      rcases hC.links _ _ _ w hPlace.region hPlace.entryAt hLink with ⟨hlt, _⟩ | hMeet
      · omega
      · exact hMeet
  obtain ⟨ipa, hRegion, hIn⟩ := hBelow
  refine ⟨ipa, ?_, hIn⟩
  rw [← regionOf_succ_div ipa hd, hRegion]
  omega

/-- After deleting in the table behind an entry, the table is unlinked if it is empty. -/
theorem deleted_table {u : Nat} (hd : d < 2)
    (hAt : tableAt c st base d (regionOf virt d / 512) = some t)
    (hLink : (stage2Radix c).link d (st.word t (regionOf virt d % 512)) = some u)
    (hSub : Deleted c base (d + 1) virt st st' pages gone) :
    Deleted c base d virt st
      (if vmIsTableUnused st' (u * 512) then
        eraseEntry (vmDecTableRef st' (u * 512)) (t * 512 + regionOf virt d % 512)
      else st') pages gone := by
  have hPlace := place_of_path (by omega) hAt
  have hChild : tableAt c st' base (d + 1) (regionOf virt d) = some u := by
    refine hSub.keep _ _ u (Nat.le_refl _) (regionOf_lt virt (by omega)) ?_
    rw [← regionOf_split virt d]
    exact hPlace.tableAt_succ.trans hLink
  have hPlace' : Place c st' base d (regionOf virt d / 512) t (regionOf virt d % 512) :=
    place_of_path (by omega) (hSub.keep _ _ t (by omega) hPlace.region_lt hAt)
  have hLink' : (stage2Radix c).link d (st'.word t (regionOf virt d % 512)) = some u := by
    rw [← hPlace'.tableAt_succ, regionOf_split]
    exact hChild
  have hIdxU : vmTableIndex (u * 512) = u := by
    simpa using vmTableIndex_slot (u := u) (show 0 < 512 by decide)
  split
  case isTrue hUnused =>
    have hOne : st'.useCount u = 1 := by simpa [vmIsTableUnused, hIdxU] using hUnused
    have hIn : InTree c st' base u := ⟨d + 1, _, regionOf_lt virt (by omega), hChild⟩
    have hIdx := vmTableIndex_slot (u := t) hPlace.index_lt
    have hNe := child_ne hSub.wf hPlace' hLink'
    have hS : LeafStored c st'
        (eraseEntry (vmDecTableRef st' (u * 512)) (t * 512 + regionOf virt d % 512))
        base d (regionOf virt d / 512) t (regionOf virt d % 512) 0#64 := by
      refine leafStored_unlink hSub.wf hPlace' hLink' (empty_of_unused hSub.wf hIn hOne) rfl ?_ ?_
      · simp [eraseEntry, vmDecTableRef, vmTableUsage, setPte, hIdx, hIdxU, set_apply,
          Ne.symm hNe]
        rfl
      · intro w hw hwu
        simp [eraseEntry, vmDecTableRef, vmTableUsage, setPte, hIdx, hIdxU, set_apply, hw, hwu]
    have hEntry := hS.self
    rw [regionOf_split] at hEntry
    refine ⟨hS.wellFormed, ?_, ?_⟩
    · intro d' r' w hLe hr hOld
      exact (hS.keep_of_le hr hLe).trans (hSub.keep d' r' w (by omega) hr hOld)
    · refine (hS.confined hSub.confined fun hNe => absurd rfl hNe).restrict ?_
      intro x w hLook hw
      rw [hEntry] at hLook
      rw [← Option.some.inj hLook, link_zero] at hw
      cases hw
  case isFalse hUsed =>
    have hNotOne : st'.useCount u ≠ 1 := by simpa [vmIsTableUnused, hIdxU] using hUsed
    refine ⟨hSub.wf, fun d' r' w hLe hr hOld => hSub.keep d' r' w (by omega) hr hOld, ?_⟩
    exact hSub.confined.restrict fun _ _ _ _ =>
      meets_of_used hSub.wf hd hChild hNotOne hSub.confined

theorem Linked.deleted {t' r i : Nat} {st₁ : XlatPool} {mem : Nat → Word}
    (hL : Linked c st st₁ base d r t i t' mem) (hDel : Deleted c base d virt st₁ st' pages gone) :
    Deleted c base d virt st st' pages gone where
  wf := hDel.wf
  keep := fun d' r' u hLe hr hOld => hDel.keep d' r' u hLe hr (hL.keep hr hOld)
  confined := hDel.confined

/-- Deleting in the next level unmaps the step. -/
def SubDeletes (c : PoolConfig) (base d virt step : Nat) (pages : Nat → Prop)
    (sub : XlatPool → Nat → Nat → Nat → XlatPool) : Prop :=
  d < 2 → ∀ st u, WellFormed c st base → tableAt c st base (d + 1) (regionOf virt d) = some u →
    Confined c st base pages (d + 1) virt →
    Deleted c base (d + 1) virt st (sub st u virt step) pages (RangePages virt step)

section

variable (hWF : WellFormed c st base) (hd : d ≤ 2)
  (hAt : tableAt c st base d (regionOf virt d / 512) = some t)
  (hC : Confined c st base pages d virt)
include hWF hd hAt hC

theorem delUsed_deleted {sub : XlatPool → Nat → Nat → Nat → XlatPool}
    (hStep : step ≤ 2 ^ regionShift d - virt % 2 ^ regionShift d)
    (hSub : SubDeletes c base d virt step pages sub)
    (hUsed : st.word t (regionOf virt d % 512) ≠ 0#64) :
    Deleted c base d virt st
      (delUsed c sub st (t * 512 + regionOf virt d % 512) virt step (d + 1)) pages
      (RangePages virt step) := by
  have hPlace := place_of_path hd hAt
  unfold delUsed
  rw [show st.xlatTables (t * 512 + regionOf virt d % 512) =
    st.word t (regionOf virt d % 512) from rfl]
  split
  case isTrue hDesc =>
    have hLink : (stage2Radix c).link d (st.word t (regionOf virt d % 512)) =
        some (vmPteDescTable c (st.word t (regionOf virt d % 512))) := by
      simp [stage2Radix, hDesc]
    have hlt := depth_lt_of_link hd hLink
    have hChild := hPlace.tableAt_succ.trans hLink
    rw [regionOf_split] at hChild
    exact deleted_table hlt hAt hLink (hSub hlt st _ hWF hChild hC.deeper)
  case isFalse hDesc =>
    have hLeaf := (link_eq_none_iff c d _).mpr (Bool.eq_false_iff.mpr hDesc)
    exact deleted_erased hd (leafStored_erase hWF hPlace hLeaf hUsed) hC
      fun ipa hIn => regionOf_step hd hStep hIn

/-- The body of the loop unmaps its step. -/
theorem delEntry_deleted {sub : XlatPool → Nat → Nat → Nat → XlatPool}
    (hStep : step ≤ 2 ^ regionShift d - virt % 2 ^ regionShift d)
    (hSub : SubDeletes c base d virt step pages sub) :
    Deleted c base d virt st (delEntry c sub st t virt step (d + 1)) pages
      (RangePages virt step) := by
  have hPlace := place_of_path hd hAt
  have hSplit := regionOf_split virt d
  have hOk := hWF.entries d _ _ hPlace.region hPlace.entryAt
  have hIdx : t * xlatNumEntries + xlatTableVaIdx virt (d + 1) =
      t * 512 + regionOf virt d % 512 := by
    rw [xlatTableVaIdx_eq virt hd]
    rfl
  unfold delEntry
  simp only [hIdx]
  rw [show st.xlatTables (t * 512 + regionOf virt d % 512) =
    st.word t (regionOf virt d % 512) from rfl]
  split
  case isTrue hFree =>
    exact deleted_free hWF hd hAt hC ((vmIsFreeDesc_iff hOk).mp hFree)
      fun ipa hIn => regionOf_step hd hStep hIn
  case isFalse hFree =>
    have hUsed : st.word t (regionOf virt d % 512) ≠ 0#64 :=
      fun h => hFree ((vmIsFreeDesc_iff hOk).mpr h)
    split
    case isTrue hPart =>
      have hBlock : st.word t (regionOf virt d % 512) &&& 3#64 = 1#64 := by
        simpa [vmIsBlockDesc] using hPart.2
      have hLeaf := link_block c (d := d) hBlock
      rcases vmExpandToTable_cases hWF hPlace (depth_lt_of_block hOk hBlock) hLeaf with
        hNone | ⟨st₁, t', mem, hEq, hL⟩
      · rw [hNone]
        exact delUsed_deleted hWF hd hAt hC hStep hSub hUsed
      · rw [hEq]
        have hAt₁ := hL.keep hPlace.region_lt hAt
        have hWord : st₁.word t (regionOf virt d % 512) = tableDesc c t' :=
          Option.some.inj ((place_of_path hd hAt₁).entryAt.symm.trans hL.self)
        have hMeet := hC.leaves d _ _ hPlace.region hPlace.entryAt hLeaf hUsed virt hSplit.symm
        exact hL.deleted (delUsed_deleted hL.wellFormed hd hAt₁
          (hL.confined hC ⟨virt, hSplit.symm, hMeet⟩) hStep hSub
          (hWord ▸ tableDesc_ne_zero c t'))
    case isFalse => exact delUsed_deleted hWF hd hAt hC hStep hSub hUsed

end

end Entry

/-! ## The loop and the levels -/

section Loop

variable {c : PoolConfig} {st st' : XlatPool} {base d t : Nat} {pages : Nat → Prop}

/-- The addresses of the range are all in one table at depth `d`. -/
def InTable (d virt size : Nat) : Prop :=
  ∀ k < size, regionOf (virt + k) d / 512 = regionOf virt d / 512

theorem regionOf_mod (x k d : Nat) : regionOf (x % 2 ^ 64 + k) d = regionOf (x + k) d :=
  regionOf_congr (pageOf_mod x k) d

theorem delLoop_zero (levelSize : Nat) (body : XlatPool → Nat → Nat → XlatPool) (fuel : Nat)
    (st : XlatPool) (virt : Nat) : delLoop levelSize body fuel st virt 0 = st := by
  cases fuel <;> simp [delLoop]

theorem deleted_nothing {virt : Nat} (hWF : WellFormed c st base)
    (hC : Confined c st base pages d virt) :
    Deleted c base d virt st st pages (RangePages virt 0) where
  wf := hWF
  keep := fun _ _ _ _ _ h => h
  confined := by
    refine hC.mono fun p hp => ⟨hp, ?_⟩
    rintro ⟨k, hk, _⟩
    omega

/-- **The loop** unmaps its range, if its body unmaps a step. -/
theorem delLoop_deleted {body : XlatPool → Nat → Nat → XlatPool} (hd : d ≤ 2)
    (hBody : ∀ st pages virt step, WellFormed c st base →
      tableAt c st base d (regionOf virt d / 512) = some t →
      Confined c st base pages d virt →
      step ≤ 2 ^ regionShift d - virt % 2 ^ regionShift d →
      Deleted c base d virt st (body st virt step) pages (RangePages virt step))
    (fuel : Nat) : ∀ st pages virt size, size ≤ fuel → InTable d virt size →
      WellFormed c st base → tableAt c st base d (regionOf virt d / 512) = some t →
      Confined c st base pages d virt →
      Deleted c base d virt st (delLoop (2 ^ regionShift d) body fuel st virt size) pages
        (RangePages virt size) := by
  induction fuel with
  | zero =>
    intro st pages virt size hFuel _ hWF _ hC
    obtain rfl : size = 0 := by omega
    exact deleted_nothing hWF hC
  | succ fuel ih =>
    intro st pages virt size hFuel hIn hWF hAt hC
    unfold delLoop
    by_cases hZero : size = 0
    · simp only [hZero, if_true]
      exact deleted_nothing hWF hC
    · simp only [hZero, if_false]
      have hRem := Nat.mod_lt virt (Nat.two_pow_pos (regionShift d))
      generalize hStepEq : min (2 ^ regionShift d - virt % 2 ^ regionShift d) size = step
      have hFirst := hBody st pages virt step hWF hAt hC (by omega)
      by_cases hLast : step = size
      · -- nothing is left
        rw [hLast] at hFirst ⊢
        rw [Nat.sub_self, delLoop_zero]
        exact hFirst
      · have hNext : regionOf ((virt + step) % 2 ^ 64) d / 512 = regionOf virt d / 512 := by
          have := hIn step (by omega)
          rwa [← Nat.add_zero ((virt + step) % 2 ^ 64), regionOf_mod]
        have hr : regionOf virt d / 512 < 512 ^ d :=
          region_div_lt (R := stage2Radix c) (regionOf_lt virt hd)
        have hAt₁ := hFirst.keep d _ t (Nat.le_refl d) hr hAt
        have hRest := ih (body st virt step) _ ((virt + step) % 2 ^ 64) (size - step) (by omega)
          (fun k hk => by
            rw [regionOf_mod, hNext, Nat.add_assoc]
            exact hIn (step + k) (by omega))
          hFirst.wf (by rw [hNext]; exact hAt₁)
          (hFirst.confined.path_congr hd hNext.symm)
        refine ⟨hRest.wf, ?_, ?_⟩
        · intro d' r' u hLe hr' hOld
          exact hRest.keep d' r' u hLe hr' (hFirst.keep d' r' u hLe hr' hOld)
        · refine (hRest.confined.path_congr hd hNext).mono ?_
          rintro p ⟨⟨hp, hNotFirst⟩, hNotRest⟩
          refine ⟨hp, ?_⟩
          rintro ⟨k, hk, rfl⟩
          by_cases hkStep : k < step
          · exact hNotFirst ⟨k, hkStep, rfl⟩
          · refine hNotRest ⟨k - step, by omega, ?_⟩
            rw [pageOf_mod]
            congr 1
            omega

/-- The addresses of a step are in the table behind its entry. -/
theorem inTable_step {virt step : Nat} (hd : d < 2)
    (hStep : step ≤ 2 ^ regionShift d - virt % 2 ^ regionShift d) : InTable (d + 1) virt step := by
  intro k hk
  rw [regionOf_succ_div _ hd, regionOf_succ_div _ hd]
  exact regionOf_step (by omega) hStep ⟨k, hk, rfl⟩

/-- `vm_del_mapping` unmaps its range, by induction on the levels below the table. -/
theorem vmDelMapping_deleted (levels : Nat) :
    ∀ d, d + levels = 2 → ∀ st pages t virt size,
    InTable d virt size → WellFormed c st base →
    tableAt c st base d (regionOf virt d / 512) = some t → Confined c st base pages d virt →
    Deleted c base d virt st (vmDelMapping c (levels + 1) st t virt size) pages
      (RangePages virt size) := by
  induction levels with
  | zero =>
    intro d hDepth st pages t virt size hIn hWF hAt hC
    obtain rfl : d = 2 := by omega
    refine delLoop_deleted (by decide) ?_ size st pages virt size (Nat.le_refl _) hIn hWF hAt hC
    intro st pages virt step hWF hAt hC hStep
    exact delEntry_deleted hWF (by decide) hAt hC hStep fun hlt => absurd hlt (by decide)
  | succ levels ih =>
    intro d hDepth st pages t virt size hIn hWF hAt hC
    have hLevel : xlatLastLevel - (levels + 1) = d + 1 := by
      unfold xlatLastLevel
      omega
    unfold vmDelMapping
    simp only [hLevel]
    refine delLoop_deleted (by omega) ?_ size st pages virt size (Nat.le_refl _) hIn hWF hAt hC
    intro st pages virt step hWF hAt hC hStep
    refine delEntry_deleted hWF (by omega) hAt hC hStep ?_
    intro hlt st₁ u hWF₁ hAt₁ hC₁
    refine ih (d + 1) (by omega) st₁ pages u virt step (inTable_step hlt hStep) hWF₁ ?_ hC₁
    rw [regionOf_succ_div virt hlt]
    exact hAt₁

/-- `vm_remove_map` takes the pages of its range out of the set. -/
theorem vmRemoveMap_confined (virt size : Nat) (hWF : WellFormed c st base)
    (hC : Confined c st base pages 0 0) :
    WellFormed c (vmRemoveMap c st base virt size) base ∧
      Confined c (vmRemoveMap c st base virt size) base
        (fun p => pages p ∧ ¬ RangePages virt size p) 0 0 := by
  have hTop : ∀ ipa, regionOf ipa 0 / 512 = 0 := fun ipa =>
    Nat.div_eq_of_lt (regionOf_lt ipa (by decide))
  have hDel : Deleted c base 0 virt st (vmRemoveMap c st base virt size) pages
      (RangePages virt size) :=
    vmDelMapping_deleted 2 0 rfl st pages base virt size (fun k _ => by rw [hTop, hTop]) hWF rfl
      (hC.path_congr (by decide) (by rw [hTop, hTop]))
  exact ⟨hDel.wf, hDel.confined.path_congr (by decide) (by rw [hTop, hTop])⟩

/-- Tables confined to no page at all are empty. -/
theorem Confined.empty (hC : Confined c st base pages 0 0) (hNone : ∀ p, ¬ pages p) :
    ∀ u < c.maxTables, ∀ j < 512, st.word u j = 0#64 := by
  have hBase : ∀ j < 512, st.word base j = 0#64 := by
    intro j hj
    have hPlace : Place c st base 0 0 base j := ⟨by decide, rfl, hj⟩
    cases hLink : (stage2Radix c).link 0 (st.word base j) with
    | none =>
      by_contra hNe
      obtain ⟨ipa, hRegion⟩ := exists_regionOf (show 0 ≤ 2 by decide) hPlace.region
      exact hNone _ (hC.leaves 0 _ _ hPlace.region hPlace.entryAt hLink hNe ipa hRegion)
    | some w =>
      rcases hC.links 0 _ _ w hPlace.region hPlace.entryAt hLink with ⟨hlt, _⟩ | ⟨ipa, _, hIn⟩
      · omega
      · exact absurd hIn (hNone _)
  intro u hu j hj
  by_cases hIn : InTree c st base u
  · obtain ⟨d', r', _, hAt⟩ := hIn
    obtain ⟨_, rfl⟩ := tableAt_empty hBase hAt
    exact hBase j hj
  · exact hC.unlinked u hu hIn j hj

end Loop

end Zvm.Stage2
