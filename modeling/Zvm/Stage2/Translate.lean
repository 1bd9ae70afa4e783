import Zvm.Stage2.Elementary

/-!
# Elementary changes and the walk

What a stored leaf and a linked table do to the translation of a guest address:
the first changes it within the region of the entry and nowhere else, the second
does not change it at all.
-/

namespace Zvm.Stage2

open Zvm.Verified.RadixTree

/-- The region at depth `d` that guest address `ipa` is in. -/
def regionOf (ipa d : Nat) : Nat := pageOf ipa / 512 ^ (2 - d)

theorem reg_pageOf (c : PoolConfig) (ipa d : Nat) :
    reg (stage2Radix c) (pageOf ipa) d = regionOf ipa d := rfl

theorem pageOf_lt (ipa : Nat) : pageOf ipa < 512 ^ 3 := by
  unfold pageOf
  omega

variable {d ipa d' : Nat}

theorem regionOf_lt (ipa : Nat) (hd : d ≤ 2) : regionOf ipa d < 512 ^ (d + 1) := by
  unfold regionOf
  apply Nat.div_lt_of_lt_mul
  rw [← Nat.pow_add, show 2 - d + (d + 1) = 3 by omega]
  exact pageOf_lt ipa

theorem regionOf_succ_div (ipa : Nat) (hd : d < 2) :
    regionOf ipa (d + 1) / 512 = regionOf ipa d := by
  unfold regionOf
  rw [Nat.div_div_eq_div_mul, ← Nat.pow_succ, show (2 - (d + 1)).succ = 2 - d by omega]

theorem depth_cases (hd : d ≤ 2) : d = 0 ∨ d = 1 ∨ d = 2 := by omega

/-- The index the code computes from an address is that of its region. -/
theorem xlatTableVaIdx_eq (ipa : Nat) (hd : d ≤ 2) :
    xlatTableVaIdx ipa (d + 1) = regionOf ipa d % 512 := by
  unfold xlatTableVaIdx regionOf pageOf levelToVaSizeShift xlatLastLevel xlatNumEntries
  rcases depth_cases hd with rfl | rfl | rfl <;> omega

/-- Below the 39-bit limit the region is the address over the size of the region. -/
theorem regionOf_eq (hd : d ≤ 2) (hIpa : ipa < 2 ^ 39) :
    regionOf ipa d = ipa / 2 ^ regionShift d := by
  unfold regionOf pageOf regionShift levelToVaSizeShift xlatLastLevel
  rcases depth_cases hd with rfl | rfl | rfl <;> omega

theorem regionShift_succ (hd : d < 2) : regionShift d = regionShift (d + 1) + 9 := by
  unfold regionShift levelToVaSizeShift xlatLastLevel
  omega

/-! ## Leaves -/

section Leaves

variable {c : PoolConfig} {st st' : XlatPool} {base d r t i t' : Nat} {e : Word}
  {mem : Nat → Word}

theorem exists_leaf (c : PoolConfig) (st : XlatPool) (base v : Nat) :
    ∃ d e, PageLeaf c st base v d e :=
  ⟨_, _, walk_eq_iff.mp rfl⟩

theorem translate_of_leaf (hLeaf : PageLeaf c st base (pageOf ipa) d e) :
    translate c st base ipa = leafOut d e ipa := by
  simp only [translate, walk_eq_iff.mpr hLeaf]

theorem PageLeaf.entryOk (hWF : WellFormed c st base)
    (hLeaf : PageLeaf c st base (pageOf ipa) d e) : EntryOk d e :=
  hWF.entries d _ e (regionOf_lt ipa hLeaf.depth_le) hLeaf.look

theorem leafOut_zero (d ipa : Nat) : leafOut d 0#64 ipa = none := by
  unfold leafOut isMapping
  split <;> simp

/-- A leaf maps nothing exactly when it is empty. -/
theorem leafOut_eq_none_iff (hWF : WellFormed c st base)
    (hLeaf : PageLeaf c st base (pageOf ipa) d e) : leafOut d e ipa = none ↔ e = 0#64 := by
  constructor
  · intro hNone
    by_contra hNe
    have hMap := (PageLeaf.entryOk hWF hLeaf).isMapping hLeaf.depth_le hLeaf.leaf hNe
    simp [leafOut, hMap] at hNone
  · rintro rfl
    exact leafOut_zero d ipa

/-- The leaf at a place, for the addresses in its region. -/
theorem Place.leafAt (hPlace : Place c st base d r t i) (hIn : regionOf ipa d = r * 512 + i)
    (hLeaf : (stage2Radix c).link d (st.word t i) = none) :
    PageLeaf c st base (pageOf ipa) d (st.word t i) :=
  ⟨hPlace.depth_le, by rw [reg_pageOf, hIn]; exact hPlace.entryAt, hLeaf⟩

/-! ## A stored leaf -/

section

variable (hS : LeafStored c st st' base d r t i e)
include hS

theorem LeafStored.leaf_in (hIn : regionOf ipa d = r * 512 + i) :
    PageLeaf c st' base (pageOf ipa) d e :=
  ⟨hS.place.depth_le, by rw [reg_pageOf, hIn]; exact hS.self, hS.leaf⟩

theorem LeafStored.leaf_out {x : Word} (hOut : regionOf ipa d ≠ r * 512 + i) :
    PageLeaf c st' base (pageOf ipa) d' x ↔ PageLeaf c st base (pageOf ipa) d' x := by
  unfold PageLeaf
  rw [hS.stored]
  exact leafAt_write_of_ne hS.wf.tree hS.place.region_lt hS.place.tableAt hS.place.index_lt
    (pageOf_lt ipa) hOut

/-- Addresses in the region of the stored leaf are translated by it. -/
theorem LeafStored.translate_in (hIn : regionOf ipa d = r * 512 + i) :
    translate c st' base ipa = leafOut d e ipa :=
  translate_of_leaf (hS.leaf_in hIn)

/-- Other addresses are translated as before. -/
theorem LeafStored.translate_out (hOut : regionOf ipa d ≠ r * 512 + i) :
    translate c st' base ipa = translate c st base ipa := by
  obtain ⟨d', x, hLeaf⟩ := exists_leaf c st base (pageOf ipa)
  rw [translate_of_leaf hLeaf, translate_of_leaf ((hS.leaf_out hOut).mpr hLeaf)]

end

/-- Unlinking an empty table changes no translation. -/
theorem LeafStored.translate_unlink (hS : LeafStored c st st' base d r t i 0#64) {u : Nat}
    (hLink : (stage2Radix c).link d (st.word t i) = some u) (ipa : Nat) :
    translate c st' base ipa = translate c st base ipa := by
  by_cases hIn : regionOf ipa d = r * 512 + i
  · have hd := depth_lt_of_link hS.place.depth_le hLink
    have hTable : tableAt c st base (d + 1) (regionOf ipa (d + 1) / 512) = some u := by
      rw [regionOf_succ_div ipa hd, hIn]
      exact hS.place.tableAt_succ.trans hLink
    have hOld : PageLeaf c st base (pageOf ipa) (d + 1) 0#64 := by
      refine ⟨hd, ?_, link_zero c _⟩
      show look (stage2Radix c) st.xlatTables base (d + 1) (regionOf ipa (d + 1)) = _
      rw [look]
      show Option.map _ (tableAt c st base (d + 1) (regionOf ipa (d + 1) / 512)) = _
      rw [hTable]
      exact congrArg some (hS.behind u hLink _ (mod_fan_lt (R := stage2Radix c) _))
    rw [hS.translate_in hIn, translate_of_leaf hOld, leafOut_zero, leafOut_zero]
  · exact hS.translate_out hIn

/-! ## A linked table -/

theorem Linked.leaf_in (hL : Linked c st st' base d r t i t' mem)
    (hIn : regionOf ipa d = r * 512 + i) :
    PageLeaf c st' base (pageOf ipa) (d + 1)
      (partDesc (st.word t i) (d + 1) (regionOf ipa (d + 1) % 512)) := by
  unfold PageLeaf
  rw [hL.stored, ← hL.parts _ (Nat.mod_lt _ (by decide))]
  exact leafAt_write_link hL.tree_mem hL.place.region_lt hL.place_mem hL.place.index_lt
    hL.depth_lt hL.fresh_mem hL.link hL.leaves_mem hIn

theorem Linked.leaf_out (hL : Linked c st st' base d r t i t' mem) {x : Word}
    (hOut : regionOf ipa d ≠ r * 512 + i) :
    PageLeaf c st' base (pageOf ipa) d' x ↔ PageLeaf c st base (pageOf ipa) d' x := by
  unfold PageLeaf
  rw [hL.stored, leafAt_write_of_ne hL.tree_mem hL.place.region_lt hL.place_mem
    hL.place.index_lt (pageOf_lt ipa) hOut]
  exact leafAt_congr_unreached hL.fresh hL.same (pageOf_lt ipa)

/-- A block and its parts translate the same. -/
theorem leafOut_partDesc {old : Word} (hd : d < 2)
    (hOld : old = 0#64 ∨ (old &&& 3#64 = 1#64 ∧ 2 ^ regionShift d ∣ outAddr old)) (ipa : Nat) :
    leafOut (d + 1) (partDesc old (d + 1) (regionOf ipa (d + 1) % 512)) ipa =
      leafOut d old ipa := by
  rcases hOld with rfl | ⟨hBlock, hAlign⟩
  · rw [leafOut_zero]
    exact leafOut_zero _ _
  · have hIdx : regionOf ipa (d + 1) % 512 = ipa / 2 ^ regionShift (d + 1) % 512 :=
      (xlatTableVaIdx_eq ipa (show d + 1 ≤ 2 by omega)).symm
    have hOut : outAddr (splitDesc old (d + 1) (regionOf ipa (d + 1) % 512)) =
        outAddr old + regionOf ipa (d + 1) % 512 * 2 ^ regionShift (d + 1) :=
      outAddr_splitDesc (by omega) (by omega) (Nat.mod_lt _ (by decide)) hAlign
    have hType : splitDesc old (d + 1) (regionOf ipa (d + 1) % 512) &&& 3#64 =
        if d + 1 + 1 = xlatLastLevel then 3#64 else 1#64 := type_splitDesc hBlock
    have hPart : isMapping (d + 1) (splitDesc old (d + 1) (regionOf ipa (d + 1) % 512)) = true := by
      unfold isMapping
      rw [hType]
      by_cases hLast : d + 1 = 2 <;> simp [hLast, xlatLastLevel]
      omega
    have hMap : isMapping d old = true := by
      simp [isMapping, show d ≠ 2 by omega, hBlock]
    rw [partDesc, vmIsFreeDesc_block hBlock]
    simp only [Bool.false_eq_true, if_false, leafOut, hPart, hMap, if_true]
    rw [attrsOf_splitDesc old (by omega) (Nat.mod_lt _ (by decide)), hOut, hIdx]
    rw [regionShift_succ hd] at hAlign ⊢
    obtain ⟨q, hq⟩ := hAlign
    have hPos : 0 < 2 ^ regionShift (d + 1) := Nat.two_pow_pos _
    rw [hq, Nat.pow_add]
    generalize 2 ^ regionShift (d + 1) = s at hPos ⊢
    have hWhole : s * 2 ^ 9 * q / (s * 2 ^ 9) = q := Nat.mul_div_cancel_left q (by omega)
    have hParts : (s * 2 ^ 9 * q + ipa / s % 512 * s) / s = 2 ^ 9 * q + ipa / s % 512 := by
      rw [show s * 2 ^ 9 * q + ipa / s % 512 * s = s * (2 ^ 9 * q + ipa / s % 512) by ring]
      exact Nat.mul_div_cancel_left _ hPos
    have hMod : ipa % (s * 2 ^ 9) = ipa % s + s * (ipa / s % 512) := Nat.mod_mul
    rw [hWhole, hParts, hMod]
    congr 2
    ring

/-- Replacing an entry by a table changes no translation. -/
theorem Linked.translate (hL : Linked c st st' base d r t i t' mem) (ipa : Nat) :
    translate c st' base ipa = translate c st base ipa := by
  by_cases hIn : regionOf ipa d = r * 512 + i
  · rw [translate_of_leaf (hL.leaf_in hIn), translate_of_leaf (hL.place.leafAt hIn hL.leaf)]
    exact leafOut_partDesc hL.depth_lt hL.old ipa
  · obtain ⟨d', x, hLeaf⟩ := exists_leaf c st base (pageOf ipa)
    rw [translate_of_leaf hLeaf, translate_of_leaf ((hL.leaf_out hIn).mpr hLeaf)]

/-! ## An empty base table -/

/-- Nothing is linked from an empty base table. -/
theorem tableAt_empty (hZero : ∀ j < 512, st.word base j = 0#64) {r' u : Nat}
    (hAt : tableAt c st base d' r' = some u) : d' = 0 ∧ u = base := by
  induction d' generalizing r' u with
  | zero => exact ⟨rfl, (Option.some.inj hAt).symm⟩
  | succ d' ih =>
    have hAt' : table (stage2Radix c) st.xlatTables base (d' + 1) r' = some u := hAt
    rw [table_succ] at hAt'
    obtain ⟨x, hLook, hLink⟩ := Option.bind_eq_some_iff.mp hAt'
    obtain ⟨v, hParent, hWord⟩ := look_eq_some hLook
    obtain ⟨rfl, rfl⟩ := ih hParent
    have hx : x = 0#64 := hWord.symm.trans (hZero _ (mod_fan_lt (R := stage2Radix c) _))
    rw [hx, link_zero] at hLink
    cases hLink

/-- A domain whose tables are all empty is well formed. -/
theorem wellFormed_empty (hBase : base < c.maxTables)
    (hZero : ∀ u < c.maxTables, ∀ j < 512, st.word u j = 0#64) (hCount : st.useCount base = 1) :
    WellFormed c st base where
  tree := by
    intro d₁ r₁ d₂ r₂ u h₁ h₂ hAt₁ hAt₂
    obtain ⟨rfl, _⟩ := tableAt_empty (hZero base hBase) hAt₁
    obtain ⟨rfl, _⟩ := tableAt_empty (hZero base hBase) hAt₂
    simp only [Nat.pow_zero, Nat.lt_one_iff] at h₁ h₂
    exact ⟨rfl, by rw [h₁, h₂]⟩
  inPool := by
    rintro u ⟨_, _, _, hAt⟩
    obtain ⟨_, rfl⟩ := tableAt_empty (hZero base hBase) hAt
    exact hBase
  count := by
    rintro u ⟨_, _, _, hAt⟩
    obtain ⟨_, rfl⟩ := tableAt_empty (hZero base hBase) hAt
    have hNone : occupied (stage2Radix c) 0#64 st.xlatTables u = 0 :=
      occupied_eq_zero.mpr (hZero u hBase)
    rw [hCount, hNone]
    rfl
  entries := by
    intro d' ρ x _ hLook
    obtain ⟨v, hAt, hWord⟩ := look_eq_some hLook
    obtain ⟨_, rfl⟩ := tableAt_empty (hZero base hBase) hAt
    exact .inl (hWord.symm.trans (hZero v hBase _ (mod_fan_lt (R := stage2Radix c) _)))
  poolZero := fun u hu _ j hj => hZero u hu j hj

/-- An empty base table translates nothing. -/
theorem translate_empty (hZero : ∀ j < 512, st.word base j = 0#64) (ipa : Nat) :
    translate c st base ipa = none := by
  obtain ⟨d', x, hLeaf⟩ := exists_leaf c st base (pageOf ipa)
  obtain ⟨v, hAt, hWord⟩ := look_eq_some hLeaf.look
  obtain ⟨_, rfl⟩ := tableAt_empty hZero hAt
  have hx : x = 0#64 := hWord.symm.trans (hZero _ (mod_fan_lt (R := stage2Radix c) _))
  rw [translate_of_leaf hLeaf, hx, leafOut_zero]

end Leaves

end Zvm.Stage2
