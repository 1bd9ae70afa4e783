import Zvm.Stage2.SetMapping

/-!
# Tables confined to a set of pages

The invariant behind tearing a domain down: a page is mapped only if it belongs to a
recorded partition, a table is linked only where it covers such a page, and a table
of the pool that is not linked is empty.  Then a domain with no partition left has
only empty tables.

While `vm_del_mapping` works below an entry, the tables on the path to it may have
become empty without being unlinked yet; the depth `d₀` and the address `v₀` of
`Confined` exempt the links above depth `d₀` on the path of `v₀`.
-/

namespace Zvm.Stage2

/-- The links that may still have to be erased. -/
def Exempt (d₀ v₀ d ρ : Nat) : Prop := d < d₀ ∧ regionOf v₀ d = ρ

/-- Only addresses whose page is in `pages` are mapped or have a table. -/
structure Confined (c : PoolConfig) (st : XlatPool) (base : Nat) (pages : Nat → Prop)
    (d₀ v₀ : Nat) : Prop where
  unlinked : ∀ u < c.maxTables, ¬ InTree c st base u → ∀ j < 512, st.word u j = 0#64
  leaves : ∀ d ρ e, ρ < 512 ^ (d + 1) → entryAt c st base d ρ = some e →
    (stage2Radix c).link d e = none → e ≠ 0#64 → ∀ ipa, regionOf ipa d = ρ → pages (pageOf ipa)
  links : ∀ d ρ e u, ρ < 512 ^ (d + 1) → entryAt c st base d ρ = some e →
    (stage2Radix c).link d e = some u →
    Exempt d₀ v₀ d ρ ∨ ∃ ipa, regionOf ipa d = ρ ∧ pages (pageOf ipa)

section Elementary

variable {c : PoolConfig} {st st' : XlatPool} {base d r t i t' d₀ v₀ : Nat} {e : Word}
  {mem : Nat → Word} {pages pages' : Nat → Prop}

/-- Storing an entry, empty or of pages in the set. -/
theorem LeafStored.confined (hS : LeafStored c st st' base d r t i e)
    (hC : Confined c st base pages d₀ v₀)
    (hIn : e ≠ 0#64 → ∀ ipa, regionOf ipa d = r * 512 + i → pages (pageOf ipa)) :
    Confined c st' base pages d₀ v₀ where
  unlinked := by
    intro u hu hOut j hj
    rw [hS.words (hS.ne_of_out hOut) hj]
    by_cases hOld : InTree c st base u
    · exact hS.behind u (hS.child_of_removed hOld hOut) j hj
    · exact hC.unlinked u hu hOld j hj
  leaves := by
    intro d' ρ x hρ hEntry hLeaf hNe
    obtain ⟨rfl, rfl, rfl⟩ | hOld := hS.entry_cases hρ hEntry
    · exact hIn hNe
    · exact hC.leaves d' ρ x hρ hOld hLeaf hNe
  links := by
    intro d' ρ x u hρ hEntry hLink
    obtain ⟨rfl, rfl, rfl⟩ | hOld := hS.entry_cases hρ hEntry
    · rw [hS.leaf] at hLink
      cases hLink
    · exact hC.links d' ρ x u hρ hOld hLink

/-- Linking a table where the set has a page. -/
theorem Linked.confined (hL : Linked c st st' base d r t i t' mem)
    (hC : Confined c st base pages d₀ v₀)
    (hMeet : ∃ ipa, regionOf ipa d = r * 512 + i ∧ pages (pageOf ipa)) :
    Confined c st' base pages d₀ v₀ where
  unlinked := by
    intro u hu hOut j hj
    obtain ⟨hNe, hNe', hOld⟩ := hL.ne_of_out hOut
    rw [hL.words hNe hNe' hj]
    exact hC.unlinked u hu hOld j hj
  leaves := by
    intro d' ρ x hρ hEntry hLeaf hNe
    obtain ⟨rfl, rfl, rfl⟩ | ⟨rfl, j, hj, rfl, rfl⟩ | hOld := hL.entry_cases hρ hEntry
    · rw [hL.link] at hLeaf
      cases hLeaf
    · -- a part in use is a part of an entry in use, which the set covers
      intro ipa hRegion
      have hParent : regionOf ipa d = r * 512 + i := by
        have hDiv := regionOf_succ_div ipa hL.depth_lt
        omega
      refine hC.leaves d (r * 512 + i) _ hL.place.region hL.place.entryAt hL.leaf ?_ ipa hParent
      intro hZero
      rw [hZero] at hNe
      exact hNe rfl
    · exact hC.leaves d' ρ x hρ hOld hLeaf hNe
  links := by
    intro d' ρ x u hρ hEntry hLink
    obtain ⟨rfl, rfl, -⟩ | ⟨rfl, j, hj, -, rfl⟩ | hOld := hL.entry_cases hρ hEntry
    · exact .inr hMeet
    · rw [(partDesc_ok hL.depth_lt hL.old hj).2] at hLink
      cases hLink
    · exact hC.links d' ρ x u hρ hOld hLink

theorem Cleared.confined (hClear : Cleared c base st st') (hC : Confined c st base pages d₀ v₀) :
    Confined c st' base pages d₀ v₀ := by
  induction hClear with
  | done => exact hC
  | unlink hS _ _ ih => exact ih (hS.confined hC fun hNe => absurd rfl hNe)

end Elementary

/-! ## `vm_set_mapping` -/

section SetLoop

variable {c : PoolConfig} {base d n : Nat} {mayOverwrite : Bool} {s s' : SetLoop}
  {pages : Nat → Prop}

/-- The pages of the range the loop still has to map are in the set. -/
def Covered (pages : Nat → Prop) (s : SetLoop) : Prop :=
  s.desc ≠ 0#64 → ∀ k < s.size, pages (pageOf (s.virt + k))

theorem pageOf_mod (x k : Nat) : pageOf (x % 2 ^ 64 + k) = pageOf (x + k) := by
  unfold pageOf
  omega

theorem Covered.same (hCov : Covered pages s) (hRange : SameRange s s') : Covered pages s' := by
  obtain ⟨hVirt, hSize, hDesc⟩ := hRange
  intro hNe k hk
  rw [hVirt]
  exact hCov (hDesc ▸ hNe) k (hSize ▸ hk)

theorem Covered.advanced (hCov : Covered pages s) (hMove : Advanced s s' n) : Covered pages s' := by
  intro hNe k hk
  have hDesc : s.desc ≠ 0#64 := by
    intro hZero
    rw [hMove.desc, if_pos hZero] at hNe
    exact hNe hZero
  rw [hMove.size] at hk
  rw [hMove.virt, pageOf_mod, Nat.add_assoc]
  exact hCov hDesc (n + k) (by omega)

/-- The whole region of an aligned address, as offsets from it. -/
theorem exists_offset {virt ipa : Nat} (hd : d ≤ 2) (hVirt : 2 ^ regionShift d ∣ virt)
    (hRegion : regionOf ipa d = regionOf virt d) :
    ∃ k < 2 ^ regionShift d, pageOf (virt + k) = pageOf ipa := by
  refine ⟨ipa % 2 ^ regionShift d, Nat.mod_lt _ (Nat.two_pow_pos _), ?_⟩
  unfold regionOf pageOf at hRegion
  unfold regionShift levelToVaSizeShift xlatLastLevel at *
  unfold pageOf
  rcases depth_cases hd with rfl | rfl | rfl <;> omega

theorem Iteration.confined (hP : OnPath c base s d) (hSize : s.size ≠ 0)
    (hIter : Iteration c base mayOverwrite s d (.inl s')) (hC : Confined c s.pool base pages 0 0)
    (hCov : Covered pages s) : Confined c s'.pool base pages 0 0 ∧ Covered pages s' := by
  have hSplit := regionOf_split s.virt d
  cases hIter with
  | descend _ hPool hRange _ => exact ⟨hPool ▸ hC, hCov.same hRange⟩
  | skip _ _ _ hPool hMove _ => exact ⟨hPool ▸ hC, hCov.advanced hMove⟩
  | expand _ hSuper hL hRange _ =>
    refine ⟨hL.confined hC ⟨s.virt, hSplit.symm, ?_⟩, hCov.same hRange⟩
    by_cases hFree : s.entry d = 0#64
    · -- an empty entry is replaced only to map something
      refine hCov ?_ 0 (by omega)
      intro hZero
      rw [hFree, hZero] at hSuper
      simp [vmIsDescSuperset] at hSuper
    · exact hC.leaves d _ _ hP.place.region hP.place.entryAt hL.leaf hFree s.virt hSplit.symm
  | store _ _ hVirt _ hS hClear hMove _ =>
    refine ⟨hClear.confined (hS.confined hC ?_), hCov.advanced hMove⟩
    intro hNe ipa hRegion
    have hDesc : s.desc ≠ 0#64 := fun h => hNe ((blockDesc_eq_zero_iff hP.type).mpr h)
    rw [hSplit] at hRegion
    obtain ⟨k, hk, hPage⟩ := exists_offset hP.depth_le hVirt hRegion
    have hLe := hMove.le
    rw [← hPage]
    exact hCov hDesc k (by omega)

/-- `vm_set_mapping` returns, and keeps the tables confined to any set that contains
the pages it maps. -/
theorem vmSetMapping_confined (mayOverwrite : Bool) {st : XlatPool} {virt size : Nat}
    {desc : Word} (hWF : WellFormed c st base) (hVirt : 2 ^ 12 ∣ virt) (hSize : 2 ^ 12 ∣ size)
    (hType : desc &&& 3#64 = 0#64) (hC : Confined c st base pages 0 0)
    (hCov : desc ≠ 0#64 → ∀ k < size, pages (pageOf (virt + k))) :
    ∃ st' ret, vmSetMapping c st base virt size desc mayOverwrite = some (st', ret) ∧
      WellFormed c st' base ∧ Confined c st' base pages 0 0 := by
  suffices hRule : ∃ st' ret, vmSetMapping c st base virt size desc mayOverwrite =
      some (st', ret) ∧ (Confined c st base pages 0 0 →
        (desc ≠ 0#64 → ∀ k < size, pages (pageOf (virt + k))) →
        WellFormed c st' base ∧ Confined c st' base pages 0 0) by
    obtain ⟨st', ret, hEq, hPost⟩ := hRule
    exact ⟨st', ret, hEq, hPost hC hCov⟩
  refine setLoop_rule (fun s st' _ => Confined c s.pool base pages 0 0 → Covered pages s →
    WellFormed c st' base ∧ Confined c st' base pages 0 0) ?_ ?_ ?_ _ _ 0
    (onPath_start hWF hVirt hSize hType) (Nat.lt_succ_self _)
  · intro s d hP _ hC _
    exact ⟨hP.wf, hC⟩
  · intro s d st' ret hP _ hIter hC _
    cases hIter <;> exact ⟨hP.wf, hC⟩
  · intro s d s' st' ret hP hSize hIter _ hPost hC hCov
    obtain ⟨hC', hCov'⟩ := hIter.confined hP hSize hC hCov
    exact hPost hC' hCov'

end SetLoop

end Zvm.Stage2
