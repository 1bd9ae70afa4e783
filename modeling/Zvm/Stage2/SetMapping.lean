import Zvm.Stage2.Translate

/-!
# `vm_set_mapping`

The loop that maps a range, or unmaps it when the descriptor is 0.  Each
iteration looks at one entry on the path of the current address: it descends,
gives up because the entry is in use, skips a block that is judged to cover the
range already, replaces the entry by a table, or stores a block or page and
starts again from the base table at the next address.

`setStep` is one iteration and `Iteration` says what it can do, in terms of the
elementary changes.  `setLoop_invariant` is the rule for the loop; it includes that
the loop returns.
-/

namespace Zvm.Stage2

open Zvm.Verified.FunArray Zvm.Verified.RadixTree

/-- The return value: 0, `-EBUSY` or `-ENOMEM`. -/
inductive MapRet where
  | ok
  | eBusy
  | eNoMem
  deriving DecidableEq

/-- The variables of the loop. -/
structure SetLoop where
  pool : XlatPool
  virt : Nat
  size : Nat
  desc : Word
  table : Nat
  level : Nat
  ptes : Nat → Nat

/-- The inner loop, which frees unused tables from `level` upwards. -/
def freeUnused (st : XlatPool) (ptes : Nat → Nat) : Nat → Nat → XlatPool
  | 0, _ => st
  | level + 1, pte =>
    if level + 1 ≠ baseXlatLevel ∧ vmIsTableUnused st pte then
      let parent := ptes level
      freeUnused
        (vmTableUsage (setPte (vmFreeTable st pte) parent (blockDesc 0#64 level)) parent (-1))
        ptes level parent
    else st

/-- Adjust the use count for the new entry and store it. -/
def storeEntry (st : XlatPool) (pte level : Nat) (desc : Word) : XlatPool :=
  let st₁ := if vmIsFreeDesc (st.xlatTables pte) then vmTableUsage st pte 1 else st
  let st₂ := if desc = 0#64 then vmTableUsage st₁ pte (-1) else st₁
  setPte st₂ pte (blockDesc desc level)

/-- `move_on`: the next address, from the base table. -/
def moveOn (s : SetLoop) (pool : XlatPool) (base levelSize : Nat) : SetLoop :=
  { s with
    pool := pool
    virt := (s.virt + levelSize) % 2 ^ 64
    desc := if s.desc = 0#64 then s.desc else s.desc + BitVec.ofNat 64 levelSize
    size := s.size - levelSize
    table := base
    level := baseXlatLevel }

/-- One iteration of the loop; `size` is not 0. -/
def setStep (c : PoolConfig) (base : Nat) (mayOverwrite : Bool) (s : SetLoop) :
    SetLoop ⊕ (XlatPool × MapRet) :=
  let pte := s.table * xlatNumEntries + xlatTableVaIdx s.virt s.level
  let s := { s with ptes := set s.ptes s.level pte }
  let entry := s.pool.xlatTables pte
  let levelSize := 2 ^ levelToVaSizeShift s.level
  if vmIsTableDesc entry s.level then
    .inl { s with level := s.level + 1, table := vmPteDescTable c entry }
  else if !mayOverwrite && !vmIsFreeDesc entry then
    .inr (s.pool, .eBusy)
  else if vmIsDescSuperset entry s.desc s.level then
    .inl (moveOn s s.pool base (min (levelSize - s.virt % levelSize) s.size))
  else if s.size < levelSize ∨ s.virt % levelSize ≠ 0 ∨
      vmIsDescBlockAligned s.desc levelSize = false then
    match vmExpandToTable c s.pool pte s.level with
    | (pool, none) => .inr (pool, .eNoMem)
    | (pool, some table) => .inl { s with pool := pool, table := table, level := s.level + 1 }
  else
    .inl (moveOn s (freeUnused (storeEntry s.pool pte s.level s.desc) s.ptes s.level pte) base
      levelSize)

/-- The loop, with a bound on the number of iterations. -/
def setLoop (c : PoolConfig) (base : Nat) (mayOverwrite : Bool) :
    Nat → SetLoop → Option (XlatPool × MapRet)
  | 0, _ => none
  | fuel + 1, s =>
    if s.size = 0 then some (s.pool, .ok)
    else
      match setStep c base mayOverwrite s with
      | .inl s' => setLoop c base mayOverwrite fuel s'
      | .inr result => some result

/-- `vm_set_mapping`. -/
def vmSetMapping (c : PoolConfig) (st : XlatPool) (base virt size : Nat) (desc : Word)
    (mayOverwrite : Bool) : Option (XlatPool × MapRet) :=
  setLoop c base mayOverwrite (3 * size + 3)
    { pool := st, virt := virt, size := size, desc := desc, table := base
      level := baseXlatLevel, ptes := fun _ => 0 }

/-! ## Freeing unused tables -/

/-- Links to empty tables were erased, one after the other. -/
inductive Cleared (c : PoolConfig) (base : Nat) : XlatPool → XlatPool → Prop where
  | done (st : XlatPool) : Cleared c base st st
  | unlink {st st₁ st' : XlatPool} {d r t i u : Nat}
      (hS : LeafStored c st st₁ base d r t i 0#64)
      (hLink : (stage2Radix c).link d (st.word t i) = some u)
      (hRest : Cleared c base st₁ st') : Cleared c base st st'

section Cleanup

variable {c : PoolConfig} {st st' : XlatPool} {base d r t i u : Nat}

theorem Cleared.wellFormed (hC : Cleared c base st st') (hWF : WellFormed c st base) :
    WellFormed c st' base := by
  induction hC with
  | done => exact hWF
  | unlink hS _ _ ih => exact ih hS.wellFormed

theorem Cleared.translate (hC : Cleared c base st st') (ipa : Nat) :
    translate c st' base ipa = translate c st base ipa := by
  induction hC with
  | done => rfl
  | unlink hS hLink _ ih => rw [ih, hS.translate_unlink hLink ipa]

/-- A table whose use count is 1 has no entry in use. -/
theorem empty_of_unused (hWF : WellFormed c st base) (hIn : InTree c st base u)
    (hOne : st.useCount u = 1) : ∀ j < 512, st.word u j = 0#64 := by
  have hCount := hWF.count u hIn
  have hZero : occupied (stage2Radix c) 0#64 st.xlatTables u = 0 := by omega
  exact occupied_eq_zero.mp hZero

theorem ne_zero_of_link (hLink : (stage2Radix c).link d (st.word t i) = some u) :
    st.word t i ≠ 0#64 := by
  intro hZero
  rw [hZero, link_zero] at hLink
  cases hLink

section

variable (hWF : WellFormed c st base) (hPlace : Place c st base d r t i)
  (hLink : (stage2Radix c).link d (st.word t i) = some u)
include hWF hPlace hLink

/-- What is behind an erased entry has left the tree. -/
theorem ne_of_unlinked (hSt : st'.xlatTables = write (stage2Radix c) st.xlatTables t i 0#64)
    {v : Nat} (hIn : InTree c st' base v) : v ≠ u := by
  rintro rfl
  obtain ⟨d', r', hr', hAt⟩ := hIn
  rw [hSt] at hAt
  obtain ⟨hOld, hOut⟩ := table_of_write_leaf hWF.tree hPlace.region_lt hPlace.tableAt
    hPlace.index_lt (link_zero c d) hr' hAt
  obtain ⟨rfl, rfl⟩ := hWF.tree d' r' (d + 1) (r * 512 + i) v hr' hPlace.region hOld
    (hPlace.tableAt_succ.trans hLink)
  exact hOut (below_refl _ _)

/-- Erasing the link to an empty table, whatever its use count becomes. -/
theorem leafStored_unlink (hEmpty : ∀ j < 512, st.word u j = 0#64)
    (hSt : st'.xlatTables = write (stage2Radix c) st.xlatTables t i 0#64)
    (hCount : st'.useCount t = st.useCount t - 1)
    (hOthers : ∀ v, v ≠ t → v ≠ u → st'.useCount v = st.useCount v) :
    LeafStored c st st' base d r t i 0#64 where
  wf := hWF
  place := hPlace
  stored := hSt
  leaf := link_zero c d
  ok := .inl rfl
  behind := by
    intro v hv
    obtain rfl : v = u := Option.some.inj (hv.symm.trans hLink)
    exact hEmpty
  count := by
    rw [hCount, inUse, if_neg (ne_zero_of_link hLink)]
    simp [inUse]
  others := fun v hv hIn => hOthers v hv (ne_of_unlinked hWF hPlace hLink hSt hIn)
  freed := by
    intro v hLt hv hZero j hj
    by_cases hvu : v = u
    · rw [hvu]
      exact hEmpty j hj
    · rw [hOthers v hv hvu] at hZero
      exact hWF.poolZero v hLt hZero j hj

/-- A child table is not its parent. -/
theorem child_ne : u ≠ t := by
  rintro rfl
  obtain ⟨hd, _⟩ := hWF.tree (d + 1) (r * 512 + i) d r u hPlace.region hPlace.region_lt
    (hPlace.tableAt_succ.trans hLink) hPlace.tableAt
  omega

end

/-- The entries `ptes` on the path of an address, above depth `d`. -/
def PathPtes (c : PoolConfig) (st : XlatPool) (base virt d : Nat) (ptes : Nat → Nat) : Prop :=
  ∀ d' < d, ∃ u, tableAt c st base d' (regionOf virt d' / 512) = some u ∧
    ptes (d' + 1) = u * 512 + regionOf virt d' % 512

theorem regionOf_split (virt d : Nat) :
    regionOf virt d / 512 * 512 + regionOf virt d % 512 = regionOf virt d :=
  Nat.div_add_mod' _ _

theorem place_of_path {virt : Nat} (hd : d ≤ 2)
    (hAt : tableAt c st base d (regionOf virt d / 512) = some t) :
    Place c st base d (regionOf virt d / 512) t (regionOf virt d % 512) :=
  ⟨region_div_lt (R := stage2Radix c) (regionOf_lt virt hd), hAt, Nat.mod_lt _ (by decide)⟩

theorem PathPtes.mono {virt : Nat} {ptes : Nat → Nat} (hd : d ≤ 3)
    (hPath : PathPtes c st base virt d ptes)
    (hKeep : ∀ d' r u, d' < d → r < 512 ^ d' → tableAt c st base d' r = some u →
      tableAt c st' base d' r = some u) : PathPtes c st' base virt d ptes := by
  intro d' hd'
  obtain ⟨u, hAt, hPtes⟩ := hPath d' hd'
  have hLt : regionOf virt d' / 512 < 512 ^ d' :=
    region_div_lt (R := stage2Radix c) (regionOf_lt virt (by omega))
  exact ⟨u, hKeep d' _ u hd' hLt hAt, hPtes⟩

/-- The inner loop erases links to empty tables on the path, and frees them. -/
theorem freeUnused_cleared (virt : Nat) {pte : Nat} {ptes : Nat → Nat}
    (hWF : WellFormed c st base) (hd : d ≤ 2)
    (hAt : tableAt c st base d (regionOf virt d / 512) = some u) (hPte : vmTableIndex pte = u)
    (hPath : PathPtes c st base virt d ptes) :
    Cleared c base st (freeUnused st ptes (d + 1) pte) ∧
      (Accounted c st base → Accounted c (freeUnused st ptes (d + 1) pte) base) := by
  induction d generalizing st u pte with
  | zero => exact ⟨.done st, id⟩
  | succ d ih =>
    unfold freeUnused
    split
    case isFalse => exact ⟨.done st, id⟩
    case isTrue hUnused =>
      have hOne : st.useCount u = 1 := by simpa [vmIsTableUnused, hPte] using hUnused.2
      obtain ⟨t, hParent, hPtes⟩ := hPath d (by omega)
      have hPlace := place_of_path (by omega) hParent
      rw [regionOf_succ_div virt (by omega)] at hAt
      have hLink : (stage2Radix c).link d (st.word t (regionOf virt d % 512)) = some u := by
        rw [← hPlace.tableAt_succ, regionOf_split]
        exact hAt
      have hIn : InTree c st base u :=
        ⟨d + 1, regionOf virt d, regionOf_lt virt (by omega), hAt⟩
      have hIdx : vmTableIndex (t * 512 + regionOf virt d % 512) = t :=
        vmTableIndex_slot (Nat.mod_lt _ (by decide))
      have hNe := child_ne hWF hPlace hLink
      dsimp only
      generalize hNew : vmTableUsage (setPte (vmFreeTable st pte) (ptes (d + 1)) _) _ _ = st₁
      have hCounts : ∀ v, st₁.useCount v =
          if v = t then st.useCount t - 1 else if v = u then 0 else st.useCount v := by
        intro v
        rw [← hNew, hPtes]
        simp [vmTableUsage, setPte, vmFreeTable, hIdx, hPte, set_apply, Ne.symm hNe]
        rfl
      have hWords : st₁.xlatTables =
          write (stage2Radix c) st.xlatTables t (regionOf virt d % 512) 0#64 := by
        rw [← hNew, hPtes]
        rfl
      have hS := leafStored_unlink hWF hPlace hLink (empty_of_unused hWF hIn hOne) hWords
        (by rw [hCounts, if_pos rfl]) fun v hv hvu => by rw [hCounts, if_neg hv, if_neg hvu]
      obtain ⟨hClear, hAcc⟩ := ih hS.wellFormed (by omega)
        ((hS.keep_of_le hPlace.region_lt (Nat.le_refl _)).trans hParent)
        (show vmTableIndex (ptes (d + 1)) = t by rw [hPtes, hIdx])
        (PathPtes.mono (by omega) (fun d' hd' => hPath d' (by omega))
          fun d' r' w hd' hr hAt' => (hS.keep_of_le hr (by omega)).trans hAt')
      refine ⟨.unlink hS hLink hClear, fun hA => hAcc (hS.accounted ?_ ?_ hA)⟩
      · intro v hv
        obtain rfl : u = v := Option.some.inj (hLink.symm.trans hv)
        rw [hCounts, if_neg hNe, if_pos rfl]
      · intro v hv
        rw [hCounts, if_neg hv]
        split_ifs
        · exact .inr rfl
        · exact .inl rfl

end Cleanup

/-! ## Storing an entry -/

section Store

variable {c : PoolConfig} {st : XlatPool} {base d r t i : Nat} {desc : Word}

theorem type_blockDesc (hType : desc &&& 3#64 = 0#64) (hNe : desc ≠ 0#64) :
    blockDesc desc (d + 1) &&& 3#64 = if d = 2 then 3#64 else 1#64 := by
  unfold blockDesc xlatLastLevel
  by_cases hLast : d = 2
  · simp [hNe, hLast, type_or_three]
  · simp [hNe, hLast, type_or_one hType]

theorem blockDesc_eq_zero_iff (hType : desc &&& 3#64 = 0#64) :
    blockDesc desc (d + 1) = 0#64 ↔ desc = 0#64 := by
  constructor
  · intro hZero
    by_contra hNe
    have hTyped := type_blockDesc (d := d) hType hNe
    rw [hZero] at hTyped
    split at hTyped <;> exact absurd hTyped (by decide)
  · rintro rfl
    rfl

theorem fields_blockDesc (desc : Word) (level : Nat) :
    outAddr (blockDesc desc level) = outAddr desc ∧
      attrsOf (blockDesc desc level) = attrsOf desc := by
  unfold blockDesc
  split
  case isTrue hZero => simp [hZero]
  case isFalse =>
    apply fields_or_type
    split <;> simp

/-- A stored block or page is a leaf. -/
theorem link_blockDesc (hType : desc &&& 3#64 = 0#64) :
    (stage2Radix c).link d (blockDesc desc (d + 1)) = none := by
  by_cases hNe : desc = 0#64
  · rw [hNe]
    exact link_zero c d
  · by_cases hLast : d = 2
    · rw [hLast]
      exact (stage2Radix c).link_last _
    · have hTyped := type_blockDesc (d := d) hType hNe
      rw [if_neg hLast] at hTyped
      exact link_block c hTyped

theorem entryOk_blockDesc (hd : d ≤ 2) (hType : desc &&& 3#64 = 0#64)
    (hAlign : 2 ^ regionShift d ∣ outAddr desc) : EntryOk d (blockDesc desc (d + 1)) := by
  by_cases hNe : desc = 0#64
  · exact .inl ((blockDesc_eq_zero_iff hType).mpr hNe)
  · have hTyped := type_blockDesc (d := d) hType hNe
    by_cases hLast : d = 2
    · exact .inr (.inl (by rw [hTyped, if_pos hLast]))
    · refine .inr (.inr ⟨by omega, by rw [hTyped, if_neg hLast], ?_⟩)
      rw [(fields_blockDesc desc (d + 1)).1]
      exact hAlign

theorem storeEntry_useCount {u level : Nat} (hi : i < 512) (hu : u ≠ t) :
    (storeEntry st (t * 512 + i) level desc).useCount u = st.useCount u := by
  unfold storeEntry
  dsimp only
  split_ifs <;> simp [setPte, vmTableUsage, vmTableIndex_slot hi, set_apply, hu]

/-- The use count follows the stored entry. -/
theorem storeEntry_stored (hWF : WellFormed c st base) (hPlace : Place c st base d r t i)
    (hLeaf : (stage2Radix c).link d (st.word t i) = none) (hType : desc &&& 3#64 = 0#64)
    (hAlign : 2 ^ regionShift d ∣ outAddr desc) :
    LeafStored c st (storeEntry st (t * 512 + i) (d + 1) desc) base d r t i
      (blockDesc desc (d + 1)) := by
  refine leafStored_of_leaf hWF hPlace hLeaf ?_ (link_blockDesc hType)
    (entryOk_blockDesc hPlace.depth_le hType hAlign) ?_
    fun u hu => storeEntry_useCount hPlace.index_lt hu
  · unfold storeEntry
    dsimp only
    split_ifs <;> rfl
  · have hFree : vmIsFreeDesc (st.xlatTables (t * 512 + i)) = true ↔ st.word t i = 0#64 :=
      vmIsFreeDesc_iff (hWF.entries d _ _ hPlace.region hPlace.entryAt)
    have hZero := blockDesc_eq_zero_iff (d := d) hType
    unfold storeEntry inUse
    simp only [hFree, hZero]
    split_ifs <;> simp [setPte, vmTableUsage, vmTableIndex_slot hPlace.index_lt]

end Store

/-! ## One iteration -/

/-- The loop is at depth `d` on the path of its address. -/
structure OnPath (c : PoolConfig) (base : Nat) (s : SetLoop) (d : Nat) : Prop where
  wf : WellFormed c s.pool base
  depth_le : d ≤ 2
  level : s.level = d + 1
  table : tableAt c s.pool base d (regionOf s.virt d / 512) = some s.table
  ptes : PathPtes c s.pool base s.virt d s.ptes
  virt_aligned : 2 ^ 12 ∣ s.virt
  size_aligned : 2 ^ 12 ∣ s.size
  type : s.desc &&& 3#64 = 0#64

/-- The entry the loop looks at. -/
def SetLoop.entry (s : SetLoop) (d : Nat) : Word := s.pool.word s.table (regionOf s.virt d % 512)

/-- The loop still works on the same range. -/
def SameRange (s s' : SetLoop) : Prop := s'.virt = s.virt ∧ s'.size = s.size ∧ s'.desc = s.desc

/-- The loop has dealt with the next `n` bytes of its range. -/
structure Advanced (s s' : SetLoop) (n : Nat) : Prop where
  pos : 0 < n
  le : n ≤ s.size
  aligned : 2 ^ 12 ∣ n
  virt : s'.virt = (s.virt + n) % 2 ^ 64
  size : s'.size = s.size - n
  desc : s'.desc = if s.desc = 0#64 then s.desc else s.desc + BitVec.ofNat 64 n

/-- The part of the range that is in the region of the current entry. -/
def chunk (s : SetLoop) (d : Nat) : Nat :=
  min (2 ^ regionShift d - s.virt % 2 ^ regionShift d) s.size

/-- What one iteration can do at depth `d`. -/
inductive Iteration (c : PoolConfig) (base : Nat) (mayOverwrite : Bool) (s : SetLoop) (d : Nat) :
    SetLoop ⊕ (XlatPool × MapRet) → Prop where
  | descend {s' : SetLoop} {u : Nat} (hLink : (stage2Radix c).link d (s.entry d) = some u)
      (hPool : s'.pool = s.pool) (hRange : SameRange s s') (hPath : OnPath c base s' (d + 1)) :
      Iteration c base mayOverwrite s d (.inl s')
  | busy (hLeaf : (stage2Radix c).link d (s.entry d) = none) (hOver : mayOverwrite = false)
      (hUsed : s.entry d ≠ 0#64) : Iteration c base mayOverwrite s d (.inr (s.pool, .eBusy))
  | skip {s' : SetLoop} (hLeaf : (stage2Radix c).link d (s.entry d) = none)
      (hFree : mayOverwrite = false → s.entry d = 0#64)
      (hSuper : vmIsDescSuperset (s.entry d) s.desc (d + 1) = true) (hPool : s'.pool = s.pool)
      (hMove : Advanced s s' (chunk s d)) (hPath : OnPath c base s' 0) :
      Iteration c base mayOverwrite s d (.inl s')
  | noMem : Iteration c base mayOverwrite s d (.inr (s.pool, .eNoMem))
  | expand {s' : SetLoop} {t' : Nat} {mem : Nat → Word}
      (hFree : mayOverwrite = false → s.entry d = 0#64)
      (hSuper : vmIsDescSuperset (s.entry d) s.desc (d + 1) = false)
      (hL : Linked c s.pool s'.pool base d (regionOf s.virt d / 512) s.table
        (regionOf s.virt d % 512) t' mem)
      (hRange : SameRange s s') (hPath : OnPath c base s' (d + 1)) :
      Iteration c base mayOverwrite s d (.inl s')
  | store {s' : SetLoop} {st₁ : XlatPool}
      (hLeaf : (stage2Radix c).link d (s.entry d) = none)
      (hFree : mayOverwrite = false → s.entry d = 0#64)
      (hVirt : 2 ^ regionShift d ∣ s.virt) (hAlign : 2 ^ regionShift d ∣ outAddr s.desc)
      (hS : LeafStored c s.pool st₁ base d (regionOf s.virt d / 512) s.table
        (regionOf s.virt d % 512) (blockDesc s.desc (d + 1)))
      (hClear : Cleared c base st₁ s'.pool)
      (hMove : Advanced s s' (2 ^ regionShift d)) (hPath : OnPath c base s' 0) :
      Iteration c base mayOverwrite s d (.inl s')

section Iterations

variable {c : PoolConfig} {base d : Nat} {mayOverwrite : Bool} {s s' : SetLoop}

/-- Where `vm_set_mapping` enters the loop. -/
theorem onPath_start {st : XlatPool} {virt size : Nat} {desc : Word} (hWF : WellFormed c st base)
    (hVirt : 2 ^ 12 ∣ virt) (hSize : 2 ^ 12 ∣ size) (hType : desc &&& 3#64 = 0#64) :
    OnPath c base ⟨st, virt, size, desc, base, baseXlatLevel, fun _ => 0⟩ 0 where
  wf := hWF
  depth_le := by decide
  level := rfl
  table := rfl
  ptes := fun d hd => absurd hd (Nat.not_lt_zero d)
  virt_aligned := hVirt
  size_aligned := hSize
  type := hType

theorem OnPath.place (hP : OnPath c base s d) :
    Place c s.pool base d (regionOf s.virt d / 512) s.table (regionOf s.virt d % 512) :=
  place_of_path hP.depth_le hP.table

/-- The slot of the address in the table of the path. -/
theorem OnPath.slot_eq (hP : OnPath c base s d) :
    s.table * xlatNumEntries + xlatTableVaIdx s.virt (d + 1) =
      s.table * 512 + regionOf s.virt d % 512 := by
  rw [xlatTableVaIdx_eq s.virt hP.depth_le]
  rfl

theorem OnPath.entryOk (hP : OnPath c base s d) : EntryOk d (s.entry d) :=
  hP.wf.entries d _ _ hP.place.region hP.place.entryAt

theorem page_dvd_region (d : Nat) : 2 ^ 12 ∣ 2 ^ regionShift d :=
  Nat.pow_dvd_pow 2 (levelToVaSizeShift_ge _)

theorem regionShift_le (d : Nat) : regionShift d ≤ 30 := by
  unfold regionShift levelToVaSizeShift xlatLastLevel
  omega

theorem type_add {desc : Word} {n : Nat} (hType : desc &&& 3#64 = 0#64) (hn : 2 ^ 12 ∣ n) :
    (desc + BitVec.ofNat 64 n) &&& 3#64 = 0#64 := by
  have hMod : ∀ x : Word, x &&& 3#64 = 0#64 ↔ x.toNat % 4 = 0 := by
    intro x
    rw [← BitVec.toNat_inj, BitVec.toNat_and]
    show x.toNat &&& (2 ^ 2 - 1) = 0 ↔ _
    rw [Nat.and_two_pow_sub_one_eq_mod]
  rw [hMod] at hType ⊢
  rw [BitVec.toNat_add, BitVec.toNat_ofNat]
  omega

/-- Starting again from the base table. -/
theorem onPath_moveOn {pool : XlatPool} {n : Nat} (hP : OnPath c base s d)
    (hWF : WellFormed c pool base) (hn : 2 ^ 12 ∣ n) :
    OnPath c base (moveOn s pool base n) 0 where
  wf := hWF
  depth_le := by decide
  level := rfl
  table := rfl
  ptes := fun d' hd' => absurd hd' (Nat.not_lt_zero d')
  virt_aligned := by
    have hSum := Nat.dvd_add hP.virt_aligned hn
    show 2 ^ 12 ∣ (s.virt + n) % 2 ^ 64
    omega
  size_aligned := Nat.dvd_sub hP.size_aligned hn
  type := by
    show (if s.desc = 0#64 then s.desc else s.desc + BitVec.ofNat 64 n) &&& 3#64 = 0#64
    split
    · exact hP.type
    · exact type_add hP.type hn

theorem chunk_spec (hP : OnPath c base s d) (hSize : s.size ≠ 0) :
    0 < chunk s d ∧ chunk s d ≤ s.size ∧ 2 ^ 12 ∣ chunk s d := by
  have hPos : 0 < 2 ^ regionShift d := Nat.two_pow_pos _
  have hLt := Nat.mod_lt s.virt hPos
  have hRem : 2 ^ 12 ∣ s.virt % 2 ^ regionShift d :=
    (Nat.dvd_mod_iff (page_dvd_region d)).mpr hP.virt_aligned
  have hRest := Nat.dvd_sub (page_dvd_region d) hRem
  unfold chunk
  refine ⟨by omega, Nat.min_le_right _ _, ?_⟩
  rcases Nat.le_total (2 ^ regionShift d - s.virt % 2 ^ regionShift d) s.size with hle | hle
  · rw [Nat.min_eq_left hle]
    exact hRest
  · rw [Nat.min_eq_right hle]
    exact hP.size_aligned

/-- At the last level every range fits. -/
theorem fits_last (hP : OnPath c base s 2) (hSize : s.size ≠ 0) :
    ¬ (s.size < 2 ^ levelToVaSizeShift (2 + 1) ∨
      s.virt % 2 ^ levelToVaSizeShift (2 + 1) ≠ 0 ∨
      vmIsDescBlockAligned s.desc (2 ^ levelToVaSizeShift (2 + 1)) = false) := by
  have hShift : levelToVaSizeShift (2 + 1) = 12 := rfl
  have hBlock : vmIsDescBlockAligned s.desc (2 ^ 12) = true :=
    (vmIsDescBlockAligned_iff _ (by decide)).mpr (outAddr_aligned _)
  have hSize' := hP.size_aligned
  have hVirt := Nat.mod_eq_zero_of_dvd hP.virt_aligned
  have hLe := Nat.le_of_dvd (by omega) hSize'
  rw [hShift, hBlock]
  simp only [not_or]
  exact ⟨by omega, by omega, by decide⟩

/-- Recording the current entry extends the path. -/
theorem OnPath.ptes_set (hP : OnPath c base s d) :
    PathPtes c s.pool base s.virt (d + 1)
      (set s.ptes (d + 1) (s.table * 512 + regionOf s.virt d % 512)) := by
  intro d' hd'
  rcases Nat.lt_or_eq_of_le (Nat.le_of_lt_succ hd') with hlt | rfl
  · obtain ⟨u, hAt, hPtes⟩ := hP.ptes d' hlt
    exact ⟨u, hAt, by rw [set_ne _ _ (by omega)]; exact hPtes⟩
  · exact ⟨s.table, hP.table, set_same _ _ _⟩

/-- The pool after an iteration. -/
def resultPool : SetLoop ⊕ (XlatPool × MapRet) → XlatPool := Sum.elim SetLoop.pool Prod.fst

/-- Every iteration is one of those listed, and no table gets lost in it. -/
theorem setStep_iteration (hP : OnPath c base s d) (hSize : s.size ≠ 0) :
    Iteration c base mayOverwrite s d (setStep c base mayOverwrite s) ∧
      (Accounted c s.pool base →
        Accounted c (resultPool (setStep c base mayOverwrite s)) base) := by
  have hIdx := hP.slot_eq
  have hFree := vmIsFreeDesc_iff hP.entryOk
  have hRegion := regionOf_split s.virt d
  unfold setStep
  simp only [hP.level, hIdx]
  rw [show s.pool.xlatTables (s.table * 512 + regionOf s.virt d % 512) = s.entry d from rfl]
  -- recording the entry leaves the loop where it is
  have hP₁ : OnPath c base
      { s with
        level := d + 1
        ptes := set s.ptes (d + 1) (s.table * 512 + regionOf s.virt d % 512) } d :=
    { hP with
      level := rfl
      ptes := fun d' hd' => hP.ptes_set d' (by omega) }
  split
  case isTrue hTable =>
    have hLink : (stage2Radix c).link d (s.entry d) = some (vmPteDescTable c (s.entry d)) := by
      simp [stage2Radix, hTable]
    have hd := depth_lt_of_link hP.depth_le hLink
    refine ⟨.descend hLink rfl ⟨rfl, rfl, rfl⟩ ?_, id⟩
    exact
      { hP₁ with
        depth_le := hd
        level := rfl
        table := by
          show tableAt c s.pool base (d + 1) (regionOf s.virt (d + 1) / 512) = _
          rw [regionOf_succ_div s.virt hd, ← hRegion]
          exact hP.place.tableAt_succ.trans hLink
        ptes := hP.ptes_set }
  case isFalse hTable =>
    have hLeaf : (stage2Radix c).link d (s.entry d) = none := by
      simp [stage2Radix, hTable]
    split
    case isTrue hBusy =>
      simp only [Bool.and_eq_true, Bool.not_eq_true'] at hBusy
      refine ⟨.busy hLeaf hBusy.1 fun hZero => ?_, id⟩
      rw [hFree.mpr hZero] at hBusy
      exact absurd hBusy.2 (by simp)
    case isFalse hBusy =>
      have hFree' : mayOverwrite = false → s.entry d = 0#64 := by
        intro hOver
        simp only [hOver, Bool.not_false, Bool.true_and, Bool.not_eq_true,
          Bool.not_eq_false'] at hBusy
        exact hFree.mp hBusy
      split
      case isTrue hSuper =>
        obtain ⟨hPos, hLe, hAligned⟩ := chunk_spec hP hSize
        exact ⟨.skip hLeaf hFree' hSuper rfl ⟨hPos, hLe, hAligned, rfl, rfl, rfl⟩
          (onPath_moveOn hP₁ hP.wf hAligned), id⟩
      case isFalse hSuper =>
        rw [Bool.not_eq_true] at hSuper
        split
        case isTrue hFit =>
          have hd : d < 2 := by
            by_contra hLast
            obtain rfl : d = 2 := by
              have := hP.depth_le
              omega
            exact absurd hFit (fits_last hP hSize)
          rcases vmExpandToTable_cases hP.wf hP.place hd hLeaf with hNone | ⟨st', t', mem, hEq, hL⟩
          · rw [hNone]
            exact ⟨.noMem, id⟩
          · rw [hEq]
            refine ⟨.expand hFree' hSuper hL ⟨rfl, rfl, rfl⟩ ?_, hL.accounted⟩
            exact
              { hP₁ with
                wf := hL.wellFormed
                depth_le := hd
                level := rfl
                table := by
                  show tableAt c st' base (d + 1) (regionOf s.virt (d + 1) / 512) = _
                  rw [regionOf_succ_div s.virt hd, ← hRegion]
                  exact hL.child
                ptes := hP.ptes_set.mono (by omega) fun _ _ _ _ hr hAt => hL.keep hr hAt }
        case isFalse hFit =>
          simp only [not_or, Nat.not_lt, not_not, Bool.not_eq_false] at hFit
          obtain ⟨hBig, hVirt, hBlock⟩ := hFit
          have hAlign : 2 ^ regionShift d ∣ outAddr s.desc :=
            (vmIsDescBlockAligned_iff _ (by have := regionShift_le d; omega)).mp hBlock
          have hS := storeEntry_stored hP.wf hP.place hLeaf hP.type hAlign
          obtain ⟨hClear, hAcc⟩ := freeUnused_cleared s.virt hS.wellFormed hP.depth_le
            ((hS.keep_of_le hP.place.region_lt (Nat.le_refl d)).trans hP.table)
            (vmTableIndex_slot hP.place.index_lt)
            (hP₁.ptes.mono (by have := hP.depth_le; omega) fun d' r u hd' hr hAt =>
              (hS.keep_of_le hr (by omega)).trans hAt)
          refine ⟨.store hLeaf hFree' (Nat.dvd_of_mod_eq_zero hVirt) hAlign hS hClear
            ⟨Nat.two_pow_pos _, hBig, page_dvd_region d, rfl, rfl, rfl⟩
            (onPath_moveOn hP₁ (hClear.wellFormed hS.wellFormed) (page_dvd_region d)),
            fun hA => hAcc (hS.accounted (fun u hu => ?_) (fun u hu => ?_) hA)⟩
          · cases hLeaf.symm.trans hu
          · exact .inl (storeEntry_useCount hP.place.index_lt hu)

/-- Every iteration that continues leaves less to do. -/
theorem Iteration.measure (hP : OnPath c base s d)
    (hIter : Iteration c base mayOverwrite s d (.inl s')) :
    ∃ d', OnPath c base s' d' ∧ 3 * s'.size + (2 - d') < 3 * s.size + (2 - d) := by
  have hd := hP.depth_le
  cases hIter with
  | descend hLink _ hRange hPath =>
    have hLt := depth_lt_of_link hd hLink
    exact ⟨d + 1, hPath, by rw [hRange.2.1]; omega⟩
  | expand _ _ hL hRange hPath =>
    have hLt := hL.depth_lt
    exact ⟨d + 1, hPath, by rw [hRange.2.1]; omega⟩
  | skip _ _ _ _ hMove hPath | store _ _ _ _ _ _ hMove hPath =>
    have := hMove.pos
    have := hMove.le
    exact ⟨0, hPath, by rw [hMove.size]; omega⟩

/--
**The rule for the loop.**  The loop returns, and what it returns satisfies any
postcondition that holds at the end of the range and is carried back over each
iteration.
-/
theorem setLoop_rule (Post : SetLoop → XlatPool → MapRet → Prop)
    (hEnd : ∀ s d, OnPath c base s d → s.size = 0 → Post s s.pool .ok)
    (hBreak : ∀ s d st' ret, OnPath c base s d → s.size ≠ 0 →
      Iteration c base mayOverwrite s d (.inr (st', ret)) → Post s st' ret)
    (hBack : ∀ s d s' st' ret, OnPath c base s d → s.size ≠ 0 →
      Iteration c base mayOverwrite s d (.inl s') →
      (Accounted c s.pool base → Accounted c s'.pool base) → Post s' st' ret → Post s st' ret)
    (fuel : Nat) : ∀ s d, OnPath c base s d → 3 * s.size + (2 - d) < fuel →
      ∃ st' ret, setLoop c base mayOverwrite fuel s = some (st', ret) ∧ Post s st' ret := by
  induction fuel with
  | zero => exact fun s d _ hFuel => absurd hFuel (Nat.not_lt_zero _)
  | succ fuel ih =>
    intro s d hP hFuel
    unfold setLoop
    by_cases hSize : s.size = 0
    · exact ⟨s.pool, .ok, by simp [hSize], hEnd s d hP hSize⟩
    · obtain ⟨hIter, hAcc⟩ := setStep_iteration hP hSize
      simp only [hSize, if_false]
      cases hStep : setStep c base mayOverwrite s with
      | inl s' =>
        rw [hStep] at hIter hAcc
        obtain ⟨d', hP', hLess⟩ := hIter.measure hP
        obtain ⟨st', ret, hEq, hPost⟩ := ih s' d' hP' (by omega)
        exact ⟨st', ret, hEq, hBack s d s' st' ret hP hSize hIter hAcc hPost⟩
      | inr result =>
        rw [hStep] at hIter
        exact ⟨result.1, result.2, rfl, hBreak s d _ _ hP hSize hIter⟩

end Iterations

end Zvm.Stage2
