import Zvm.Stage2.SetMapping

/-!
# `vm_add_map`

Mapping a range of guest addresses.  On a range where nothing was mapped the walk
afterwards gives exactly the requested translation, for the whole range or, when
the pool runs out of tables, for a prefix of it.

Over existing mappings this is not so.  A block that has the requested attributes
is kept if the address bits above the size of the *region the loop looks at* agree,
whatever the offset inside it; `SkipsExact` says for which states and arguments no
block is kept wrongly.
-/

namespace Zvm.Stage2

open Zvm.Verified.FunArray Zvm.Verified.RadixTree

/-- `ALIGN_TO_PAGE`, in 64 bits. -/
def alignToPage (size : Nat) : Nat := (size + 4095) % 2 ^ 64 / 2 ^ 12 * 2 ^ 12

/-- `vm_add_map`; `none` is a failed assertion. -/
def vmAddMap (c : PoolConfig) (st : XlatPool) (base phys virt size : Nat) (attrs : BitVec 32) :
    Option (XlatPool × MapRet) :=
  let mayOverwrite := !noOverwrite attrs
  let desc := getVmRegionDesc attrs ||| BitVec.ofNat 64 phys
  let size := alignToPage size
  if virt % 2 ^ 12 = 0 ∧ phys % 2 ^ 12 = 0 ∧ size % 2 ^ 12 = 0 then
    vmSetMapping c st base virt size desc mayOverwrite
  else none

/-- The depth of the leaf, the output address and the attributes of a mapped address. -/
def mappedAt (c : PoolConfig) (st : XlatPool) (base ipa : Nat) : Option (Nat × Nat × Word) :=
  let leaf := walk (stage2Radix c) st.xlatTables base (pageOf ipa)
  (leafOut leaf.1 leaf.2 ipa).map fun out => (leaf.1, out)

/-- The walk translates `[virt, virt + size)` to `phys` onwards, with the given attributes. -/
def ExactOn (c : PoolConfig) (st : XlatPool) (base virt size phys : Nat) (attrs : Word) : Prop :=
  ∀ ipa, virt ≤ ipa → ipa < virt + size →
    translate c st base ipa = some (phys + (ipa - virt), attrs)

/-- The walk maps nothing of `[virt, virt + size)`. -/
def UnmappedOn (c : PoolConfig) (st : XlatPool) (base virt size : Nat) : Prop :=
  ∀ ipa, virt ≤ ipa → ipa < virt + size → translate c st base ipa = none

/-- Outside `[virt, virt + size)` the walk is the same. -/
def SameOutside (c : PoolConfig) (st st' : XlatPool) (base virt size : Nat) : Prop :=
  ∀ ipa < 2 ^ 39, ¬ (virt ≤ ipa ∧ ipa < virt + size) →
    translate c st' base ipa = translate c st base ipa

/-- If the range meets a region of depth `m` first at page `p`, which is mapped by a
block of at least that size with the requested attributes, and the address agrees
above the size of the region, then it agrees altogether. -/
def SkipExactAt (c : PoolConfig) (st : XlatPool) (base virt phys : Nat) (attrs : Word)
    (p : Nat) : Prop :=
  ∀ m ≤ 2, ∀ d ≤ m, ∀ out, (p = virt ∨ 2 ^ regionShift m ∣ p) →
    mappedAt c st base p = some (d, out, attrs) →
    out / 2 ^ regionShift m = (phys + (p - virt)) / 2 ^ regionShift m → out = phys + (p - virt)

/-- No block in the range is kept with a wrong offset. -/
def SkipsExact (c : PoolConfig) (st : XlatPool) (base virt size phys : Nat)
    (attrs : Word) : Prop :=
  ∀ p, virt ≤ p → p < virt + size → SkipExactAt c st base virt phys attrs p

/-! ## The view of a mapped address -/

section View

variable {c : PoolConfig} {st st' : XlatPool} {base d r t i t' ipa : Nat} {e : Word}
  {mem : Nat → Word}

theorem translate_eq_map (c : PoolConfig) (st : XlatPool) (base ipa : Nat) :
    translate c st base ipa = (mappedAt c st base ipa).map fun view => view.2 := by
  simp [translate, mappedAt, Function.comp_def]

theorem mappedAt_of_leaf (hLeaf : PageLeaf c st base (pageOf ipa) d e) :
    mappedAt c st base ipa = (leafOut d e ipa).map fun out => (d, out) := by
  simp only [mappedAt, walk_eq_iff.mpr hLeaf]

/-- The leaf behind a mapped address. -/
theorem leaf_of_mappedAt {view : Nat × Word} (hMap : mappedAt c st base ipa = some (d, view)) :
    ∃ e, PageLeaf c st base (pageOf ipa) d e ∧ leafOut d e ipa = some view := by
  obtain ⟨d', e, hLeaf⟩ := exists_leaf c st base (pageOf ipa)
  rw [mappedAt_of_leaf hLeaf] at hMap
  obtain ⟨out, hOut, hEq⟩ := Option.map_eq_some_iff.mp hMap
  obtain ⟨rfl, rfl⟩ := Prod.mk.inj hEq
  exact ⟨e, hLeaf, hOut⟩

theorem LeafStored.mappedAt_out (hS : LeafStored c st st' base d r t i e)
    (hOut : regionOf ipa d ≠ r * 512 + i) : mappedAt c st' base ipa = mappedAt c st base ipa := by
  obtain ⟨d', x, hLeaf⟩ := exists_leaf c st base (pageOf ipa)
  rw [mappedAt_of_leaf hLeaf, mappedAt_of_leaf ((hS.leaf_out hOut).mpr hLeaf)]

theorem mappedAt_eq_none_iff : mappedAt c st base ipa = none ↔ translate c st base ipa = none := by
  rw [translate_eq_map]
  simp

theorem Cleared.mappedAt (hC : Cleared c base st st') (ipa : Nat) :
    mappedAt c st' base ipa = mappedAt c st base ipa := by
  induction hC with
  | done => rfl
  | @unlink st st₁ _ d r t i u hS hLink _ ih =>
    rw [ih]
    by_cases hIn : regionOf ipa d = r * 512 + i
    · -- inside the region nothing is mapped, before and after
      have hNone : Stage2.translate c st₁ base ipa = none := by
        rw [hS.translate_in hIn, leafOut_zero]
      rw [mappedAt_eq_none_iff.mpr hNone, eq_comm, mappedAt_eq_none_iff,
        ← hS.translate_unlink hLink ipa, hNone]
    · exact hS.mappedAt_out hIn

theorem Linked.mappedAt_out (hL : Linked c st st' base d r t i t' mem)
    (hOut : regionOf ipa d ≠ r * 512 + i) : mappedAt c st' base ipa = mappedAt c st base ipa := by
  obtain ⟨d', x, hLeaf⟩ := exists_leaf c st base (pageOf ipa)
  rw [mappedAt_of_leaf hLeaf, mappedAt_of_leaf ((hL.leaf_out hOut).mpr hLeaf)]

/-- Inside the region of a linked table the leaf is one level deeper. -/
theorem Linked.mappedAt_in (hL : Linked c st st' base d r t i t' mem)
    (hIn : regionOf ipa d = r * 512 + i) :
    Stage2.mappedAt c st base ipa = (leafOut d (st.word t i) ipa).map (fun out => (d, out)) ∧
      Stage2.mappedAt c st' base ipa =
        (leafOut d (st.word t i) ipa).map (fun out => (d + 1, out)) := by
  refine ⟨mappedAt_of_leaf (hL.place.leafAt hIn hL.leaf), ?_⟩
  rw [mappedAt_of_leaf (hL.leaf_in hIn), leafOut_partDesc hL.depth_lt hL.old ipa]

end View

/-! ## Regions and chunks -/

section Geometry

/-- Addresses up to the end of a region are in it. -/
theorem div_mod_of_chunk {virt p size : Nat} (hle : virt ≤ p)
    (hlt : p < virt + (size - virt % size)) :
    p / size = virt / size ∧ p % size = virt % size + (p - virt) := by
  have hSplit := Nat.div_add_mod virt size
  have hEq : p = size * (virt / size) + (virt % size + (p - virt)) := by omega
  have hSmall : virt % size + (p - virt) < size := by omega
  constructor
  · rw [hEq, Nat.mul_add_div (by omega), Nat.div_eq_of_lt hSmall, Nat.add_zero]
  · conv => lhs; rw [hEq]
    rw [Nat.mul_add_mod, Nat.mod_eq_of_lt hSmall]

theorem dvd_region_end {virt size : Nat} (hPos : 0 < size) :
    size ∣ virt + (size - virt % size) := by
  have hSplit := Nat.div_add_mod virt size
  have hLt := Nat.mod_lt virt hPos
  refine ⟨virt / size + 1, ?_⟩
  rw [Nat.mul_add]
  omega

theorem region_dvd_of_le {d m : Nat} (hLe : d ≤ m) : 2 ^ regionShift m ∣ 2 ^ regionShift d := by
  apply Nat.pow_dvd_pow
  unfold regionShift levelToVaSizeShift xlatLastLevel
  omega

/-- If a region ends inside a larger one, the next address is still in the larger one. -/
theorem div_succ_region {virt p size big : Nat} (hPos : 0 < size) (hDvd : size ∣ big)
    (hEnd : p = virt + (size - virt % size)) (hIn : ¬ big ∣ p) : p / big = virt / big := by
  obtain ⟨k, rfl⟩ := hDvd
  have hSplit := Nat.div_add_mod virt size
  have hLt := Nat.mod_lt virt hPos
  have hp : p = size * (virt / size + 1) := by
    rw [Nat.mul_add]
    omega
  have hNot : ¬ k ∣ virt / size + 1 := by
    intro hk
    exact hIn (hp ▸ Nat.mul_dvd_mul_left size hk)
  rw [hp, Nat.mul_div_mul_left _ _ hPos, Nat.succ_div, if_neg hNot, ← Nat.div_div_eq_div_mul,
    Nat.add_zero]

end Geometry

section Steps

variable {c : PoolConfig} {base d n phys p : Nat} {s s' : SetLoop} {attrs : Word}

/-- No walk ends above the entry the loop looks at. -/
theorem no_leaf_above (hP : OnPath c base s d) {ipa d' : Nat} {e : Word} (hd' : d' < d)
    (hRegion : regionOf ipa d' = regionOf s.virt d') :
    ¬ PageLeaf c s.pool base (pageOf ipa) d' e := by
  intro hLeaf
  have hLook : look (stage2Radix c) s.pool.xlatTables base d' (regionOf s.virt d') = some e := by
    rw [← hRegion]
    exact hLeaf.look
  have hNone : table (stage2Radix c) s.pool.xlatTables base (d' + 1) (regionOf s.virt d') =
      none := by
    rw [table_succ, hLook]
    exact hLeaf.leaf
  have hWithin : Within c d' (regionOf s.virt d') d (regionOf s.virt d) :=
    (below_reg_iff (R := stage2Radix c) (by omega) hP.depth_le).mpr rfl
  have hTable : table (stage2Radix c) s.pool.xlatTables base d (regionOf s.virt d / 512) =
      some s.table := hP.table
  rw [table_eq_none_of_below hNone (within_parent hd' hWithin)] at hTable
  cases hTable

/-- After a chunk, the condition on a later page is the same as before it. -/
theorem skipExactAt_rest (hP : OnPath c base s d) {st₁ : XlatPool} (hPos : 0 < n)
    (hp : s.virt + n ≤ p) (hLt : p < 2 ^ 39)
    (hEnd : p = s.virt + n → n = 2 ^ regionShift d - s.virt % 2 ^ regionShift d)
    (hSame : mappedAt c st₁ base p = mappedAt c s.pool base p) :
    SkipExactAt c st₁ base (s.virt + n) (phys + n) attrs p ↔
      SkipExactAt c s.pool base s.virt phys attrs p := by
  have hTarget : phys + n + (p - (s.virt + n)) = phys + (p - s.virt) := by omega
  unfold SkipExactAt
  rw [hSame, hTarget]
  constructor
  · intro hNew m hm d' hd' out hFirst
    refine hNew m hm d' hd' out (.inr ?_)
    exact hFirst.resolve_left (by omega)
  · intro hOld m hm d' hd' out hFirst hMap
    refine hOld m hm d' hd' out (.inr ?_) hMap
    rcases hFirst with hStart | hDvd
    · -- the walk would end above the entry the loop has just dealt with
      by_contra hNot
      have hn := hEnd hStart
      rw [hn] at hStart
      have hShort : d' < d := by
        by_contra hGe
        exact hNot (Nat.dvd_trans (region_dvd_of_le (by omega : d ≤ m))
          (hStart ▸ dvd_region_end (Nat.two_pow_pos _)))
      obtain ⟨e, hLeaf, _⟩ := leaf_of_mappedAt hMap
      refine no_leaf_above hP hShort ?_ hLeaf
      have hd2 := hP.depth_le
      rw [regionOf_eq (by omega) hLt, regionOf_eq (by omega) (by omega)]
      refine div_succ_region (Nat.two_pow_pos _) (region_dvd_of_le (by omega : d' ≤ d)) hStart ?_
      exact fun hBig => hNot (Nat.dvd_trans (region_dvd_of_le hd') hBig)
    · exact hDvd

/-- The loop maps its range to `phys` onwards. -/
structure Request (s : SetLoop) (phys : Nat) (attrs : Word) : Prop where
  isAttrs : IsAttrs attrs
  attrs_ne : attrs ≠ 0#64
  desc : s.desc = mkDesc attrs phys
  phys_aligned : 2 ^ 12 ∣ phys
  phys_le : phys + s.size ≤ 2 ^ 48
  virt_le : s.virt + s.size ≤ 2 ^ 39

theorem Request.fields (hR : Request s phys attrs) (hSize : s.size ≠ 0) :
    outAddr s.desc = phys ∧ attrsOf s.desc = attrs := by
  have hLe := hR.phys_le
  rw [hR.desc]
  exact ⟨outAddr_mkDesc hR.isAttrs hR.phys_aligned (by omega),
    attrsOf_mkDesc hR.isAttrs hR.phys_aligned (by omega)⟩

theorem Request.desc_ne (hR : Request s phys attrs) (hSize : s.size ≠ 0) : s.desc ≠ 0#64 := by
  intro hZero
  have hAttrs := (hR.fields hSize).2
  rw [hZero] at hAttrs
  exact hR.attrs_ne (hAttrs.symm.trans (by decide))

theorem Request.advanced (hR : Request s phys attrs) (hSize : s.size ≠ 0)
    (hMove : Advanced s s' n) : s'.virt = s.virt + n ∧ Request s' (phys + n) attrs := by
  have hLe := hMove.le
  have hPhys := hR.phys_le
  have hVirt := hR.virt_le
  have hNext : s'.virt = s.virt + n := by
    rw [hMove.virt]
    exact Nat.mod_eq_of_lt (by omega)
  refine ⟨hNext, ?_⟩
  exact
    { isAttrs := hR.isAttrs
      attrs_ne := hR.attrs_ne
      desc := by
        rw [hMove.desc, if_neg (hR.desc_ne hSize), hR.desc]
        exact mkDesc_add hR.isAttrs hR.phys_aligned hMove.aligned (by omega)
      phys_aligned := Nat.dvd_add hR.phys_aligned hMove.aligned
      phys_le := by
        rw [hMove.size]
        omega
      virt_le := by
        rw [hMove.size, hNext]
        omega }

theorem Request.same (hR : Request s phys attrs) (hRange : SameRange s s') :
    Request s' phys attrs := by
  obtain ⟨hVirt, hSize, hDesc⟩ := hRange
  exact
    { hR with
      desc := hDesc.trans hR.desc
      phys_le := hSize ▸ hR.phys_le
      virt_le := hSize ▸ hVirt ▸ hR.virt_le }

theorem chunk_le (s : SetLoop) (d : Nat) :
    chunk s d ≤ 2 ^ regionShift d - s.virt % 2 ^ regionShift d :=
  Nat.min_le_left _ _

/-- The addresses of a chunk are in the region of the current entry. -/
theorem regionOf_chunk (hP : OnPath c base s d) (hLt : p < 2 ^ 39) (hle : s.virt ≤ p)
    (hlt : p < s.virt + (2 ^ regionShift d - s.virt % 2 ^ regionShift d)) :
    regionOf p d = regionOf s.virt d / 512 * 512 + regionOf s.virt d % 512 := by
  rw [regionOf_split, regionOf_eq hP.depth_le hLt, regionOf_eq hP.depth_le (by omega)]
  exact (div_mod_of_chunk hle hlt).1

theorem mappedAt_chunk (hP : OnPath c base s d)
    (hLeaf : (stage2Radix c).link d (s.entry d) = none) (hLt : p < 2 ^ 39) (hle : s.virt ≤ p)
    (hlt : p < s.virt + (2 ^ regionShift d - s.virt % 2 ^ regionShift d)) :
    mappedAt c s.pool base p = (leafOut d (s.entry d) p).map fun out => (d, out) :=
  mappedAt_of_leaf (hP.place.leafAt (regionOf_chunk hP hLt hle hlt) hLeaf)

/-- Where a block or page is stored, no smaller region has a misleading offset. -/
theorem skipExactAt_store (hP : OnPath c base s d)
    (hLeaf : (stage2Radix c).link d (s.entry d) = none) (hVirt : 2 ^ regionShift d ∣ s.virt)
    (hPhys : 2 ^ regionShift d ∣ phys) (hLt : p < 2 ^ 39) (hle : s.virt ≤ p)
    (hlt : p < s.virt + 2 ^ regionShift d) : SkipExactAt c s.pool base s.virt phys attrs p := by
  intro m hm d' hd' out hFirst hMap hAgree
  have hZero : s.virt % 2 ^ regionShift d = 0 := Nat.mod_eq_zero_of_dvd hVirt
  rw [mappedAt_chunk hP hLeaf hLt hle (by omega)] at hMap
  obtain ⟨view, hOut, hEq⟩ := Option.map_eq_some_iff.mp hMap
  obtain ⟨rfl, rfl⟩ := Prod.mk.inj hEq
  have hSmall := region_dvd_of_le hd'
  have hp : 2 ^ regionShift m ∣ p := by
    rcases hFirst with rfl | hDvd
    · exact Nat.dvd_trans hSmall hVirt
    · exact hDvd
  -- both addresses are aligned to the smaller region, so they are equal
  have hOutDvd : 2 ^ regionShift m ∣ out := by
    unfold leafOut at hOut
    split at hOut
    case isFalse => cases hOut
    case isTrue =>
      rw [← (Prod.mk.inj (Option.some.inj hOut)).1]
      exact Nat.dvd_add (Nat.dvd_trans hSmall (Nat.dvd_mul_left _ _))
        ((Nat.dvd_mod_iff hSmall).mpr hp)
  have hTarget : 2 ^ regionShift m ∣ phys + (p - s.virt) :=
    Nat.dvd_add (Nat.dvd_trans hSmall hPhys) (Nat.dvd_sub hp (Nat.dvd_trans hSmall hVirt))
  rw [← Nat.div_mul_cancel hOutDvd, hAgree, Nat.div_mul_cancel hTarget]

/-- A skipped entry maps its region with the requested attributes. -/
theorem leafOut_skip (hP : OnPath c base s d) (hR : Request s phys attrs) (hSize : s.size ≠ 0)
    (hLeaf : (stage2Radix c).link d (s.entry d) = none)
    (hSuper : vmIsDescSuperset (s.entry d) s.desc (d + 1) = true) (ipa : Nat) :
    leafOut d (s.entry d) ipa =
      some (phys / 2 ^ regionShift d * 2 ^ regionShift d + ipa % 2 ^ regionShift d, attrs) := by
  obtain ⟨hAttrs, hAddr⟩ := (vmIsDescSuperset_iff _ _ _).mp hSuper
  obtain ⟨hDescAddr, hDescAttrs⟩ := hR.fields hSize
  have hNe : s.entry d ≠ 0#64 := by
    intro hZero
    rw [hZero, hDescAttrs] at hAttrs
    exact hR.attrs_ne (hAttrs.symm.trans (by decide))
  have hMap := hP.entryOk.isMapping hP.depth_le hLeaf hNe
  have hAddr' : outAddr (s.entry d) / 2 ^ regionShift d = phys / 2 ^ regionShift d := by
    rw [← hDescAddr]
    exact hAddr
  simp [leafOut, hMap, hAddr', hAttrs, hDescAttrs]

end Steps

/-! ## What the loop does to its range -/

/-- The loop went from `st` to `st'` and has dealt with the first `k` bytes of its range. -/
structure MappedPrefix (c : PoolConfig) (base : Nat) (mayOverwrite : Bool)
    (virt size phys : Nat) (attrs : Word) (st st' : XlatPool) (ret : MapRet) (k : Nat) : Prop where
  le : k ≤ size
  aligned : 2 ^ 12 ∣ k
  ok : ret = .ok → k = size
  busy : ret = .eBusy → k < size ∧ translate c st base (virt + k) ≠ none
  wf : WellFormed c st' base
  outside : SameOutside c st st' base virt k
  exact_iff : ExactOn c st' base virt k phys attrs ↔ SkipsExact c st base virt k phys attrs
  fresh : mayOverwrite = false → UnmappedOn c st base virt k

section Loop

variable {c : PoolConfig} {base d n phys virt size k : Nat} {mayOverwrite : Bool}
  {s s' : SetLoop} {attrs : Word} {st st₁ st' : XlatPool} {ret : MapRet}

/-- Nothing was dealt with. -/
theorem mappedPrefix_zero (hWF : WellFormed c st base) (hOk : ret = .ok → size = 0)
    (hBusy : ret = .eBusy → 0 < size ∧ translate c st base virt ≠ none) :
    MappedPrefix c base mayOverwrite virt size phys attrs st st ret 0 where
  le := Nat.zero_le _
  aligned := Nat.dvd_zero _
  ok := fun h => (hOk h).symm
  busy := hBusy
  wf := hWF
  outside := fun _ _ _ => rfl
  exact_iff := by
    constructor
    · intro _ p _ _
      omega
    · intro _ ipa _ _
      omega
  fresh := by
    intro _ ipa _ _
    omega

theorem exactOn_add {k' : Nat} :
    ExactOn c st base virt (n + k') phys attrs ↔
      ExactOn c st base virt n phys attrs ∧
        ExactOn c st base (virt + n) k' (phys + n) attrs := by
  constructor
  · intro hAll
    refine ⟨fun ipa hle hlt => hAll ipa hle (by omega), fun ipa hle hlt => ?_⟩
    rw [hAll ipa (by omega) (by omega)]
    congr 2
    omega
  · rintro ⟨hHead, hRest⟩ ipa hle hlt
    by_cases hIn : ipa < virt + n
    · exact hHead ipa hle hIn
    · rw [hRest ipa (by omega) (by omega)]
      congr 2
      omega

/-- A chunk was dealt with, and then a prefix of the rest. -/
theorem mappedPrefix_cons (hP : OnPath c base s d) (hR : Request s phys attrs) (hPos : 0 < n)
    (hLe : n ≤ s.size) (hAligned : 2 ^ 12 ∣ n)
    (hEnd : n < s.size → n = 2 ^ regionShift d - s.virt % 2 ^ regionShift d)
    (hView : ∀ p, s.virt + n ≤ p → p < 2 ^ 39 →
      mappedAt c st₁ base p = mappedAt c s.pool base p)
    (hOutside : SameOutside c s.pool st₁ base s.virt n)
    (hHead : ExactOn c st₁ base s.virt n phys attrs ↔
      SkipsExact c s.pool base s.virt n phys attrs)
    (hFresh : mayOverwrite = false → UnmappedOn c s.pool base s.virt n)
    (hRest : MappedPrefix c base mayOverwrite (s.virt + n) (s.size - n) (phys + n) attrs st₁ st'
      ret k) :
    MappedPrefix c base mayOverwrite s.virt s.size phys attrs s.pool st' ret (n + k) where
  le := by
    have := hRest.le
    omega
  aligned := Nat.dvd_add hAligned hRest.aligned
  ok := by
    intro hOk
    have := hRest.ok hOk
    omega
  busy := by
    intro hBusy
    obtain ⟨hLt, hMapped⟩ := hRest.busy hBusy
    have hVirt := hR.virt_le
    refine ⟨by omega, ?_⟩
    rw [← Nat.add_assoc, ← hOutside (s.virt + n + k) (by omega) (by omega)]
    exact hMapped
  wf := hRest.wf
  outside := by
    intro ipa hIpa hOut
    rw [hRest.outside ipa hIpa (by omega), hOutside ipa hIpa (by omega)]
  exact_iff := by
    have hLeRest := hRest.le
    have hVirt := hR.virt_le
    have hKeep : ExactOn c st' base s.virt n phys attrs ↔
        ExactOn c st₁ base s.virt n phys attrs := by
      unfold ExactOn
      refine forall_congr' fun ipa => forall_congr' fun hle => forall_congr' fun hlt => ?_
      rw [hRest.outside ipa (by omega) (by omega)]
    have hTail : SkipsExact c st₁ base (s.virt + n) k (phys + n) attrs ↔
        ∀ p, s.virt + n ≤ p → p < s.virt + n + k →
          SkipExactAt c s.pool base s.virt phys attrs p := by
      unfold SkipsExact
      refine forall_congr' fun p => forall_congr' fun hle => forall_congr' fun hlt => ?_
      exact skipExactAt_rest hP hPos hle (by omega) (fun _ => hEnd (by omega))
        (hView p hle (by omega))
    rw [exactOn_add, hKeep, hRest.exact_iff, hHead, hTail]
    constructor
    · rintro ⟨hFirst, hLater⟩ p hle hlt
      by_cases hIn : p < s.virt + n
      · exact hFirst p hle hIn
      · exact hLater p (by omega) (by omega)
    · intro hAll
      exact ⟨fun p hle hlt => hAll p hle (by omega), fun p hle hlt => hAll p (by omega) (by omega)⟩
  fresh := by
    intro hOver ipa hle hlt
    have hVirt := hR.virt_le
    have hLeRest := hRest.le
    by_cases hIn : ipa < s.virt + n
    · exact hFresh hOver ipa hle hIn
    · rw [← hOutside ipa (by omega) (by omega)]
      exact hRest.fresh hOver ipa (by omega) (by omega)

section

variable (hP : OnPath c base s d) (hR : Request s phys attrs) (hSize : s.size ≠ 0)
  (hLeaf : (stage2Radix c).link d (s.entry d) = none)
include hP hR hSize hLeaf

/-- Skipping an entry: exact when its offset is that of the request. -/
theorem exactOn_skip_iff (hSuper : vmIsDescSuperset (s.entry d) s.desc (d + 1) = true) :
    ExactOn c s.pool base s.virt (chunk s d) phys attrs ↔
      SkipsExact c s.pool base s.virt (chunk s d) phys attrs := by
  obtain ⟨hPos, hLe, _⟩ := chunk_spec hP hSize
  have hVirt := hR.virt_le
  have hIn := chunk_le s d
  have hOut := leafOut_skip hP hR hSize hLeaf hSuper
  have hView : ∀ p, s.virt ≤ p → p < s.virt + chunk s d → mappedAt c s.pool base p =
      some (d, phys / 2 ^ regionShift d * 2 ^ regionShift d + p % 2 ^ regionShift d, attrs) := by
    intro p hle hlt
    rw [mappedAt_chunk hP hLeaf (by omega) hle (by omega), hOut]
    rfl
  -- both say that the offset of `virt` in its region is that of `phys`
  have hMod : ∀ p, s.virt ≤ p → p < s.virt + chunk s d →
      p % 2 ^ regionShift d = s.virt % 2 ^ regionShift d + (p - s.virt) := by
    intro p hle hlt
    exact (div_mod_of_chunk hle (by omega)).2
  constructor
  · intro hExact p hle hlt m _ d' _ out _ hMap _
    have hEq := hExact p hle hlt
    rw [translate_eq_map, hMap] at hEq
    exact (Prod.mk.inj (Option.some.inj hEq)).1
  · intro hSkips
    have hFirst := hSkips s.virt (Nat.le_refl _) (by omega) d hP.depth_le d (Nat.le_refl _) _
      (.inl rfl) (hView s.virt (Nat.le_refl _) (by omega)) ?_
    · intro ipa hle hlt
      rw [translate_eq_map, hView ipa hle hlt, hMod ipa hle hlt]
      simp only [Option.map_some]
      congr 2
      omega
    · have hRem := Nat.mod_lt s.virt (Nat.two_pow_pos (regionShift d))
      rw [Nat.sub_self, Nat.add_zero, Nat.mul_comm, Nat.mul_add_div (Nat.two_pow_pos _),
        Nat.div_eq_of_lt hRem, Nat.add_zero]

theorem mappedPrefix_skip (hFree : mayOverwrite = false → s.entry d = 0#64)
    (hSuper : vmIsDescSuperset (s.entry d) s.desc (d + 1) = true)
    (hRest : MappedPrefix c base mayOverwrite (s.virt + chunk s d) (s.size - chunk s d)
      (phys + chunk s d) attrs s.pool st' ret k) :
    MappedPrefix c base mayOverwrite s.virt s.size phys attrs s.pool st' ret (chunk s d + k) := by
  obtain ⟨hPos, hLe, hAligned⟩ := chunk_spec hP hSize
  refine mappedPrefix_cons hP hR hPos hLe hAligned ?_ (fun _ _ _ => rfl) (fun _ _ _ => rfl)
    (exactOn_skip_iff hP hR hSize hLeaf hSuper) ?_ hRest
  · intro hlt
    unfold chunk at hlt ⊢
    omega
  · intro hOver
    -- an empty entry does not have the requested attributes
    have hOut := leafOut_skip hP hR hSize hLeaf hSuper s.virt
    rw [hFree hOver, leafOut_zero] at hOut
    cases hOut

theorem mappedPrefix_store (hFree : mayOverwrite = false → s.entry d = 0#64)
    (hVirt : 2 ^ regionShift d ∣ s.virt) (hAlign : 2 ^ regionShift d ∣ outAddr s.desc)
    {st₂ : XlatPool}
    (hS : LeafStored c s.pool st₂ base d (regionOf s.virt d / 512) s.table
      (regionOf s.virt d % 512) (blockDesc s.desc (d + 1)))
    (hClear : Cleared c base st₂ st₁) (hLe : 2 ^ regionShift d ≤ s.size)
    (hRest : MappedPrefix c base mayOverwrite (s.virt + 2 ^ regionShift d)
      (s.size - 2 ^ regionShift d) (phys + 2 ^ regionShift d) attrs st₁ st' ret k) :
    MappedPrefix c base mayOverwrite s.virt s.size phys attrs s.pool st' ret
      (2 ^ regionShift d + k) := by
  have hPos : 0 < 2 ^ regionShift d := Nat.two_pow_pos _
  have hZero : s.virt % 2 ^ regionShift d = 0 := Nat.mod_eq_zero_of_dvd hVirt
  have hVirtLe := hR.virt_le
  obtain ⟨hAddr, hAttrs⟩ := hR.fields hSize
  rw [hAddr] at hAlign
  have hRegion : ∀ p, s.virt ≤ p → p < s.virt + 2 ^ regionShift d →
      regionOf p d = regionOf s.virt d / 512 * 512 + regionOf s.virt d % 512 :=
    fun p hle hlt => regionOf_chunk hP (by omega) hle (by omega)
  have hOther : ∀ p < 2 ^ 39, ¬ (s.virt ≤ p ∧ p < s.virt + 2 ^ regionShift d) →
      regionOf p d ≠ regionOf s.virt d / 512 * 512 + regionOf s.virt d % 512 := by
    intro p hp hOut hEq
    rw [regionOf_split, regionOf_eq hP.depth_le hp, regionOf_eq hP.depth_le (by omega)] at hEq
    have hSplit := Nat.div_add_mod p (2 ^ regionShift d)
    have hLt := Nat.mod_lt p hPos
    have hSplit' := Nat.div_add_mod s.virt (2 ^ regionShift d)
    rw [hEq] at hSplit
    omega
  refine mappedPrefix_cons hP hR hPos hLe (page_dvd_region d) (fun _ => by omega) ?_ ?_ ?_ ?_ hRest
  · intro p hle hp
    rw [hClear.mappedAt, hS.mappedAt_out (hOther p hp (by omega))]
  · intro ipa hIpa hOut
    rw [hClear.translate, hS.translate_out (hOther ipa hIpa hOut)]
  · refine iff_of_true ?_ fun p hle hlt =>
      skipExactAt_store hP hLeaf hVirt hAlign (by omega) hle hlt
    intro ipa hle hlt
    have hNe : blockDesc s.desc (d + 1) ≠ 0#64 :=
      fun h => hR.desc_ne hSize ((blockDesc_eq_zero_iff hP.type).mp h)
    have hMap := hS.ok.isMapping hP.depth_le hS.leaf hNe
    obtain ⟨hStoredAddr, hStoredAttrs⟩ := fields_blockDesc s.desc (d + 1)
    rw [hClear.translate, hS.translate_in (hRegion ipa hle hlt)]
    simp only [leafOut, hMap, if_true, hStoredAddr, hStoredAttrs, hAddr, hAttrs]
    rw [Nat.div_mul_cancel hAlign, (div_mod_of_chunk hle (by omega)).2, hZero, Nat.zero_add]
  · intro hOver ipa hle hlt
    rw [translate_of_leaf (hP.place.leafAt (hRegion ipa hle hlt) hLeaf)]
    show leafOut d (s.entry d) ipa = none
    rw [hFree hOver, leafOut_zero]

end

section

variable {t' : Nat} {mem : Nat → Word} (hR : Request s phys attrs) (hSize : s.size ≠ 0)
  (hSuper : vmIsDescSuperset (s.entry d) s.desc (d + 1) = false)
  (hL : Linked c s.pool st₁ base d (regionOf s.virt d / 512) s.table (regionOf s.virt d % 512) t'
    mem)
include hR hSize hSuper hL

/-- Replacing an entry that is not kept by a table does not change the condition. -/
theorem skipsExact_linked (hk : k ≤ s.size) :
    SkipsExact c st₁ base s.virt k phys attrs ↔ SkipsExact c s.pool base s.virt k phys attrs := by
  have hVirt := hR.virt_le
  refine forall_congr' fun p => forall_congr' fun hle => forall_congr' fun hlt => ?_
  by_cases hIn : regionOf p d = regionOf s.virt d / 512 * 512 + regionOf s.virt d % 512
  · obtain ⟨hOld, hNew⟩ := hL.mappedAt_in hIn
    unfold SkipExactAt
    rw [hOld, hNew]
    constructor
    · intro hSkip m hm d' hd' out hFirst hMap hAgree
      obtain ⟨view, hOut, hEq⟩ := Option.map_eq_some_iff.mp hMap
      obtain ⟨rfl, rfl⟩ := Prod.mk.inj hEq
      rcases Nat.lt_or_eq_of_le hd' with hDeep | rfl
      · exact hSkip m hm (d + 1) hDeep out hFirst (by rw [hOut]; rfl) hAgree
      · -- the entry itself would have been kept
        exfalso
        have hStart : p = s.virt := by
          rcases hFirst with hEq | hDvd
          · exact hEq
          · rw [regionOf_split, regionOf_eq hm (by omega), regionOf_eq hm (by omega)] at hIn
            have hBelow := Nat.div_mul_le_self s.virt (2 ^ regionShift d)
            rw [← hIn, Nat.div_mul_cancel hDvd] at hBelow
            omega
        obtain ⟨hAddr, hAttrs⟩ := hR.fields hSize
        rw [hStart, Nat.sub_self, Nat.add_zero] at hAgree
        unfold leafOut at hOut
        split at hOut
        case isFalse => cases hOut
        case isTrue =>
          obtain ⟨hOutEq, hAttrsEq⟩ := Prod.mk.inj (Option.some.inj hOut)
          have hKeep : vmIsDescSuperset (s.entry d) s.desc (d + 1) = true := by
            rw [vmIsDescSuperset_iff, hAddr, hAttrs]
            refine ⟨hAttrsEq, ?_⟩
            have hRem := Nat.mod_lt p (Nat.two_pow_pos (regionShift d))
            rw [← hOutEq, Nat.mul_comm, Nat.mul_add_div (Nat.two_pow_pos _),
              Nat.div_eq_of_lt hRem, Nat.add_zero] at hAgree
            exact hAgree
          rw [hKeep] at hSuper
          cases hSuper
    · intro hSkip m hm d' hd' out hFirst hMap hAgree
      obtain ⟨view, hOut, hEq⟩ := Option.map_eq_some_iff.mp hMap
      obtain ⟨rfl, rfl⟩ := Prod.mk.inj hEq
      exact hSkip m hm d (by omega) out hFirst (by rw [hOut]; rfl) hAgree
  · unfold SkipExactAt
    rw [hL.mappedAt_out hIn]

theorem mappedPrefix_expand
    (hRest : MappedPrefix c base mayOverwrite s.virt s.size phys attrs st₁ st' ret k) :
    MappedPrefix c base mayOverwrite s.virt s.size phys attrs s.pool st' ret k where
  le := hRest.le
  aligned := hRest.aligned
  ok := hRest.ok
  busy := by
    intro hBusy
    rw [← hL.translate]
    exact hRest.busy hBusy
  wf := hRest.wf
  outside := fun ipa hIpa hOut => (hRest.outside ipa hIpa hOut).trans (hL.translate ipa)
  exact_iff := by
    rw [hRest.exact_iff]
    exact skipsExact_linked hR hSize hSuper hL hRest.le
  fresh := fun hOver ipa hle hlt => (hL.translate ipa).symm.trans (hRest.fresh hOver ipa hle hlt)

end

/--
**The loop**, started anywhere on the path of its address, returns; it has dealt with
a prefix of the range, which is all of it if it reports success.
-/
theorem setLoop_mapped (hP : OnPath c base s d) (hR : Request s phys attrs) {fuel : Nat}
    (hFuel : 3 * s.size + (2 - d) < fuel) :
    ∃ st' ret k, setLoop c base mayOverwrite fuel s = some (st', ret) ∧
      MappedPrefix c base mayOverwrite s.virt s.size phys attrs s.pool st' ret k := by
  suffices hAll : ∃ st' ret, setLoop c base mayOverwrite fuel s = some (st', ret) ∧
      ∀ phys, Request s phys attrs →
        ∃ k, MappedPrefix c base mayOverwrite s.virt s.size phys attrs s.pool st' ret k by
    obtain ⟨st', ret, hEq, hPost⟩ := hAll
    obtain ⟨k, hMapped⟩ := hPost phys hR
    exact ⟨st', ret, k, hEq, hMapped⟩
  refine setLoop_rule (fun s st' ret => ∀ phys, Request s phys attrs →
    ∃ k, MappedPrefix c base mayOverwrite s.virt s.size phys attrs s.pool st' ret k)
    ?_ ?_ ?_ fuel s d hP hFuel
  · intro s d hP hSize phys _
    exact ⟨0, mappedPrefix_zero hP.wf (fun _ => hSize) (by simp)⟩
  · intro s d st' ret hP hSize hIter phys _
    cases hIter with
    | busy hLeaf _ hUsed =>
      refine ⟨0, mappedPrefix_zero hP.wf (by simp) fun _ => ⟨by omega, ?_⟩⟩
      have hAt := hP.place.leafAt (regionOf_split s.virt d).symm hLeaf
      rw [translate_of_leaf hAt, Ne, leafOut_eq_none_iff hP.wf hAt]
      exact hUsed
    | noMem => exact ⟨0, mappedPrefix_zero hP.wf (by simp) (by simp)⟩
  · intro s d s' st' ret hP hSize hIter _ hPost phys hR
    cases hIter with
    | descend _ hPool hRange _ =>
      obtain ⟨k, hRest⟩ := hPost phys (hR.same hRange)
      rw [hPool, hRange.1, hRange.2.1] at hRest
      exact ⟨k, hRest⟩
    | skip hLeaf hFree hSuper hPool hMove _ =>
      obtain ⟨hVirt, hR'⟩ := hR.advanced hSize hMove
      obtain ⟨k, hRest⟩ := hPost _ hR'
      rw [hPool, hVirt, hMove.size] at hRest
      exact ⟨_, mappedPrefix_skip hP hR hSize hLeaf hFree hSuper hRest⟩
    | expand _ hSuper hL hRange _ =>
      obtain ⟨k, hRest⟩ := hPost phys (hR.same hRange)
      rw [hRange.1, hRange.2.1] at hRest
      exact ⟨k, mappedPrefix_expand hR hSize hSuper hL hRest⟩
    | store hLeaf hFree hVirt hAlign hS hClear hMove _ =>
      obtain ⟨hNext, hR'⟩ := hR.advanced hSize hMove
      obtain ⟨k, hRest⟩ := hPost _ hR'
      rw [hNext, hMove.size] at hRest
      exact ⟨_, mappedPrefix_store hP hR hSize hLeaf hFree hVirt hAlign hS hClear hMove.le hRest⟩

end Loop

/-! ## `vm_add_map` -/

section AddMap

variable {c : PoolConfig} {st st' : XlatPool} {base phys virt size : Nat} {attrs : BitVec 32}

theorem alignToPage_aligned (size : Nat) : 2 ^ 12 ∣ alignToPage size := Nat.dvd_mul_left _ _

theorem vmAddMap_eq (hVirt : 2 ^ 12 ∣ virt) (hPhys : 2 ^ 12 ∣ phys) :
    vmAddMap c st base phys virt size attrs =
      vmSetMapping c st base virt (alignToPage size) (mkDesc (getVmRegionDesc attrs) phys)
        (!noOverwrite attrs) :=
  if_pos ⟨Nat.mod_eq_zero_of_dvd hVirt, Nat.mod_eq_zero_of_dvd hPhys,
    Nat.mod_eq_zero_of_dvd (alignToPage_aligned size)⟩

/-- Where `vm_add_map` enters the loop. -/
theorem onPath_addMap (hWF : WellFormed c st base) (hVirt : 2 ^ 12 ∣ virt) (hPhys : 2 ^ 12 ∣ phys)
    (hIpa : virt + alignToPage size ≤ 2 ^ 39) (hRange : phys + alignToPage size ≤ 2 ^ 48)
    (hDesc : getVmRegionDesc attrs ≠ 0#64) {s : SetLoop}
    (hs : s = { pool := st, virt := virt, size := alignToPage size
                desc := mkDesc (getVmRegionDesc attrs) phys, table := base
                level := baseXlatLevel, ptes := fun _ => 0 }) :
    OnPath c base s 0 ∧ Request s phys (getVmRegionDesc attrs) := by
  subst hs
  have hAttrs := isAttrs_getVmRegionDesc attrs
  exact ⟨onPath_start hWF hVirt (alignToPage_aligned size) (type_mkDesc hAttrs hPhys),
    hAttrs, hDesc, rfl, hPhys, hRange, hIpa⟩

/-- `vm_add_map` deals with a prefix of the range. -/
theorem vmAddMap_mapped (phys virt size : Nat) (attrs : BitVec 32) (hWF : WellFormed c st base)
    (hVirt : 2 ^ 12 ∣ virt) (hPhys : 2 ^ 12 ∣ phys) (hIpa : virt + alignToPage size ≤ 2 ^ 39)
    (hOut : alignToPage size = 0 ∨ phys + alignToPage size ≤ 2 ^ 48)
    (hDesc : getVmRegionDesc attrs ≠ 0#64) :
    ∃ st' ret k, vmAddMap c st base phys virt size attrs = some (st', ret) ∧
      MappedPrefix c base (!noOverwrite attrs) virt (alignToPage size) phys
        (getVmRegionDesc attrs) st st' ret k := by
  rw [vmAddMap_eq hVirt hPhys]
  rcases hOut with hZero | hRange
  · rw [hZero]
    exact ⟨st, .ok, 0, rfl, mappedPrefix_zero hWF (fun _ => rfl) (by simp)⟩
  · obtain ⟨hP, hR⟩ := onPath_addMap hWF hVirt hPhys hIpa hRange hDesc rfl
    exact setLoop_mapped hP hR (Nat.lt_succ_self _)

theorem skipsExact_of_unmapped {k : Nat} {a : Word} (hUnmapped : UnmappedOn c st base virt k) :
    SkipsExact c st base virt k phys a := by
  intro p hle hlt m _ d _ out _ hMap
  rw [mappedAt_eq_none_iff.mpr (hUnmapped p hle hlt)] at hMap
  cases hMap

/-- What a mapping leaves on a range where nothing was mapped. -/
theorem MappedPrefix.exact_of_unmapped {mayOverwrite : Bool} {a : Word} {st' : XlatPool}
    {ret : MapRet} {k : Nat}
    (hMapped : MappedPrefix c base mayOverwrite virt size phys a st st' ret k)
    (hIpa : virt + size ≤ 2 ^ 39) (hUnmapped : UnmappedOn c st base virt size) :
    SameOutside c st st' base virt size ∧
      ((ret = .ok ∧ ExactOn c st' base virt size phys a) ∨
        (ret = .eNoMem ∧ ∃ k ≤ size, 2 ^ 12 ∣ k ∧ ExactOn c st' base virt k phys a ∧
          UnmappedOn c st' base (virt + k) (size - k))) := by
  have hLe := hMapped.le
  have hExact : ExactOn c st' base virt k phys a :=
    hMapped.exact_iff.mpr (skipsExact_of_unmapped fun ipa hle hlt => hUnmapped ipa hle (by omega))
  refine ⟨fun ipa hlt hOutside => hMapped.outside ipa hlt (by omega), ?_⟩
  cases ret with
  | ok => exact .inl ⟨rfl, hMapped.ok rfl ▸ hExact⟩
  | eBusy =>
    obtain ⟨hlt, hUsed⟩ := hMapped.busy rfl
    exact absurd (hUnmapped (virt + k) (by omega) (by omega)) hUsed
  | eNoMem =>
    refine .inr ⟨rfl, k, hLe, hMapped.aligned, hExact, ?_⟩
    intro ipa hle hlt
    rw [hMapped.outside ipa (by omega) (by omega)]
    exact hUnmapped ipa (by omega) (by omega)

/-- A pool of four tables at 2 GiB. -/
def samplePoolConfig : PoolConfig := ⟨4, 0x80000000, by decide, by decide⟩

/-- All tables are empty; table 0 is the base table of the domain. -/
def emptyPool : XlatPool := ⟨fun _ => 0#64, set (fun _ => 0) 0 1⟩

theorem wellFormed_emptyPool : WellFormed samplePoolConfig emptyPool 0 :=
  wellFormed_empty (by decide) (fun _ _ _ _ => rfl) rfl

/-- `MT_NORMAL` with read and write permission. -/
def sampleAttrs : BitVec 32 := 0x33#32

/--
**Mapping an unmapped range is exact**, and a mapping that may not overwrite does not:
on a range where nothing is mapped `vm_add_map` maps all of it, or a prefix when the
pool has no table left, exactly as requested, and changes nothing else; with
`MT_NO_OVERWRITE` and something mapped in the range it fails, and no mapped address
changes its translation.
-/
theorem vmAddMap_unmapped_exact (phys virt size : Nat) (attrs : BitVec 32)
    (hWF : WellFormed c st base) (hVirt : 2 ^ 12 ∣ virt) (hPhys : 2 ^ 12 ∣ phys)
    (hIpa : virt + alignToPage size ≤ 2 ^ 39)
    (hOut : alignToPage size = 0 ∨ phys + alignToPage size ≤ 2 ^ 48)
    (hAf : accessOff attrs = false) :
    ∃ st' ret, vmAddMap c st base phys virt size attrs = some (st', ret) ∧
      (UnmappedOn c st base virt (alignToPage size) →
        SameOutside c st st' base virt (alignToPage size) ∧
          ((ret = .ok ∧
              ExactOn c st' base virt (alignToPage size) phys (getVmRegionDesc attrs)) ∨
            (ret = .eNoMem ∧ ∃ k ≤ alignToPage size, 2 ^ 12 ∣ k ∧
              ExactOn c st' base virt k phys (getVmRegionDesc attrs) ∧
              UnmappedOn c st' base (virt + k) (alignToPage size - k)))) ∧
      (noOverwrite attrs = true → ¬ UnmappedOn c st base virt (alignToPage size) →
        (ret = .eBusy ∨ ret = .eNoMem) ∧
          ∀ ipa < 2 ^ 39, translate c st base ipa ≠ none →
            translate c st' base ipa = translate c st base ipa) := by
  obtain ⟨st', ret, k, hEq, hMapped⟩ := vmAddMap_mapped phys virt size attrs hWF hVirt hPhys hIpa
    hOut (getVmRegionDesc_ne_zero hAf)
  refine ⟨st', ret, hEq, fun hUnmapped => hMapped.exact_of_unmapped hIpa hUnmapped, ?_⟩
  · intro hOver hUsed
    have hFresh := hMapped.fresh (by simp [hOver])
    constructor
    · cases ret with
      | ok => exact absurd (hMapped.ok rfl ▸ hFresh) hUsed
      | eBusy => exact .inl rfl
      | eNoMem => exact .inr rfl
    · intro ipa hlt hNe
      refine hMapped.outside ipa hlt fun hIn => ?_
      exact hNe (hFresh ipa hIn.1 hIn.2)

theorem vmAddMap_unmapped_exact_page :
    ∃ st', vmAddMap samplePoolConfig emptyPool 0 0x40200000 0x200000 0x1000 sampleAttrs =
        some (st', .ok) ∧
      ExactOn samplePoolConfig st' 0 0x200000 0x1000 0x40200000 (getVmRegionDesc sampleAttrs) := by
  obtain ⟨st', ret, hEq, hExact, _⟩ :=
    vmAddMap_unmapped_exact 0x40200000 0x200000 0x1000 sampleAttrs wellFormed_emptyPool (by decide)
      (by decide) (by decide) (by decide) (by decide)
  have hRet : (vmAddMap samplePoolConfig emptyPool 0 0x40200000 0x200000 0x1000 sampleAttrs).map
      Prod.snd = some .ok := by decide
  rw [hEq] at hRet
  obtain rfl : ret = .ok := Option.some.inj hRet
  obtain ⟨_, hCases⟩ := hExact fun ipa _ _ => translate_empty (fun _ _ => rfl) ipa
  rcases hCases with ⟨_, hAll⟩ | ⟨hNoMem, _⟩
  · exact ⟨st', hEq, hAll⟩
  · cases hNoMem

/-- An output address of 49 bits is cut off. -/
theorem vmAddMap_cuts_output_address :
    WellFormed samplePoolConfig emptyPool 0 ∧ UnmappedOn samplePoolConfig emptyPool 0 0 0x1000 ∧
      ∃ st', vmAddMap samplePoolConfig emptyPool 0 (2 ^ 48) 0 0x1000 sampleAttrs =
          some (st', .ok) ∧
        translate samplePoolConfig st' 0 0 = some (0, getVmRegionDesc sampleAttrs) := by
  refine ⟨wellFormed_emptyPool, fun ipa _ _ => translate_empty (fun _ _ => rfl) ipa, ?_⟩
  have hRun : (vmAddMap samplePoolConfig emptyPool 0 (2 ^ 48) 0 0x1000 sampleAttrs).map
      (fun r => (r.2, translate samplePoolConfig r.1 0 0)) =
        some (.ok, some (0, getVmRegionDesc sampleAttrs)) := by decide
  obtain ⟨⟨st', ret⟩, hEq, hView⟩ := Option.map_eq_some_iff.mp hRun
  obtain ⟨rfl, hOut⟩ := Prod.mk.inj hView
  exact ⟨st', hEq, hOut⟩

/-- No translation leaves the 48-bit output range. -/
theorem translate_lt {ipa out : Nat} {a : Word} (hMap : translate c st base ipa = some (out, a)) :
    out < 2 ^ 48 := by
  simp only [translate] at hMap
  generalize walk (stage2Radix c) st.xlatTables base (pageOf ipa) = leaf at hMap
  unfold leafOut at hMap
  split at hMap
  case isFalse => cases hMap
  case isTrue =>
    rw [← (Prod.mk.inj (Option.some.inj hMap)).1]
    have hLt := outAddr_lt leaf.2
    have hShift := regionShift_le leaf.1
    have hRem := Nat.mod_lt ipa (Nat.two_pow_pos (regionShift leaf.1))
    obtain ⟨q, hq⟩ : 2 ^ regionShift leaf.1 ∣ 2 ^ 48 := Nat.pow_dvd_pow 2 (by omega)
    rw [hq] at hLt ⊢
    have hDiv : outAddr leaf.2 / 2 ^ regionShift leaf.1 < q := Nat.div_lt_of_lt_mul hLt
    calc outAddr leaf.2 / 2 ^ regionShift leaf.1 * 2 ^ regionShift leaf.1 +
          ipa % 2 ^ regionShift leaf.1
        < (outAddr leaf.2 / 2 ^ regionShift leaf.1 + 1) * 2 ^ regionShift leaf.1 := by
          rw [Nat.add_mul]
          omega
      _ ≤ q * 2 ^ regionShift leaf.1 := Nat.mul_le_mul_right _ hDiv
      _ = 2 ^ regionShift leaf.1 * q := Nat.mul_comm _ _

/-- An exact mapping stays in the output range. -/
theorem range_of_exactOn {k : Nat} {a : Word} (hPhys : 2 ^ 12 ∣ phys) (hk : 2 ^ 12 ∣ k)
    (hExact : ExactOn c st base virt k phys a) : k = 0 ∨ phys + k ≤ 2 ^ 48 := by
  by_cases hZero : k = 0
  · exact .inl hZero
  · have hLast := translate_lt (hExact (virt + k - 1) (by omega) (by omega))
    right
    omega

/-- Table 0 maps the 2 MiB at `0x200000` to `0x40200000` by one block. -/
theorem exists_blockPool :
    ∃ st, WellFormed samplePoolConfig st 0 ∧
    vmAddMap samplePoolConfig emptyPool 0 0x40200000 0x200000 0x200000 sampleAttrs =
      some (st, .ok) := by
  obtain ⟨st, ret, k, hEq, hMapped⟩ :=
    vmAddMap_mapped 0x40200000 0x200000 0x200000 sampleAttrs wellFormed_emptyPool (by decide)
      (by decide) (by decide) (by decide) (by decide)
  have hRet : (vmAddMap samplePoolConfig emptyPool 0 0x40200000 0x200000 0x200000
      sampleAttrs).map Prod.snd = some .ok := by decide
  rw [hEq] at hRet
  obtain rfl : ret = .ok := Option.some.inj hRet
  exact ⟨st, hMapped.wf, hEq⟩

end AddMap

end Zvm.Stage2
