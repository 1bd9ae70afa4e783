import Zvm.Stage2.Descriptor
import Zvm.Verified.RadixTree

/-!
# The stage-2 table pool of one VM

`vm_xlat_tables[vmid]` is a pool of translation tables, with a use count for
each table; a domain has a base table in it, and a table descriptor holds the
address of another one.  A use count is one plus the number of entries in use,
and 0 for a table that may be handed out; a table is *not* cleared when it is.

A table pointer is modelled by the number of the table, a pointer to an entry by
its index in the pool.  The pool's address in memory is a parameter, since it is
what a table descriptor contains.

The tables of a domain form a radix tree of depth 2 (levels 1 to 3), which is
the instance `stage2Radix` of the library; `translate` is the hardware's walk.
`WellFormed` says what the code maintains.
-/

namespace Zvm.Stage2

open Zvm.Verified.FunArray Zvm.Verified.RadixTree

/-- Where the pool of one VM is, and its size `CONFIG_ZVM_MAX_VM_XLAT_TABLES`. -/
structure PoolConfig where
  maxTables : Nat
  poolAddr : Nat
  aligned : 2 ^ 12 ∣ poolAddr
  inRange : poolAddr + maxTables * 2 ^ 12 ≤ 2 ^ 48

/-- `vm_xlat_tables[vmid]` and `vm_xlat_use_count[vmid]`. -/
structure XlatPool where
  xlatTables : Nat → Word
  useCount : Nat → Int

/-! ## The code's functions -/

/-- `vm_pte_desc_table`: the number of the table a descriptor points to. -/
def vmPteDescTable (c : PoolConfig) (desc : Word) : Nat := (outAddr desc - c.poolAddr) / 2 ^ 12

/-- `vm_set_pte_table_desc`: the descriptor that points to table `t`. -/
def tableDesc (c : PoolConfig) (t : Nat) : Word :=
  3#64 ||| BitVec.ofNat 64 (c.poolAddr + t * 2 ^ 12)

/-- `XLAT_TABLE_VA_IDX`. -/
def xlatTableVaIdx (virt level : Nat) : Nat :=
  virt / 2 ^ levelToVaSizeShift level % xlatNumEntries

/-- `vm_table_index`. -/
def vmTableIndex (pte : Nat) : Nat := pte / xlatNumEntries

/-- `vm_new_table`: the first table with use count 0, whose entries are left as
they are. -/
def vmNewTable (c : PoolConfig) (st : XlatPool) : Option (XlatPool × Nat) :=
  match firstIdx c.maxTables (fun i => st.useCount i == 0) with
  | none => none
  | some i => some ({ st with useCount := set st.useCount i 1 }, i)

/-- `vm_table_usage`, for its effect. -/
def vmTableUsage (st : XlatPool) (pte : Nat) (adjustment : Int) : XlatPool :=
  { st with
    useCount := set st.useCount (vmTableIndex pte) (st.useCount (vmTableIndex pte) + adjustment) }

/-- `vm_is_table_unused`. -/
def vmIsTableUnused (st : XlatPool) (pte : Nat) : Bool := st.useCount (vmTableIndex pte) == 1

/-- `vm_free_table`. -/
def vmFreeTable (st : XlatPool) (pte : Nat) : XlatPool :=
  { st with useCount := set st.useCount (vmTableIndex pte) 0 }

/-- `*pte = desc`. -/
def setPte (st : XlatPool) (pte : Nat) (desc : Word) : XlatPool :=
  { st with xlatTables := set st.xlatTables pte desc }

/-- The loop of `vm_expand_to_table` that fills table `t`. -/
def fillTable (st : XlatPool) (t : Nat) (entry : Nat → Word) : XlatPool :=
  { st with
    xlatTables := fun k =>
      if k / xlatNumEntries = t then entry (k % xlatNumEntries) else st.xlatTables k }

/-- `vm_expand_to_table`: replace an entry by a table that says the same. -/
def vmExpandToTable (c : PoolConfig) (st : XlatPool) (pte level : Nat) :
    XlatPool × Option Nat :=
  match vmNewTable c st with
  | none => (st, none)
  | some (st₁, table) =>
    let desc := st₁.xlatTables pte
    let st₂ :=
      if vmIsFreeDesc desc then vmTableUsage st₁ pte 1
      else
        vmTableUsage (fillTable st₁ table (splitDesc desc level)) (table * xlatNumEntries)
          xlatNumEntries
    (setPte st₂ pte (tableDesc c table), some table)

/-! ## The walk -/

/-- The tables as a radix tree: a table descriptor above the last level is a link. -/
def stage2Radix (c : PoolConfig) : Radix Word where
  fan := 512
  fan_pos := by decide
  depth := 2
  link := fun d e => if vmIsTableDesc e (d + 1) then some (vmPteDescTable c e) else none
  link_last := by
    intro e
    simp [vmIsTableDesc, xlatLastLevel]

/-- The size of the region an entry at depth `d` (level `d + 1`) covers. -/
def regionShift (d : Nat) : Nat := levelToVaSizeShift (d + 1)

/-- The entry is a block above the last level, or a page at it. -/
def isMapping (d : Nat) (e : Word) : Bool :=
  if d = 2 then e &&& 3#64 == 3#64 else e &&& 3#64 == 1#64

/-- The page index the walk uses. -/
def pageOf (ipa : Nat) : Nat := ipa / 2 ^ 12 % 2 ^ 27

/-- The translation of a guest address through the leaf `e` at depth `d`. -/
def leafOut (d : Nat) (e : Word) (ipa : Nat) : Option (Nat × Word) :=
  if isMapping d e then
    some (outAddr e / 2 ^ regionShift d * 2 ^ regionShift d + ipa % 2 ^ regionShift d, attrsOf e)
  else none

/-- The hardware's stage-2 walk: output address and attributes. -/
def translate (c : PoolConfig) (st : XlatPool) (base ipa : Nat) : Option (Nat × Word) :=
  let leaf := walk (stage2Radix c) st.xlatTables base (pageOf ipa)
  leafOut leaf.1 leaf.2 ipa

/-! ## Well-formed pools -/

/-- The table at depth `d` for region `r`. -/
abbrev tableAt (c : PoolConfig) (st : XlatPool) (base d r : Nat) : Option Nat :=
  table (stage2Radix c) st.xlatTables base d r

/-- The entry at depth `d` for region `ρ`. -/
abbrev entryAt (c : PoolConfig) (st : XlatPool) (base d ρ : Nat) : Option Word :=
  look (stage2Radix c) st.xlatTables base d ρ

/-- The walk for page `v` ends at depth `d` in entry `e`. -/
abbrev PageLeaf (c : PoolConfig) (st : XlatPool) (base v d : Nat) (e : Word) : Prop :=
  LeafAt (stage2Radix c) st.xlatTables base v d e

/-- The table `t` is part of the tree. -/
abbrev InTree (c : PoolConfig) (st : XlatPool) (base t : Nat) : Prop :=
  Reached (stage2Radix c) st.xlatTables base t

/-- Region `ρ` at depth `d` lies in region `ρ₀` at depth `d₀`. -/
abbrev Within (c : PoolConfig) (d₀ ρ₀ d ρ : Nat) : Prop := Below (stage2Radix c) d₀ ρ₀ d ρ

/-- The entries the code stores: nothing, a table or page, or an aligned block. -/
def EntryOk (d : Nat) (e : Word) : Prop :=
  e = 0#64 ∨ e &&& 3#64 = 3#64 ∨
    (d < 2 ∧ e &&& 3#64 = 1#64 ∧ 2 ^ regionShift d ∣ outAddr e)

/-- What the code maintains about the pool and the base table of a domain. -/
structure WellFormed (c : PoolConfig) (st : XlatPool) (base : Nat) : Prop where
  tree : IsTree (stage2Radix c) st.xlatTables base
  inPool : ∀ t, InTree c st base t → t < c.maxTables
  count : ∀ t, InTree c st base t →
    st.useCount t = 1 + occupied (stage2Radix c) 0#64 st.xlatTables t
  entries : ∀ d ρ e, ρ < 512 ^ (d + 1) → entryAt c st base d ρ = some e → EntryOk d e
  poolZero : ∀ t < c.maxTables, st.useCount t = 0 →
    ∀ i < 512, st.xlatTables (slot (stage2Radix c) t i) = 0#64

/-! ## Links -/

theorem outAddr_tableDesc (c : PoolConfig) {t : Nat} (ht : t < c.maxTables) :
    outAddr (tableDesc c t) = c.poolAddr + t * 2 ^ 12 := by
  have hLt : c.poolAddr + t * 2 ^ 12 < 2 ^ 48 := by
    have := c.inRange
    omega
  have hAlign : 2 ^ 12 ∣ c.poolAddr + t * 2 ^ 12 :=
    Nat.dvd_add c.aligned (Nat.dvd_mul_left _ _)
  have hPlain : outAddr (mkDesc 0#64 (c.poolAddr + t * 2 ^ 12)) = c.poolAddr + t * 2 ^ 12 :=
    outAddr_mkDesc (by simp [IsAttrs]) hAlign hLt
  rw [tableDesc, BitVec.or_comm, (fields_or_type _ (.inr rfl)).1]
  simpa [mkDesc] using hPlain

theorem type_tableDesc (c : PoolConfig) (t : Nat) : tableDesc c t &&& 3#64 = 3#64 := by
  rw [tableDesc, BitVec.or_comm]
  exact type_or_three _

theorem tableDesc_ne_zero (c : PoolConfig) (t : Nat) : tableDesc c t ≠ 0#64 := by
  intro hZero
  have hType := type_tableDesc c t
  rw [hZero] at hType
  exact absurd hType (by decide)

/-- A table descriptor stored by the code links to its table. -/
theorem link_tableDesc (c : PoolConfig) {t d : Nat} (ht : t < c.maxTables) (hd : d < 2) :
    (stage2Radix c).link d (tableDesc c t) = some t := by
  have hTable : vmIsTableDesc (tableDesc c t) (d + 1) = true := by
    simp [vmIsTableDesc, xlatLastLevel, type_tableDesc]
    omega
  have hNumber : vmPteDescTable c (tableDesc c t) = t := by
    rw [vmPteDescTable, outAddr_tableDesc c ht]
    omega
  simp [stage2Radix, hTable, hNumber]

theorem link_eq_none_iff (c : PoolConfig) (d : Nat) (e : Word) :
    (stage2Radix c).link d e = none ↔ vmIsTableDesc e (d + 1) = false := by
  simp [stage2Radix]

theorem link_zero (c : PoolConfig) (d : Nat) : (stage2Radix c).link d 0#64 = none := by
  simp [stage2Radix, vmIsTableDesc]

/-- A block is not a link. -/
theorem link_block (c : PoolConfig) {d : Nat} {e : Word} (hBlock : e &&& 3#64 = 1#64) :
    (stage2Radix c).link d e = none := by
  simp [stage2Radix, vmIsTableDesc, hBlock]

/-- An entry in use that is not a table is a block, or a page at the last level. -/
theorem EntryOk.isMapping {c : PoolConfig} {d : Nat} {e : Word} (hOk : EntryOk d e) (hd : d ≤ 2)
    (hLeaf : (stage2Radix c).link d e = none) (hNe : e ≠ 0#64) : isMapping d e = true := by
  rw [link_eq_none_iff] at hLeaf
  simp only [vmIsTableDesc, xlatLastLevel, Bool.and_eq_false_imp] at hLeaf
  unfold Stage2.isMapping
  rcases hOk with rfl | hTable | ⟨hlt, hBlock, _⟩
  · exact absurd rfl hNe
  · have hLast : d = 2 := by
      by_contra hNot
      have := hLeaf (decide_eq_true (by omega))
      simp [hTable] at this
    simp [hLast, hTable]
  · simp [show d ≠ 2 by omega, hBlock]

theorem vmIsFreeDesc_iff {d : Nat} {e : Word} (hOk : EntryOk d e) :
    vmIsFreeDesc e = true ↔ e = 0#64 := by
  unfold vmIsFreeDesc
  rw [beq_iff_eq]
  constructor
  · intro hFree
    rcases hOk with hZero | hTable | ⟨_, hBlock, _⟩
    · exact hZero
    · rw [hFree] at hTable
      exact absurd hTable (by decide)
    · rw [hFree] at hBlock
      exact absurd hBlock (by decide)
  · rintro rfl
    rfl

end Zvm.Stage2
