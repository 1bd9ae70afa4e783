import Zvm.Vgic.Inject

/-!
# Flush and sync

With a list register for every pending and enabled interrupt that has none, a flush puts
each of them into a list register; `Flushed` says what it leaves behind.  A sync frees
the registers that the guest has finished with and nothing else.
-/

namespace Zvm.Vgic

open Zvm.Verified

/-! ## Changes that list registers do not see -/

variable {irq b : Nat} {st : VcpuIrqs}

section Frame

variable {c : VgicConfig} {st : VcpuIrqs}

theorem setDesc_self (st : VcpuIrqs) (irq : Nat) : setDesc st irq (st.desc irq) = st := by
  rw [setDesc, FunArray.set_self]

theorem LrInv.setPending (hInv : LrInv c st) (irq : Nat) (on : Bool) :
    LrInv c (setPending st irq on) :=
  ⟨hInv.edge, hInv.free, hInv.mapped, hInv.descId, hInv.src⟩

/-- A descriptor may change in everything but its list register. -/
theorem LrInv.setDesc (hInv : LrInv c st) {d : VirqDesc} (hId : d.id = (st.desc irq).id)
    (hSrc : ∀ k, d.srcCpu.getLsbD k = true → k < c.vcpuNum) : LrInv c (setDesc st irq d) := by
  have hIds : ∀ k, (FunArray.set st.desc irq d k).id = (st.desc k).id := by
    intro k
    by_cases hk : k = irq <;> simp [FunArray.set, hk, hId]
  refine ⟨hInv.edge, hInv.free, ?_, ?_, ?_⟩
  · intro i hi
    obtain ⟨hSlot, hLt, hOwn⟩ := hInv.mapped i hi
    exact ⟨hSlot, hLt, (hIds _).trans hOwn⟩
  · intro k
    have hOld := hInv.descId k
    simp only [Vgic.setDesc, hIds]
    exact hOld
  · intro k i hi
    by_cases hk : k = irq
    · exact hSrc i (by simpa [Vgic.setDesc, FunArray.set, hk] using hi)
    · exact hInv.src k i (by simpa [Vgic.setDesc, FunArray.set, hk] using hi)

theorem hasLr_setDesc {d : VirqDesc} (hId : d.id = (st.desc irq).id) (k : Nat) :
    hasLr (setDesc st irq d) k = hasLr st k := by
  by_cases hk : k = irq <;> simp [hasLr, setDesc, FunArray.set, hk, hId]

end Frame

/-! ## One interrupt -/

/-- The flush of `irq` leaves it in a list register. -/
structure FlushedIrq (c : VgicConfig) (st st' : VcpuIrqs) (irq : Nat) : Prop where
  lrInv : LrInv c st'
  held_self : Held c st' irq
  held : ∀ k, Held c st k → Held c st' k
  held_inv : ∀ k, Held c st' k → Held c st k ∨ k = irq
  pending : ∀ k, st'.pending k = (st.pending k && decide (k ≠ irq))
  enabled : st'.enabled = st.enabled
  hasLr_other : ∀ k, k ≠ irq → hasLr st' k = hasLr st k
  idle : (idleLrs c st').card + (if hasLr st irq then 0 else 1) = (idleLrs c st).card

section FlushIrq

variable {c : VgicConfig} {st st' : VcpuIrqs} {irq j : Nat}

/-- An injection, then the pending bit and the senders. -/
theorem Injected.flushed (hInj : Injected c st st' irq j) (hInv : LrInv c st)
    (hIrq : irq < c.virqNr) {src : BitVec 32} (hSrc : ∀ k, src.getLsbD k = true → k < c.vcpuNum) :
    FlushedIrq c st
      (setPending (setDesc st' irq { st'.desc irq with srcCpu := src }) irq false) irq where
  lrInv := by
    have hNew : LrInv c (setDesc st' irq { st'.desc irq with srcCpu := src }) :=
      (hInj.lrInv hInv hIrq).setDesc rfl hSrc
    exact hNew.setPending irq false
  held_self := hInj.held_self
  held := fun _ hHeld => hInj.held hInv hHeld
  held_inv := fun _ hHeld => hInj.held_inv hHeld
  pending := by
    intro k
    by_cases hk : k = irq <;> simp [setPending, setDesc, FunArray.set, hk, hInj.pending]
  enabled := hInj.enabled
  hasLr_other := by
    intro k hk
    have hSame : hasLr (setDesc st' irq { st'.desc irq with srcCpu := src }) k = hasLr st' k := by
      apply hasLr_setDesc
      rfl
    exact hSame.trans (hInj.hasLr_other hk)
  idle := hInj.idle_card

theorem getLsbD_clear (src : BitVec 32) (i k : Nat) :
    (src &&& ~~~(1#32 <<< i)).getLsbD k = (src.getLsbD k && decide (k ≠ i)) := by
  by_cases hk : k < 32
  · by_cases hEq : k = i
    · subst hEq
      simp [hk]
    · simp only [BitVec.getLsbD_and, BitVec.getLsbD_not, BitVec.getLsbD_shiftLeft,
        BitVec.getLsbD_one, hk]
      grind
  · simp [BitVec.getLsbD_of_ge src k (by omega)]

/-- The senders of the list are served, all of them by the interrupt's one register. -/
theorem injectSources_spec (hIrq : irq < c.virqNr) (is : List Nat) :
    ∀ (st : VcpuIrqs) (src : BitVec 32), LrInv c st → HasRoom c st irq →
      (∀ k, (injectSources c irq is st src).2.getLsbD k = (src.getLsbD k && decide (k ∉ is))) ∧
      ((injectSources c irq is st src).1 = st ∧ (∀ i ∈ is, src.getLsbD i = false) ∨
        ∃ j, Injected c st (injectSources c irq is st src).1 irq j) := by
  induction is with
  | nil =>
    intro st src _ _
    exact ⟨fun k => by simp [injectSources], .inl ⟨rfl, by simp⟩⟩
  | cons i is ih =>
    intro st src hInv hRoom
    simp only [injectSources]
    split
    case isTrue hBit =>
      obtain ⟨j, hInj⟩ := inject_injected hInv hRoom
      have hNext := ih (vgicInjectVirqVcpuif c st irq).1 (src &&& ~~~(1#32 <<< i))
        (hInj.lrInv hInv hIrq) (.inl hInj.hasLr_self)
      simp only [inject_ret_nonneg, if_true]
      refine ⟨?_, .inr ⟨j, ?_⟩⟩
      · intro k
        rw [hNext.1, getLsbD_clear]
        by_cases hk : k = i <;> simp [hk]
      · rcases hNext.2 with ⟨hSame, _⟩ | ⟨j', hAgain⟩
        · rw [hSame]
          exact hInj
        · exact hInj.trans hAgain
    case isFalse hBit =>
      have hOff : src.getLsbD i = false := by simpa using hBit
      have hNext := ih st src hInv hRoom
      refine ⟨?_, ?_⟩
      · intro k
        rw [hNext.1]
        by_cases hk : k = i <;> simp [hk, hOff]
      · rcases hNext.2 with ⟨hSame, hNone⟩ | hSome
        · exact .inl ⟨hSame, by simpa [hOff] using hNone⟩
        · exact .inr hSome

/-- All senders are vCPUs of the VM, so none is left. -/
theorem injectSources_all (hInv : LrInv c st) (hIrq : irq < c.virqNr) (hRoom : HasRoom c st irq)
    (hSrc : (st.desc irq).srcCpu ≠ 0#32) :
    (injectSources c irq (List.range c.vcpuNum) st (st.desc irq).srcCpu).2 = 0#32 ∧
      ∃ j, Injected c st
        (injectSources c irq (List.range c.vcpuNum) st (st.desc irq).srcCpu).1 irq j := by
  obtain ⟨hBits, hInj⟩ := injectSources_spec hIrq (List.range c.vcpuNum) st
    (st.desc irq).srcCpu hInv hRoom
  have hSender : ∀ k, (st.desc irq).srcCpu.getLsbD k = true → k ∈ List.range c.vcpuNum :=
    fun k hk => List.mem_range.mpr (hInv.src irq k hk)
  refine ⟨?_, ?_⟩
  · apply BitVec.eq_of_getLsbD_eq
    intro k _
    rw [hBits, BitVec.getLsbD_zero]
    cases hk : (st.desc irq).srcCpu.getLsbD k with
    | false => rfl
    | true => simp [hSender k hk]
  · rcases hInj with ⟨_, hNone⟩ | hSome
    · exfalso
      apply hSrc
      apply BitVec.eq_of_getLsbD_eq
      intro k _
      rw [BitVec.getLsbD_zero]
      by_contra hk
      have hTrue : (st.desc irq).srcCpu.getLsbD k = true := by simpa using hk
      rw [hNone k (hSender k hTrue)] at hTrue
      cases hTrue
    · exact hSome

theorem flushIrq_flushed (hInv : LrInv c st) (hIrq : irq < c.virqNr) (hRoom : HasRoom c st irq) :
    (flushIrq c st irq).2 = true ∧ FlushedIrq c st (flushIrq c st irq).1 irq := by
  obtain ⟨j, hInj⟩ := inject_injected hInv hRoom
  have hOnce : FlushedIrq c st (setPending (vgicInjectVirqVcpuif c st irq).1 irq false) irq := by
    have hSrc : ∀ k, ((vgicInjectVirqVcpuif c st irq).1.desc irq).srcCpu.getLsbD k = true →
        k < c.vcpuNum := by
      rw [hInj.desc_self.2]
      exact hInv.src irq
    have hFlushed := hInj.flushed hInv hIrq hSrc
    rwa [setDesc_self] at hFlushed
  unfold flushIrq
  split
  case isTrue hLocal =>
    unfold flushLocalIrq
    by_cases hSrc : (st.desc irq).srcCpu = 0#32
    · simp only [hSrc, inject_ret_nonneg, if_true]
      exact ⟨trivial, hOnce⟩
    · obtain ⟨hNone, k, hAll⟩ := injectSources_all hInv hIrq hRoom hSrc
      simp only [hSrc, if_false, hNone, if_true]
      exact ⟨trivial, hAll.flushed hInv hIrq (by simp)⟩
  case isFalse hSpi =>
    have hEdge : (setPending (vgicInjectVirqVcpuif c st irq).1 irq false).edge irq = true :=
      hOnce.lrInv.edge irq
    simp only [flushSpiIrq, inject_ret_nonneg, if_true, hEdge]
    exact ⟨trivial, hOnce⟩

end FlushIrq

/-! ## Several interrupts -/

/-- The flush of the interrupts of `irqs`. -/
structure Flushed (c : VgicConfig) (st st' : VcpuIrqs) (irqs : List Nat) : Prop where
  lrInv : LrInv c st'
  held_all : ∀ irq ∈ irqs, Held c st' irq
  held : ∀ k, Held c st k → Held c st' k
  held_inv : ∀ k, Held c st' k → Held c st k ∨ k ∈ irqs
  pending : ∀ k, st'.pending k = (st.pending k && decide (k ∉ irqs))
  enabled : st'.enabled = st.enabled
  hasLr_other : ∀ k, k ∉ irqs → hasLr st' k = hasLr st k
  idle : (idleLrs c st').card + (irqs.filter fun k => !hasLr st k).length = (idleLrs c st).card

section Flushed

variable {c : VgicConfig} {st st' st'' : VcpuIrqs}

theorem Flushed.nil (hInv : LrInv c st) :
    Flushed c st st [] where
  lrInv := hInv
  held_all := by simp
  held := fun _ hHeld => hHeld
  held_inv := fun _ hHeld => .inl hHeld
  pending := by simp
  enabled := rfl
  hasLr_other := fun _ _ => rfl
  idle := by simp

theorem FlushedIrq.flushed (hOne : FlushedIrq c st st' irq) :
    Flushed c st st' [irq] where
  lrInv := hOne.lrInv
  held_all := by simpa using hOne.held_self
  held := hOne.held
  held_inv := by simpa using hOne.held_inv
  pending := by simpa using hOne.pending
  enabled := hOne.enabled
  hasLr_other := by
    intro k hk
    exact hOne.hasLr_other k (by simpa using hk)
  idle := by
    rw [← hOne.idle]
    cases hHas : hasLr st irq <;> simp [hHas]

theorem Flushed.append {irqs more : List Nat} (hFirst : Flushed c st st' irqs)
    (hRest : Flushed c st' st'' more) (hDisj : irqs.Disjoint more) :
    Flushed c st st'' (irqs ++ more) where
  lrInv := hRest.lrInv
  held_all := List.forall_mem_append.mpr
    ⟨fun irq hOld => hRest.held irq (hFirst.held_all irq hOld), hRest.held_all⟩
  held := fun k hHeld => hRest.held k (hFirst.held k hHeld)
  held_inv := by
    intro k hHeld
    rw [List.mem_append]
    rcases hRest.held_inv k hHeld with hMid | hNew
    · rcases hFirst.held_inv k hMid with hOld | hIn
      · exact .inl hOld
      · exact .inr (.inl hIn)
    · exact .inr (.inr hNew)
  pending := by
    intro k
    rw [hRest.pending, hFirst.pending]
    simp [Bool.and_assoc]
  enabled := hRest.enabled.trans hFirst.enabled
  hasLr_other := by
    intro k hk
    rw [List.mem_append, not_or] at hk
    rw [hRest.hasLr_other k hk.2, hFirst.hasLr_other k hk.1]
  idle := by
    have hSame : (more.filter fun k => !hasLr st' k) = more.filter fun k => !hasLr st k := by
      apply List.filter_congr
      intro k hk
      rw [hFirst.hasLr_other k fun hIn => hDisj hIn hk]
    have hIdle := hFirst.idle
    have hIdleRest := hRest.idle
    rw [hSame] at hIdleRest
    rw [List.filter_append, List.length_append]
    omega

/-- An interrupt has room if the registers suffice for all of the list. -/
theorem hasRoom_of_length {irqs : List Nat}
    (hLen : ((irq :: irqs).filter fun k => !hasLr st k).length ≤ (idleLrs c st).card) :
    HasRoom c st irq := by
  cases hHas : hasLr st irq with
  | true => exact .inl hHas
  | false =>
    right
    rw [← Finset.card_pos]
    simp only [List.filter_cons, hHas, Bool.not_false, if_true, List.length_cons] at hLen
    omega

theorem flushIrqs_flushed (irqs : List Nat) :
    ∀ st, LrInv c st → irqs.Nodup → (∀ irq ∈ irqs, irq < c.virqNr) →
      (irqs.filter fun k => !hasLr st k).length ≤ (idleLrs c st).card →
      (flushIrqs c irqs st).2 = true ∧ Flushed c st (flushIrqs c irqs st).1 irqs := by
  induction irqs with
  | nil =>
    intro st hInv _ _ _
    exact ⟨rfl, Flushed.nil hInv⟩
  | cons irq irqs ih =>
    intro st hInv hNodup hLt hLen
    obtain ⟨hNot, hTail⟩ := List.nodup_cons.mp hNodup
    obtain ⟨hOn, hOne⟩ := flushIrq_flushed hInv (hLt irq (by simp)) (hasRoom_of_length hLen)
    have hSame : (irqs.filter fun k => !hasLr (flushIrq c st irq).1 k) =
        irqs.filter fun k => !hasLr st k := by
      apply List.filter_congr
      intro k hk
      rw [hOne.hasLr_other k fun hEq => hNot (hEq ▸ hk)]
    have hRoom : (irqs.filter fun k => !hasLr (flushIrq c st irq).1 k).length ≤
        (idleLrs c (flushIrq c st irq).1).card := by
      have hIdle := hOne.idle
      rw [hSame]
      cases hHas : hasLr st irq <;> simp [hHas] at hLen hIdle <;> omega
    obtain ⟨hRest, hFlushed⟩ := ih (flushIrq c st irq).1 hOne.lrInv hTail
      (fun k hk => hLt k (by simp [hk])) hRoom
    have hEq : flushIrqs c (irq :: irqs) st = flushIrqs c irqs (flushIrq c st irq).1 := by
      have hPair : flushIrq c st irq = ((flushIrq c st irq).1, true) := Prod.ext rfl hOn
      rw [flushIrqs, hPair]
    rw [hEq]
    refine ⟨hRest, ?_⟩
    have hAll := hOne.flushed.append hFlushed (by simpa using hNot)
    simpa using hAll

theorem mem_bankMask :
    irq ∈ bankMask st b ↔ irq / 32 = b ∧ st.pending irq = true ∧ st.enabled irq = true := by
  simp only [bankMask, List.mem_filter, List.mem_map, List.mem_range, Bool.and_eq_true]
  constructor
  · rintro ⟨⟨k, hk, rfl⟩, hWant⟩
    exact ⟨by omega, hWant⟩
  · rintro ⟨hBank, hWant⟩
    exact ⟨⟨irq % 32, by omega, by omega⟩, hWant⟩

theorem nodup_bankMask (st : VcpuIrqs) (b : Nat) : (bankMask st b).Nodup := by
  apply List.Nodup.filter
  apply List.nodup_range.map
  intro x y hEq
  simp only at hEq
  omega

theorem disjoint_bankMask {bs : List Nat} (hb : b ∉ bs) :
    (bankMask st b).Disjoint (bs.flatMap (bankMask st)) := by
  intro irq hIn hRest
  obtain ⟨b', hb', hIn'⟩ := List.mem_flatMap.mp hRest
  rw [mem_bankMask] at hIn hIn'
  exact hb (hIn.1.symm.trans hIn'.1 ▸ hb')

/-- The flush of one bank does not change what is to be done for the others. -/
theorem Flushed.bankMask_eq {b' : Nat} (hFlushed : Flushed c st st' (bankMask st b))
    (hNe : b' ≠ b) : bankMask st' b' = bankMask st b' := by
  unfold bankMask
  apply List.filter_congr
  intro irq hIrq
  have hBank : irq / 32 = b' := by
    obtain ⟨k, hk, rfl⟩ := List.mem_map.mp hIrq
    have := List.mem_range.mp hk
    omega
  have hNot : irq ∉ bankMask st b := by
    rw [mem_bankMask]
    intro hIn
    exact hNe (hBank.symm.trans hIn.1)
  rw [hFlushed.pending, hFlushed.enabled]
  simp [hNot]

theorem flushBanks_flushed (bs : List Nat) :
    ∀ st, LrInv c st → bs.Nodup → (∀ b ∈ bs, 32 * (b + 1) ≤ c.virqNr) →
      ((bs.flatMap (bankMask st)).filter fun k => !hasLr st k).length ≤ (idleLrs c st).card →
      Flushed c st (flushBanks c bs st) (bs.flatMap (bankMask st)) := by
  induction bs with
  | nil =>
    intro st hInv _ _ _
    exact Flushed.nil hInv
  | cons b bs ih =>
    intro st hInv hNodup hLt hLen
    obtain ⟨hNot, hTail⟩ := List.nodup_cons.mp hNodup
    rw [List.flatMap_cons] at hLen ⊢
    rw [List.filter_append, List.length_append] at hLen
    have hIrqs : ∀ irq ∈ bankMask st b, irq < c.virqNr := by
      intro irq hIrq
      have := (mem_bankMask.mp hIrq).1
      have := hLt b (by simp)
      omega
    obtain ⟨hOn, hBank⟩ := flushIrqs_flushed (bankMask st b) st hInv (nodup_bankMask st b)
      hIrqs (by omega)
    have hDisj : (bankMask st b).Disjoint (bs.flatMap (bankMask st)) := disjoint_bankMask hNot
    -- the masks and registers of the later banks are those of the state before
    have hMasks : bs.flatMap (bankMask (flushIrqs c (bankMask st b) st).1) =
        bs.flatMap (bankMask st) := by
      apply List.flatMap_congr
      intro b' hb'
      exact hBank.bankMask_eq fun hEq => hNot (hEq ▸ hb')
    have hHas : ((bs.flatMap (bankMask st)).filter
        fun k => !hasLr (flushIrqs c (bankMask st b) st).1 k) =
        (bs.flatMap (bankMask st)).filter fun k => !hasLr st k := by
      apply List.filter_congr
      intro k hk
      rw [hBank.hasLr_other k fun hIn => hDisj hIn hk]
    have hRest := ih (flushIrqs c (bankMask st b) st).1 hBank.lrInv hTail
      (fun b' hb' => hLt b' (by simp [hb'])) (by
        rw [hMasks, hHas]
        have := hBank.idle
        omega)
    rw [hMasks] at hRest
    have hEq : flushBanks c (b :: bs) st =
        flushBanks c bs (flushIrqs c (bankMask st b) st).1 := by
      have hPair : flushIrqs c (bankMask st b) st = ((flushIrqs c (bankMask st b) st).1, true) :=
        Prod.ext rfl hOn
      rw [flushBanks, hPair]
    rw [hEq]
    exact hBank.append hRest hDisj

end Flushed

/-! ## The whole flush -/

/-- The interrupts that a flush looks for and for which there is no list register yet. -/
def waiting (c : VgicConfig) (pending enabled has : Nat → Bool) : Finset Nat :=
  (Finset.range (32 * (c.virqNr / 32))).filter fun k => pending k && enabled k && !has k

/-- The interrupts that a flush looks for. -/
def flushed (c : VgicConfig) (st : VcpuIrqs) : List Nat :=
  (List.range (c.virqNr / 32)).flatMap (bankMask st)

theorem mem_flushed {c : VgicConfig} :
    irq ∈ flushed c st ↔
      irq < 32 * (c.virqNr / 32) ∧ st.pending irq = true ∧ st.enabled irq = true := by
  simp only [flushed, List.mem_flatMap, List.mem_range, mem_bankMask]
  constructor
  · rintro ⟨b, hb, hBank, hWant⟩
    exact ⟨by omega, hWant⟩
  · rintro ⟨hLt, hWant⟩
    exact ⟨irq / 32, by omega, rfl, hWant⟩

theorem nodup_flushed (c : VgicConfig) (st : VcpuIrqs) : (flushed c st).Nodup := by
  rw [flushed, List.nodup_flatMap]
  refine ⟨fun b _ => nodup_bankMask st b, ?_⟩
  apply List.nodup_range.imp
  intro b b' hNe irq hIn hIn'
  rw [mem_bankMask] at hIn hIn'
  exact hNe (hIn.1.symm.trans hIn'.1)

/-- **What a flush does** when there are enough list registers. -/
theorem virtIrqFlushVgic_flushed {c : VgicConfig} (hInv : LrInv c st)
    (hRoom : (waiting c st.pending st.enabled (hasLr st)).card ≤ (idleLrs c st).card) :
    Flushed c st (virtIrqFlushVgic c st) (flushed c st) := by
  apply flushBanks_flushed _ st hInv List.nodup_range
  · intro b hb
    have := List.mem_range.mp hb
    omega
  · have hNodup : ((flushed c st).filter fun k => !hasLr st k).Nodup :=
      (nodup_flushed c st).filter _
    have hSub : ((flushed c st).filter fun k => !hasLr st k).toFinset ⊆
        waiting c st.pending st.enabled (hasLr st) := by
      intro k hk
      rw [List.mem_toFinset, List.mem_filter, mem_flushed] at hk
      simpa [waiting, hk.1.1, hk.1.2.1, hk.1.2.2] using hk.2
    have hCard := Finset.card_le_card hSub
    rw [List.toFinset_card_of_nodup hNodup] at hCard
    exact Nat.le_trans hCard hRoom

/-! ## Sync -/

/-- The registers of `is` are free and their interrupts have none; nothing else changes. -/
structure Synced (c : VgicConfig) (st st' : VcpuIrqs) (is : List Nat) : Prop where
  lrInv : LrInv c st'
  pending : st'.pending = st.pending
  enabled : st'.enabled = st.enabled
  lr : ∀ i, st'.lr i = if i ∈ is then .zero else st.lr i
  map : ∀ i, st'.listRegsMap.getLsbD i = (st.listRegsMap.getLsbD i && decide (i ∉ is))
  desc : ∀ k, st'.desc k =
    if (st.desc k).id ∈ is then { st.desc k with id := invalidDescId } else st.desc k

section Sync

variable {c : VgicConfig} {st st' st'' : VcpuIrqs}

theorem syncLr_synced (hInv : LrInv c st) {i : Nat} (hi : st.listRegsMap.getLsbD i = true) :
    Synced c st (syncLr c st i) [i] := by
  have hLt := hInv.map_lt hi
  obtain ⟨hSlot, hVirq, hOwn⟩ := hInv.mapped i hi
  have hEdge := hInv.edge (st.lr i).vINTID
  have hRead : vgicv3ReadLr st i = st.lr i := by simp [vgicv3ReadLr, hLt]
  -- the descriptor with this register is the one of the interrupt in it
  have hDesc : ∀ k, (st.desc k).id = i ↔ k = (st.lr i).vINTID := by
    intro k
    constructor
    · intro hId
      exact (hInv.vINTID_of_id hi hId).symm
    · intro hk
      rw [hk]
      exact hOwn
  have hStep : syncLr c st i =
      setDesc (listRegsUnset { st with lr := FunArray.set st.lr i .zero } i) (st.lr i).vINTID
        { st.desc (st.lr i).vINTID with id := invalidDescId } := by
    simp [syncLr, hRead, vgicv3WriteLr, hLt, Nat.not_le.mpr hVirq, hEdge]
  have hMap : ∀ k, (syncLr c st i).listRegsMap.getLsbD k =
      (st.listRegsMap.getLsbD k && decide (k ∉ [i])) := by
    intro k
    have hUnset := getLsbD_listRegsUnset st (show i < 31 by omega) k
    rw [hStep]
    simpa [setDesc, listRegsUnset, Bool.and_comm] using hUnset
  have hLr : ∀ k, (syncLr c st i).lr k = if k ∈ [i] then .zero else st.lr k := by
    intro k
    rw [hStep]
    simp [setDesc, listRegsUnset, FunArray.set]
  have hDescs : ∀ k, (syncLr c st i).desc k =
      if (st.desc k).id ∈ [i] then { st.desc k with id := invalidDescId } else st.desc k := by
    intro k
    rw [hStep]
    simp only [setDesc, listRegsUnset, FunArray.set, List.mem_singleton, hDesc]
    split
    case isTrue hk => rw [hk]
    case isFalse => rfl
  refine ⟨⟨?_, ?_, ?_, ?_, ?_⟩, ?_, ?_, hLr, hMap, hDescs⟩
  · intro irq
    rw [hStep]
    exact hInv.edge irq
  · intro k hk
    rw [hLr]
    by_cases hEq : k = i
    · simp [hEq, ListReg.zero]
    · rw [hMap] at hk
      simpa [hEq] using hInv.free k (by simpa [hEq] using hk)
  · intro k hk
    rw [hMap, Bool.and_eq_true, decide_eq_true_eq, List.mem_singleton] at hk
    obtain ⟨hSlotK, hVirqK, hOwnK⟩ := hInv.mapped k hk.1
    rw [hLr, if_neg (by simpa using hk.2), hDescs, hOwnK, if_neg (by simpa using hk.2)]
    exact ⟨hSlotK, hVirqK, hOwnK⟩
  · intro irq
    rw [hDescs]
    split
    · exact .inl rfl
    case isFalse hNe =>
      rcases hInv.descId irq with hNone | ⟨hBit, hIrq⟩
      · exact .inl hNone
      · right
        rw [hMap, hLr, if_neg hNe]
        exact ⟨by simpa [hBit] using hNe, hIrq⟩
  · intro irq k hk
    rw [hDescs] at hk
    split at hk <;> exact hInv.src irq k hk
  · rw [hStep]
    rfl
  · rw [hStep]
    rfl

theorem Synced.nil (hInv : LrInv c st) : Synced c st st [] := by
  refine ⟨hInv, rfl, rfl, ?_, ?_, ?_⟩ <;> simp

theorem Synced.append {is more : List Nat} (hFirst : Synced c st st' is)
    (hRest : Synced c st' st'' more) (hValid : ∀ i ∈ more, i < 8) :
    Synced c st st'' (is ++ more) where
  lrInv := hRest.lrInv
  pending := hRest.pending.trans hFirst.pending
  enabled := hRest.enabled.trans hFirst.enabled
  lr := by
    intro i
    rw [hRest.lr, hFirst.lr]
    by_cases hMore : i ∈ more <;> by_cases hIs : i ∈ is <;> simp [hMore, hIs]
  map := by
    intro i
    rw [hRest.map, hFirst.map]
    simp [Bool.and_assoc]
  desc := by
    intro k
    have hInvalid : invalidDescId ∉ more := by
      intro hIn
      exact absurd (hValid _ hIn) (by decide)
    rw [hRest.desc, hFirst.desc]
    by_cases hIs : (st.desc k).id ∈ is
    · simp [hIs, hInvalid]
    · by_cases hMore : (st.desc k).id ∈ more <;> simp [hIs, hMore]

theorem syncLrs_synced (is : List Nat) :
    ∀ st, LrInv c st → is.Nodup → (∀ i ∈ is, st.listRegsMap.getLsbD i = true) →
      Synced c st (is.foldl (syncLr c) st) is := by
  induction is with
  | nil =>
    intro st hInv _ _
    exact Synced.nil hInv
  | cons i is ih =>
    intro st hInv hNodup hMapped
    obtain ⟨hNot, hTail⟩ := List.nodup_cons.mp hNodup
    have hOne := syncLr_synced hInv (hMapped i (by simp))
    have hStill : ∀ k ∈ is, (syncLr c st i).listRegsMap.getLsbD k = true := by
      intro k hk
      have hNe : k ≠ i := fun hEq => hNot (hEq ▸ hk)
      rw [hOne.map, hMapped k (by simp [hk])]
      simpa using hNe
    have hRest := ih (syncLr c st i) hOne.lrInv hTail hStill
    exact hOne.append hRest fun k hk => hInv.map_lt (hMapped k (by simp [hk]))

/-- The list registers a sync collects. -/
def finishedLrs (c : VgicConfig) (st : VcpuIrqs) : List Nat :=
  (List.range c.lrNum).filter fun i => emptyLr st i && st.listRegsMap.getLsbD i

theorem mem_finishedLrs (hInv : LrInv c st) {i : Nat} :
    i ∈ finishedLrs c st ↔ emptyLr st i = true ∧ st.listRegsMap.getLsbD i = true := by
  simp only [finishedLrs, List.mem_filter, List.mem_range, Bool.and_eq_true]
  constructor
  · exact fun hIn => hIn.2
  · intro hBoth
    exact ⟨Nat.lt_of_lt_of_le (hInv.mapped i hBoth.2).1 c.lrs_le_lrNum, hBoth⟩

/-- **What a sync does.** -/
theorem virtIrqSyncVgic_synced (hInv : LrInv c st) :
    Synced c st (virtIrqSyncVgic c st) (finishedLrs c st) := by
  unfold virtIrqSyncVgic
  split
  case isTrue hZero =>
    have hNone : finishedLrs c st = [] := by
      apply List.filter_eq_nil_iff.mpr
      intro i _
      simp [hZero]
    rw [hNone]
    exact Synced.nil hInv
  case isFalse =>
    apply syncLrs_synced _ st hInv (List.nodup_range.filter _)
    intro i hi
    exact ((mem_finishedLrs hInv).mp hi).2

/-- A sync leaves pending interrupts where they are. -/
theorem held_sync (hInv : LrInv c st) : Held c (virtIrqSyncVgic c st) irq ↔ Held c st irq := by
  have hSync := virtIrqSyncVgic_synced hInv
  have hSame : ∀ i, (st.lr i).state.pending = true → (virtIrqSyncVgic c st).lr i = st.lr i := by
    intro i hPend
    rw [hSync.lr, if_neg]
    rw [mem_finishedLrs hInv]
    intro hDone
    have hInvalid : (st.lr i).state = .invalid := by simpa [emptyLr] using hDone.1
    rw [hInvalid] at hPend
    cases hPend
  constructor
  · rintro ⟨i, hi, hIrq, hPend⟩
    have hLr := hSync.lr i
    by_cases hDone : i ∈ finishedLrs c st
    · rw [if_pos hDone] at hLr
      rw [hLr] at hPend
      cases hPend
    · rw [if_neg hDone] at hLr
      rw [hLr] at hIrq hPend
      exact ⟨i, hi, hIrq, hPend⟩
  · rintro ⟨i, hi, hIrq, hPend⟩
    exact ⟨i, hi, by rw [hSame i hPend]; exact hIrq, by rw [hSame i hPend]; exact hPend⟩

/-- The interrupt is in a list register that a sync does not collect. -/
def busyLr (st : VcpuIrqs) (irq : Nat) : Bool := hasLr st irq && !emptyLr st (st.desc irq).id

/-- The list registers that are idle after a sync. -/
def freeLrs (c : VgicConfig) (st : VcpuIrqs) : Finset Nat :=
  (Finset.range c.lrs).filter fun i => emptyLr st i = true

theorem hasLr_sync (hInv : LrInv c st) (irq : Nat) :
    hasLr (virtIrqSyncVgic c st) irq = busyLr st irq := by
  rw [hasLr, (virtIrqSyncVgic_synced hInv).desc]
  rcases hInv.descId irq with hNone | ⟨hBit, _⟩
  · have hNot : invalidDescId ∉ finishedLrs c st := by
      rw [mem_finishedLrs hInv]
      intro hIn
      exact absurd (hInv.map_lt hIn.2) (by decide)
    simp [busyLr, hasLr, hNone, hNot]
  · have hMem : (st.desc irq).id ∈ finishedLrs c st ↔ emptyLr st (st.desc irq).id = true := by
      rw [mem_finishedLrs hInv]
      simp [hBit]
    cases hEmpty : emptyLr st (st.desc irq).id with
    | true => simp [busyLr, hMem.mpr hEmpty, hEmpty]
    | false =>
      have hNot : (st.desc irq).id ∉ finishedLrs c st := by
        rw [hMem, hEmpty]
        simp
      simp [busyLr, hasLr, hNot, hEmpty]

theorem idleLrs_sync (hInv : LrInv c st) : idleLrs c (virtIrqSyncVgic c st) = freeLrs c st := by
  ext i
  rw [mem_idleLrs, (virtIrqSyncVgic_synced hInv).map, freeLrs, Finset.mem_filter,
    Finset.mem_range]
  refine and_congr_right fun _ => ?_
  cases hBit : st.listRegsMap.getLsbD i with
  | false => simp [emptyLr, hInv.free i hBit]
  | true => simp [mem_finishedLrs hInv, hBit]

end Sync

/-! ## With or without room -/

section WriteLr

variable (st : VcpuIrqs) (i : Nat) (value : ListReg)

@[simp]
theorem writeLr_desc : (vgicv3WriteLr st i value).desc = st.desc := by
  unfold vgicv3WriteLr
  split <;> rfl

@[simp]
theorem writeLr_pending : (vgicv3WriteLr st i value).pending = st.pending := by
  unfold vgicv3WriteLr
  split <;> rfl

@[simp]
theorem writeLr_edge : (vgicv3WriteLr st i value).edge = st.edge := by
  unfold vgicv3WriteLr
  split <;> rfl

theorem writeLr_lr :
    (vgicv3WriteLr st i value).lr = if i < 8 then FunArray.set st.lr i value else st.lr := by
  unfold vgicv3WriteLr
  split <;> rfl

end WriteLr

/-- An injection changes the interrupt's descriptor and writes one list register from it. -/
theorem inject_writes (c : VgicConfig) (st : VcpuIrqs) (virq : Nat) :
    ∃ d i value,
      (vgicInjectVirqVcpuif c st virq).1.desc = FunArray.set st.desc virq d ∧
      (vgicInjectVirqVcpuif c st virq).1.lr =
        (if i < 8 then FunArray.set st.lr i (vgicv3PreSetLr virq d value) else st.lr) ∧
      (vgicInjectVirqVcpuif c st virq).1.pending = st.pending ∧
      (vgicInjectVirqVcpuif c st virq).1.edge = st.edge ∧
      d.pirqNum = (st.desc virq).pirqNum ∧
      (virq ≠ c.vserialVirq → virq ≠ c.zshmVirq → d.level = (st.desc virq).level) ∧
      (d.virqStates.active = true → (st.desc virq).virqStates.active = true) := by
  have hReg : ¬ ((vgicv3GetIdleLr c st : Nat) : Int) < 0 := by omega
  let d := st.desc virq
  let value := if listRegsTest st d.id then vgicv3ReadLr st d.id else .zero
  unfold vgicInjectVirqVcpuif
  simp only [hReg, if_false]
  -- the register it has, or the one found idle
  by_cases hReuse : (listRegsTest st d.id && value.vINTID == virq) = true
  · rw [if_pos hReuse]
    let d₁ : VirqDesc := { d with
      virqStates := { d.virqStates with pending := true }
      level := d.level && !(virq == c.zshmVirq) }
    refine ⟨d₁, d.id, value, writeLr_desc _ _ _, writeLr_lr _ _ _,
      writeLr_pending _ _ _, writeLr_edge _ _ _, rfl, ?_, id⟩
    intro _ hZshm
    simp [hZshm, d₁, d]
  · rw [if_neg hReuse]
    let d₁ : VirqDesc := { d with
      id := vgicv3GetIdleLr c st
      virqStates := ⟨true, false⟩
      level := d.level && !(virq == c.vserialVirq || virq == c.zshmVirq) }
    refine ⟨d₁, vgicv3GetIdleLr c st, value, writeLr_desc _ _ _, writeLr_lr _ _ _,
      writeLr_pending _ _ _, writeLr_edge _ _ _, rfl, ?_, nofun⟩
    intro hSerial hZshm
    simp [hSerial, hZshm, d₁, d]

/-- `P` survives the writes that flushes and syncs are made of; only interrupts in `A`
are pending, and so injected. -/
structure Kept (c : VgicConfig) (A : Nat → Prop) (P : VcpuIrqs → Prop) : Prop where
  allowed : ∀ st irq, P st → st.pending irq = true → A irq
  inject : ∀ st irq, A irq → P st → P (vgicInjectVirqVcpuif c st irq).1
  pending : ∀ st irq, P st → P (setPending st irq false)
  active : ∀ st irq on, P st → P (setActive st irq on)
  src : ∀ st irq srcCpu, P st → P (setDesc st irq { st.desc irq with srcCpu := srcCpu })
  syncLr : ∀ st i, P st → P (syncLr c st i)

section Kept

variable {c : VgicConfig} {A : Nat → Prop} {P : VcpuIrqs → Prop}

section

variable (hKept : Kept c A P)
include hKept

theorem Kept.injectSources (hA : A irq) (is : List Nat) :
    ∀ st src, P st → P (injectSources c irq is st src).1 := by
  induction is with
  | nil =>
    intro st src hP
    exact hP
  | cons i is ih =>
    intro st src hP
    simp only [Vgic.injectSources]
    split
    · exact ih _ _ (hKept.inject st irq hA hP)
    · exact ih _ _ hP

theorem Kept.flushLocalIrq (hA : A irq) (hP : P st) : P (flushLocalIrq c st irq).1 := by
  unfold Vgic.flushLocalIrq
  simp only
  split
  · have hInjected := hKept.inject st irq hA hP
    split
    · exact hKept.pending _ _ hInjected
    · exact hInjected
  · have hSent := hKept.injectSources hA (List.range c.vcpuNum) st (st.desc irq).srcCpu hP
    have hCleared := hKept.src _ irq
      (Vgic.injectSources c irq (List.range c.vcpuNum) st (st.desc irq).srcCpu).2 hSent
    split
    · exact hKept.pending _ _ hCleared
    · exact hCleared

theorem Kept.flushSpiIrq (hA : A irq) (hP : P st) : P (flushSpiIrq c st irq).1 := by
  have hInjected := hKept.inject st irq hA hP
  have hCleared := hKept.pending _ irq hInjected
  unfold Vgic.flushSpiIrq
  simp only
  split
  · split
    · exact hCleared
    · exact hKept.active _ _ _ hCleared
  · exact hInjected

theorem Kept.flushIrqs (irqs : List Nat) (hA : ∀ irq ∈ irqs, A irq) :
    ∀ st, P st → P (flushIrqs c irqs st).1 := by
  induction irqs with
  | nil =>
    intro st hP
    exact hP
  | cons irq irqs ih =>
    intro st hP
    have hOne : P (flushIrq c st irq).1 := by
      unfold flushIrq
      split
      · exact hKept.flushLocalIrq (hA irq (by simp)) hP
      · exact hKept.flushSpiIrq (hA irq (by simp)) hP
    rw [Vgic.flushIrqs]
    split
    case h_1 st₁ hEq =>
      rw [hEq] at hOne
      exact ih (fun k hk => hA k (by simp [hk])) st₁ hOne
    case h_2 st₁ hEq =>
      rw [hEq] at hOne
      exact hOne

theorem Kept.flush (hP : P st) : P (virtIrqFlushVgic c st) := by
  have hBanks : ∀ bs st, P st → P (flushBanks c bs st) := by
    intro bs
    induction bs with
    | nil =>
      intro st hP
      exact hP
    | cons b bs ih =>
      intro st hP
      have hBank := hKept.flushIrqs (bankMask st b)
        (fun irq hIrq => hKept.allowed st irq hP (mem_bankMask.mp hIrq).2.1) st hP
      rw [flushBanks]
      split
      case h_1 st₁ hEq =>
        rw [hEq] at hBank
        exact ih st₁ hBank
      case h_2 st₁ hEq =>
        rw [hEq] at hBank
        exact hBank
  exact hBanks _ st hP

theorem Kept.sync (hP : P st) : P (virtIrqSyncVgic c st) := by
  have hFold : ∀ (is : List Nat) st, P st → P (is.foldl (Vgic.syncLr c) st) := by
    intro is
    induction is with
    | nil =>
      intro st hP
      exact hP
    | cons i is ih =>
      intro st hP
      exact ih _ (hKept.syncLr st i hP)
  unfold virtIrqSyncVgic
  split
  · exact hP
  · exact hFold _ st hP

theorem Kept.set {virq : Nat} {level : Bool} (hP : P st) (hLatch : P (latchVirq st virq level))
    (cur others : Bool) : P (vgicSetVirqToVcpu c st virq level cur others) := by
  unfold vgicSetVirqToVcpu
  split
  · exact hP
  · split
    · exact hP
    · simp only
      split
      · exact hKept.flush (hKept.sync hLatch)
      · exact hLatch

end

end Kept

end Zvm.Vgic
