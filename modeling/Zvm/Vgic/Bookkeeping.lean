import Zvm.Vgic.Conserve

/-!
# The list registers over context switches

The list registers of a vCPU are in the hardware while it runs.  `vgicv3_lrs_save` puts them into
its context and `vgicv3_lrs_load` takes them from there; in between other vCPUs use the hardware.
The map of the registers in use and the descriptors are the vCPU's own and are not switched.
-/

namespace Zvm.Vgic

open Zvm.Verified Zvm.Verified.Run

/-- A vCPU with its saved context; `irqs.lr` are the registers of the hardware.  Nothing reads
`filled`: the registers that an injection has filled and no sync has collected since. -/
structure VcpuIf where
  irqs : VcpuIrqs
  saved : Nat → ListReg
  running : Bool
  filled : Nat → Bool

inductive IfOp where
  | inject (virq : Nat)
  | sync
  | ack (i : Nat)
  | eoi (i : Nat)
  | save
  | load
  | others (lr : Nat → ListReg)

/-- The copies of `vgicv3_lrs_save` and `vgicv3_lrs_load`, which have cases up to eight. -/
def copyLrs (c : VgicConfig) (src dst : Nat → ListReg) (i : Nat) : ListReg :=
  if i < c.lrNum ∧ c.lrNum ≤ 8 then src i else dst i

def ifStep (c : VgicConfig) (s : VcpuIf) : IfOp → VcpuIf
  | .inject virq =>
    let st := (vgicInjectVirqVcpuif c s.irqs virq).1
    { s with irqs := st, filled := FunArray.set s.filled (st.desc virq).id true }
  | .sync =>
    { s with
      irqs := virtIrqSyncVgic c s.irqs
      filled := fun i => s.filled i && !(decide (i < c.lrNum) && emptyLr s.irqs i) }
  | .ack i => { s with irqs := virqStep c s.irqs (.ack i) }
  | .eoi i => { s with irqs := virqStep c s.irqs (.eoi i) }
  | .save => { s with saved := copyLrs c s.irqs.lr s.saved, running := false }
  | .load => { s with irqs := { s.irqs with lr := copyLrs c s.saved s.irqs.lr }, running := true }
  | .others lr =>
    { s with irqs := { s.irqs with lr := fun i => if i < c.lrNum then lr i else s.irqs.lr i } }

def bootIf : VcpuIf := ⟨bootIrqs, fun _ => .zero, false, fun _ => false⟩

/-- The vCPU with its own list registers, wherever they are. -/
def VcpuIf.view (c : VgicConfig) (s : VcpuIf) : VcpuIrqs :=
  if s.running then s.irqs else { s.irqs with lr := copyLrs c s.saved s.irqs.lr }

/-- An interrupt that is injected has a list register or finds one idle. -/
def IfOp.Ok (c : VgicConfig) (s : VcpuIf) : IfOp → Prop
  | .inject virq => s.running = true ∧ virq < c.virqNr ∧ HasRoom c s.irqs virq
  | .load | .others _ => s.running = false
  | _ => s.running = true

structure LrBooks (c : VgicConfig) (filled : Nat → Bool) (st : VcpuIrqs) : Prop where
  map : ∀ i, st.listRegsMap.getLsbD i = filled i
  owner : ∀ i, filled i = true → (st.lr i).vINTID < c.virqNr ∧
    ∀ virq, (st.desc virq).id = i ↔ virq = (st.lr i).vINTID
  idle : ∀ i, filled i = false → (st.lr i).state = .invalid
  distinct : ∀ i j, filled i = true → filled j = true → (st.lr i).vINTID = (st.lr j).vINTID → i = j
  again : ∀ virq, hasLr st virq = true →
    ((vgicInjectVirqVcpuif c st virq).1.lr (st.desc virq).id).state.active =
      (st.lr (st.desc virq).id).state.active

/-- What the operations keep. -/
structure Booked (c : VgicConfig) (filled : Nat → Bool) (st : VcpuIrqs) : Prop where
  lrInv : LrInv c st
  map : ∀ i, st.listRegsMap.getLsbD i = filled i
  inactive : ∀ virq, (st.desc virq).virqStates.active = false

section Booked

variable {c : VgicConfig} {filled : Nat → Bool} {st : VcpuIrqs} (h : Booked c filled st)
include h

theorem Booked.books : LrBooks c filled st := by
  have hOwn : ∀ i, filled i = true → (st.desc (st.lr i).vINTID).id = i :=
    fun i hi => (h.lrInv.mapped i ((h.map i).trans hi)).2.2
  refine ⟨h.map, fun i hi => ⟨?_, fun virq => ⟨fun hId => ?_, fun hEq => hEq ▸ hOwn i hi⟩⟩,
    fun i hi => h.lrInv.free i ((h.map i).trans hi), fun i j hi hj hEq => ?_, fun virq hHas => ?_⟩
  · exact (h.lrInv.mapped i ((h.map i).trans hi)).2.1
  · exact (h.lrInv.vINTID_of_id ((h.map i).trans hi) hId).symm
  · rw [← hOwn i hi, ← hOwn j hj, hEq]
  · -- the state of a descriptor is never active, so the register's bit is what it was
    obtain ⟨hBit, d, d', hWrite, hState, -, -⟩ := inject_held h.lrInv hHas
    rw [hWrite, writeLr_lr, if_pos (h.lrInv.map_lt hBit), FunArray.set_same]
    simp [vgicv3PreSetLr, hState, h.inactive virq]

theorem Booked.inject {virq : Nat} (hVirq : virq < c.virqNr) (hRoom : HasRoom c st virq) :
    Booked c (FunArray.set filled ((vgicInjectVirqVcpuif c st virq).1.desc virq).id true)
      (vgicInjectVirqVcpuif c st virq).1 := by
  obtain ⟨j, hInj⟩ := inject_injected h.lrInv hRoom
  obtain ⟨d, _, _, hDesc, _, _, _, _, _, hOff⟩ := inject_writes c st virq
  refine ⟨hInj.lrInv h.lrInv hVirq, fun i => ?_, fun k => ?_⟩
  · rw [hInj.map, hInj.desc_self.1, h.map, FunArray.set_apply]
    by_cases hi : i = j <;> simp [hi]
  · rw [hDesc]
    refine FunArray.set_elim (fun _ => ?_) fun _ => h.inactive k
    simpa [h.inactive virq] using hOff

theorem Booked.sync :
    Booked c (fun i => filled i && !(decide (i < c.lrNum) && emptyLr st i))
      (virtIrqSyncVgic c st) := by
  have hSync := virtIrqSyncVgic_synced h.lrInv
  refine ⟨hSync.lrInv, fun i => ?_, fun k => ?_⟩
  · rw [hSync.map, h.map]
    simp only [finishedLrs, List.mem_filter, List.mem_range, h.map]
    cases filled i <;> simp
  · rw [hSync.desc]
    split <;> exact h.inactive k

/-- The guest's steps change states of list registers only. -/
theorem Booked.guest (op : VirqOp) (hRoom : LeavesRoom c st op)
    (hSame : (virqStep c st op).listRegsMap = st.listRegsMap ∧ (virqStep c st op).desc = st.desc) :
    Booked c filled (virqStep c st op) :=
  ⟨(virqStep_keeps h.lrInv hRoom).1, hSame.1 ▸ h.map, hSame.2 ▸ h.inactive⟩

end Booked

variable {c : VgicConfig} {s : VcpuIf}

theorem view_of_running (hRun : s.running = true) : s.view c = s.irqs := if_pos hRun

theorem view_of_saved (hOff : s.running = false) :
    s.view c = { s.irqs with lr := copyLrs c s.saved s.irqs.lr } := by
  simp [VcpuIf.view, hOff]

theorem booked_step (hMax : c.lrNum ≤ 8) (h : Booked c s.filled (s.view c)) {op : IfOp}
    (hOk : op.Ok c s) : Booked c (ifStep c s op).filled ((ifStep c s op).view c) := by
  cases op with
  | inject virq =>
    rw [view_of_running hOk.1] at h
    rw [view_of_running (s := ifStep c s (.inject virq)) hOk.1]
    exact h.inject hOk.2.1 hOk.2.2
  | sync =>
    rw [view_of_running hOk] at h
    rw [view_of_running (s := ifStep c s .sync) hOk]
    exact h.sync
  | ack i =>
    rw [view_of_running hOk] at h
    rw [view_of_running (s := ifStep c s (.ack i)) hOk]
    exact h.guest (.ack i) trivial (by simp only [virqStep]; split <;> exact ⟨rfl, rfl⟩)
  | eoi i =>
    rw [view_of_running hOk] at h
    rw [view_of_running (s := ifStep c s (.eoi i)) hOk]
    exact h.guest (.eoi i) trivial (by simp only [virqStep]; split <;> exact ⟨rfl, rfl⟩)
  | save =>
    have hBack : copyLrs c (copyLrs c s.irqs.lr s.saved) s.irqs.lr = s.irqs.lr := by
      funext i
      grind [copyLrs]
    rw [view_of_running hOk] at h
    rw [view_of_saved (s := ifStep c s .save) rfl]
    simp only [ifStep, hBack]
    exact h
  | load =>
    rw [view_of_saved hOk] at h
    exact h
  | others lr =>
    have hOwn : copyLrs c s.saved (fun i => if i < c.lrNum then lr i else s.irqs.lr i) =
        copyLrs c s.saved s.irqs.lr := by
      funext i
      grind [copyLrs]
    rw [view_of_saved hOk] at h
    rw [view_of_saved (s := ifStep c s (.others lr)) hOk]
    simp only [ifStep, hOwn]
    exact h

/-- **The books of the list registers**: in every state of every run in which an interrupt that
has no list register finds one idle, the map has the registers that were filled and not collected,
each of them is named by one descriptor and holds its interrupt, no interrupt is in two of them,
and an interrupt that is injected again stays active if it was. -/
theorem list_registers_booked (c : VgicConfig) (hMax : c.lrNum ≤ 8) (ops : List IfOp)
    (hOps : Admissible (ifStep c) (fun s op => op.Ok c s) bootIf ops) :
    Always (ifStep c) (fun s => LrBooks c s.filled (s.view c)) bootIf ops := by
  have hView : bootIf.view c = bootIrqs := by
    have hZero : copyLrs c (fun _ => .zero) (fun _ => .zero) = fun _ => .zero :=
      funext fun _ => ite_self _
    rw [view_of_saved rfl, bootIf, bootIrqs]
    simp only [hZero]
  refine always_of_admissible (fun s (h : Booked c s.filled (s.view c)) => h.books)
    (fun _ _ h hOp => booked_step hMax h hOp) ops _ ?_ hOps
  rw [hView]
  exact ⟨lrInv_boot c, fun i => by simp [bootIf, bootIrqs], fun _ => rfl⟩

/-- An interrupt is taken, injected again while it is active, and ended after a switch. -/
theorem list_registers_booked_switch :
    Always (ifStep (sampleVgic 4 (by decide)))
      (fun s => LrBooks (sampleVgic 4 (by decide)) s.filled (s.view (sampleVgic 4 (by decide))))
      bootIf
      [.load, .inject 40, .ack 0, .inject 40, .save, .others fun _ => .zero, .load, .eoi 0, .sync] :=
  list_registers_booked _ (by decide) _
    ⟨rfl, ⟨rfl, by decide, .inr (by decide)⟩, rfl, ⟨rfl, by decide, .inl (by decide)⟩, rfl, rfl, rfl,
      rfl, rfl, trivial⟩

end Zvm.Vgic
