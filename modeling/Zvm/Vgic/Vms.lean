import Zvm.Vcpu.Switch
import Zvm.Vgic.Raise

/-!
# Interrupts of several VMs

`set_virq_to_vm` and `unset_virq_to_vm` take a VM, but the vCPU they act on is that of
the interrupted context if there is one, whatever VM it belongs to, and the VM's first
vCPU otherwise.  If the context is the VM's own or has no vCPU, other VMs are left alone.
If it is another VM's, the interrupt goes there.
-/

namespace Zvm.Vgic

open Zvm.Verified Zvm.Verified.Run Zvm.Vcpu

/-- The interrupts of all vCPUs. -/
abbrev Vms := VcpuRef → VcpuIrqs

/-- Another vCPU of the VM has the interrupt enabled. -/
def othersEnabled (c : Nat → VgicConfig) (w : Vms) (t : VcpuRef) (virq : Nat) : Bool :=
  (List.range (c t.vm).vcpuNum).any fun k => k != t.vcpuId && (w ⟨t.vm, k⟩).enabled virq

/-- `set_virq_to_vcpu`; `cur` is `_current_vcpu`. -/
def setVirqToVcpu (c : Nat → VgicConfig) (w : Vms) (cur : Option VcpuRef) (t : VcpuRef)
    (virq : Nat) (level : Bool) : Vms :=
  Function.update w t
    (vgicSetVirqToVcpu (c t.vm) (w t) virq level (cur == some t) (othersEnabled c w t virq))

/-- `_current_vcpu ? _current_vcpu : vm->vcpus[DEFAULT_VCPU]`. -/
def targetVcpu (cur : Option VcpuRef) (vm : Nat) : VcpuRef := cur.getD ⟨vm, 0⟩

/-- `set_virq_to_vm`. -/
def setVirqToVm (c : Nat → VgicConfig) (w : Vms) (cur : Option VcpuRef) (vm virq : Nat) : Vms :=
  setVirqToVcpu c w cur (targetVcpu cur vm) virq true

/-- `unset_virq_to_vm`. -/
def unsetVirqToVm (c : Nat → VgicConfig) (w : Vms) (cur : Option VcpuRef) (vm virq : Nat) : Vms :=
  setVirqToVcpu c w cur (targetVcpu cur vm) virq false

/-- `VM_DEVICE_INVALID_VIRQ`. -/
def deviceInvalidVirq : Nat := 0xFF

/-- `vm_device_callback_func` for a device with the given `vm` and `virq`. -/
def vmDeviceCallbackFunc (c : Nat → VgicConfig) (w : Vms) (cur : Option VcpuRef)
    (vm : Option Nat) (virq : Nat) : Vms :=
  if virq = deviceInvalidVirq then w
  else
    match vm with
    | none => w
    | some vm => setVirqToVm c w cur vm virq

/-- The calls for `vm` leave every vCPU of every other VM as it is. -/
def Isolated (c : Nat → VgicConfig) (w : Vms) (cur : Option VcpuRef) (vm virq : Nat) : Prop :=
  ∀ t, t.vm ≠ vm → setVirqToVm c w cur vm virq t = w t ∧ unsetVirqToVm c w cur vm virq t = w t ∧
    vmDeviceCallbackFunc c w cur (some vm) virq t = w t

/-- The interrupted context has no vCPU or one of `vm`. -/
def OwnContext (cur : Option VcpuRef) (vm : Nat) : Prop := ∀ t, cur = some t → t.vm = vm

/-- The vCPU's state is that after a run whose flushes found room, the interrupt is
enabled on it, and there is room to raise it. -/
structure Raisable (c : Nat → VgicConfig) (w : Vms) (cur : Option VcpuRef) (t : VcpuRef)
    (virq : Nat) : Prop where
  orderly : ∃ ops, Admissible (virqStep (c t.vm)) (LeavesRoom (c t.vm)) bootIrqs ops ∧
    w t = exec (virqStep (c t.vm)) bootIrqs ops
  virq_lt : virq < (c t.vm).virqNr
  enabled : (w t).enabled virq = true
  room : LeavesRoom (c t.vm) (w t) (.set virq true (cur == some t) (othersEnabled c w t virq))

section Target

variable {c : Nat → VgicConfig} {w : Vms} {cur : Option VcpuRef} {vm virq : Nat} {t : VcpuRef}

theorem setVirqToVcpu_same (level : Bool) :
    setVirqToVcpu c w cur t virq level t =
      vgicSetVirqToVcpu (c t.vm) (w t) virq level (cur == some t) (othersEnabled c w t virq) :=
  Function.update_self _ _ _

theorem setVirqToVcpu_other {s : VcpuRef} (hNe : s ≠ t) (level : Bool) :
    setVirqToVcpu c w cur t virq level s = w s :=
  Function.update_of_ne hNe _ _

theorem OwnContext.targetVcpu_vm (hOwn : OwnContext cur vm) : (targetVcpu cur vm).vm = vm := by
  cases cur with
  | none => rfl
  | some t => exact hOwn t rfl

theorem OwnContext.isolated (hOwn : OwnContext cur vm) : Isolated c w cur vm virq := by
  intro t hNe
  have hOther : t ≠ targetVcpu cur vm := by
    intro hEq
    rw [hEq] at hNe
    exact hNe hOwn.targetVcpu_vm
  refine ⟨setVirqToVcpu_other hOther true, setVirqToVcpu_other hOther false, ?_⟩
  unfold vmDeviceCallbackFunc
  split
  · rfl
  · exact setVirqToVcpu_other hOther true

/-- The interrupt becomes pending on the vCPU that the call acts on. -/
theorem Raisable.pends_iff (hRaise : Raisable c w cur t virq) :
    Pends (c t.vm) (setVirqToVcpu c w cur t virq true t) virq ↔
      virq < localVirqNr ∨ ((w t).desc virq).level = false ∨ Pends (c t.vm) (w t) virq := by
  obtain ⟨ops, hRun, hState⟩ := hRaise.orderly
  have hInv : LrInv (c t.vm) (w t) := by
    rw [hState]
    exact lrInv_run (c t.vm) hRun
  rw [setVirqToVcpu_same]
  exact pends_set_iff hInv hRaise.virq_lt hRaise.enabled hRaise.room

/-- Some vCPU of the VM has the interrupt pending. -/
def PendsInVm (c : Nat → VgicConfig) (w : Vms) (vm virq : Nat) : Prop :=
  ∃ v, v < (c vm).vcpuNum ∧ Pends (c vm) (w ⟨vm, v⟩) virq

theorem OwnContext.pendsInVm_iff (hOwn : OwnContext cur vm)
    (hVcpu : (targetVcpu cur vm).vcpuId < (c vm).vcpuNum)
    (hRaise : Raisable c w cur (targetVcpu cur vm) virq) :
    PendsInVm c (setVirqToVm c w cur vm virq) vm virq ↔
      virq < localVirqNr ∨ ((w (targetVcpu cur vm)).desc virq).level = false ∨
        PendsInVm c w vm virq := by
  obtain ⟨v, hTarget⟩ : ∃ v, targetVcpu cur vm = ⟨vm, v⟩ :=
    ⟨(targetVcpu cur vm).vcpuId, congrArg (VcpuRef.mk · _) hOwn.targetVcpu_vm⟩
  have hPends := hRaise.pends_iff
  rw [hTarget] at hVcpu hPends ⊢
  have hOther : ∀ k, k ≠ v → setVirqToVm c w cur vm virq ⟨vm, k⟩ = w ⟨vm, k⟩ := by
    intro k hk
    rw [setVirqToVm, hTarget]
    exact setVirqToVcpu_other (by simpa using hk) true
  have hSame : Pends (c vm) (setVirqToVm c w cur vm virq ⟨vm, v⟩) virq ↔
      virq < localVirqNr ∨ ((w ⟨vm, v⟩).desc virq).level = false ∨
        Pends (c vm) (w ⟨vm, v⟩) virq := by
    rw [setVirqToVm, hTarget]
    exact hPends
  constructor
  · rintro ⟨k, hk, hAfter⟩
    by_cases hkv : k = v
    · subst hkv
      rcases hSame.mp hAfter with hLocal | hLow | hBefore
      · exact .inl hLocal
      · exact .inr (.inl hLow)
      · exact .inr (.inr ⟨k, hk, hBefore⟩)
    · rw [hOther k hkv] at hAfter
      exact .inr (.inr ⟨k, hk, hAfter⟩)
  · rintro (hLocal | hLow | ⟨k, hk, hBefore⟩)
    · exact ⟨v, hVcpu, hSame.mpr (.inl hLocal)⟩
    · exact ⟨v, hVcpu, hSame.mpr (.inr (.inl hLow))⟩
    · by_cases hkv : k = v
      · subst hkv
        exact ⟨k, hk, hSame.mpr (.inr (.inr hBefore))⟩
      · refine ⟨k, hk, ?_⟩
        rw [hOther k hkv]
        exact hBefore

end Target

/-! ## The level of a device's interrupt -/

section Level

variable {c : VgicConfig} {k : Nat}

theorem inject_level (hSerial : k ≠ c.vserialVirq) (hZshm : k ≠ c.zshmVirq) (st : VcpuIrqs)
    (irq : Nat) : ((vgicInjectVirqVcpuif c st irq).1.desc k).level = (st.desc k).level := by
  obtain ⟨d, _, _, hDesc, _, _, _, _, hLevel, _⟩ := inject_writes c st irq
  rw [hDesc]
  refine FunArray.set_elim (fun hk => ?_) fun _ => rfl
  subst hk
  exact hLevel hSerial hZshm

theorem syncLr_level (st : VcpuIrqs) (i : Nat) :
    ((syncLr c st i).desc k).level = (st.desc k).level := by
  unfold syncLr
  simp only
  split
  · rw [writeLr_desc]
  · by_cases hk : k = (vgicv3ReadLr st i).vINTID
    · simp [setDesc, hk]
    · simp only [setDesc, listRegsUnset, FunArray.set, hk, if_false]
      split <;> simp [setPending, setActive]

/-- Only the console's and the shared memory's level goes down by itself. -/
theorem kept_level (hSerial : k ≠ c.vserialVirq) (hZshm : k ≠ c.zshmVirq) (level : Bool) :
    Kept c (fun _ => True) fun st => (st.desc k).level = level where
  allowed _ _ _ _ := trivial
  inject st irq _ hP := (inject_level hSerial hZshm st irq).trans hP
  pending _ _ hP := hP
  active _ _ _ hP := hP
  src st irq srcCpu hP := by
    by_cases hk : k = irq
    · subst hk
      simpa [setDesc] using hP
    · simpa [setDesc, FunArray.set, hk] using hP
  syncLr st i hP := (syncLr_level st i).trans hP

theorem level_latchVirq (st : VcpuIrqs) {virq : Nat} (hShared : localVirqNr ≤ virq) (level : Bool) :
    ((latchVirq st virq level).desc virq).level = level := by
  unfold latchVirq
  rw [if_neg (Nat.not_lt.mpr hShared)]
  split
  · split <;> simp [setPending, setDesc]
  case isFalse hSame => simpa using hSame

/-- The level of an enabled shared interrupt is what it was last set to. -/
theorem level_vgicSetVirqToVcpu {st : VcpuIrqs} (hVirq : k < c.virqNr) (hShared : localVirqNr ≤ k)
    (hSerial : k ≠ c.vserialVirq) (hZshm : k ≠ c.zshmVirq) (hEnabled : st.enabled k = true)
    (level cur others : Bool) :
    ((vgicSetVirqToVcpu c st k level cur others).desc k).level = level := by
  have hOn : isVirqEnabled c st k level others = true := by simp [isVirqEnabled, hEnabled]
  have hLatch := level_latchVirq st hShared level
  have hKept := kept_level hSerial hZshm level
  rw [vgicSetVirqToVcpu, if_neg (by omega), hOn]
  cases cur with
  | false => exact hLatch
  | true => exact hKept.flush (hKept.sync hLatch)

end Level

/-! ## A vCPU of another VM is interrupted -/

section Foreign

variable {c : Nat → VgicConfig} {w : Vms} {vm virq : Nat} {t : VcpuRef}

/-- The VM the call is for gets nothing. -/
theorem foreign_unchanged (hForeign : t.vm ≠ vm) {s : VcpuRef} (hs : s.vm = vm) :
    setVirqToVm c w (some t) vm virq s = w s := by
  apply setVirqToVcpu_other
  intro hEq
  rw [hEq] at hs
  exact hForeign hs

/-- The level cannot be both high after the one call and low after the other. -/
theorem foreign_not_isolated (hForeign : t.vm ≠ vm) (hVirq : virq < (c t.vm).virqNr)
    (hShared : localVirqNr ≤ virq) (hSerial : virq ≠ (c t.vm).vserialVirq)
    (hZshm : virq ≠ (c t.vm).zshmVirq) (hEnabled : (w t).enabled virq = true) :
    ¬ Isolated c w (some t) vm virq := by
  intro hIsolated
  obtain ⟨hSet, hUnset, _⟩ := hIsolated t hForeign
  have hLevel : ∀ level, ((setVirqToVcpu c w (some t) t virq level t).desc virq).level = level := by
    intro level
    rw [setVirqToVcpu_same]
    exact level_vgicSetVirqToVcpu hVirq hShared hSerial hZshm hEnabled level _ _
  have hHigh : ((w t).desc virq).level = true := by
    rw [← hSet]
    exact hLevel true
  have hLow : ((w t).desc virq).level = false := by
    rw [← hUnset]
    exact hLevel false
  rw [hHigh] at hLow
  cases hLow

/-- A new vCPU whose guest has enabled one interrupt. -/
def oneEnabled (n : Nat) : VcpuIrqs :=
  { bootIrqs with enabled := FunArray.set bootIrqs.enabled n true }

theorem room_oneEnabled (c : VgicConfig) (n : Nat) : RoomToRaise c (oneEnabled n) n true := by
  have hWaiting : waiting c (fun k => (oneEnabled n).pending k ||
      (k == n && raises (oneEnabled n) n true)) (oneEnabled n).enabled
      (busyLr (oneEnabled n)) ⊆ {n} := by
    intro k hk
    simp only [waiting, Finset.mem_filter, Bool.and_eq_true, oneEnabled] at hk
    obtain ⟨_, ⟨_, hOn⟩, _⟩ := hk
    by_contra hNe
    rw [Finset.mem_singleton] at hNe
    simp [FunArray.set, hNe, bootIrqs] at hOn
  have hFree : 0 ∈ freeLrs c (oneEnabled n) := by
    have hPos := c.lrNum_pos
    simp only [freeLrs, Finset.mem_filter, Finset.mem_range, VgicConfig.lrs]
    exact ⟨by omega, rfl⟩
  calc (waiting c _ _ _).card ≤ ({n} : Finset Nat).card := Finset.card_le_card hWaiting
    _ = 1 := Finset.card_singleton n
    _ ≤ (freeLrs c (oneEnabled n)).card := Finset.card_pos.mpr ⟨0, hFree⟩

theorem not_pends_oneEnabled (c : VgicConfig) (n irq : Nat) : ¬ Pends c (oneEnabled n) irq := by
  rintro (hBit | ⟨i, _, _, hPending⟩)
  · cases hBit
  · cases hPending

/-- New vCPUs whose guests have enabled the first interrupt. -/
def firstEnabled : Vms := fun _ => { bootIrqs with enabled := FunArray.set bootIrqs.enabled 0 true }

theorem raisable_firstEnabled (c : Nat → VgicConfig) (cur : Option VcpuRef) (t : VcpuRef) :
    Raisable c firstEnabled cur t 0 where
  orderly := ⟨[.enable 0 true], ⟨trivial, trivial⟩, rfl⟩
  virq_lt := lt_of_lt_of_le (by decide) (c t.vm).local_le
  enabled := rfl
  room := .inr (.inr (room_oneEnabled (c t.vm) 0))

theorem firstEnabled_not_isolated (hForeign : t.vm ≠ vm) :
    ¬ Isolated c firstEnabled (some t) vm 0 := by
  intro hIsolated
  have hSet := (hIsolated t hForeign).1
  have hPends : Pends (c t.vm) (setVirqToVm c firstEnabled (some t) vm 0 t) 0 :=
    (raisable_firstEnabled c (some t) t).pends_iff.mpr (.inl (by decide))
  rw [hSet] at hPends
  exact not_pends_oneEnabled (c t.vm) 0 0 hPends

end Foreign

/--
**Injection and isolation**: other VMs are left alone, for every interrupt and in every
state, exactly if the interrupted context has no vCPU or one of the VM itself.  In such a
context, raising an interrupt that the vCPU it goes to has enabled and has room for makes
it pending on a vCPU of the VM exactly if it is private, or its level is low there, or it
is pending on one already.  In any other context the VM gets nothing, the interrupted vCPU
gets the interrupt on the same terms, and a device's shared interrupt that this vCPU has
enabled changes it in every state.
-/
theorem injection_isolated_iff (c : Nat → VgicConfig) (cur : Option VcpuRef) (vm : Nat) :
    ((∀ w virq, Isolated c w cur vm virq) ↔ OwnContext cur vm) ∧
    (OwnContext cur vm → (targetVcpu cur vm).vcpuId < (c vm).vcpuNum →
      ∀ w virq, Raisable c w cur (targetVcpu cur vm) virq →
        (PendsInVm c (setVirqToVm c w cur vm virq) vm virq ↔
          virq < localVirqNr ∨ ((w (targetVcpu cur vm)).desc virq).level = false ∨
            PendsInVm c w vm virq)) ∧
    (∀ t, cur = some t → t.vm ≠ vm → ∀ w virq,
      (∀ s, s.vm = vm → setVirqToVm c w cur vm virq s = w s) ∧
      (Raisable c w cur t virq →
        (Pends (c t.vm) (setVirqToVm c w cur vm virq t) virq ↔
          virq < localVirqNr ∨ ((w t).desc virq).level = false ∨ Pends (c t.vm) (w t) virq)) ∧
      (virq < (c t.vm).virqNr → localVirqNr ≤ virq → virq ≠ (c t.vm).vserialVirq →
        virq ≠ (c t.vm).zshmVirq → (w t).enabled virq = true → ¬ Isolated c w cur vm virq)) := by
  refine ⟨⟨?_, ?_⟩, ?_, ?_⟩
  · intro hAll t hCur
    by_contra hForeign
    subst hCur
    exact firstEnabled_not_isolated hForeign (hAll firstEnabled 0)
  · intro hOwn w virq
    exact hOwn.isolated
  · intro hOwn hVcpu w virq hRaise
    exact hOwn.pendsInVm_iff hVcpu hRaise
  · intro t hCur hForeign w virq
    subst hCur
    refine ⟨?_, ?_, ?_⟩
    · intro s hs
      exact foreign_unchanged hForeign hs
    · intro hRaise
      exact hRaise.pends_iff
    · intro hVirq hShared hSerial hZshm hEnabled
      exact foreign_not_isolated hForeign hVirq hShared hSerial hZshm hEnabled

/-- A device of VM 0 interrupts while no vCPU runs. -/
theorem injection_isolated_idle :
    PendsInVm (fun _ => sampleVgic 4 (by decide))
      (setVirqToVm (fun _ => sampleVgic 4 (by decide)) firstEnabled none 0 0) 0 0 := by
  have hOwn : OwnContext none 0 := by
    intro t hNone
    cases hNone
  exact ((injection_isolated_iff (fun _ => sampleVgic 4 (by decide)) none 0).2.1 hOwn (by decide)
    firstEnabled 0 (raisable_firstEnabled _ none _)).mpr (.inl (by decide))

/-- Both VMs have interrupt 40 enabled, and a vCPU of VM 1 runs when a device of VM 0
interrupts: VM 1 gets the interrupt, VM 0 does not. -/
theorem device_interrupts_other_vm :
    let c : Nat → VgicConfig := fun _ => sampleVgic 4 (by decide)
    let w : Vms := fun _ => exec (virqStep (sampleVgic 4 (by decide))) bootIrqs [.enable 40 true]
    let w' := vmDeviceCallbackFunc c w (some ⟨1, 0⟩) (some 0) 40
    (w ⟨0, 0⟩).enabled 40 = true ∧ ¬ PendsInVm c w' 0 40 ∧
      ¬ Pends (c 1) (w ⟨1, 0⟩) 40 ∧ Pends (c 1) (w' ⟨1, 0⟩) 40 := by
  refine ⟨by decide, ?_, by decide, by decide⟩
  rintro ⟨v, hv, hPends⟩
  have hFirst : v = 0 := Nat.lt_one_iff.mp hv
  subst hFirst
  revert hPends
  decide

end Zvm.Vgic
