import Zvm.Kernel.WaitQueue

/-!
# Priority inheritance by mutexes

A thread that pends on a mutex raises the owner to its own priority.  The mutex has the priority the
owner had when it took it, and the owner goes back to that when it unlocks the mutex.  When a waiting
thread times out, the owner is set to the higher of that priority and the one of the first thread
that is left.  None of these steps looks at the other mutexes of the owner, or at the mutex that the
owner itself is pended on.

A step of the model is what happens under the lock of the file.  The wait queues are those of the
scheduler, with lists and trees, and the wait queue of a mutex has its number.
-/

namespace Zvm.Kernel.Mutex

open Zvm.Kernel.WaitQueue Zvm.Verified.FunArray Zvm.Verified.Run

/-! ## The code -/

/-- `late` has the mutex for a thread whose wait has timed out and that has not taken the lock
again, `ret` what the last call of a thread returned.  `held` has the mutexes of a thread, the one
taken last in front; no code reads it. -/
structure State where
  sched : Sched
  owner : Nat → Option Nat
  lockCount : Nat → Nat
  ownerOrigPrio : Nat → Int
  late : Nat → Option Nat
  ret : Nat → Int
  held : Nat → List Nat

/-- `z_is_prio_higher`. -/
def zIsPrioHigher (prio testPrio : Int) : Bool := decide (prio < testPrio)

/-- `z_get_new_prio_with_ceiling`, with `CONFIG_PRIORITY_CEILING`. -/
def zGetNewPrioWithCeiling (ceiling prio : Int) : Int := if ceiling ≤ prio then prio else ceiling

/-- `new_prio_for_inheritance`. -/
def newPrioForInheritance (ceiling target limit : Int) : Int :=
  zGetNewPrioWithCeiling ceiling (if zIsPrioHigher target limit then target else limit)

/-- `adjust_owner_prio`, for the owner `o`. -/
def adjustOwnerPrio (k : Sched) (o : Nat) (newPrio : Int) : Sched :=
  if k.prio o ≠ newPrio then zThreadPrioSet k o newPrio else k

/-- `k_mutex_lock` in the case that the mutex is free or the thread's own. -/
def State.take (s : State) (t m : Nat) : State :=
  { s with
    ownerOrigPrio :=
      if s.lockCount m = 0 then set s.ownerOrigPrio m (s.sched.prio t) else s.ownerOrigPrio
    lockCount := set s.lockCount m ((s.lockCount m + 1) % 2 ^ 32)
    owner := set s.owner m (some t)
    ret := set s.ret t 0
    held := if s.lockCount m = 0 then set s.held t (m :: s.held t) else s.held }

/-- The adjustment of the owner before a thread pends. -/
def adjustUp (ceiling : Int) (k : Sched) (t o : Nat) : Sched :=
  if zIsPrioHigher (newPrioForInheritance ceiling (k.prio t) (k.prio o)) (k.prio o) then
    adjustOwnerPrio k o (newPrioForInheritance ceiling (k.prio t) (k.prio o))
  else k

/-- `z_impl_k_mutex_lock` up to the switch; a mutex with a lock count has an owner. -/
def kMutexLock (ceiling : Int) (b : Balance) (s : State) (t m : Nat) (noWait : Bool) : State :=
  if s.lockCount m = 0 ∨ s.owner m = some t then s.take t m
  else if noWait then { s with ret := set s.ret t (-16) }
  else
    match s.owner m with
    | none => s
    | some o => { s with sched := addToWaitqLocked b (adjustUp ceiling s.sched t o) t m }

/-- The priority that the owner of a mutex gets when a waiting thread has timed out. -/
def priorityLeft (ceiling : Int) (s : State) (m : Nat) : Int :=
  match priqWaitBest (s.sched.waitq m) with
  | none => s.ownerOrigPrio m
  | some w => newPrioForInheritance ceiling (s.sched.prio w) (s.ownerOrigPrio m)

/-- `z_impl_k_mutex_lock` after the switch, for a thread that has timed out. -/
def timedOut (ceiling : Int) (s : State) (t : Nat) : State :=
  match s.late t with
  | none => s
  | some m =>
    { s with
      sched :=
        match s.owner m with
        | none => s.sched
        | some o => adjustOwnerPrio s.sched o (priorityLeft ceiling s m)
      late := set s.late t none
      ret := set s.ret t (-11) }

/-- `z_thread_timeout` for a thread that is pended on a mutex. -/
def zThreadTimeout (b : Balance) (s : State) (t : Nat) : State :=
  match s.sched.pendedOn t with
  | none => s
  | some m =>
    { s with
      sched := zSchedWakeThread b s.sched t
      late := set s.late t (some m) }

/-- `z_impl_k_mutex_unlock` from the point where the owner's priority is adjusted. -/
def State.release (b : Balance) (s : State) (t m : Nat) : State :=
  match priqWaitBest ((adjustOwnerPrio s.sched t (s.ownerOrigPrio m)).waitq m) with
  | none =>
    { s with
      sched := adjustOwnerPrio s.sched t (s.ownerOrigPrio m)
      owner := set s.owner m none
      lockCount := set s.lockCount m 0
      ret := set s.ret t 0
      held := set s.held t ((s.held t).erase m) }
  | some w =>
    { s with
      sched := WaitQueue.zUnpendFirstThread b (adjustOwnerPrio s.sched t (s.ownerOrigPrio m)) m
      owner := set s.owner m (some w)
      ownerOrigPrio :=
        set s.ownerOrigPrio m ((adjustOwnerPrio s.sched t (s.ownerOrigPrio m)).prio w)
      ret := set (set s.ret t 0) w 0
      held := set (set s.held t ((s.held t).erase m)) w
        (m :: set s.held t ((s.held t).erase m) w) }

/-- `z_impl_k_mutex_unlock`. -/
def kMutexUnlock (b : Balance) (s : State) (t m : Nat) : State :=
  match s.owner m with
  | none => { s with ret := set s.ret t (-22) }
  | some o =>
    if o ≠ t then { s with ret := set s.ret t (-1) }
    else if 1 < s.lockCount m then
      { s with
        lockCount := set s.lockCount m (s.lockCount m - 1)
        ret := set s.ret t 0 }
    else s.release b t m

inductive Op where
  | lock (t m : Nat) (noWait : Bool)
  | unlock (t m : Nat)
  | timeout (t : Nat)
  | timedOut (t : Nat)

def step (ceiling : Int) (b : Balance) (s : State) : Op → State
  | .lock t m noWait => kMutexLock ceiling b s t m noWait
  | .unlock t m => kMutexUnlock b s t m
  | .timeout t => zThreadTimeout b s t
  | .timedOut t => Mutex.timedOut ceiling s t

/-! ## What inheritance is for -/

/-- Every owner is at least as high as the threads that are pended on its mutexes, and who owns
nothing has its own priority. -/
structure Inherits (base : Nat → Int) (s : State) : Prop where
  high : ∀ m o u, s.owner m = some o → s.sched.pendedOn u = some m → s.sched.prio o ≤ s.sched.prio u
  restored : ∀ t, (∀ m, s.owner m ≠ some t) → s.sched.prio t = base t

/-- A thread that makes a call is neither pended nor on its way out of a wait, and it unlocks the
mutex it took last first. -/
def Nested (s : State) : Op → Prop
  | .lock t _ _ => s.sched.pendedOn t = none ∧ s.late t = none
  | .unlock t m => s.sched.pendedOn t = none ∧ s.late t = none ∧
      (s.owner m = some t → s.lockCount m = 1 → (s.held t).head? = some m)
  | .timeout _ => True
  | .timedOut _ => True

/-- A thread that raises an owner does so on the mutex that the owner took last. -/
def RaisesLast (s : State) : Op → Prop
  | .lock t m _ => ∀ o ∈ s.owner m, s.sched.prio t < s.sched.prio o → (s.held o).head? = some m
  | .unlock _ _ => True
  | .timeout _ => True
  | .timedOut _ => True

/-- The lock count does not wrap, and a thread that is taken out of a wait queue is found there. -/
def Sound (s : State) : Op → Prop
  | .lock t m _ => s.owner m = some t → s.lockCount m + 1 < 2 ^ 32
  | .unlock _ m => ∀ w ∈ priqWaitBest (s.sched.waitq m), Found s.sched w (s.sched.waitq m)
  | .timeout t => ∀ m ∈ s.sched.pendedOn t, Found s.sched t (s.sched.waitq m)
  | .timedOut _ => True

/-- The condition on the state before a step.
* A thread that raises an owner that is itself pended is not higher than the owner of that mutex.
* The priority saved in a mutex that is unlocked is at least as high as the threads waiting for the
  other mutexes of the thread, and its first waiting thread is at least as high as the others.
* After a timeout, the threads waiting for a mutex of the owner are not higher than both its saved
  priority and the first waiting thread; if the owner is pended itself, the owner of that mutex is
  at least as high as both. -/
def Keeps (s : State) : Op → Prop
  | .lock t m noWait => s.lockCount m ≠ 0 → noWait = false → ∀ o ∈ s.owner m,
      s.sched.prio t < s.sched.prio o →
      ∀ m' ∈ s.sched.pendedOn o, ∀ o' ∈ s.owner m', s.sched.prio o' ≤ s.sched.prio t
  | .unlock t m => s.owner m = some t → s.lockCount m = 1 →
      (∀ m' ∈ s.held t, m' ≠ m → ∀ u ∈ (s.sched.waitq m').threads,
        s.ownerOrigPrio m ≤ s.sched.prio u) ∧
      ∀ w ∈ priqWaitBest (s.sched.waitq m), ∀ u ∈ (s.sched.waitq m).threads,
        s.sched.prio w ≤ s.sched.prio u
  | .timeout _ => True
  | .timedOut t => ∀ m ∈ s.late t, ∀ o ∈ s.owner m,
      (∀ m' ∈ s.held o, ∀ u ∈ (s.sched.waitq m').threads, s.ownerOrigPrio m ≤ s.sched.prio u ∨
        ∃ w ∈ priqWaitBest (s.sched.waitq m), s.sched.prio w ≤ s.sched.prio u) ∧
      ∀ m' ∈ s.sched.pendedOn o, ∀ o' ∈ s.owner m', s.sched.prio o' ≤ s.ownerOrigPrio m ∧
        ∀ w ∈ priqWaitBest (s.sched.waitq m), s.sched.prio o' ≤ s.sched.prio w

instance (s : State) : (op : Op) → Decidable (Nested s op)
  | .lock _ _ _ => inferInstanceAs (Decidable (_ ∧ _))
  | .unlock _ _ => inferInstanceAs (Decidable (_ ∧ _ ∧ _))
  | .timeout _ => inferInstanceAs (Decidable True)
  | .timedOut _ => inferInstanceAs (Decidable True)

instance (s : State) : (op : Op) → Decidable (RaisesLast s op)
  | .lock _ m _ => inferInstanceAs (Decidable (∀ o ∈ s.owner m, _))
  | .unlock _ _ => inferInstanceAs (Decidable True)
  | .timeout _ => inferInstanceAs (Decidable True)
  | .timedOut _ => inferInstanceAs (Decidable True)

instance (s : State) : (op : Op) → Decidable (Sound s op)
  | .lock _ _ _ => inferInstanceAs (Decidable (_ → _))
  | .unlock _ m => inferInstanceAs (Decidable (∀ w ∈ priqWaitBest (s.sched.waitq m), _))
  | .timeout t => inferInstanceAs (Decidable (∀ m ∈ s.sched.pendedOn t, _))
  | .timedOut _ => inferInstanceAs (Decidable True)

instance (s : State) : (op : Op) → Decidable (Keeps s op)
  | .lock _ _ _ => inferInstanceAs (Decidable (_ → _ → _))
  | .unlock _ _ => inferInstanceAs (Decidable (_ → _ → _ ∧ _))
  | .timeout _ => inferInstanceAs (Decidable True)
  | .timedOut t => inferInstanceAs (Decidable (∀ m ∈ s.late t, _))

/-! ## Priorities -/

/-- Priorities that neither the ceiling nor the type of the field changes. -/
structure InRange (ceiling prio : Int) : Prop where
  ceiling_le : ceiling ≤ prio
  ge : -128 ≤ prio
  lt : prio < 128

/-- A change of one thread's priority. -/
def withPrio (k : Sched) (o : Nat) (prio : Int) : Sched := { k with prio := set k.prio o prio }

variable {ceiling p : Int} {k : Sched} {o t m : Nat} {owner : Nat → Option Nat}

theorem adjustOwnerPrio_eq {prio : Int} (hp : InRange ceiling prio) :
    adjustOwnerPrio k o prio = withPrio k o prio := by
  have hMod : prio.bmod 256 = prio := Int.bmod_eq_of_le (by have := hp.ge; omega)
    (by have := hp.lt; omega)
  rw [adjustOwnerPrio, withPrio]
  split
  · rw [zThreadPrioSet, hMod]
  · rename_i hSame
    rw [← not_not.mp hSame, set_self]

theorem newPrioForInheritance_eq {target limit : Int} (ht : InRange ceiling target)
    (hl : InRange ceiling limit) :
    newPrioForInheritance ceiling target limit = min target limit := by
  have htc := ht.ceiling_le
  have hlc := hl.ceiling_le
  rw [newPrioForInheritance, zIsPrioHigher, zGetNewPrioWithCeiling]
  by_cases hLt : target < limit
  · rw [decide_eq_true hLt, if_pos rfl, if_pos htc, min_eq_left hLt.le]
  · rw [decide_eq_false hLt, if_neg Bool.false_ne_true, if_pos hlc, min_eq_right (not_lt.mp hLt)]

theorem InRange.min {q : Int} (hp : InRange ceiling p) (hq : InRange ceiling q) :
    InRange ceiling (min p q) := by
  rcases min_choice p q with hEq | hEq <;> rw [hEq] <;> assumption

theorem adjustUp_eq (ht : InRange ceiling (k.prio t)) (ho : InRange ceiling (k.prio o)) :
    adjustUp ceiling k t o = withPrio k o (min (k.prio t) (k.prio o)) := by
  rw [adjustUp, newPrioForInheritance_eq ht ho, zIsPrioHigher]
  split
  · exact adjustOwnerPrio_eq (ht.min ho)
  · rename_i hNot
    have hMin : min (k.prio t) (k.prio o) = k.prio o := by
      simp only [decide_eq_true_eq] at hNot
      omega
    rw [hMin, withPrio, set_self]

/-! ## Who owns what -/

/-- The mutexes of the threads, the saved priorities and the current ones. -/
structure Holding (ceiling : Int) (base : Nat → Int) (owner : Nat → Option Nat) (orig : Nat → Int)
    (held : Nat → List Nat) (prio : Nat → Int) : Prop where
  mem_iff : ∀ t m, m ∈ held t ↔ owner m = some t
  nodup : ∀ t, (held t).Nodup
  first : ∀ t m, (held t).getLast? = some m → orig m = base t
  restored : ∀ t, held t = [] → prio t = base t
  range : ∀ t, InRange ceiling (prio t)
  orig_range : ∀ m, owner m ≠ none → InRange ceiling (orig m)

section Holding

variable {ceiling : Int} {base : Nat → Int} {owner : Nat → Option Nat} {orig : Nat → Int}
  {held : Nat → List Nat} {prio : Nat → Int}

theorem Holding.adjust (hHold : Holding ceiling base owner orig held prio) (ho : owner m = some o)
    (hp : InRange ceiling p) :
    Holding ceiling base owner orig held (set prio o p) where
  mem_iff := hHold.mem_iff
  nodup := hHold.nodup
  first := hHold.first
  restored := by
    intro t ht
    have hNe : t ≠ o := by
      rintro rfl
      have hMem := (hHold.mem_iff t m).mpr ho
      rw [ht] at hMem
      cases hMem
    rw [set_ne _ _ hNe]
    exact hHold.restored t ht
  range t := set_elim (fun _ => hp) fun _ => hHold.range t
  orig_range := hHold.orig_range

/-- A thread takes a mutex that has no owner, and its priority is saved. -/
theorem Holding.take (hHold : Holding ceiling base owner orig held prio) (t : Nat)
    (hFree : owner m = none) :
    Holding ceiling base (set owner m (some t)) (set orig m (prio t)) (set held t (m :: held t))
      prio := by
  have hNot : ∀ u, m ∉ held u := by
    intro u hu
    rw [hHold.mem_iff, hFree] at hu
    cases hu
  have hOld : ∀ u m', m' ∈ held u → m' ≠ m := fun u m' hm' hEq => hNot u (hEq ▸ hm')
  refine ⟨?_, ?_, ?_, ?_, hHold.range, ?_⟩
  · intro u m'
    by_cases hm : m' = m
    · rw [hm, set_same, set_apply]
      split
      · rename_i hu
        simp [hu]
      · rename_i hu
        simp [hNot, Ne.symm hu]
    · rw [set_ne _ _ hm, ← hHold.mem_iff, set_apply]
      split
      · rename_i hu
        rw [hu, List.mem_cons, or_iff_right hm]
      · rfl
  · intro u
    exact set_elim (fun _ => List.nodup_cons.mpr ⟨hNot t, hHold.nodup t⟩) fun _ => hHold.nodup u
  · intro u m' hLast
    by_cases hu : u = t
    · subst hu
      rw [set_same, List.getLast?_cons] at hLast
      cases hRest : (held u).getLast? with
      | none =>
        rw [hRest] at hLast
        have hNil := List.getLast?_eq_none_iff.mp hRest
        rw [← Option.some.inj hLast]
        exact (set_same ..).trans (hHold.restored u hNil)
      | some m'' =>
        rw [hRest] at hLast
        have hEq : m'' = m' := Option.some.inj hLast
        rw [hEq] at hRest
        rw [set_ne _ _ (hOld u m' (List.mem_of_getLast? hRest))]
        exact hHold.first u m' hRest
    · rw [set_ne _ _ hu] at hLast
      rw [set_ne _ _ (hOld u m' (List.mem_of_getLast? hLast))]
      exact hHold.first u m' hLast
  · intro u hNil
    rw [set_apply] at hNil
    split at hNil
    · cases hNil
    · exact hHold.restored u hNil
  · intro m' hm'
    by_cases hm : m' = m
    · rw [hm, set_same]
      exact hHold.range t
    · rw [set_ne _ _ hm] at hm' ⊢
      exact hHold.orig_range m' hm'

/-- A thread gives up the mutex it took last, and its priority is set back. -/
theorem Holding.release (hHold : Holding ceiling base owner orig held prio)
    (hLast : (held t).head? = some m) :
    Holding ceiling base (set owner m none) orig (set held t ((held t).erase m))
      (set prio t (orig m)) := by
  obtain ⟨rest, hRest⟩ := List.head?_eq_some_iff.mp hLast
  have hNodup := hHold.nodup t
  have hOwner := (hHold.mem_iff t m).mp (hRest ▸ List.mem_cons_self)
  have hErase : (held t).erase m = rest := by rw [hRest, List.erase_cons_head]
  rw [hRest, List.nodup_cons] at hNodup
  rw [hErase]
  refine ⟨?_, ?_, ?_, ?_, ?_, ?_⟩
  · intro u m'
    by_cases hm : m' = m
    · rw [hm, set_same, set_apply]
      split
      · simp [hNodup.1]
      · rename_i hu
        rw [hHold.mem_iff, hOwner]
        simp [Ne.symm hu]
    · rw [set_ne _ _ hm, ← hHold.mem_iff, set_apply]
      split
      · rename_i hu
        rw [hu, hRest, List.mem_cons, or_iff_right hm]
      · rfl
  · exact fun u => set_elim (fun _ => hNodup.2) fun _ => hHold.nodup u
  · intro u m' hLast'
    rw [set_apply] at hLast'
    split at hLast'
    · rename_i hu
      rw [hu]
      refine hHold.first t m' ?_
      rw [hRest, List.getLast?_cons, hLast']
      rfl
    · exact hHold.first u m' hLast'
  · intro u hNil
    by_cases hu : u = t
    · subst hu
      rw [set_same] at hNil ⊢
      refine hHold.first u m ?_
      rw [hRest, hNil]
      rfl
    · rw [set_ne _ _ hu] at hNil ⊢
      exact hHold.restored u hNil
  · intro u
    exact set_elim (fun _ => hHold.orig_range m (by simp [hOwner])) fun _ => hHold.range u
  · intro m' hm'
    by_cases hm : m' = m
    · rw [hm, set_same] at hm'
      exact absurd rfl hm'
    · rw [set_ne _ _ hm] at hm'
      exact hHold.orig_range m' hm'

end Holding

/-! ## Owners and waiting threads -/

/-- The first part of `Inherits`. -/
def High (owner : Nat → Option Nat) (k : Sched) : Prop :=
  ∀ m o u, owner m = some o → k.pendedOn u = some m → k.prio o ≤ k.prio u

/-- Nobody waits for a mutex that is free or its own. -/
def Waiting (owner : Nat → Option Nat) (k : Sched) : Prop :=
  ∀ m u, k.pendedOn u = some m → ∃ o, owner m = some o ∧ o ≠ u

/-- A new priority has to be at least as high as the threads that wait for the thread, and not
higher than the owner that the thread waits for. -/
theorem high_withPrio_iff (hHigh : High owner k) (hWaiting : Waiting owner k) :
    High owner (withPrio k o p) ↔
      (∀ m u, owner m = some o → k.pendedOn u = some m → p ≤ k.prio u) ∧
        ∀ m o', k.pendedOn o = some m → owner m = some o' → k.prio o' ≤ p := by
  have hNotOwn : ∀ m u, owner m = some u → k.pendedOn u ≠ some m := by
    intro m u hu hPended
    obtain ⟨o', ho', hNe⟩ := hWaiting m u hPended
    exact hNe (Option.some.inj (ho'.symm.trans hu))
  constructor
  · intro hNew
    constructor
    · intro m u hm hu
      have hNe : u ≠ o := fun hEq => hNotOwn m o hm (hEq ▸ hu)
      have hLe := hNew m o u hm hu
      simp only [withPrio] at hLe
      rwa [set_same, set_ne _ _ hNe] at hLe
    · intro m o' hm ho'
      have hNe : o' ≠ o := fun hEq => hNotOwn m o (hEq ▸ ho') hm
      have hLe := hNew m o' o ho' hm
      simp only [withPrio] at hLe
      rwa [set_same, set_ne _ _ hNe] at hLe
  · rintro ⟨hAbove, hBelow⟩ m o' u ho' hu
    show set k.prio o p o' ≤ set k.prio o p u
    have hPended : k.pendedOn u = some m := hu
    by_cases hEq : o' = o
    · have hNe : u ≠ o := fun hEq' => hNotOwn m o (hEq ▸ ho') (hEq' ▸ hPended)
      rw [hEq, set_same, set_ne _ _ hNe]
      exact hAbove m u (hEq ▸ ho') hPended
    · rw [set_ne _ _ hEq, set_apply]
      split
      · rename_i hu'
        exact hBelow m o' (hu' ▸ hPended) ho'
      · exact hHigh m o' u ho' hPended

/-- What every run keeps, whatever becomes of the priorities of the waiting threads. -/
structure Books (ceiling : Int) (base : Nat → Int) (s : State) : Prop where
  linked : Linked s.sched
  holding : Holding ceiling base s.owner s.ownerOrigPrio s.held s.sched.prio
  count : ∀ m, s.lockCount m = 0 ↔ s.owner m = none
  waiting : Waiting s.owner s.sched

section Steps

variable {ceiling : Int} {base : Nat → Int} {b : Balance} {s : State}

section

variable (hBooks : Books ceiling base s)
include hBooks

theorem Books.restored (t : Nat) (hNone : ∀ m, s.owner m ≠ some t) : s.sched.prio t = base t := by
  refine hBooks.holding.restored t (List.eq_nil_iff_forall_not_mem.mpr ?_)
  intro m hm
  exact hNone m ((hBooks.holding.mem_iff t m).mp hm)

theorem Books.linked_withPrio (o : Nat) (p : Int) :
    Linked (withPrio s.sched o p) := ⟨hBooks.linked.nodup, hBooks.linked.mem_iff⟩

/-- The first thread of a queue is pended on it. -/
theorem Books.best_pended {w : Nat} (hBest : priqWaitBest (s.sched.waitq m) = some w) :
    s.sched.pendedOn w = some m := by
  rw [priqWaitBest_eq] at hBest
  exact (hBooks.linked.mem_iff m w).mp (List.mem_of_head? hBest)

/-- If a queue has no first thread, nobody is pended on it. -/
theorem Books.nobody (hBest : priqWaitBest (s.sched.waitq m) = none) (u : Nat) :
    s.sched.pendedOn u ≠ some m := by
  intro hu
  have hMem := (hBooks.linked.mem_iff m u).mpr hu
  rw [priqWaitBest_eq, List.head?_eq_none_iff] at hBest
  rw [hBest] at hMem
  cases hMem

/-! ### Taking a mutex -/

theorem Books.take (hOwn : s.lockCount m = 0 ∨ s.owner m = some t)
    (hCount : s.owner m = some t → s.lockCount m + 1 < 2 ^ 32) :
    Books ceiling base (s.take t m) := by
  have hPositive : (s.lockCount m + 1) % 2 ^ 32 ≠ 0 := by
    rcases hOwn with hZero | hOwner
    · rw [hZero]
      decide
    · have hLt := hCount hOwner
      omega
  have hNewCount : ∀ m', set s.lockCount m ((s.lockCount m + 1) % 2 ^ 32) m' = 0 ↔
      set s.owner m (some t) m' = none := by
    intro m'
    by_cases hm : m' = m
    · rw [hm, set_same, set_same]
      exact iff_of_false hPositive (Option.some_ne_none t)
    · rw [set_ne _ _ hm, set_ne _ _ hm]
      exact hBooks.count m'
  by_cases hZero : s.lockCount m = 0
  · have hFree := (hBooks.count m).mp hZero
    refine ⟨hBooks.linked, ?_, hNewCount, ?_⟩
    · simp only [State.take, if_pos hZero]
      exact hBooks.holding.take t hFree
    · intro m' u hu
      obtain ⟨o, ho, hNe⟩ := hBooks.waiting m' u hu
      have hm : m' ≠ m := by
        rintro rfl
        rw [hFree] at ho
        cases ho
      exact ⟨o, (set_ne _ _ hm).trans ho, hNe⟩
  · have hOwner := hOwn.resolve_left hZero
    have hSame : set s.owner m (some t) = s.owner := by rw [← hOwner, set_self]
    refine ⟨hBooks.linked, ?_, hNewCount, ?_⟩
    · simp only [State.take, if_neg hZero, hSame]
      exact hBooks.holding
    · simp only [State.take, hSame]
      exact hBooks.waiting

end

theorem High.take (hHigh : High s.owner s.sched) (hBooks : Books ceiling base s)
    (hOwn : s.lockCount m = 0 ∨ s.owner m = some t) :
    High (s.take t m).owner (s.take t m).sched := by
  intro m' o u ho hu
  have ho' : set s.owner m (some t) m' = some o := ho
  by_cases hm : m' = m
  · rw [hm, set_same] at ho'
    obtain rfl := Option.some.inj ho'
    rw [hm] at hu
    rcases hOwn with hZero | hOwner
    · obtain ⟨o', hOwned, -⟩ := hBooks.waiting m u hu
      rw [(hBooks.count m).mp hZero] at hOwned
      cases hOwned
    · exact hHigh m t u hOwner hu
  · rw [set_ne _ _ hm] at ho'
    exact hHigh m' o u ho' hu

/-! ### Waiting for a mutex -/

/-- The state of the scheduler after a thread has pended on a mutex of `o`. -/
def pended (ceiling : Int) (b : Balance) (s : State) (t m o : Nat) : Sched :=
  addToWaitqLocked b (adjustUp ceiling s.sched t o) t m

theorem Books.pended_fields (hBooks : Books ceiling base s) (b : Balance) (t m o : Nat) :
    (pended ceiling b s t m o).prio =
        set s.sched.prio o (min (s.sched.prio t) (s.sched.prio o)) ∧
      (pended ceiling b s t m o).pendedOn = set s.sched.pendedOn t (some m) := by
  have hUp := adjustUp_eq (t := t) (o := o) (hBooks.holding.range t) (hBooks.holding.range o)
  obtain ⟨hPrio, hPended, -⟩ := addToWaitqLocked_cases b (adjustUp ceiling s.sched t o) t m
  rw [hUp] at hPrio hPended
  rw [pended, hUp]
  exact ⟨hPrio, hPended⟩

theorem Books.pend (hBooks : Books ceiling base s) (ho : s.owner m = some o) (hNe : o ≠ t)
    (hFree : s.sched.pendedOn t = none) :
    Books ceiling base { s with sched := pended ceiling b s t m o } := by
  obtain ⟨hPrio, hPended⟩ := hBooks.pended_fields b t m o
  refine ⟨?_, ?_, hBooks.count, ?_⟩
  · have hUp := adjustUp_eq (t := t) (o := o) (hBooks.holding.range t) (hBooks.holding.range o)
    show Linked (addToWaitqLocked b (adjustUp ceiling s.sched t o) t m)
    rw [hUp]
    exact (hBooks.linked_withPrio o _).pend b m hFree
  · simp only [hPrio]
    exact hBooks.holding.adjust ho ((hBooks.holding.range t).min (hBooks.holding.range o))
  · intro m' u hu
    rw [hPended, set_apply] at hu
    split at hu
    · rename_i hEq
      obtain rfl := Option.some.inj hu
      exact ⟨o, ho, hEq ▸ hNe⟩
    · exact hBooks.waiting m' u hu

/-- The owner is raised; that is too much exactly if it waits itself for a thread that is not as
high. -/
theorem Books.high_pend_iff (hBooks : Books ceiling base s) (hHigh : High s.owner s.sched)
    (ho : s.owner m = some o) (hNe : o ≠ t) (hFree : s.sched.pendedOn t = none) :
    High s.owner (pended ceiling b s t m o) ↔
      (s.sched.prio t < s.sched.prio o →
        ∀ m' ∈ s.sched.pendedOn o, ∀ o' ∈ s.owner m', s.sched.prio o' ≤ s.sched.prio t) := by
  obtain ⟨hPrio, hPended⟩ := hBooks.pended_fields b t m o
  have hMid := high_withPrio_iff (o := o) (p := min (s.sched.prio t) (s.sched.prio o)) hHigh
    hBooks.waiting
  -- the new waiting thread itself is never higher than the owner
  have hPend : High s.owner (pended ceiling b s t m o) ↔ High s.owner (withPrio s.sched o
      (min (s.sched.prio t) (s.sched.prio o))) := by
    constructor
    · intro hNew m' o' u ho' hu
      have hOther : u ≠ t := by
        rintro rfl
        exact absurd hu (by simp [withPrio, hFree])
      have hLe := hNew m' o' u ho' (by rw [hPended, set_ne _ _ hOther]; exact hu)
      rwa [hPrio] at hLe
    · intro hOld m' o' u ho' hu
      rw [hPrio]
      rw [hPended, set_apply] at hu
      split at hu
      · rename_i hEq
        obtain rfl := Option.some.inj hu
        obtain rfl := Option.some.inj (ho.symm.trans ho')
        rw [hEq, set_same, set_ne _ _ hNe.symm]
        exact min_le_left _ _
      · exact hOld m' o' u ho' hu
  rw [hPend, hMid]
  constructor
  · rintro ⟨-, hBelow⟩ hLt m' hm' o' ho'
    have hLe := hBelow m' o' hm' ho'
    rwa [min_eq_left hLt.le] at hLe
  · intro hKeeps
    constructor
    · intro m' u hm' hu
      exact (min_le_right _ _).trans (hHigh m' o u hm' hu)
    · intro m' o' hm' ho'
      refine le_min ?_ (hHigh m' o' o ho' hm')
      by_cases hLt : s.sched.prio t < s.sched.prio o
      · exact hKeeps hLt m' hm' o' ho'
      · exact (hHigh m' o' o ho' hm').trans (not_lt.mp hLt)

/-! ### Timeouts -/

theorem zSchedWakeThread_eq (ht : k.pendedOn t = some m) :
    zSchedWakeThread b k t = WaitQueue.unpendThreadNoTimeout b k t m := by
  rw [zSchedWakeThread, ht]

theorem Waiting.unpend (hWaiting : Waiting owner k) (t m : Nat) :
    Waiting owner (WaitQueue.unpendThreadNoTimeout b k t m) := by
  intro m' u hu
  exact hWaiting m' u (of_set_none hu).2

theorem High.unpend (hHigh : High owner k) (t m : Nat) :
    High owner (WaitQueue.unpendThreadNoTimeout b k t m) := by
  intro m' o u ho hu
  exact hHigh m' o u ho (of_set_none hu).2

theorem Books.timeout (hBooks : Books ceiling base s) (t : Nat) (hSound : Sound s (.timeout t)) :
    Books ceiling base (zThreadTimeout b s t) := by
  rw [zThreadTimeout]
  split
  · exact hBooks
  · rename_i m ht
    rw [zSchedWakeThread_eq ht]
    exact ⟨hBooks.linked.unpend b ht (hSound m ht), hBooks.holding, hBooks.count,
      hBooks.waiting.unpend t m⟩

theorem High.timeout (hHigh : High s.owner s.sched) (t : Nat) :
    High (zThreadTimeout b s t).owner (zThreadTimeout b s t).sched := by
  rw [zThreadTimeout]
  split
  · exact hHigh
  · rename_i m ht
    rw [zSchedWakeThread_eq ht]
    exact hHigh.unpend t m

/-- The higher one of the saved priority and that of the first waiting thread. -/
theorem Books.priorityLeft_spec (hBooks : Books ceiling base s) (ho : s.owner m = some o) :
    InRange ceiling (priorityLeft ceiling s m) ∧
      (∀ p, priorityLeft ceiling s m ≤ p ↔
        s.ownerOrigPrio m ≤ p ∨ ∃ w ∈ priqWaitBest (s.sched.waitq m), s.sched.prio w ≤ p) ∧
      ∀ p, p ≤ priorityLeft ceiling s m ↔
        p ≤ s.ownerOrigPrio m ∧ ∀ w ∈ priqWaitBest (s.sched.waitq m), p ≤ s.sched.prio w := by
  have hOrig := hBooks.holding.orig_range m (by simp [ho])
  rw [priorityLeft]
  cases priqWaitBest (s.sched.waitq m) with
  | none => exact ⟨hOrig, by simp, by simp⟩
  | some w =>
    have hPrio := hBooks.holding.range w
    simp only [newPrioForInheritance_eq hPrio hOrig]
    refine ⟨hPrio.min hOrig, ?_, ?_⟩
    · intro p
      simp [or_comm]
    · intro p
      simp [and_comm]

theorem timedOut_owner (t : Nat) : (timedOut ceiling s t).owner = s.owner := by
  rw [timedOut]
  split <;> rfl

theorem Books.timedOut_sched (hBooks : Books ceiling base s) (hLate : s.late t = some m)
    (ho : s.owner m = some o) :
    (timedOut ceiling s t).sched = withPrio s.sched o (priorityLeft ceiling s m) := by
  rw [timedOut, hLate]
  simp only [ho]
  exact adjustOwnerPrio_eq (hBooks.priorityLeft_spec ho).1

theorem timedOut_sched_same (hNone : ∀ m o, s.late t = some m → s.owner m ≠ some o) :
    (timedOut ceiling s t).sched = s.sched := by
  rw [timedOut]
  split
  · rfl
  · rename_i m hLate
    cases ho : s.owner m with
    | none => rfl
    | some o => exact absurd ho (hNone m o hLate)

section

variable (hBooks : Books ceiling base s)
include hBooks

theorem Books.timedOut (t : Nat) : Books ceiling base (timedOut ceiling s t) := by
  rw [Mutex.timedOut]
  split
  · exact hBooks
  · rename_i m _
    cases ho : s.owner m with
    | none => exact ⟨hBooks.linked, hBooks.holding, hBooks.count, hBooks.waiting⟩
    | some o =>
      obtain ⟨hRange, -⟩ := hBooks.priorityLeft_spec ho
      simp only [adjustOwnerPrio_eq hRange]
      exact ⟨hBooks.linked_withPrio o _, hBooks.holding.adjust ho hRange, hBooks.count,
        hBooks.waiting⟩

theorem Books.high_timedOut_iff (hHigh : High s.owner s.sched) (t : Nat) :
    High (Mutex.timedOut ceiling s t).owner (Mutex.timedOut ceiling s t).sched ↔
      Keeps s (.timedOut t) := by
  rw [timedOut_owner, Keeps]
  by_cases hNone : ∀ m o, s.late t = some m → s.owner m ≠ some o
  · rw [timedOut_sched_same hNone]
    exact iff_of_true hHigh fun m hm o ho => absurd ho (hNone m o hm)
  · push Not at hNone
    obtain ⟨m, o, hLate, ho⟩ := hNone
    obtain ⟨-, hLeft, hRight⟩ := hBooks.priorityLeft_spec ho
    rw [hBooks.timedOut_sched hLate ho, high_withPrio_iff hHigh hBooks.waiting]
    constructor
    · rintro ⟨hAbove, hBelow⟩ m₁ hm₁ o₁ ho₁
      obtain rfl := Option.some.inj (hLate.symm.trans hm₁)
      obtain rfl := Option.some.inj (ho.symm.trans ho₁)
      constructor
      · intro m' hm' u hu
        rw [← hLeft]
        exact hAbove m' u ((hBooks.holding.mem_iff o m').mp hm')
          ((hBooks.linked.mem_iff m' u).mp hu)
      · intro m' hm' o' ho'
        rw [← hRight]
        exact hBelow m' o' hm' ho'
    · intro hKeeps
      obtain ⟨hAbove, hBelow⟩ := hKeeps m hLate o ho
      constructor
      · intro m' u hm' hu
        rw [hLeft]
        exact hAbove m' ((hBooks.holding.mem_iff o m').mpr hm') u
          ((hBooks.linked.mem_iff m' u).mpr hu)
      · intro m' o' hm' ho'
        rw [hRight]
        exact hBelow m' hm' o' ho'

/-! ### Unlocking -/

/-- What happens to the scheduler when a mutex is given up: the owner's priority is set back, and
the first waiting thread is taken out of the queue. -/
theorem Books.release_cases (hOwner : s.owner m = some t) :
    (priqWaitBest (s.sched.waitq m) = none ∧
      s.release b t m =
        { s with
          sched := withPrio s.sched t (s.ownerOrigPrio m)
          owner := set s.owner m none
          lockCount := set s.lockCount m 0
          ret := set s.ret t 0
          held := set s.held t ((s.held t).erase m) }) ∨
    ∃ w, priqWaitBest (s.sched.waitq m) = some w ∧ s.sched.pendedOn w = some m ∧
      s.release b t m =
        { s with
          sched := WaitQueue.unpendThreadNoTimeout b (withPrio s.sched t (s.ownerOrigPrio m)) w m
          owner := set s.owner m (some w)
          ownerOrigPrio := set s.ownerOrigPrio m (set s.sched.prio t (s.ownerOrigPrio m) w)
          ret := set (set s.ret t 0) w 0
          held := set (set s.held t ((s.held t).erase m)) w
            (m :: set s.held t ((s.held t).erase m) w) } := by
  have hOrig := hBooks.holding.orig_range m (by simp [hOwner])
  have hQueue : (withPrio s.sched t (s.ownerOrigPrio m)).waitq m = s.sched.waitq m := rfl
  rw [State.release, adjustOwnerPrio_eq hOrig, hQueue]
  cases hBest : priqWaitBest (s.sched.waitq m) with
  | none => exact .inl ⟨rfl, rfl⟩
  | some w =>
    have hPended := hBooks.best_pended hBest
    have hUnpend : WaitQueue.zUnpendFirstThread b (withPrio s.sched t (s.ownerOrigPrio m)) m =
        WaitQueue.unpendThreadNoTimeout b (withPrio s.sched t (s.ownerOrigPrio m)) w m := by
      rw [WaitQueue.zUnpendFirstThread, hQueue, hBest]
      show (match s.sched.pendedOn w with
        | none => withPrio s.sched t (s.ownerOrigPrio m)
        | some q' => WaitQueue.unpendThreadNoTimeout b (withPrio s.sched t (s.ownerOrigPrio m)) w q') = _
      rw [hPended]
    refine .inr ⟨w, rfl, hPended, ?_⟩
    simp only [hUnpend]
    rfl

theorem Books.release (hLast : (s.held t).head? = some m) (hFree : s.sched.pendedOn t = none)
    (hCount : s.lockCount m = 1) (hSound : Sound s (.unlock t m)) :
    Books ceiling base (s.release b t m) := by
  have hOwner := (hBooks.holding.mem_iff t m).mp (List.mem_of_head? hLast)
  have hRelease := hBooks.holding.release hLast
  rcases hBooks.release_cases (b := b) hOwner with ⟨hBest, hEq⟩ | ⟨w, hBest, hPended, hEq⟩
  · rw [hEq]
    refine ⟨hBooks.linked_withPrio t _, hRelease, ?_, ?_⟩
    · intro m'
      by_cases hm : m' = m
      · rw [hm]
        simp only [set_same]
      · simp only [set_ne _ _ hm]
        exact hBooks.count m'
    · intro m' u hu
      obtain ⟨o, ho, hNe⟩ := hBooks.waiting m' u hu
      refine ⟨o, ?_, hNe⟩
      have hm : m' ≠ m := by
        rintro rfl
        exact hBooks.nobody hBest u hu
      exact (set_ne _ _ hm).trans ho
  · have hTake := hRelease.take w (m := m) (set_same ..)
    rw [set_set] at hTake
    have hMem := (hBooks.linked.mem_iff m w).mpr hPended
    have hOther : ∀ u ∈ (s.sched.waitq m).threads,
        (withPrio s.sched t (s.ownerOrigPrio m)).prio u = s.sched.prio u := by
      intro u hu
      refine set_ne _ _ ?_
      rintro rfl
      exact hBooks.linked.free hFree m hu
    have hFound : Found (withPrio s.sched t (s.ownerOrigPrio m)) w (s.sched.waitq m) :=
      (found_congr hMem hOther rfl).mpr (hSound w hBest)
    rw [hEq]
    refine ⟨(hBooks.linked_withPrio t _).unpend b hPended hFound, hTake, ?_, ?_⟩
    · intro m'
      by_cases hm : m' = m
      · rw [hm]
        simp [hCount]
      · simp only [set_ne _ _ hm]
        exact hBooks.count m'
    · intro m' u hu
      obtain ⟨huw, hu'⟩ := of_set_none hu
      obtain ⟨o, ho, hNe⟩ := hBooks.waiting m' u hu'
      by_cases hm : m' = m
      · exact ⟨w, hm ▸ set_same .., Ne.symm huw⟩
      · exact ⟨o, (set_ne _ _ hm).trans ho, hNe⟩

/-- The priorities and the waits after a mutex has been given up, for its new owner or nobody. -/
theorem Books.release_fields (hOwner : s.owner m = some t) :
    (s.release b t m).owner = set s.owner m (priqWaitBest (s.sched.waitq m)) ∧
      (s.release b t m).sched.prio = set s.sched.prio t (s.ownerOrigPrio m) ∧
      ∀ u m', (s.release b t m).sched.pendedOn u = some m' ↔
        s.sched.pendedOn u = some m' ∧ priqWaitBest (s.sched.waitq m) ≠ some u := by
  rcases hBooks.release_cases (b := b) hOwner with ⟨hBest, hEq⟩ | ⟨w, hBest, -, hEq⟩
  · rw [hEq, hBest]
    exact ⟨rfl, rfl, by simp [withPrio]⟩
  · rw [hEq, hBest]
    refine ⟨rfl, rfl, fun u m' => ?_⟩
    show set s.sched.pendedOn w none u = some m' ↔ _
    by_cases hu : u = w
    · simp [hu]
    · simp [set_ne _ _ hu, Ne.symm hu]

theorem Books.high_release_iff (hHigh : High s.owner s.sched) (hOwner : s.owner m = some t)
    (hFree : s.sched.pendedOn t = none) :
    High (s.release b t m).owner (s.release b t m).sched ↔
      (∀ m' ∈ s.held t, m' ≠ m → ∀ u ∈ (s.sched.waitq m').threads,
        s.ownerOrigPrio m ≤ s.sched.prio u) ∧
      ∀ w ∈ priqWaitBest (s.sched.waitq m), ∀ u ∈ (s.sched.waitq m).threads,
        s.sched.prio w ≤ s.sched.prio u := by
  have hNotFree : ∀ m' u, s.sched.pendedOn u = some m' → u ≠ t := by
    rintro m' u hu rfl
    rw [hFree] at hu
    cases hu
  obtain ⟨hNewOwner, hPrio, hPended⟩ := hBooks.release_fields (b := b) hOwner
  simp only [hBooks.holding.mem_iff, hBooks.linked.mem_iff, Option.mem_def, High, hNewOwner, hPrio,
    hPended]
  constructor
  · intro hNew
    constructor
    · intro m' ho hm u hu
      have hLe := hNew m' t u ((set_ne _ _ hm).trans ho) ⟨hu, fun hBest =>
        hm (Option.some.inj (hu.symm.trans (hBooks.best_pended hBest)))⟩
      rwa [set_same, set_ne _ _ (hNotFree m' u hu)] at hLe
    · intro w hw u hu
      by_cases hNe : u = w
      · rw [hNe]
      · have hLe := hNew m w u ((set_same ..).trans hw) ⟨hu, fun hBest =>
          hNe (Option.some.inj (hBest.symm.trans hw))⟩
        rwa [set_ne _ _ (hNotFree m w (hBooks.best_pended hw)),
          set_ne _ _ (hNotFree m u hu)] at hLe
  · rintro ⟨hAbove, hFirst⟩ m' o u ho ⟨hu, -⟩
    rw [set_ne _ _ (hNotFree m' u hu)]
    by_cases hm : m' = m
    · rw [hm, set_same] at ho
      rw [set_ne _ _ (hNotFree m o (hBooks.best_pended ho))]
      exact hFirst o ho u (hm ▸ hu)
    · rw [set_ne _ _ hm] at ho
      rw [set_apply]
      split
      · rename_i hEq
        exact hAbove m' (hEq ▸ ho) hm u hu
      · exact hHigh m' o u ho hu

end

/-! ### Every step -/

/-- What a call of `k_mutex_lock` does. -/
theorem kMutexLock_cases (ceiling : Int) (b : Balance) (s : State) (t m : Nat) (noWait : Bool) :
    ((s.lockCount m = 0 ∨ s.owner m = some t) ∧ kMutexLock ceiling b s t m noWait = s.take t m) ∨
    (s.lockCount m ≠ 0 ∧ s.owner m ≠ some t ∧
      ((noWait = true ∧ kMutexLock ceiling b s t m noWait = { s with ret := set s.ret t (-16) }) ∨
      (s.owner m = none ∧ kMutexLock ceiling b s t m noWait = s) ∨
      ∃ o, noWait = false ∧ s.owner m = some o ∧
        kMutexLock ceiling b s t m noWait = { s with sched := pended ceiling b s t m o })) := by
  rw [kMutexLock]
  by_cases hOwn : s.lockCount m = 0 ∨ s.owner m = some t
  · exact .inl ⟨hOwn, if_pos hOwn⟩
  · rw [if_neg hOwn]
    rw [not_or] at hOwn
    refine .inr ⟨hOwn.1, hOwn.2, ?_⟩
    cases noWait with
    | true => exact .inl ⟨rfl, rfl⟩
    | false =>
      cases ho : s.owner m with
      | none => exact .inr (.inl ⟨rfl, rfl⟩)
      | some o => exact .inr (.inr ⟨o, rfl, rfl, rfl⟩)

section

variable (hBooks : Books ceiling base s)
include hBooks

theorem Books.lock {noWait : Bool} (hNested : Nested s (.lock t m noWait))
    (hSound : Sound s (.lock t m noWait)) :
    Books ceiling base (kMutexLock ceiling b s t m noWait) := by
  rcases kMutexLock_cases ceiling b s t m noWait with ⟨hOwn, hEq⟩ | ⟨-, hOther, hCases⟩
  · rw [hEq]
    exact hBooks.take hOwn hSound
  · rcases hCases with ⟨-, hEq⟩ | ⟨-, hEq⟩ | ⟨o, -, ho, hEq⟩
    · rw [hEq]
      exact ⟨hBooks.linked, hBooks.holding, hBooks.count, hBooks.waiting⟩
    · rw [hEq]
      exact hBooks
    · rw [hEq]
      exact hBooks.pend ho (fun hot => hOther (hot ▸ ho)) hNested.1

theorem Books.high_lock_iff (hHigh : High s.owner s.sched) {noWait : Bool}
    (hNested : Nested s (.lock t m noWait)) :
    High (kMutexLock ceiling b s t m noWait).owner (kMutexLock ceiling b s t m noWait).sched ↔
      Keeps s (.lock t m noWait) := by
  rcases kMutexLock_cases ceiling b s t m noWait with ⟨hOwn, hEq⟩ | ⟨hCount, hOther, hCases⟩
  · rw [hEq]
    refine iff_of_true (hHigh.take hBooks hOwn) ?_
    intro hCount _ o ho hLt
    rcases hOwn with hZero | hOwner
    · exact absurd hZero hCount
    · obtain rfl := Option.some.inj (hOwner.symm.trans ho)
      exact absurd hLt (lt_irrefl _)
  · rcases hCases with ⟨hNoWait, hEq⟩ | ⟨hNone, -⟩ | ⟨o, hNoWait, ho, hEq⟩
    · rw [hEq]
      refine iff_of_true hHigh ?_
      intro _ hWait
      rw [hNoWait] at hWait
      cases hWait
    · exact absurd ((hBooks.count m).mpr hNone) hCount
    · have hNe : o ≠ t := fun hot => hOther (hot ▸ ho)
      rw [hEq, hBooks.high_pend_iff hHigh ho hNe hNested.1]
      constructor
      · intro hKeeps _ _ o' ho'
        obtain rfl := Option.some.inj (ho.symm.trans ho')
        exact hKeeps
      · exact fun hKeeps => hKeeps hCount hNoWait o ho

/-- What a call of `k_mutex_unlock` does. -/
theorem Books.kMutexUnlock_cases (b : Balance) (t m : Nat) :
    (s.owner m = some t ∧ s.lockCount m = 1 ∧ kMutexUnlock b s t m = s.release b t m) ∨
    (¬ (s.owner m = some t ∧ s.lockCount m = 1) ∧
      ∃ counts ret, kMutexUnlock b s t m = { s with lockCount := counts, ret := ret } ∧
        ∀ m', counts m' = 0 ↔ s.lockCount m' = 0) := by
  by_cases hBoth : s.owner m = some t ∧ s.lockCount m = 1
  · refine .inl ⟨hBoth.1, hBoth.2, ?_⟩
    simp [kMutexUnlock, hBoth.1, hBoth.2]
  · refine .inr ⟨hBoth, ?_⟩
    rw [kMutexUnlock]
    split
    · exact ⟨_, _, rfl, fun _ => .rfl⟩
    · rename_i o ho
      split
      · exact ⟨_, _, rfl, fun _ => .rfl⟩
      · rename_i hot
        rw [ho, not_not.mp hot] at hBoth
        have hPositive := (hBooks.count m).not.mpr (by simp [ho])
        have hMany : 1 < s.lockCount m := by
          have hNe : s.lockCount m ≠ 1 := fun hOne => hBoth ⟨rfl, hOne⟩
          omega
        rw [if_pos hMany]
        refine ⟨_, _, rfl, fun m' => ?_⟩
        rw [set_apply]
        split
        · rename_i hm
          rw [hm]
          omega
        · rfl

theorem Books.unlock (hNested : Nested s (.unlock t m)) (hSound : Sound s (.unlock t m)) :
    Books ceiling base (kMutexUnlock b s t m) := by
  rcases hBooks.kMutexUnlock_cases b t m with ⟨ho, hOne, hEq⟩ | ⟨-, counts, ret, hEq, hCount⟩
  · rw [hEq]
    exact hBooks.release (hNested.2.2 ho hOne) hNested.1 hOne hSound
  · rw [hEq]
    exact ⟨hBooks.linked, hBooks.holding, fun m' => (hCount m').trans (hBooks.count m'),
      hBooks.waiting⟩

theorem Books.high_unlock_iff (hHigh : High s.owner s.sched) (hNested : Nested s (.unlock t m)) :
    High (kMutexUnlock b s t m).owner (kMutexUnlock b s t m).sched ↔ Keeps s (.unlock t m) := by
  rcases hBooks.kMutexUnlock_cases b t m with ⟨ho, hOne, hEq⟩ | ⟨hNot, _, _, hEq, -⟩
  · rw [hEq, hBooks.high_release_iff hHigh ho hNested.1]
    exact ⟨fun h _ _ => h, fun h => h ho hOne⟩
  · rw [hEq]
    exact iff_of_true hHigh fun ho hOne => absurd ⟨ho, hOne⟩ hNot

theorem Books.step {op : Op} (hNested : Nested s op) (hSound : Sound s op) :
    Books ceiling base (step ceiling b s op) := by
  cases op with
  | lock t m noWait => exact hBooks.lock hNested hSound
  | unlock t m => exact hBooks.unlock hNested hSound
  | timeout t => exact hBooks.timeout t hSound
  | timedOut t => exact hBooks.timedOut t

theorem Books.high_step_iff (hHigh : High s.owner s.sched) {op : Op} (hNested : Nested s op) :
    High (Mutex.step ceiling b s op).owner (Mutex.step ceiling b s op).sched ↔ Keeps s op := by
  cases op with
  | lock t m noWait => exact hBooks.high_lock_iff hHigh hNested
  | unlock t m => exact hBooks.high_unlock_iff hHigh hNested
  | timeout t => exact iff_of_true (hHigh.timeout t) trivial
  | timedOut t => exact hBooks.high_timedOut_iff hHigh t

end

end Steps

/-! ## Runs -/

/-- Nobody waits, no mutex is locked, and the priorities are valid and not above the ceiling. -/
structure Start (ceiling : Int) (s : State) : Prop where
  sched : WaitQueue.Start s.sched
  owner : ∀ m, s.owner m = none
  lockCount : ∀ m, s.lockCount m = 0
  held : ∀ t, s.held t = []
  range : ∀ t, InRange ceiling (s.sched.prio t)

theorem Start.books {s : State} (hStart : Start ceiling s) :
    Books ceiling s.sched.prio s where
  linked := hStart.sched.inv.linked
  holding := by
    refine ⟨?_, ?_, ?_, fun _ _ => rfl, hStart.range, ?_⟩
    · simp [hStart.held, hStart.owner]
    · simp [hStart.held]
    · simp [hStart.held]
    · simp [hStart.owner]
  count := by simp [hStart.owner, hStart.lockCount]
  waiting := by
    intro m u hu
    rw [hStart.sched.free] at hu
    cases hu

/-- Inheritance works in every state of a run exactly if every step of it meets the condition.  That
a thread goes back to its own priority needs no more than nested unlocking. -/
theorem priority_inheritance_iff (ceiling : Int) (b : Balance) (s : State)
    (hStart : Start ceiling s) (ops : List Op)
    (hDom : Admissible (step ceiling b) (fun s op => Nested s op ∧ Sound s op) s ops) :
    Always (step ceiling b) (Inherits s.sched.prio) s ops ↔
      Admissible (step ceiling b) Keeps s ops := by
  have hHigh : High s.owner s.sched := by
    intro m o u ho
    rw [hStart.owner] at ho
    cases ho
  have hLaw : ∀ s', Books ceiling s.sched.prio s' ∧ High s'.owner s'.sched →
      Inherits s.sched.prio s' := fun s' h => ⟨h.2, h.1.restored⟩
  refine always_iff_within hLaw ?_ ?_ ops s ⟨hStart.books, hHigh⟩ hDom
  · rintro s' op ⟨hBooks, hHigh⟩ ⟨hNested, hSound⟩ hKeeps
    exact ⟨hBooks.step hNested hSound, (hBooks.high_step_iff hHigh hNested).mpr hKeeps⟩
  · rintro s' op ⟨hBooks, hHigh⟩ ⟨hNested, -⟩ hInherits
    exact (hBooks.high_step_iff hHigh hNested).mp hInherits.high

/-- All wait queues are lists.  Thread 1 has priority 10, thread 2 priority 5 and thread 3
priority 3. -/
def unlocked : State where
  sched :=
    { WaitQueue.idle with
      prio := fun t => if t = 1 then 10 else if t = 2 then 5 else 3
      waitq := fun _ => .dumb [] }
  owner _ := none
  lockCount _ := 0
  ownerOrigPrio _ := 0
  late _ := none
  ret _ := 0
  held _ := []

theorem unlocked_start :
    Start (-127) unlocked where
  sched := ⟨fun _ => rfl, fun _ => .inl rfl⟩
  owner _ := rfl
  lockCount _ := rfl
  held _ := rfl
  range t := by
    show InRange (-127) (if t = 1 then 10 else if t = 2 then 5 else 3)
    split
    · exact ⟨by decide, by decide, by decide⟩
    · split <;> exact ⟨by decide, by decide, by decide⟩

/-- Thread 1 is raised on two mutexes one after the other and unlocks them in reverse order. -/
theorem priority_inheritance_iff_two :
    Always (step (-127) twoNodes) (Inherits unlocked.sched.prio) unlocked
      [.lock 1 0 false, .lock 2 0 false, .lock 1 1 false, .lock 3 1 false, .unlock 1 1,
        .unlock 1 0] :=
  (priority_inheritance_iff (-127) twoNodes unlocked unlocked_start _ (by decide +kernel)).mpr
    (by decide +kernel)

/-- Thread 2 waits for mutex 0 and thread 3 for mutex 1, both of thread 1, which took the second
mutex after it had been raised on the first.  Thread 2 times out, and thread 1 goes back to
priority 10 while thread 3, of priority 3, still waits for it. -/
theorem timeout_lowers_owner :
    Admissible (step (-127) twoNodes) (fun s op => Nested s op ∧ RaisesLast s op ∧ Sound s op)
        unlocked [.lock 1 0 false, .lock 2 0 false, .lock 1 1 false, .lock 3 1 false, .timeout 2,
          .timedOut 2] ∧
      (exec (step (-127) twoNodes) unlocked [.lock 1 0 false, .lock 2 0 false, .lock 1 1 false,
        .lock 3 1 false, .timeout 2, .timedOut 2]).owner 1 = some 1 ∧
      (exec (step (-127) twoNodes) unlocked [.lock 1 0 false, .lock 2 0 false, .lock 1 1 false,
        .lock 3 1 false, .timeout 2, .timedOut 2]).sched.pendedOn 3 = some 1 ∧
      (exec (step (-127) twoNodes) unlocked [.lock 1 0 false, .lock 2 0 false, .lock 1 1 false,
        .lock 3 1 false, .timeout 2, .timedOut 2]).sched.prio 3 = 3 ∧
      (exec (step (-127) twoNodes) unlocked [.lock 1 0 false, .lock 2 0 false, .lock 1 1 false,
        .lock 3 1 false, .timeout 2, .timedOut 2]).sched.prio 1 = 10 := by
  decide +kernel

end Zvm.Kernel.Mutex
