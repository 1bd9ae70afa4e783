import Mathlib
import Zvm.Verified.FunArray
import Zvm.Verified.Run
import Zvm.Verified.SearchTree

/-!
# Wait queues

A wait queue is a list or a red-black tree of threads, by configuration.  Its order is read off the
threads: their priority, and in a tree the order key that a thread was given when it was added.  The
priority of a pended thread can be changed, and `z_thread_prio_set` then only writes the field.
The thread keeps its place in the queue, which may be the wrong one from then on.  In a list the
wrong thread is released first; in a tree the search for a thread may also turn to the wrong side,
and the thread is then marked as not pended while it is still in the tree.

A second way to lose the order of arrival is the wraparound of the order keys: the thread that is
added at the wraparound keeps the largest key, while the others are numbered anew from zero, so that
threads added later go in front of it.

The balancing of the tree is a parameter.
-/

namespace Zvm.Kernel.WaitQueue

open Zvm.Verified.FunArray Zvm.Verified.OrderedInsert Zvm.Verified.Run Zvm.Verified.SearchTree

/-! ## The code -/

/-- A red-black tree of threads.  The colour is a bit in the node. -/
structure Rb where
  tree : BinaryTree Nat
  red : Nat → Bool

/-- What `rb_insert` does after the new leaf is in place, and the result of `rb_remove` by the tree
before and the tree without the node. -/
structure Balance where
  insert : Nat → Rb → Rb
  remove : Nat → Rb → BinaryTree Nat → Rb
  inorder_insert : ∀ t rb, inorder (insert t rb).tree = inorder rb.tree
  inorder_remove : ∀ t rb tree, inorder (remove t rb tree).tree = inorder tree

/-- `_wait_q_t`, with `CONFIG_WAITQ_DUMB` and with `CONFIG_WAITQ_SCALABLE`. -/
inductive WaitQ where
  | dumb (list : List Nat)
  | scalable (rb : Rb) (nextOrderKey : Nat)

/-- The threads of a queue in its order. -/
def WaitQ.threads : WaitQ → List Nat
  | .dumb list => list
  | .scalable rb _ => inorder rb.tree

/-- Threads and wait queues are numbered.  `pendPrio` is the priority a thread pended at, `stamp`
the number of its pend and `clock` the next such number; no code reads them. -/
structure Sched where
  prio : Nat → Int
  orderKey : Nat → Nat
  pendedOn : Nat → Option Nat
  waitq : Nat → WaitQ
  pendPrio : Nat → Int
  stamp : Nat → Nat
  clock : Nat

/-- `z_sched_prio_cmp`: positive if the first thread has the higher priority, which is the smaller
number. -/
def zSchedPrioCmp (s : Sched) (t u : Nat) : Int :=
  if s.prio t ≠ s.prio u then s.prio u - s.prio t else 0

/-- `z_priq_rb_lessthan`. -/
def zPriqRbLessthan (s : Sched) (t u : Nat) : Bool :=
  if 0 < zSchedPrioCmp s t u then true
  else if zSchedPrioCmp s t u < 0 then false
  else decide (s.orderKey t < s.orderKey u)

/-- `z_priq_dumb_add`. -/
def zPriqDumbAdd (s : Sched) (list : List Nat) (t : Nat) : List Nat :=
  list.orderedInsert (fun u v => 0 < zSchedPrioCmp s u v) t

/-- `rb_insert`, for a node that is not in the tree. -/
def rbInsert (b : Balance) (lessthan : Nat → Nat → Bool) (t : Nat) (rb : Rb) : Rb :=
  b.insert t { rb with tree := insertLeaf lessthan t rb.tree }

/-- `rb_remove`, which returns without a change if the search does not end at the node. -/
def rbRemove (b : Balance) (lessthan : Nat → Nat → Bool) (t : Nat) (rb : Rb) : Rb :=
  if reach lessthan t rb.tree then b.remove t rb (removeAt lessthan t rb.tree) else rb

/-- The loop of `z_priq_rb_add` that numbers the threads of the tree anew. -/
def renumber (key : Nat → Nat) : List Nat → Nat → (Nat → Nat) × Nat
  | [], next => (key, next)
  | t :: l, next => renumber (set key t next) l ((next + 1) % 2 ^ 32)

/-- The order keys after the thread has been given its own, and the next key. -/
def assignKey (key : Nat → Nat) (l : List Nat) (next t : Nat) : (Nat → Nat) × Nat :=
  if (next + 1) % 2 ^ 32 = 0 then renumber (set key t next) l ((next + 1) % 2 ^ 32)
  else (set key t next, (next + 1) % 2 ^ 32)

/-- `z_priq_rb_add` before the call of `rb_insert`. -/
def Sched.keyed (s : Sched) (rb : Rb) (next t : Nat) : Sched :=
  { s with orderKey := (assignKey s.orderKey (inorder rb.tree) next t).1 }

/-- `_priq_wait_add`. -/
def priqWaitAdd (b : Balance) (s : Sched) (q t : Nat) : Sched :=
  match s.waitq q with
  | .dumb list => { s with waitq := set s.waitq q (.dumb (zPriqDumbAdd s list t)) }
  | .scalable rb next =>
    { s.keyed rb next t with
      waitq := set s.waitq q
        (.scalable (rbInsert b (zPriqRbLessthan (s.keyed rb next t)) t rb)
          (assignKey s.orderKey (inorder rb.tree) next t).2) }

/-- `_priq_wait_remove`. -/
def priqWaitRemove (b : Balance) (s : Sched) (t : Nat) : WaitQ → WaitQ
  | .dumb list => .dumb (list.erase t)
  | .scalable rb next =>
    .scalable (rbRemove b (zPriqRbLessthan s) t rb)
      (if (rbRemove b (zPriqRbLessthan s) t rb).tree = .nil then 0 else next)

/-- `_priq_wait_best`. -/
def priqWaitBest : WaitQ → Option Nat
  | .dumb list => list.head?
  | .scalable rb _ => least rb.tree

/-- `add_to_waitq_locked` up to the addition to the queue. -/
def Sched.marked (s : Sched) (t q : Nat) : Sched :=
  { s with
    pendedOn := set s.pendedOn t (some q)
    pendPrio := set s.pendPrio t (s.prio t)
    stamp := set s.stamp t s.clock
    clock := s.clock + 1 }

/-- `add_to_waitq_locked`. -/
def addToWaitqLocked (b : Balance) (s : Sched) (t q : Nat) : Sched :=
  priqWaitAdd b (s.marked t q) q t

/-- `unpend_thread_no_timeout`. -/
def unpendThreadNoTimeout (b : Balance) (s : Sched) (t q : Nat) : Sched :=
  { s with
    waitq := set s.waitq q (priqWaitRemove b s t (s.waitq q))
    pendedOn := set s.pendedOn t none }

/-- `z_unpend_first_thread`. -/
def zUnpendFirstThread (b : Balance) (s : Sched) (q : Nat) : Sched :=
  match priqWaitBest (s.waitq q) with
  | none => s
  | some t =>
    match s.pendedOn t with
    | none => s
    | some q' => unpendThreadNoTimeout b s t q'

/-- `z_sched_wake_thread`, for a timeout or any other wakeup of one thread. -/
def zSchedWakeThread (b : Balance) (s : Sched) (t : Nat) : Sched :=
  match s.pendedOn t with
  | none => s
  | some q => unpendThreadNoTimeout b s t q

/-- `z_thread_prio_set`, in what it does to wait queues; the field is of type `int8_t`. -/
def zThreadPrioSet (s : Sched) (t : Nat) (prio : Int) : Sched :=
  { s with prio := set s.prio t (prio.bmod 256) }

/-- `prioSet` is `k_thread_priority_set`, and the change of an owner's priority by a mutex. -/
inductive Op where
  | pend (t q : Nat)
  | unpendFirst (q : Nat)
  | wake (t : Nat)
  | prioSet (t : Nat) (prio : Int)

def step (b : Balance) (s : Sched) : Op → Sched
  | .pend t q => addToWaitqLocked b s t q
  | .unpendFirst q => zUnpendFirstThread b s q
  | .wake t => zSchedWakeThread b s t
  | .prioSet t prio => zThreadPrioSet s t prio

/-! ## What the queues are for -/

/-- Threads that pended at one priority and have one priority are in the order of their pends. -/
def Fifo (s : Sched) (t u : Nat) : Prop :=
  s.prio t = s.prio u → s.pendPrio t = s.pendPrio u → s.stamp t < s.stamp u

/-- Every queue is in the order of the current priorities, its first thread is one of the highest
priority, and every thread pended on it can be removed. -/
structure Law (b : Balance) (s : Sched) : Prop where
  sorted : ∀ q, (s.waitq q).threads.Pairwise fun t u => s.prio t ≤ s.prio u
  fifo : ∀ q, (s.waitq q).threads.Pairwise (Fifo s)
  highest : ∀ q u, s.pendedOn u = some q →
    ∃ t, priqWaitBest (s.waitq q) = some t ∧ s.pendedOn t = some q ∧ s.prio t ≤ s.prio u
  removed : ∀ q t, s.pendedOn t = some q →
    t ∈ (s.waitq q).threads ∧ t ∉ (priqWaitRemove b s t (s.waitq q)).threads

/-- The order of the tree. -/
def Less (s : Sched) (t u : Nat) : Prop :=
  s.prio t < s.prio u ∨ (s.prio t = s.prio u ∧ s.orderKey t < s.orderKey u)

/-- The order that the operations on the queue rely on. -/
def WaitQ.Precedes (s : Sched) (t u : Nat) : WaitQ → Prop
  | .dumb _ => s.prio t ≤ s.prio u
  | .scalable _ _ => Less s t u

def InPlace (s : Sched) (w : WaitQ) (t u : Nat) : Prop := w.Precedes s t u ∧ Fifo s t u

/-- With the new priority the thread is still between its neighbours. -/
def KeepsPlace (s : Sched) (t : Nat) (prio : Int) : Prop :=
  match s.pendedOn t with
  | none => True
  | some q => (s.waitq q).threads.Pairwise fun u v =>
    u = t ∨ v = t → InPlace (zThreadPrioSet s t prio) (s.waitq q) u v

/-- The queue has no thread of the same priority with a key that is not below the next one, as the
thread is that was added at the last wraparound. -/
def KeepsArrival (s : Sched) (t q : Nat) : Prop :=
  match s.waitq q with
  | .dumb _ => True
  | .scalable rb next => (next + 1) % 2 ^ 32 = 0 ∨
      ∀ u ∈ inorder rb.tree, s.prio u = s.prio t → s.pendPrio u = s.prio t → s.orderKey u < next

/-- The condition on the state before a step. -/
def Orderly (s : Sched) : Op → Prop
  | .pend t q => KeepsArrival s t q
  | .prioSet t prio => KeepsPlace s t prio
  | .unpendFirst _ => True
  | .wake _ => True

/-- A thread that pends is not pended, and fewer than `2 ^ 32` threads are on the queue. -/
def InDomain (s : Sched) : Op → Prop
  | .pend t q => s.pendedOn t = none ∧ (s.waitq q).threads.length < 2 ^ 32
  | .unpendFirst _ => True
  | .wake _ => True
  | .prioSet _ _ => True

instance (s : Sched) (t u : Nat) : Decidable (Fifo s t u) :=
  inferInstanceAs (Decidable (_ → _ → _))

instance (s : Sched) (t u : Nat) : Decidable (Less s t u) :=
  inferInstanceAs (Decidable (_ ∨ _))

instance (s : Sched) (t u : Nat) : (w : WaitQ) → Decidable (w.Precedes s t u)
  | .dumb _ => inferInstanceAs (Decidable (s.prio t ≤ s.prio u))
  | .scalable _ _ => inferInstanceAs (Decidable (Less s t u))

instance (s : Sched) (w : WaitQ) (t u : Nat) : Decidable (InPlace s w t u) :=
  inferInstanceAs (Decidable (_ ∧ _))

instance (s : Sched) (t : Nat) (prio : Int) : Decidable (KeepsPlace s t prio) := by
  unfold KeepsPlace
  exact match s.pendedOn t with
    | none => inferInstance
    | some _ => inferInstance

instance (s : Sched) (t q : Nat) : Decidable (KeepsArrival s t q) := by
  unfold KeepsArrival
  exact match s.waitq q with
    | .dumb _ => inferInstance
    | .scalable _ _ => inferInstance

instance (s : Sched) : (op : Op) → Decidable (Orderly s op)
  | .pend t q => inferInstanceAs (Decidable (KeepsArrival s t q))
  | .prioSet t prio => inferInstanceAs (Decidable (KeepsPlace s t prio))
  | .unpendFirst _ => inferInstanceAs (Decidable True)
  | .wake _ => inferInstanceAs (Decidable True)

instance (s : Sched) : (op : Op) → Decidable (InDomain s op)
  | .pend _ _ => inferInstanceAs (Decidable (_ ∧ _))
  | .unpendFirst _ => inferInstanceAs (Decidable True)
  | .wake _ => inferInstanceAs (Decidable True)
  | .prioSet _ _ => inferInstanceAs (Decidable True)

/-! ## Membership -/

/-- The queues have the threads that are pended on them, whatever their order. -/
structure Linked (s : Sched) : Prop where
  nodup : ∀ q, (s.waitq q).threads.Nodup
  mem_iff : ∀ q t, t ∈ (s.waitq q).threads ↔ s.pendedOn t = some q

variable {s s' : Sched} {t q u next : Nat} {w : WaitQ} {b : Balance} {key : Nat → Nat}
  {l : List Nat} {prio : Int}

theorem Linked.free (hLink : Linked s) (hFree : s.pendedOn t = none) (q : Nat) :
    t ∉ (s.waitq q).threads := by
  intro ht
  rw [hLink.mem_iff, hFree] at ht
  cases ht

/-- A thread on one queue is on no other. -/
theorem Linked.apart (hLink : Linked s) {q' : Nat} (hq : t ∈ (s.waitq q).threads)
    (hq' : t ∈ (s.waitq q').threads) : q = q' := by
  rw [hLink.mem_iff] at hq hq'
  exact Option.some.inj (hq.symm.trans hq')

theorem Linked.add (hLink : Linked s) (hFree : s.pendedOn t = none)
    (hWaitq : s'.waitq = set s.waitq q w) (hPended : s'.pendedOn = set s.pendedOn t (some q))
    (hPerm : w.threads.Perm (t :: (s.waitq q).threads)) : Linked s' := by
  constructor
  · intro q'
    rw [hWaitq]
    refine set_elim (fun _ => ?_) fun _ => hLink.nodup q'
    exact hPerm.nodup_iff.mpr (List.nodup_cons.mpr ⟨hLink.free hFree q, hLink.nodup q⟩)
  · intro q' u
    rw [hWaitq, hPended]
    by_cases hq : q' = q
    · rw [hq, set_same, hPerm.mem_iff, List.mem_cons, hLink.mem_iff]
      by_cases hu : u = t
      · simp [hu]
      · simp [hu, set_ne]
    · rw [set_ne _ _ hq]
      by_cases hu : u = t
      · rw [hu, set_same]
        simp [hLink.free hFree, Ne.symm hq]
      · rw [set_ne _ _ hu, hLink.mem_iff]

theorem Linked.remove (hLink : Linked s) (ht : s.pendedOn t = some q)
    (hWaitq : s'.waitq = set s.waitq q w) (hPended : s'.pendedOn = set s.pendedOn t none)
    (hErase : w.threads = (s.waitq q).threads.erase t) : Linked s' := by
  have hMem := (hLink.mem_iff q t).mpr ht
  constructor
  · intro q'
    rw [hWaitq]
    exact set_elim (fun _ => hErase ▸ (hLink.nodup q).erase t) fun _ => hLink.nodup q'
  · intro q' u
    rw [hWaitq, hPended]
    by_cases hu : u = t
    · rw [hu, set_same]
      simp only [reduceCtorEq, iff_false]
      refine set_elim (fun _ => ?_) fun hq hMem' => hq (hLink.apart hMem' hMem)
      exact hErase ▸ (hLink.nodup q).not_mem_erase
    · rw [set_ne _ _ hu, ← hLink.mem_iff q' u]
      by_cases hq : q' = q
      · rw [hq, set_same, hErase, List.mem_erase_of_ne hu]
      · rw [set_ne _ _ hq]

/-- The removal of the thread from the queue finds it. -/
def Found (s : Sched) (t : Nat) : WaitQ → Prop
  | .dumb _ => True
  | .scalable rb _ => reach (zPriqRbLessthan s) t rb.tree = true

instance (s : Sched) (t : Nat) : (w : WaitQ) → Decidable (Found s t w)
  | .dumb _ => inferInstanceAs (Decidable True)
  | .scalable _ _ => inferInstanceAs (Decidable (_ = true))

theorem threads_remove (hNodup : w.threads.Nodup) (hFound : Found s t w) :
    (priqWaitRemove b s t w).threads = w.threads.erase t := by
  cases w with
  | dumb list => rfl
  | scalable rb next =>
    have hReach : reach (zPriqRbLessthan s) t rb.tree = true := hFound
    show inorder (rbRemove b (zPriqRbLessthan s) t rb).tree = _
    rw [rbRemove, if_pos hReach, b.inorder_remove]
    exact inorder_removeAt hNodup hReach

theorem Linked.unpend (hLink : Linked s) (b : Balance) (ht : s.pendedOn t = some q)
    (hFound : Found s t (s.waitq q)) : Linked (unpendThreadNoTimeout b s t q) :=
  hLink.remove ht rfl rfl (threads_remove (hLink.nodup q) hFound)

/-- What a pend does, for both kinds of queue. -/
theorem addToWaitqLocked_cases (b : Balance) (s : Sched) (t q : Nat) :
    (addToWaitqLocked b s t q).prio = s.prio ∧
      (addToWaitqLocked b s t q).pendedOn = set s.pendedOn t (some q) ∧
      ∃ w, (addToWaitqLocked b s t q).waitq = set s.waitq q w ∧
        w.threads.Perm (t :: (s.waitq q).threads) := by
  have hMarked : (s.marked t q).waitq q = s.waitq q := rfl
  rw [addToWaitqLocked, priqWaitAdd, hMarked]
  cases s.waitq q with
  | dumb list => exact ⟨rfl, rfl, _, rfl, List.perm_orderedInsert _ t list⟩
  | scalable rb next =>
    refine ⟨rfl, rfl, _, rfl, ?_⟩
    show (inorder (rbInsert b _ t rb).tree).Perm _
    rw [rbInsert, b.inorder_insert]
    exact inorder_insertLeaf_perm t rb.tree

theorem Linked.pend (hLink : Linked s) (b : Balance) (q : Nat) (hFree : s.pendedOn t = none) :
    Linked (addToWaitqLocked b s t q) := by
  obtain ⟨-, hPended, w, hWaitq, hPerm⟩ := addToWaitqLocked_cases b s t q
  exact hLink.add hFree hWaitq hPended hPerm

theorem priqWaitBest_eq (w : WaitQ) : priqWaitBest w = w.threads.head? := by
  cases w with
  | dumb list => rfl
  | scalable rb next => exact least_eq rb.tree

/-! ## One queue -/

theorem zSchedPrioCmp_pos : 0 < zSchedPrioCmp s t u ↔ s.prio t < s.prio u := by
  rw [zSchedPrioCmp]
  split <;> omega

theorem zSchedPrioCmp_neg : zSchedPrioCmp s t u < 0 ↔ s.prio u < s.prio t := by
  rw [zSchedPrioCmp]
  split <;> omega

theorem zPriqRbLessthan_iff : zPriqRbLessthan s t u = true ↔ Less s t u := by
  have hPos := zSchedPrioCmp_pos (s := s) (t := t) (u := u)
  have hNeg := zSchedPrioCmp_neg (s := s) (t := t) (u := u)
  rw [zPriqRbLessthan, Less]
  split
  · simp only [true_iff]
    omega
  · split
    · simp only [Bool.false_eq_true, false_iff]
      omega
    · rw [decide_eq_true_iff]
      omega

/-- Whether a thread is found depends on the priorities in its queue only. -/
theorem found_congr (ht : t ∈ w.threads) (hPrio : ∀ u ∈ w.threads, s'.prio u = s.prio u)
    (hKey : s'.orderKey = s.orderKey) : Found s' t w ↔ Found s t w := by
  cases w with
  | dumb list => exact .rfl
  | scalable rb next =>
    have hSame : ∀ u ∈ inorder rb.tree, zPriqRbLessthan s' t u = zPriqRbLessthan s t u := by
      intro u hu
      rw [Bool.eq_iff_iff, zPriqRbLessthan_iff, zPriqRbLessthan_iff, Less, Less, hPrio t ht,
        hPrio u hu, hKey]
    show reach _ t rb.tree = true ↔ _
    rw [reach_congr hSame]
    exact .rfl

theorem Less.trans {v : Nat} (htu : Less s t u) (huv : Less s u v) : Less s t v := by
  unfold Less at *
  omega

theorem Less.asymm (htu : Less s t u) : ¬ Less s u t := by
  unfold Less at *
  omega

theorem Less.total (hNe : s.orderKey t ≠ s.orderKey u) : Less s t u ∨ Less s u t := by
  unfold Less
  omega

theorem WaitQ.Precedes.le (hPrec : w.Precedes s t u) : s.prio t ≤ s.prio u := by
  cases w with
  | dumb list => exact hPrec
  | scalable rb next => rcases hPrec with hLt | ⟨hEq, -⟩ <;> omega

/-- The keys of a tree: different ones, below the next key or the largest of all. -/
structure Keys (key : Nat → Nat) (l : List Nat) (next : Nat) : Prop where
  next_lt : next < 2 ^ 32
  inj : ∀ t ∈ l, ∀ u ∈ l, key t = key u → t = u
  below : ∀ t ∈ l, key t < next ∨ key t = 2 ^ 32 - 1

def WaitQ.Numbered (key : Nat → Nat) : WaitQ → Prop
  | .dumb _ => True
  | .scalable rb next => Keys key (inorder rb.tree) next

structure Ordered (s : Sched) (w : WaitQ) : Prop where
  nodup : w.threads.Nodup
  stamped : ∀ t ∈ w.threads, s.stamp t < s.clock
  inPlace : w.threads.Pairwise (InPlace s w)
  numbered : w.Numbered s.orderKey

/-- The thread has in both states what queues look at. -/
structure Same (s s' : Sched) (t : Nat) : Prop where
  prio : s'.prio t = s.prio t
  orderKey : s'.orderKey t = s.orderKey t
  pendPrio : s'.pendPrio t = s.pendPrio t
  stamp : s'.stamp t = s.stamp t

theorem Fifo.same (ht : Same s s' t) (hu : Same s s' u) (hFifo : Fifo s t u) : Fifo s' t u := by
  unfold Fifo
  rwa [ht.prio, hu.prio, ht.pendPrio, hu.pendPrio, ht.stamp, hu.stamp]

theorem InPlace.same (ht : Same s s' t) (hu : Same s s' u) (hPlace : InPlace s w t u) :
    InPlace s' w t u := by
  refine ⟨?_, hPlace.2.same ht hu⟩
  have hPrec := hPlace.1
  cases w with
  | dumb list => exact (ht.prio ▸ hu.prio ▸ hPrec : s'.prio t ≤ s'.prio u)
  | scalable rb next =>
    show Less s' t u
    unfold Less
    rw [ht.prio, hu.prio, ht.orderKey, hu.orderKey]
    exact hPrec

theorem Ordered.frame (hw : Ordered s w) (hSame : ∀ t ∈ w.threads, Same s s' t)
    (hClock : s.clock ≤ s'.clock) :
    Ordered s' w where
  nodup := hw.nodup
  stamped := by
    intro t ht
    rw [(hSame t ht).stamp]
    exact Nat.lt_of_lt_of_le (hw.stamped t ht) hClock
  inPlace := by
    refine hw.inPlace.imp_of_mem ?_
    intro t u ht hu hPlace
    exact hPlace.same (hSame t ht) (hSame u hu)
  numbered := by
    have hNum := hw.numbered
    cases w with
    | dumb list => trivial
    | scalable rb next =>
      refine ⟨hNum.next_lt, ?_, ?_⟩
      · intro t ht u hu
        rw [(hSame t ht).orderKey, (hSame u hu).orderKey]
        exact hNum.inj t ht u hu
      · intro t ht
        rw [(hSame t ht).orderKey]
        exact hNum.below t ht

/-- In a tree with different keys, the search finds all threads exactly if the tree is in order. -/
theorem reach_iff_less {rb : Rb} (hKeys : Keys s.orderKey (inorder rb.tree) next)
    (hNodup : (inorder rb.tree).Nodup) :
    (∀ t ∈ inorder rb.tree, reach (zPriqRbLessthan s) t rb.tree = true) ↔
      (inorder rb.tree).Pairwise (Less s) := by
  rw [reach_all_iff hNodup]
  · simp only [zPriqRbLessthan_iff]
  · intro t _ u _ v _
    simp only [zPriqRbLessthan_iff]
    exact Less.trans
  · intro t _ u _ htu
    rw [Bool.eq_false_iff, ne_eq, zPriqRbLessthan_iff]
    exact (zPriqRbLessthan_iff.mp htu).asymm
  · intro t ht u hu hNe
    simp only [zPriqRbLessthan_iff]
    exact Less.total fun hEq => hNe (hKeys.inj t ht u hu hEq)

theorem Ordered.found (hw : Ordered s w) (ht : t ∈ w.threads) : Found s t w := by
  cases w with
  | dumb list => trivial
  | scalable rb next =>
    have hLess : (inorder rb.tree).Pairwise (Less s) := hw.inPlace.imp fun hPlace => hPlace.1
    exact (reach_iff_less hw.numbered hw.nodup).mpr hLess t ht

theorem Ordered.remove (hw : Ordered s w) (b : Balance) (ht : t ∈ w.threads) :
    Ordered s (priqWaitRemove b s t w) := by
  have hThreads := threads_remove (b := b) hw.nodup (hw.found ht)
  have hSub := List.erase_sublist (a := t) (l := w.threads)
  refine
    { nodup := hThreads ▸ hw.nodup.sublist hSub
      stamped := ?_
      inPlace := ?_
      numbered := ?_ }
  · rw [hThreads]
    exact fun u hu => hw.stamped u (hSub.subset hu)
  · rw [hThreads]
    have hPlace := hw.inPlace.sublist hSub
    cases w with
    | dumb list => exact hPlace
    | scalable rb next => exact hPlace
  · have hNum := hw.numbered
    cases w with
    | dumb list => trivial
    | scalable rb next =>
      have hSubset : ∀ u ∈ inorder (rbRemove b (zPriqRbLessthan s) t rb).tree,
          u ∈ inorder rb.tree := by
        intro u hu
        exact hSub.subset (hThreads ▸ hu)
      show Keys s.orderKey (inorder (rbRemove b (zPriqRbLessthan s) t rb).tree) _
      split
      · rename_i hNil
        rw [hNil]
        exact ⟨by decide, by simp [inorder], by simp [inorder]⟩
      · exact ⟨hNum.next_lt, fun u hu v hv => hNum.inj u (hSubset u hu) v (hSubset v hv),
          fun u hu => hNum.below u (hSubset u hu)⟩

/-! ## Additions -/

theorem renumber_frame (l : List Nat) :
    ∀ (key : Nat → Nat) (next : Nat), ∀ t ∉ l, (renumber key l next).1 t = key t := by
  induction l with
  | nil =>
    intro key next t _
    rfl
  | cons u l ih =>
    intro key next t ht
    rw [List.mem_cons, not_or] at ht
    rw [renumber, ih _ _ t ht.2, set_ne _ _ ht.1]

/-- The threads get consecutive keys in the order of the tree. -/
theorem renumber_keys (l : List Nat) :
    ∀ (key : Nat → Nat) (next : Nat), l.Nodup → next + l.length < 2 ^ 32 →
      (renumber key l next).2 = next + l.length ∧
      (∀ t ∈ l, next ≤ (renumber key l next).1 t ∧
        (renumber key l next).1 t < next + l.length) ∧
      l.Pairwise fun t u => (renumber key l next).1 t < (renumber key l next).1 u := by
  induction l with
  | nil =>
    intro key next _ _
    exact ⟨rfl, by simp, .nil⟩
  | cons u l ih =>
    intro key next hNodup hLen
    rw [List.nodup_cons] at hNodup
    rw [List.length_cons] at hLen ⊢
    have hNext : (next + 1) % 2 ^ 32 = next + 1 := Nat.mod_eq_of_lt (by omega)
    rw [renumber, hNext]
    obtain ⟨hLast, hRange, hSorted⟩ := ih (set key u next) (next + 1) hNodup.2 (by omega)
    have hHead : (renumber (set key u next) l (next + 1)).1 u = next := by
      rw [renumber_frame l _ _ u hNodup.1, set_same]
    refine ⟨by omega, ?_, List.pairwise_cons.mpr ⟨?_, hSorted⟩⟩
    · intro t ht
      rcases List.mem_cons.mp ht with rfl | ht
      · omega
      · have hIn := hRange t ht
        omega
    · intro t ht
      have hIn := hRange t ht
      omega

/-- The keys after an addition. -/
structure Assigned (key : Nat → Nat) (l : List Nat) (next t : Nat) (key' : Nat → Nat)
    (next' : Nat) : Prop where
  frame : ∀ u ∉ l, u ≠ t → key' u = key u
  keys : Keys key' (t :: l) next'
  order : l.Pairwise fun u v => key u < key v → key' u < key' v
  before : ∀ u ∈ l, key' u < key' t ↔ (next + 1) % 2 ^ 32 = 0 ∨ key u < next

/-- Keys stay different when the new one differs from all of them. -/
theorem inj_cons (hNew : ∀ u ∈ l, key u ≠ key t) (hOld : ∀ u ∈ l, ∀ v ∈ l, key u = key v → u = v) :
    ∀ u ∈ t :: l, ∀ v ∈ t :: l, key u = key v → u = v := by
  intro u hu v hv hEq
  rw [List.mem_cons] at hu hv
  rcases hu with rfl | hu
  · rcases hv with rfl | hv
    · rfl
    · exact absurd hEq.symm (hNew v hv)
  · rcases hv with rfl | hv
    · exact absurd hEq (hNew u hu)
    · exact hOld u hu v hv hEq

theorem assigned_next (hKeys : Keys key l next) (hNew : t ∉ l) (hNext : next + 1 < 2 ^ 32) :
    Assigned key l next t (set key t next) (next + 1) := by
  have hSelf : set key t next t = next := set_same ..
  have hOld : ∀ u ∈ l, set key t next u = key u := by
    intro u hu
    exact set_ne _ _ fun hEq => hNew (hEq ▸ hu)
  refine ⟨fun u _ hNe => set_ne _ _ hNe, ⟨hNext, inj_cons ?_ ?_, ?_⟩, ?_, ?_⟩
  · intro u hu
    have hIn := hKeys.below u hu
    rw [hOld u hu, hSelf]
    omega
  · intro u hu v hv
    rw [hOld u hu, hOld v hv]
    exact hKeys.inj u hu v hv
  · intro u hu
    rcases List.mem_cons.mp hu with rfl | hu
    · omega
    · have hIn := hKeys.below u hu
      rw [hOld u hu]
      omega
  · refine List.pairwise_of_forall_mem_list ?_
    intro u hu v hv hLt
    rwa [hOld u hu, hOld v hv]
  · intro u hu
    rw [hOld u hu, hSelf]
    omega

/-- At the wraparound the new thread has the largest key there is. -/
theorem assigned_wrap (hWrap : next = 2 ^ 32 - 1) (hNodup : l.Nodup) (hNew : t ∉ l)
    (hLen : l.length < 2 ^ 32) :
    Assigned key l next t (renumber (set key t next) l 0).1
      (renumber (set key t next) l 0).2 := by
  obtain ⟨hLast, hRange, hSorted⟩ := renumber_keys l (set key t next) 0 hNodup (by omega)
  have hFrame := renumber_frame l (set key t next) 0
  have hSelf : (renumber (set key t next) l 0).1 t = 2 ^ 32 - 1 := by
    rw [hFrame t hNew, set_same, hWrap]
  refine ⟨?_, ⟨by omega, inj_cons ?_ ?_, ?_⟩, ?_, ?_⟩
  · intro u hu hNe
    rw [hFrame u hu, set_ne _ _ hNe]
  · intro u hu
    have hIn := hRange u hu
    omega
  · intro u hu v hv hEq
    by_contra hNe
    have hDiffer := pairwise_cases hSorted hu hv hNe
    omega
  · intro u hu
    rcases List.mem_cons.mp hu with rfl | hu
    · exact .inr hSelf
    · have hIn := hRange u hu
      omega
  · refine hSorted.imp ?_
    intro u v hLt _
    exact hLt
  · intro u hu
    have hIn := hRange u hu
    omega

theorem assignKey_assigned (hKeys : Keys key l next) (hNodup : l.Nodup) (hNew : t ∉ l)
    (hLen : l.length < 2 ^ 32) :
    Assigned key l next t (assignKey key l next t).1 (assignKey key l next t).2 := by
  have hNext := hKeys.next_lt
  rw [assignKey]
  split
  · rename_i hWrap
    rw [hWrap]
    exact assigned_wrap (by omega) hNodup hNew hLen
  · rename_i hWrap
    have hSucc : (next + 1) % 2 ^ 32 = next + 1 := Nat.mod_eq_of_lt (by omega)
    rw [hSucc]
    exact assigned_next hKeys hNew (by omega)

/-- A thread that has just been marked, and is not in the queue yet. -/
structure Arriving (s : Sched) (w : WaitQ) (t : Nat) : Prop where
  new : t ∉ w.threads
  last : ∀ u ∈ w.threads, s.stamp u < s.stamp t
  stamped : s.stamp t < s.clock
  pendPrio : s.pendPrio t = s.prio t

theorem Ordered.dumbAdd {list : List Nat} (hw : Ordered s (.dumb list))
    (ht : Arriving s (.dumb list) t) :
    Ordered s (.dumb (zPriqDumbAdd s list t)) where
  nodup := (List.perm_orderedInsert _ t list).nodup_iff.mpr (List.nodup_cons.mpr ⟨ht.new, hw.nodup⟩)
  stamped := by
    intro u hu
    rcases (List.mem_orderedInsert _).mp hu with rfl | hu
    · exact ht.stamped
    · exact hw.stamped u hu
  inPlace := by
    refine pairwise_orderedInsert hw.inPlace ?_ ?_ ?_
    · refine hw.inPlace.imp ?_
      intro u v hPlace hLt
      have hLe := hPlace.1.le
      rw [zSchedPrioCmp_pos] at hLt ⊢
      omega
    · intro u hu hNot
      rw [zSchedPrioCmp_pos, not_lt] at hNot
      exact ⟨hNot, fun _ _ => ht.last u hu⟩
    · intro u hu hLt
      rw [zSchedPrioCmp_pos] at hLt
      exact ⟨hLt.le, fun hEq => absurd hEq hLt.ne⟩
  numbered := trivial

section Scalable

variable {b : Balance} {s : Sched} {rb : Rb} {next t : Nat}

/-- The queue after `z_priq_rb_add`. -/
def added (b : Balance) (s : Sched) (rb : Rb) (next t : Nat) : WaitQ :=
  .scalable (rbInsert b (zPriqRbLessthan (s.keyed rb next t)) t rb)
    (assignKey s.orderKey (inorder rb.tree) next t).2

variable (hw : Ordered s (.scalable rb next)) (ht : Arriving s (.scalable rb next) t)
  (hLen : (inorder rb.tree).length < 2 ^ 32)

include hw ht hLen

theorem keyed_assigned :
    Assigned s.orderKey (inorder rb.tree) next t
    (s.keyed rb next t).orderKey (assignKey s.orderKey (inorder rb.tree) next t).2 :=
  assignKey_assigned hw.numbered hw.nodup ht.new hLen

/-- The new keys keep the order of the threads that were there. -/
theorem keyed_less : (inorder rb.tree).Pairwise (Less (s.keyed rb next t)) := by
  refine (hw.inPlace.and (keyed_assigned hw ht hLen).order).imp ?_
  rintro u v ⟨⟨hLess, -⟩, hOrder⟩
  rcases hLess with hLt | ⟨hEq, hLt⟩
  · exact .inl hLt
  · exact .inr ⟨hEq, hOrder hLt⟩

/-- A thread before one of them is before those that follow it. -/
theorem keyed_mono : (inorder rb.tree).Pairwise fun u v =>
    zPriqRbLessthan (s.keyed rb next t) t u = true →
      zPriqRbLessthan (s.keyed rb next t) t v = true := by
  refine (keyed_less hw ht hLen).imp fun huv => ?_
  rw [zPriqRbLessthan_iff, zPriqRbLessthan_iff]
  exact fun htu => htu.trans huv

theorem threads_added :
    (added b s rb next t).threads =
    (inorder rb.tree).orderedInsert (fun u v => zPriqRbLessthan (s.keyed rb next t) u v = true)
      t := by
  show inorder (rbInsert b _ t rb).tree = _
  rw [rbInsert, b.inorder_insert]
  exact inorder_insertLeaf (keyed_mono hw ht hLen)

theorem mem_added_iff : u ∈ (added b s rb next t).threads ↔ u = t ∨ u ∈ inorder rb.tree := by
  rw [threads_added hw ht hLen, List.mem_orderedInsert]

theorem added_less : (added b s rb next t).threads.Pairwise (Less (s.keyed rb next t)) := by
  have hAssigned := keyed_assigned hw ht hLen
  rw [threads_added hw ht hLen]
  refine pairwise_orderedInsert (keyed_less hw ht hLen) (keyed_mono hw ht hLen) ?_ ?_
  · intro u hu hNot
    rw [zPriqRbLessthan_iff] at hNot
    have hNe : t ≠ u := fun hEq => ht.new (hEq ▸ hu)
    have hKeyNe := fun hEq => hNe (hAssigned.keys.inj t List.mem_cons_self u
      (List.mem_cons_of_mem t hu) hEq)
    exact (Less.total hKeyNe).resolve_left hNot
  · intro u _ htu
    exact zPriqRbLessthan_iff.mp htu

/-- Nobody is overtaken exactly if the keys of the threads of this priority are below the new
one. -/
theorem added_fifo_iff :
    (added b s rb next t).threads.Pairwise (Fifo s) ↔
    ∀ u ∈ inorder rb.tree, s.prio u = s.prio t → s.pendPrio u = s.prio t →
      (next + 1) % 2 ^ 32 = 0 ∨ s.orderKey u < next := by
  have hAssigned := keyed_assigned hw ht hLen
  constructor
  · intro hFifo u hu hPrio hPend
    rw [← hAssigned.before u hu]
    have hNe : u ≠ t := fun hEq => ht.new (hEq ▸ hu)
    -- the two threads stand in the order of their keys, and that is the order of their stamps
    have hOrder := pairwise_cases ((added_less hw ht hLen).and hFifo)
      ((mem_added_iff hw ht hLen).mpr (.inr hu)) ((mem_added_iff hw ht hLen).mpr (.inl rfl)) hNe
    have hLast := ht.last u hu
    rcases hOrder with ⟨hLess, -⟩ | ⟨-, hStamp⟩
    · rcases hLess with hLt | ⟨-, hLt⟩
      · exact absurd hPrio (ne_of_lt hLt)
      · exact hLt
    · have hBefore := hStamp hPrio.symm (ht.pendPrio.trans hPend.symm)
      omega
  · intro hArrival
    have hOld : (inorder rb.tree).Pairwise (Fifo s) := hw.inPlace.imp fun hPlace => hPlace.2
    rw [threads_added hw ht hLen]
    refine pairwise_orderedInsert hOld (keyed_mono hw ht hLen)
      (fun u hu _ _ _ => ht.last u hu) fun u hu htu hPrio hPend => ?_
    rw [zPriqRbLessthan_iff] at htu
    have hLt := (hAssigned.before u hu).mpr
      (hArrival u hu hPrio.symm (hPend.symm.trans ht.pendPrio))
    rcases htu with hLt' | ⟨-, hLt'⟩
    · exact absurd hPrio (ne_of_lt hLt')
    · omega

theorem Ordered.scalableAdd (hFifo : (added b s rb next t).threads.Pairwise (Fifo s)) :
    Ordered (s.keyed rb next t) (added b s rb next t) where
  nodup := by
    rw [threads_added hw ht hLen]
    exact (List.perm_orderedInsert _ t _).nodup_iff.mpr (List.nodup_cons.mpr ⟨ht.new, hw.nodup⟩)
  stamped := by
    intro u hu
    rcases (mem_added_iff hw ht hLen).mp hu with rfl | hu
    · exact ht.stamped
    · exact hw.stamped u hu
  inPlace := ((added_less hw ht hLen).and hFifo).imp fun h => h
  numbered := by
    have hKeys := (keyed_assigned hw ht hLen).keys
    have hMem : ∀ u ∈ (added b s rb next t).threads, u ∈ t :: inorder rb.tree := fun u hu =>
      List.mem_cons.mpr ((mem_added_iff hw ht hLen).mp hu)
    exact ⟨hKeys.next_lt, fun u hu v hv => hKeys.inj u (hMem u hu) v (hMem v hv),
      fun u hu => hKeys.below u (hMem u hu)⟩

end Scalable

/-! ## All queues -/

structure Inv (s : Sched) : Prop where
  linked : Linked s
  ordered : ∀ q, Ordered s (s.waitq q)

theorem Inv.law (hInv : Inv s) (b : Balance) :
    Law b s where
  sorted q := (hInv.ordered q).inPlace.imp fun hPlace => hPlace.1.le
  fifo q := (hInv.ordered q).inPlace.imp fun hPlace => hPlace.2
  highest := by
    intro q u hu
    have hSorted := (hInv.ordered q).inPlace
    have hMem := (hInv.linked.mem_iff q u).mpr hu
    have hBest := priqWaitBest_eq (s.waitq q)
    cases hThreads : (s.waitq q).threads with
    | nil => simp [hThreads] at hMem
    | cons t l =>
      rw [hThreads] at hSorted hMem hBest
      refine ⟨t, hBest, (hInv.linked.mem_iff q t).mp (by simp [hThreads]), ?_⟩
      rcases List.mem_cons.mp hMem with rfl | hMem
      · exact le_refl _
      · exact ((List.pairwise_cons.mp hSorted).1 u hMem).1.le
  removed := by
    intro q t ht
    have hMem := (hInv.linked.mem_iff q t).mpr ht
    refine ⟨hMem, ?_⟩
    rw [threads_remove (hInv.linked.nodup q) ((hInv.ordered q).found hMem)]
    exact (hInv.linked.nodup q).not_mem_erase

theorem Inv.unpend (hInv : Inv s) (b : Balance) (ht : s.pendedOn t = some q) :
    Inv (unpendThreadNoTimeout b s t q) := by
  have hMem := (hInv.linked.mem_iff q t).mpr ht
  have hSame : ∀ u, Same s (unpendThreadNoTimeout b s t q) u := fun u => ⟨rfl, rfl, rfl, rfl⟩
  refine ⟨hInv.linked.unpend b ht ((hInv.ordered q).found hMem), ?_⟩
  intro q'
  show Ordered _ (set s.waitq q _ q')
  refine set_elim (fun _ => ?_) fun _ => ?_
  · exact ((hInv.ordered q).remove b hMem).frame (fun u _ => hSame u) (Nat.le_refl _)
  · exact (hInv.ordered q').frame (fun u _ => hSame u) (Nat.le_refl _)

/-- An addition, in terms of the new queue. -/
theorem Inv.add (hInv : Inv s) (hFree : s.pendedOn t = none) (hLinked : Linked s')
    (hWaitq : s'.waitq = set s.waitq q w) (hOrdered : Ordered s' w)
    (hSame : ∀ u, u ≠ t → u ∉ (s.waitq q).threads → Same s s' u) (hClock : s.clock ≤ s'.clock) :
    Inv s' := by
  refine ⟨hLinked, ?_⟩
  intro q'
  rw [hWaitq]
  refine set_elim (fun _ => hOrdered) fun hq => ?_
  refine (hInv.ordered q').frame ?_ hClock
  intro u hu
  exact hSame u (fun hEq => hInv.linked.free hFree q' (hEq ▸ hu))
    fun hu' => hq (hInv.linked.apart hu hu')

theorem marked_same (hNe : u ≠ t) : Same s (s.marked t q) u :=
  ⟨rfl, rfl, set_ne _ _ hNe, set_ne _ _ hNe⟩

theorem Inv.marked_ordered (hInv : Inv s) (hFree : s.pendedOn t = none) :
    Ordered (s.marked t q) (s.waitq q) ∧ Arriving (s.marked t q) (s.waitq q) t := by
  have hNew := hInv.linked.free hFree q
  have hNe : ∀ u ∈ (s.waitq q).threads, u ≠ t := fun u hu hEq => hNew (hEq ▸ hu)
  have hStamp : (s.marked t q).stamp t = s.clock := set_same ..
  refine ⟨(hInv.ordered q).frame (fun u hu => marked_same (hNe u hu)) (Nat.le_succ _), hNew, ?_,
    ?_, set_same ..⟩
  · intro u hu
    rw [hStamp, (marked_same (hNe u hu)).stamp]
    exact (hInv.ordered q).stamped u hu
  · rw [hStamp]
    exact Nat.lt_succ_self _

theorem Inv.pendDumb (hInv : Inv s) (b : Balance) {list : List Nat} (hq : s.waitq q = .dumb list)
    (hFree : s.pendedOn t = none) : Inv (addToWaitqLocked b s t q) := by
  obtain ⟨hOrdered, hArriving⟩ := hInv.marked_ordered (q := q) hFree
  rw [hq] at hOrdered hArriving
  have hEq : addToWaitqLocked b s t q =
      { s.marked t q with
        waitq := set s.waitq q (.dumb (zPriqDumbAdd (s.marked t q) list t)) } := by
    simp only [addToWaitqLocked, priqWaitAdd]
    rw [show (s.marked t q).waitq q = .dumb list from hq]
    rfl
  have hLinked := hInv.linked.pend b q hFree
  rw [hEq] at hLinked ⊢
  refine hInv.add hFree hLinked rfl ?_ (fun u hNe _ => ?_) (Nat.le_succ _)
  · exact (hOrdered.dumbAdd hArriving).frame (fun u _ => ⟨rfl, rfl, rfl, rfl⟩) (Nat.le_refl _)
  · exact ⟨rfl, rfl, set_ne _ _ hNe, set_ne _ _ hNe⟩

section PendScalable

variable {b : Balance} {s : Sched} {t q : Nat} {rb : Rb} {next : Nat}

theorem addToWaitqLocked_scalable (hq : s.waitq q = .scalable rb next) :
    addToWaitqLocked b s t q =
      { (s.marked t q).keyed rb next t with
        waitq := set s.waitq q (added b (s.marked t q) rb next t) } := by
  simp only [addToWaitqLocked, priqWaitAdd]
  rw [show (s.marked t q).waitq q = .scalable rb next from hq]
  rfl

/-- What the new thread finds, in the state before the step. -/
theorem keepsArrival_iff (hq : s.waitq q = .scalable rb next) (hNew : t ∉ inorder rb.tree) :
    KeepsArrival s t q ↔ ∀ u ∈ inorder rb.tree, (s.marked t q).prio u = (s.marked t q).prio t →
      (s.marked t q).pendPrio u = (s.marked t q).prio t →
      (next + 1) % 2 ^ 32 = 0 ∨ (s.marked t q).orderKey u < next := by
  have hPend : ∀ u ∈ inorder rb.tree, (s.marked t q).pendPrio u = s.pendPrio u := by
    intro u hu
    exact set_ne _ _ fun hEq => hNew (hEq ▸ hu)
  rw [KeepsArrival, hq]
  by_cases hWrap : (next + 1) % 2 ^ 32 = 0
  · simp only [hWrap, true_or, implies_true]
  · simp only [hWrap, false_or]
    refine forall₂_congr fun u hu => ?_
    rw [hPend u hu]
    rfl

theorem Inv.pendScalable_iff (hInv : Inv s) (hq : s.waitq q = .scalable rb next)
    (hFree : s.pendedOn t = none) (hLen : (inorder rb.tree).length < 2 ^ 32) :
    (KeepsArrival s t q → Inv (addToWaitqLocked b s t q)) ∧
      (Law b (addToWaitqLocked b s t q) → KeepsArrival s t q) := by
  obtain ⟨hOrdered, hArriving⟩ := hInv.marked_ordered (q := q) hFree
  have hLinked := hInv.linked.pend b q hFree
  rw [hq] at hOrdered hArriving
  rw [addToWaitqLocked_scalable hq] at hLinked
  rw [addToWaitqLocked_scalable hq, keepsArrival_iff hq hArriving.new,
    ← added_fifo_iff (b := b) hOrdered hArriving hLen]
  constructor
  · intro hFifo
    have hAssigned := keyed_assigned hOrdered hArriving hLen
    refine hInv.add hFree hLinked rfl ?_ ?_ (Nat.le_succ _)
    · exact (Ordered.scalableAdd hOrdered hArriving hLen hFifo).frame
        (fun u _ => ⟨rfl, rfl, rfl, rfl⟩) (Nat.le_refl _)
    · intro u hNe hu
      rw [hq] at hu
      exact ⟨rfl, hAssigned.frame u hu hNe, set_ne _ _ hNe, set_ne _ _ hNe⟩
  · intro hLaw
    have hFifo : (set s.waitq q (added b (s.marked t q) rb next t) q).threads.Pairwise
        (Fifo (s.marked t q)) := hLaw.fifo q
    rwa [set_same] at hFifo

end PendScalable

/-! ## Changes of priority -/

theorem prioSet_same (hNe : u ≠ t) :
    Same s (zThreadPrioSet s t prio) u := ⟨set_ne _ _ hNe, rfl, rfl, rfl⟩

theorem Inv.prioSet (hInv : Inv s) (hKeeps : KeepsPlace s t prio) :
    Inv (zThreadPrioSet s t prio) := by
  refine ⟨⟨hInv.linked.nodup, hInv.linked.mem_iff⟩, ?_⟩
  intro q
  have hOld := hInv.ordered q
  by_cases ht : t ∈ (s.waitq q).threads
  · rw [KeepsPlace, (hInv.linked.mem_iff q t).mp ht] at hKeeps
    refine ⟨hOld.nodup, hOld.stamped, ?_, ?_⟩
    · refine (hOld.inPlace.and hKeeps).imp ?_
      rintro u v ⟨hPlace, hNew⟩
      by_cases hAt : u = t ∨ v = t
      · exact hNew hAt
      · rw [not_or] at hAt
        exact hPlace.same (prioSet_same hAt.1) (prioSet_same hAt.2)
    · exact hOld.numbered
  · refine hOld.frame ?_ (Nat.le_refl _)
    exact fun u hu => prioSet_same fun hEq => ht (hEq ▸ hu)

/-- A law-abiding state has each queue in the order that its operations rely on. -/
theorem Law.inPlace (hLaw : Law b s) (hMem : ∀ t ∈ (s.waitq q).threads, s.pendedOn t = some q)
    (hNodup : (s.waitq q).threads.Nodup) (hNum : (s.waitq q).Numbered s.orderKey) :
    (s.waitq q).threads.Pairwise (InPlace s (s.waitq q)) := by
  have hSorted := hLaw.sorted q
  have hFifo := hLaw.fifo q
  have hRemoved := hLaw.removed q
  cases hq : s.waitq q with
  | dumb list =>
    rw [hq] at hSorted hFifo
    exact (hSorted.and hFifo).imp fun h => h
  | scalable rb next =>
    rw [hq] at hFifo hMem hNodup hNum hRemoved
    have hReach : ∀ t ∈ inorder rb.tree, reach (zPriqRbLessthan s) t rb.tree = true := by
      intro t ht
      by_contra hNot
      refine (hRemoved t (hMem t ht)).2 ?_
      show t ∈ inorder (rbRemove b (zPriqRbLessthan s) t rb).tree
      rw [rbRemove, if_neg hNot]
      exact ht
    exact (((reach_iff_less hNum hNodup).mp hReach).and hFifo).imp fun h => h

theorem Inv.keepsPlace (hInv : Inv s) (hLaw : Law b (zThreadPrioSet s t prio)) :
    KeepsPlace s t prio := by
  rw [KeepsPlace]
  split
  · trivial
  · rename_i q _
    have hOld := hInv.ordered q
    have hPlace := hLaw.inPlace (q := q) (fun u hu => (hInv.linked.mem_iff q u).mp hu) hOld.nodup
      hOld.numbered
    refine hPlace.imp ?_
    intro u v huv _
    exact huv

/-! ## Runs -/

/-- No thread is pended and every queue is as it is initialised. -/
structure Start (s : Sched) : Prop where
  free : ∀ t, s.pendedOn t = none
  empty : ∀ q, s.waitq q = .dumb [] ∨ ∃ red, s.waitq q = .scalable ⟨.nil, red⟩ 0

theorem Start.inv (hStart : Start s) : Inv s := by
  have hEmpty : ∀ q, (s.waitq q).threads = [] := by
    intro q
    rcases hStart.empty q with hq | ⟨red, hq⟩ <;> rw [hq] <;> rfl
  refine ⟨⟨by simp [hEmpty], by simp [hEmpty, hStart.free]⟩, ?_⟩
  · intro q
    refine ⟨by simp [hEmpty], by simp [hEmpty], by simp [hEmpty], ?_⟩
    rcases hStart.empty q with hq | ⟨red, hq⟩
    · rw [hq]
      trivial
    · rw [hq]
      exact ⟨by decide, by simp [inorder], by simp [inorder]⟩

theorem Inv.wake (hInv : Inv s) (b : Balance) (t : Nat) : Inv (zSchedWakeThread b s t) := by
  rw [zSchedWakeThread]
  split
  · exact hInv
  · rename_i q hq
    exact hInv.unpend b hq

theorem Inv.unpendFirst (hInv : Inv s) (b : Balance) (q : Nat) :
    Inv (zUnpendFirstThread b s q) := by
  rw [zUnpendFirstThread]
  split
  · exact hInv
  · exact hInv.wake b _

theorem Inv.step {op : Op} (hInv : Inv s) (hDom : InDomain s op) (hOrderly : Orderly s op) :
    Inv (step b s op) := by
  cases op with
  | pend t q =>
    cases hq : s.waitq q with
    | dumb list => exact hInv.pendDumb b hq hDom.1
    | scalable rb next =>
      have hLen := hDom.2
      rw [hq] at hLen
      exact (hInv.pendScalable_iff hq hDom.1 hLen).1 hOrderly
  | unpendFirst q => exact hInv.unpendFirst b q
  | wake t => exact hInv.wake b t
  | prioSet t prio => exact hInv.prioSet hOrderly

theorem Inv.orderly {op : Op} (hInv : Inv s) (hDom : InDomain s op)
    (hLaw : Law b (WaitQueue.step b s op)) : Orderly s op := by
  cases op with
  | pend t q =>
    cases hq : s.waitq q with
    | dumb list =>
      show KeepsArrival s t q
      rw [KeepsArrival, hq]
      trivial
    | scalable rb next =>
      have hLen := hDom.2
      rw [hq] at hLen
      exact (hInv.pendScalable_iff hq hDom.1 hLen).2 hLaw
  | unpendFirst q => trivial
  | wake t => trivial
  | prioSet t prio => exact hInv.keepsPlace hLaw

/-- Wait queues are in order all the time exactly if no change of priority moves a pended thread out
of its place, and no thread is added behind one of its priority that was added at a wraparound of
the order keys. -/
theorem wait_queues_ordered_iff (b : Balance) (s : Sched) (hStart : Start s) (ops : List Op)
    (hDom : Admissible (step b) InDomain s ops) :
    Always (step b) (Law b) s ops ↔ Admissible (step b) Orderly s ops := by
  have hLaw : ∀ s, Inv s → Law b s := fun s hInv => hInv.law b
  refine always_iff_within hLaw ?_ ?_ ops s hStart.inv hDom
  · exact fun s op hInv hDom hOrderly => hInv.step hDom hOrderly
  · exact fun s op hInv hDom hLaw => hInv.orderly hDom hLaw

/-- Balancing of trees with up to two nodes, which are left as they are. -/
def twoNodes : Balance where
  insert _ rb := rb
  remove _ rb tree := { rb with tree := tree }
  inorder_insert _ _ := rfl
  inorder_remove _ _ _ := rfl

/-- Queue 0 is a list and queue 1 a tree.  Thread 1 has priority 5 and thread 2 priority 7. -/
def idle : Sched where
  prio t := 3 + 2 * t
  orderKey _ := 0
  pendedOn _ := none
  waitq q := if q = 0 then .dumb [] else .scalable ⟨.nil, fun _ => false⟩ 0
  pendPrio _ := 0
  stamp _ := 0
  clock := 0

theorem idle_start :
    Start idle where
  free _ := rfl
  empty q := by
    by_cases hq : q = 0
    · exact .inl (if_pos hq)
    · exact .inr ⟨fun _ => false, if_neg hq⟩

/-- Two threads pend and the first is raised further; both are then released by a wakeup and by a
timeout. -/
theorem wait_queues_ordered_iff_raise :
    Always (step twoNodes) (Law twoNodes) idle
    [.pend 2 1, .pend 1 1, .pend 3 0, .prioSet 1 4, .prioSet 3 2, .unpendFirst 1, .wake 2] :=
  (wait_queues_ordered_iff twoNodes idle idle_start _ (by decide +kernel)).mpr (by decide +kernel)

/-- Thread 2 is raised above thread 1 while both are pended.  The list still releases thread 1
first; in the tree the timeout of thread 2 does not find it, and it stays there when it is no longer
pended. -/
theorem raised_thread_keeps_place :
    (exec (step twoNodes) idle [.pend 1 0, .pend 2 0, .prioSet 2 3]).pendedOn 2 = some 0 ∧
      (exec (step twoNodes) idle [.pend 1 0, .pend 2 0, .prioSet 2 3]).prio 2 <
        (exec (step twoNodes) idle [.pend 1 0, .pend 2 0, .prioSet 2 3]).prio 1 ∧
      priqWaitBest ((exec (step twoNodes) idle [.pend 1 0, .pend 2 0, .prioSet 2 3]).waitq 0) =
        some 1 ∧
      (exec (step twoNodes) idle [.pend 1 1, .pend 2 1, .prioSet 2 3, .wake 2]).pendedOn 2 = none ∧
      2 ∈ ((exec (step twoNodes) idle
        [.pend 1 1, .pend 2 1, .prioSet 2 3, .wake 2]).waitq 1).threads := by
  decide +kernel

end Zvm.Kernel.WaitQueue
