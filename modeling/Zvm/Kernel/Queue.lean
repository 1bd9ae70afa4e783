import Mathlib.Data.List.Perm.Basic
import Zvm.Verified.FunArray
import Zvm.Verified.Run

/-!
# Queues of items

A queue has a list of items and a wait queue of the threads that want one.  An item that is
inserted goes straight to the first waiting thread, if there is one.  A list of items is handed out
in a loop that takes the next thread out of the wait queue before it looks whether there is another
item.  With more waiting threads than items, the last thread it takes out is neither given an item
nor made ready, and nothing knows it any more (`list_loses_thread`).

A step of the model is what happens under the lock of the queue.  The place of a thread in the wait
queue is arbitrary.
-/

namespace Zvm.Kernel.Queue

open Zvm.Verified.FunArray Zvm.Verified.Run

/-! ## The code -/

/-- An item by its address.  `id` is the number of its insertion and `appended` whether it was put
at the end; no code reads them. -/
structure Item where
  data : Nat
  id : Nat
  appended : Bool
deriving DecidableEq

/-- `blocked` is set for a thread from the time it pends until it is made ready.  `result` is what
the last `k_queue_get` of a thread returned, with `none` for `NULL`.  `given` has the items that
were returned, with the threads, and `inserted` all items ever inserted; no code reads them. -/
structure State where
  dataQ : List Item
  waitq : List Nat
  blocked : Nat → Bool
  result : Nat → Option Nat
  given : List (Nat × Item)
  inserted : List Item

/-- `z_unpend_first_thread`. -/
def zUnpendFirstThread (s : State) : Option Nat × State :=
  match s.waitq with
  | [] => (none, s)
  | t :: rest => (some t, { s with waitq := rest })

/-- A call of `k_queue_get` that ends with an item. -/
def State.give (s : State) (t : Nat) (x : Item) : State :=
  { s with
    result := set s.result t (some x.data)
    given := s.given ++ [(t, x)] }

/-- `prepare_thread_to_run` with an item. -/
def prepareThreadToRun (s : State) (t : Nat) (x : Item) : State :=
  { s.give t x with blocked := set s.blocked t false }

/-- A thread is made ready and its call returns `NULL`. -/
def State.release (s : State) (t : Nat) : State :=
  { s with
    blocked := set s.blocked t false
    result := set s.result t none }

/-- `z_impl_k_queue_cancel_wait`. -/
def kQueueCancelWait (s : State) : State :=
  match zUnpendFirstThread s with
  | (none, s') => s'
  | (some t, s') => s'.release t

/-- The items of a list, numbered on from `n`. -/
def tag (n : Nat) : List Nat → List Item
  | [] => []
  | d :: l => ⟨d, n, true⟩ :: tag (n + 1) l

/-- `queue_insert` with the whole list as position of a prepend.  For the functions that allocate a
node, `alloc` says whether the allocation would succeed. -/
def queueInsert (s : State) (data : Nat) (alloc : Option Bool) (isAppend : Bool) : State :=
  match zUnpendFirstThread s with
  | (some t, s') =>
    prepareThreadToRun
      { s' with inserted := s.inserted ++ [⟨data, s.inserted.length, isAppend⟩] } t
      ⟨data, s.inserted.length, isAppend⟩
  | (none, _) =>
    if alloc = some false then s
    else
      { s with
        dataQ :=
          if isAppend then s.dataQ ++ [⟨data, s.inserted.length, isAppend⟩]
          else ⟨data, s.inserted.length, isAppend⟩ :: s.dataQ
        inserted := s.inserted ++ [⟨data, s.inserted.length, isAppend⟩] }

/-- The loop of `k_queue_append_list`, with the thread taken out of the wait queue, and what
follows it. -/
def appendLoop (s : State) (thread : Option Nat) : List Item → State
  | [] => s
  | x :: l =>
    match thread with
    | none => { s with dataQ := s.dataQ ++ x :: l }
    | some t =>
      appendLoop (zUnpendFirstThread (prepareThreadToRun s t x)).2
        (zUnpendFirstThread (prepareThreadToRun s t x)).1 l

/-- `k_queue_append_list`; an empty list is refused with `-EINVAL`. -/
def kQueueAppendList (s : State) (items : List Nat) : State :=
  if items = [] then s
  else
    appendLoop
      { (zUnpendFirstThread s).2 with inserted := s.inserted ++ tag s.inserted.length items }
      (zUnpendFirstThread s).1 (tag s.inserted.length items)

/-- `z_impl_k_queue_get`, with `K_NO_WAIT` for `none` and a place in the wait queue otherwise. -/
def kQueueGet (s : State) (t : Nat) (wait : Option Nat) : State :=
  match s.dataQ with
  | x :: rest => { s with dataQ := rest }.give t x
  | [] =>
    match wait with
    | none => { s with result := set s.result t none }
    | some i =>
      { s with
        waitq := s.waitq.take i ++ t :: s.waitq.drop i
        blocked := set s.blocked t true }

/-- `z_thread_timeout` for a thread that waits; its call returns `NULL`. -/
def zThreadTimeout (s : State) (t : Nat) : State :=
  if t ∈ s.waitq then { s with waitq := s.waitq.erase t }.release t else s

inductive Op where
  | insert (data : Nat) (alloc : Option Bool) (isAppend : Bool)
  | appendList (items : List Nat)
  | get (t : Nat) (wait : Option Nat)
  | cancelWait
  | timeout (t : Nat)

def step (s : State) : Op → State
  | .insert data alloc isAppend => queueInsert s data alloc isAppend
  | .appendList items => kQueueAppendList s items
  | .get t wait => kQueueGet s t wait
  | .cancelWait => kQueueCancelWait s
  | .timeout t => zThreadTimeout s t

/-- `z_impl_k_queue_init`. -/
def kQueueInit : State where
  dataQ := []
  waitq := []
  blocked _ := false
  result _ := none
  given := []
  inserted := []

/-! ## What a queue is for -/

/-- The items that have come out, in order, and those still to come. -/
def State.out (s : State) : List Item := s.given.map Prod.snd ++ s.dataQ

/-- Every insertion is returned once or still in the queue, what was appended comes out in order,
and a blocked thread is in the wait queue. -/
structure Law (s : State) : Prop where
  once : s.out.Perm s.inserted
  numbered : s.inserted.map Item.id = List.range s.inserted.length
  order : s.out.filter Item.appended = s.inserted.filter Item.appended
  waits : ∀ t, s.blocked t = true → t ∈ s.waitq

/-- An item that is inserted is not in the queue, a list of items is not empty, and a thread that
makes a call is not blocked. -/
def InDomain (s : State) : Op → Prop
  | .insert data _ _ => data ∉ s.dataQ.map Item.data
  | .appendList items => items ≠ [] ∧ items.Nodup ∧ ∀ d ∈ items, d ∉ s.dataQ.map Item.data
  | .get t _ => s.blocked t = false
  | .cancelWait => True
  | .timeout _ => True

/-- A list has at least as many items as threads wait. -/
def Enough (s : State) : Op → Prop
  | .appendList items => s.waitq.length ≤ items.length
  | .insert _ _ _ => True
  | .get _ _ => True
  | .cancelWait => True
  | .timeout _ => True

instance (s : State) : (op : Op) → Decidable (InDomain s op)
  | .insert data _ _ => inferInstanceAs (Decidable (data ∉ s.dataQ.map Item.data))
  | .appendList _ => inferInstanceAs (Decidable (_ ∧ _ ∧ _))
  | .get t _ => inferInstanceAs (Decidable (s.blocked t = false))
  | .cancelWait => inferInstanceAs (Decidable True)
  | .timeout _ => inferInstanceAs (Decidable True)

instance (s : State) : (op : Op) → Decidable (Enough s op)
  | .appendList items => inferInstanceAs (Decidable (s.waitq.length ≤ items.length))
  | .insert _ _ _ => inferInstanceAs (Decidable True)
  | .get _ _ => inferInstanceAs (Decidable True)
  | .cancelWait => inferInstanceAs (Decidable True)
  | .timeout _ => inferInstanceAs (Decidable True)

/-! ## Items -/

/-- The part of the law about items. -/
structure Items (out inserted : List Item) : Prop where
  once : out.Perm inserted
  numbered : inserted.map Item.id = List.range inserted.length
  order : out.filter Item.appended = inserted.filter Item.appended

theorem length_tag (n : Nat) (l : List Nat) : (tag n l).length = l.length := by
  induction l generalizing n with
  | nil => rfl
  | cons d l ih => rw [tag, List.length_cons, List.length_cons, ih]

theorem map_id_tag (n : Nat) (l : List Nat) :
    (tag n l).map Item.id = (List.range l.length).map (n + ·) := by
  induction l generalizing n with
  | nil => rfl
  | cons d l ih =>
    rw [tag, List.map_cons, ih, List.length_cons, List.range_succ_eq_map, List.map_cons,
      List.map_map]
    refine congrArg₂ _ rfl (List.map_congr_left ?_)
    intro i _
    show n + 1 + i = n + (i + 1)
    omega

/-- Items appended to both sides, with the next numbers. -/
theorem Items.append {out inserted : List Item} (h : Items out inserted) {new : List Item}
    (hNew : new.map Item.id = (List.range new.length).map (inserted.length + ·)) :
    Items (out ++ new) (inserted ++ new) where
  once := h.once.append_right new
  numbered := by
    rw [List.map_append, h.numbered, hNew, List.length_append, List.range_add]
  order := by rw [List.filter_append, List.filter_append, h.order]

/-- An item that was not appended, anywhere. -/
theorem Items.insert {front back inserted : List Item} (h : Items (front ++ back) inserted)
    {x : Item} (hId : x.id = inserted.length) (hPrepend : x.appended = false) :
    Items (front ++ x :: back) (inserted ++ [x]) where
  once := by
    refine List.perm_middle.trans ?_
    exact (h.once.cons x).trans (List.perm_append_singleton x inserted).symm
  numbered := by
    rw [List.map_append, h.numbered, List.map_singleton, hId, List.length_append,
      List.length_singleton, List.range_succ]
  order := by
    have hOrder := h.order
    rw [List.filter_append] at hOrder
    rw [List.filter_append, List.filter_cons_of_neg (by simp [hPrepend]), hOrder,
      List.filter_append, List.filter_cons_of_neg (by simp [hPrepend]), List.filter_nil,
      List.append_nil]

/-! ## Threads -/

/-- Which threads are blocked, while the thread `thread` is out of the wait queue and not ready. -/
structure Threads (waitq : List Nat) (blocked : Nat → Bool) (thread : Option Nat) : Prop where
  nodup : waitq.Nodup
  blocked_iff : ∀ t, blocked t = true ↔ t ∈ waitq ∨ thread = some t
  apart : ∀ t, thread = some t → t ∉ waitq

section Threads

variable {waitq : List Nat} {blocked : Nat → Bool}

theorem Threads.out {t : Nat} {rest : List Nat} (h : Threads (t :: rest) blocked none) :
    Threads rest blocked (some t) := by
  have hNodup := List.nodup_cons.mp h.nodup
  refine ⟨hNodup.2, ?_, ?_⟩
  · intro u
    rw [h.blocked_iff, List.mem_cons, Option.some.injEq]
    constructor
    · rintro ((rfl | hu) | hu)
      · exact .inr rfl
      · exact .inl hu
      · cases hu
    · rintro (hu | rfl)
      · exact .inl (.inr hu)
      · exact .inl (.inl rfl)
  · intro u hu
    rw [← Option.some.inj hu]
    exact hNodup.1

/-- The thread that is out of the wait queue is made ready. -/
theorem Threads.ready {t : Nat} (h : Threads waitq blocked (some t)) :
    Threads waitq (set blocked t false) none := by
  have hNot := h.apart t rfl
  refine ⟨h.nodup, ?_, fun u hu => by cases hu⟩
  intro u
  by_cases hu : u = t
  · rw [hu, set_same]
    simp [hNot]
  · rw [set_ne _ _ hu, h.blocked_iff]
    simp [Ne.symm hu]

theorem Threads.pend (h : Threads waitq blocked none) {t : Nat} (hFree : blocked t = false)
    (i : Nat) : Threads (waitq.take i ++ t :: waitq.drop i) (set blocked t true) none := by
  have hNew : t ∉ waitq := by
    intro ht
    rw [(h.blocked_iff t).mpr (.inl ht)] at hFree
    cases hFree
  have hPerm : (waitq.take i ++ t :: waitq.drop i).Perm (t :: waitq) := by
    refine List.perm_middle.trans ?_
    rw [List.take_append_drop]
  refine ⟨hPerm.nodup_iff.mpr (List.nodup_cons.mpr ⟨hNew, h.nodup⟩), ?_, fun u hu => by cases hu⟩
  intro u
  rw [hPerm.mem_iff, List.mem_cons]
  by_cases hu : u = t
  · rw [hu, set_same]
    simp
  · rw [set_ne _ _ hu, h.blocked_iff]
    simp [hu]

theorem Threads.remove (h : Threads waitq blocked none) {t : Nat} (ht : t ∈ waitq) :
    Threads (waitq.erase t) blocked (some t) := by
  refine ⟨h.nodup.erase t, ?_, ?_⟩
  · intro u
    rw [h.blocked_iff, h.nodup.mem_erase_iff, Option.some.injEq]
    by_cases hu : u = t
    · simp [hu, ht]
    · simp [hu, Ne.symm hu]
  · intro u hu
    rw [← Option.some.inj hu]
    exact h.nodup.not_mem_erase

end Threads

/-! ## Steps -/

/-- The state with one thread out of the wait queue. -/
structure Between (s : State) (thread : Option Nat) : Prop where
  items : Items s.out s.inserted
  threads : Threads s.waitq s.blocked thread
  empty : s.waitq ≠ [] ∨ thread ≠ none → s.dataQ = []

theorem Between.law {s : State} (h : Between s none) :
    Law s where
  once := h.items.once
  numbered := h.items.numbered
  order := h.items.order
  waits t ht := ((h.threads.blocked_iff t).mp ht).resolve_right (by simp)

section Steps

variable {s : State}

theorem zUnpendFirstThread_cases (s : State) :
    (s.waitq = [] ∧ zUnpendFirstThread s = (none, s)) ∨
      ∃ t rest, s.waitq = t :: rest ∧ zUnpendFirstThread s = (some t, { s with waitq := rest }) := by
  cases hWaitq : s.waitq with
  | nil => exact .inl ⟨rfl, by rw [zUnpendFirstThread, hWaitq]⟩
  | cons t rest => exact .inr ⟨t, rest, rfl, by rw [zUnpendFirstThread, hWaitq]⟩

/-- The first thread is taken out of the wait queue. -/
theorem Between.unpend (h : Between s none) {t : Nat} {rest : List Nat}
    (hWaitq : s.waitq = t :: rest) : Between { s with waitq := rest } (some t) := by
  have hThreads := h.threads
  rw [hWaitq] at hThreads
  exact ⟨h.items, hThreads.out, fun _ => h.empty (.inl (by simp [hWaitq]))⟩

theorem Between.release {t : Nat} (h : Between s (some t)) :
    Between (s.release t) none where
  items := h.items
  threads := h.threads.ready
  empty _ := h.empty (.inr (by simp))

theorem Between.cancelWait (h : Between s none) : Between (kQueueCancelWait s) none := by
  rw [kQueueCancelWait]
  rcases zUnpendFirstThread_cases s with ⟨-, hEq⟩ | ⟨t, rest, hWaitq, hEq⟩
  · rw [hEq]
    exact h
  · rw [hEq]
    exact (h.unpend hWaitq).release

theorem Between.timeout (h : Between s none) (t : Nat) : Between (zThreadTimeout s t) none := by
  rw [zThreadTimeout]
  split
  · rename_i ht
    have hRemoved : Between { s with waitq := s.waitq.erase t } (some t) :=
      ⟨h.items, h.threads.remove ht, fun _ => h.empty (.inl (List.ne_nil_of_mem ht))⟩
    exact hRemoved.release
  · exact h

theorem Between.get (h : Between s none) {t : Nat} (hFree : s.blocked t = false)
    (wait : Option Nat) : Between (kQueueGet s t wait) none := by
  rw [kQueueGet.eq_def]
  split
  · rename_i x rest hData
    refine ⟨?_, h.threads, ?_⟩
    · have hOut : (s.given ++ [(t, x)]).map Prod.snd ++ rest = s.out := by
        rw [State.out, hData]
        simp
      show Items ((s.given ++ [(t, x)]).map Prod.snd ++ rest) s.inserted
      rw [hOut]
      exact h.items
    · intro hWait
      have hNil := h.empty hWait
      rw [hData] at hNil
      cases hNil
  · rename_i hData
    split
    · exact ⟨h.items, h.threads, h.empty⟩
    · rename_i i
      exact ⟨h.items, h.threads.pend hFree i, fun _ => hData⟩

/-- A new item is given to the thread that is out of the wait queue. -/
theorem Between.prepare {t : Nat} (h : Between s (some t)) {x : Item} {new : List Item}
    (hItems : Items (s.given.map Prod.snd ++ [x]) new) :
    Between (prepareThreadToRun { s with inserted := new } t x) none := by
  have hNil := h.empty (.inr (by simp))
  refine ⟨?_, h.threads.ready, fun _ => hNil⟩
  show Items ((s.given ++ [(t, x)]).map Prod.snd ++ s.dataQ) new
  rw [hNil, List.append_nil, List.map_append]
  exact hItems

theorem Between.insert (h : Between s none) (data : Nat) (alloc : Option Bool) (isAppend : Bool) :
    Between (queueInsert s data alloc isAppend) none := by
  have hItems := h.items
  rw [queueInsert]
  rcases zUnpendFirstThread_cases s with ⟨hWaitq, hEq⟩ | ⟨t, rest, hWaitq, hEq⟩
  · rw [hEq]
    show Between (if alloc = some false then s else _) none
    split
    · exact h
    · refine ⟨?_, h.threads, fun hWait => absurd hWaitq (by simpa using hWait)⟩
      cases isAppend with
      | true =>
        show Items (s.given.map Prod.snd ++ (s.dataQ ++ [_])) _
        rw [← List.append_assoc]
        exact hItems.append rfl
      | false => exact hItems.insert rfl rfl
  · have hNil := h.empty (.inl (by simp [hWaitq]))
    rw [State.out, hNil, List.append_nil] at hItems
    rw [hEq]
    exact (h.unpend hWaitq).prepare (hItems.append rfl)

/-! ## Lists -/

/-- The loop over a list, with the items `l` still to be given out. -/
structure Looping (s : State) (thread : Option Nat) (l : List Item) : Prop where
  items : Items (s.out ++ l) s.inserted
  threads : Threads s.waitq s.blocked thread
  empty : thread ≠ none → s.dataQ = []
  first : thread = none → s.waitq = []

/-- The threads that have not been given an item. -/
def pending (s : State) (thread : Option Nat) : Nat := s.waitq.length + thread.toList.length

/-- The next thread is taken out of the wait queue. -/
theorem Looping.unpend {l : List Item} (hItems : Items (s.out ++ l) s.inserted)
    (hThreads : Threads s.waitq s.blocked none) (hEmpty : s.waitq ≠ [] → s.dataQ = []) :
    Looping (zUnpendFirstThread s).2 (zUnpendFirstThread s).1 l ∧
      pending (zUnpendFirstThread s).2 (zUnpendFirstThread s).1 = s.waitq.length := by
  rcases zUnpendFirstThread_cases s with ⟨hWaitq, hEq⟩ | ⟨t, rest, hWaitq, hEq⟩
  · rw [hEq]
    exact ⟨⟨hItems, hThreads, fun hNe => absurd rfl hNe, fun _ => hWaitq⟩, rfl⟩
  · rw [hEq]
    rw [hWaitq] at hThreads
    refine ⟨⟨hItems, hThreads.out, fun _ => hEmpty (by simp [hWaitq]), fun hNone => ?_⟩, ?_⟩
    · cases hNone
    · rw [hWaitq]
      rfl

/-- The first item goes to the thread that is out of the wait queue. -/
theorem Looping.give {t : Nat} {x : Item} {l : List Item} (h : Looping s (some t) (x :: l)) :
    Looping (zUnpendFirstThread (prepareThreadToRun s t x)).2
        (zUnpendFirstThread (prepareThreadToRun s t x)).1 l ∧
      pending (zUnpendFirstThread (prepareThreadToRun s t x)).2
        (zUnpendFirstThread (prepareThreadToRun s t x)).1 = s.waitq.length := by
  have hNil := h.empty (by simp)
  refine Looping.unpend ?_ h.threads.ready fun _ => hNil
  have hOut : (prepareThreadToRun s t x).out ++ l = s.out ++ x :: l := by
    show (s.given ++ [(t, x)]).map Prod.snd ++ s.dataQ ++ l = _
    rw [State.out, hNil]
    simp
  rw [hOut]
  exact h.items

/-- The loop leaves everything in order if there are enough items, and a blocked thread outside the
wait queue if there are not. -/
theorem appendLoop_spec (l : List Item) :
    ∀ (s : State) (thread : Option Nat), Looping s thread l →
      (pending s thread ≤ l.length → Between (appendLoop s thread l) none) ∧
      (l.length < pending s thread → ∃ t, (appendLoop s thread l).blocked t = true ∧
        t ∉ (appendLoop s thread l).waitq) := by
  induction l with
  | nil =>
    intro s thread h
    cases thread with
    | none =>
      have hWaitq := h.first rfl
      have hItems := h.items
      rw [List.append_nil] at hItems
      refine ⟨fun _ => ⟨hItems, h.threads, ?_⟩, ?_⟩
      · intro hWait
        exact absurd hWaitq (by simpa [appendLoop] using hWait)
      · intro hLt
        rw [pending, hWaitq] at hLt
        simp at hLt
    | some t =>
      refine ⟨fun hLe => ?_, fun _ => ⟨t, ?_, h.threads.apart t rfl⟩⟩
      · simp [pending] at hLe
      · exact (h.threads.blocked_iff t).mpr (.inr rfl)
  | cons x l ih =>
    intro s thread h
    cases thread with
    | none =>
      have hWaitq := h.first rfl
      refine ⟨fun _ => ⟨?_, h.threads, ?_⟩, ?_⟩
      · have hItems := h.items
        rw [State.out, List.append_assoc] at hItems
        exact hItems
      · intro hWait
        exact absurd hWaitq (by simpa [appendLoop] using hWait)
      · intro hLt
        rw [pending, hWaitq] at hLt
        simp at hLt
    | some t =>
      obtain ⟨hNext, hPending⟩ := h.give
      have hSpec := ih _ _ hNext
      rw [hPending] at hSpec
      have hCount : pending s (some t) = s.waitq.length + 1 := rfl
      rw [hCount, List.length_cons, Nat.add_le_add_iff_right, Nat.add_lt_add_iff_right]
      exact hSpec

theorem Between.appendList_spec (h : Between s none) {items : List Nat} (hItems : items ≠ []) :
    (s.waitq.length ≤ items.length → Between (kQueueAppendList s items) none) ∧
      (items.length < s.waitq.length → ∃ t, (kQueueAppendList s items).blocked t = true ∧
        t ∉ (kQueueAppendList s items).waitq) := by
  have hTag : Items (s.out ++ tag s.inserted.length items)
      (s.inserted ++ tag s.inserted.length items) := by
    refine h.items.append ?_
    rw [map_id_tag, length_tag]
  have hSwap : zUnpendFirstThread
      { s with inserted := s.inserted ++ tag s.inserted.length items } =
      ((zUnpendFirstThread s).1, { (zUnpendFirstThread s).2 with
        inserted := s.inserted ++ tag s.inserted.length items }) := by
    rcases zUnpendFirstThread_cases s with ⟨hWaitq, hEq⟩ | ⟨t, rest, hWaitq, hEq⟩
    · rw [hEq, zUnpendFirstThread]
      simp only [hWaitq]
    · rw [hEq, zUnpendFirstThread]
      simp only [hWaitq]
  obtain ⟨hLoop, hPending⟩ := Looping.unpend
    (s := { s with inserted := s.inserted ++ tag s.inserted.length items }) hTag h.threads
    fun hWait => h.empty (.inl hWait)
  rw [hSwap] at hLoop hPending
  have hSpec := appendLoop_spec _ _ _ hLoop
  rw [hPending, length_tag] at hSpec
  rw [kQueueAppendList, if_neg hItems]
  exact hSpec

theorem Between.step (h : Between s none) {op : Op} (hDom : InDomain s op) (hEnough : Enough s op) :
    Between (step s op) none := by
  cases op with
  | insert data alloc isAppend => exact h.insert data alloc isAppend
  | appendList items => exact (h.appendList_spec hDom.1).1 hEnough
  | get t wait => exact h.get hDom wait
  | cancelWait => exact h.cancelWait
  | timeout t => exact h.timeout t

theorem Between.enough (h : Between s none) {op : Op} (hDom : InDomain s op)
    (hLaw : Law (Queue.step s op)) : Enough s op := by
  cases op with
  | appendList items =>
    by_contra hNot
    obtain ⟨t, hBlocked, hOut⟩ := (h.appendList_spec hDom.1).2 (Nat.lt_of_not_le hNot)
    exact hOut (hLaw.waits t hBlocked)
  | insert _ _ _ | get _ _ | cancelWait | timeout _ => trivial

end Steps

/-! ## Runs -/

theorem init_between :
    Between kQueueInit none where
  items := ⟨.nil, rfl, rfl⟩
  threads := ⟨List.nodup_nil, by simp [kQueueInit], fun t ht => by cases ht⟩
  empty _ := rfl

/-- Neither items nor threads are lost in any state of a run exactly if no list in it has fewer
items than threads wait. -/
theorem queue_loses_nothing_iff (ops : List Op) (hDom : Admissible step InDomain kQueueInit ops) :
    Always step Law kQueueInit ops ↔ Admissible step Enough kQueueInit ops := by
  have hLaw : ∀ s, Between s none → Law s := fun s h => h.law
  refine always_iff_within hLaw ?_ ?_ ops _ init_between hDom
  · exact fun s op h hDom hEnough => h.step hDom hEnough
  · exact fun s op h hDom hLaw => h.enough hDom hLaw

/-- Two threads wait, one is cancelled, and a list of two items goes to the other one and into the
queue. -/
theorem queue_loses_nothing_iff_two :
    Always step Law kQueueInit
    [.get 1 (some 0), .get 2 (some 0), .cancelWait, .appendList [10, 20], .insert 30 none false,
      .get 2 none] :=
  (queue_loses_nothing_iff _ (by decide +kernel)).mpr (by decide +kernel)

/-- Two threads wait and a list of one item is appended.  Thread 2 gets the item, and thread 1 is
out of the wait queue and not ready. -/
theorem list_loses_thread :
    Admissible step InDomain kQueueInit
        [.get 1 (some 0), .get 2 (some 0), .appendList [10]] ∧
      (exec step kQueueInit [.get 1 (some 0), .get 2 (some 0), .appendList [10]]).result 2 =
        some 10 ∧
      (exec step kQueueInit [.get 1 (some 0), .get 2 (some 0), .appendList [10]]).blocked 1 = true ∧
      (exec step kQueueInit [.get 1 (some 0), .get 2 (some 0), .appendList [10]]).waitq = [] := by
  decide +kernel

end Zvm.Kernel.Queue
