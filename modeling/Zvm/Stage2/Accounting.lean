import Zvm.Stage2.AddMap
import Zvm.Stage2.DelMapping
import Zvm.Verified.Run

/-!
# Which tables are in use

After any calls of `vm_set_mapping` the tables that can be handed out are those outside the
tree of the domain, and they are empty.
-/

namespace Zvm.Stage2

open Zvm.Verified.FunArray Zvm.Verified.RadixTree Zvm.Verified.Run

/-- The arguments of `vm_set_mapping`. -/
structure SetCall where
  virt : Nat
  size : Nat
  desc : Word
  mayOverwrite : Bool

/-- The range consists of pages, and the descriptor leaves its type to the code. -/
structure SetCall.Ok (k : SetCall) : Prop where
  virt : 2 ^ 12 ∣ k.virt
  size : 2 ^ 12 ∣ k.size
  type : k.desc &&& 3#64 = 0#64

def SetCall.run (c : PoolConfig) (base : Nat) (st : XlatPool) (k : SetCall) :
    Option (XlatPool × MapRet) :=
  vmSetMapping c st base k.virt k.size k.desc k.mayOverwrite

/-- The pool after the call, whatever it returns. -/
def setCall (c : PoolConfig) (base : Nat) (st : XlatPool) (k : SetCall) : XlatPool :=
  ((k.run c base st).map Prod.fst).getD st

/-- A pool with nothing but a base table. -/
def freshPool (base : Nat) : XlatPool := ⟨fun _ => 0#64, set (fun _ => 0) base 1⟩

/-- The tables of the domain are a tree with exact counts, no entry points to a free table, and
all other tables are free and empty. -/
structure TablesExact (c : PoolConfig) (st : XlatPool) (base : Nat) : Prop where
  tree : IsTree (stage2Radix c) st.xlatTables base
  count : ∀ t, InTree c st base t →
    st.useCount t = 1 + occupied (stage2Radix c) 0#64 st.xlatTables t
  linked : ∀ d r t i u, Place c st base d r t i →
    (stage2Radix c).link d (st.word t i) = some u → st.useCount u ≠ 0
  others : ∀ t < c.maxTables, ¬ InTree c st base t →
    st.useCount t = 0 ∧ ∀ j < 512, st.word t j = 0#64

section Sets

variable {c : PoolConfig} {st : XlatPool} {base : Nat}

theorem WellFormed.exact (hWF : WellFormed c st base) (hA : Accounted c st base) :
    TablesExact c st base where
  tree := hWF.tree
  count := hWF.count
  linked := by
    intro d r t i u hPlace hLink hZero
    exact not_inTree_of_count_zero hWF hZero
      ⟨d + 1, r * 512 + i, hPlace.region, hPlace.tableAt_succ.trans hLink⟩
  others := fun t ht hOut => ⟨hA t ht hOut, hWF.poolZero t ht (hA t ht hOut)⟩

/-- A call returns, and loses no table. -/
theorem SetCall.Ok.accounted {k : SetCall} (hk : k.Ok) (hWF : WellFormed c st base) :
    ∃ st' ret, k.run c base st = some (st', ret) ∧ WellFormed c st' base ∧
      (Accounted c st base → Accounted c st' base) := by
  refine setLoop_rule (fun s st' _ => WellFormed c st' base ∧
    (Accounted c s.pool base → Accounted c st' base)) ?_ ?_ ?_ _ _ 0
    (onPath_start hWF hk.virt hk.size hk.type) (Nat.lt_succ_self _)
  · exact fun s d hP _ => ⟨hP.wf, id⟩
  · intro s d st' ret hP _ hIter
    cases hIter <;> exact ⟨hP.wf, id⟩
  · exact fun s d s' st' ret _ _ _ hAcc hPost => ⟨hPost.1, fun hA => hPost.2 (hAcc hA)⟩

/--
**Accounting**: after every run of calls from a pool with only the base table, whatever they
return, the accounting is exact, and every further call returns.
-/
theorem setCalls_exact (hBase : base < c.maxTables) (calls : List SetCall)
    (hCalls : ∀ k ∈ calls, k.Ok) :
    let st := exec (setCall c base) (freshPool base) calls
    TablesExact c st base ∧ ∀ k : SetCall, k.Ok → (k.run c base st).isSome := by
  intro st
  have hStep : ∀ k ∈ calls, ∀ st, WellFormed c st base ∧ Accounted c st base →
      WellFormed c (setCall c base st k) base ∧ Accounted c (setCall c base st k) base := by
    rintro k hk st ⟨hWF, hA⟩
    obtain ⟨st', ret, hEq, hWF', hA'⟩ := (hCalls k hk).accounted hWF
    rw [setCall, hEq]
    exact ⟨hWF', hA' hA⟩
  have hFresh : Accounted c (freshPool base) base := by
    intro u _ hOut
    have hNe : u ≠ base := by
      rintro rfl
      exact hOut ⟨0, 0, by simp, rfl⟩
    simp [freshPool, set_apply, hNe]
  obtain ⟨hWF, hA⟩ := exec_invariant_of_mem calls hStep (freshPool base)
    ⟨wellFormed_empty hBase (fun _ _ _ _ => rfl) (by simp [freshPool]), hFresh⟩
  refine ⟨hWF.exact hA, fun k hk => ?_⟩
  obtain ⟨st', ret, hEq, -⟩ := hk.accounted hWF
  rw [hEq]
  rfl

end Sets

/-- A page is mapped and removed, and then the tables do not suffice for a gigabyte. -/
theorem setCalls_sample :
    TablesExact samplePoolConfig (exec (setCall samplePoolConfig 3) (freshPool 3)
      [⟨0, 4096, 4096#64, true⟩, ⟨0, 4096, 0#64, true⟩, ⟨0, 2 ^ 30 + 4096, 4096#64, false⟩]) 3 :=
  (setCalls_exact (by decide) _ (by
    simp only [List.forall_mem_cons, List.not_mem_nil, false_implies, implies_true, and_true]
    exact ⟨⟨by decide, by decide, by decide⟩, ⟨by decide, by decide, by decide⟩, by decide,
      by decide, by decide⟩)).1

end Zvm.Stage2
