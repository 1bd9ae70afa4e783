import Mathlib.Data.List.Permutation
import Zvm.Life.Create

/-!
# The order of the options of a create command

The number of vCPUs after `-c` is checked as soon as it is read, against the physical CPUs for the
OS type read so far.  Before `-t` that is `UINT16_MAX`, which counts as an RTOS: the answer is the
one for the requested type only if both domains have room, or neither has.
-/

namespace Zvm.Life.Create

open Zvm.Os.Template

/-- `handle_vm_create_cmd`: the host afterwards, and the identifier of the new VM or an error. -/
def handleVmCreateCmd (p : Platform) (s : HostState) (opts : List CreateOpt) : HostOs × Int :=
  match parseCreateCmd p s.placement.vcpuUse opts with
  | none => (s.os, eInval)
  | some a => getOsTemplateType p s.os s.placement.vcpuUse a.guestOs a.specialCpu a.specialMem

/-- One `-t`, at most one `-c` and at most one `-m`, with their arguments. -/
structure CreateRequest where
  osName : String
  vcpus : Option (Int × Bool)
  mem : Option (Int × Bool)

def CreateRequest.opts (q : CreateRequest) : List CreateOpt :=
  .t q.osName ::
    ((q.vcpus.map fun c => CreateOpt.c c.1 c.2).toList ++
      (q.mem.map fun m => CreateOpt.m m.1 m.2).toList)

def CreateRequest.osType (q : CreateRequest) : Nat := (getOsTypeFromArgs q.osName).toNat

/-- What an option that is accepted changes. -/
def putOpt (a : CreateArgs) : CreateOpt → CreateArgs
  | .t optarg =>
    { a with guestOs := { a.guestOs with osType := (getOsTypeFromArgs optarg).toNat } }
  | .c val _ =>
    { a with guestOs := { a.guestOs with vcpuNum := val.toNat % 2 ^ 16 }, specialCpu := true }
  | .m val _ =>
    { a with
      guestOs := { a.guestOs with vmMemSize := val.toNat * 1024 * 1024 % 2 ^ 32 }
      specialMem := true }
  | .other => a

/-- The option is accepted if the vCPUs are checked for the OS type `seen`. -/
def okOpt (p : Platform) (vcpuUse : Nat → Int) (seen : Nat) : CreateOpt → Bool
  | .t optarg => !decide (getOsTypeFromArgs optarg < 0)
  | .c val whole =>
    !(!whole || decide (val ≤ 0) || decide ((p.maxVcpuPerVm : Int) < val) ||
      !vcpuMarginCheck p vcpuUse seen val.toNat)
  | .m val whole => !(!whole || decide (val ≤ 0) || decide (1024 < val))
  | .other => false

/-- All options of the request are. -/
def CreateRequest.accepted (p : Platform) (vcpuUse : Nat → Int) (q : CreateRequest) (seen : Nat) :
    Bool :=
  q.opts.all (okOpt p vcpuUse seen)

/-- Every order of the options has the same result, and accepts a number of
vCPUs exactly if there is room for it in the domain of the requested OS type. -/
structure OrderFree (p : Platform) (s : HostState) (q : CreateRequest) : Prop where
  commutes : ∀ o₁ o₂, o₁.Perm q.opts → o₂.Perm q.opts →
    handleVmCreateCmd p s o₁ = handleVmCreateCmd p s o₂
  checked : ∀ o, o.Perm q.opts → (parseCreateCmd p s.placement.vcpuUse o).isSome =
    q.accepted p s.placement.vcpuUse q.osType

section Order

variable {p : Platform} {vcpuUse : Nat → Int} {q : CreateRequest} {o : List CreateOpt}

/-- The options are accepted one after the other, each with the OS type read so far. -/
def okFrom (p : Platform) (vcpuUse : Nat → Int) : CreateArgs → List CreateOpt → Bool
  | _, [] => true
  | a, opt :: o => okOpt p vcpuUse a.guestOs.osType opt && okFrom p vcpuUse (putOpt a opt) o

theorem handleOpt_eq (a : CreateArgs) (opt : CreateOpt) :
    handleOpt p vcpuUse a opt =
      if okOpt p vcpuUse a.guestOs.osType opt then some (putOpt a opt) else none := by
  cases opt with
  | t optarg =>
    by_cases hName : getOsTypeFromArgs optarg < 0 <;> simp [handleOpt, okOpt, putOpt, hName]
  | other => rfl
  | c val whole | m val whole =>
    simp only [handleOpt, okOpt, putOpt, Bool.not_eq_true', ite_not, ← Bool.not_eq_true]

theorem foldlM_handleOpt (o : List CreateOpt) :
    ∀ a, o.foldlM (handleOpt p vcpuUse) a =
    if okFrom p vcpuUse a o then some (o.foldl putOpt a) else none := by
  induction o with
  | nil => exact fun a => rfl
  | cons opt o ih =>
    intro a
    rw [List.foldlM_cons, handleOpt_eq, okFrom]
    cases okOpt p vcpuUse a.guestOs.osType opt with
    | false => rfl
    | true => exact ih _

variable (p vcpuUse) in
/-- The vCPUs are checked for the requested type, or for none. -/
theorem okFrom_perm (hPerm : o.Perm q.opts) :
    o.foldl putOpt initialArgs = q.opts.foldl putOpt initialArgs ∧
      ∃ seen, (seen = noOsType ∨ seen = q.osType) ∧
        okFrom p vcpuUse initialArgs o = o.all (okOpt p vcpuUse seen) := by
  obtain ⟨osName, vcpus, mem⟩ := q
  have hMem := List.mem_permutations'.mpr hPerm
  cases vcpus <;> cases mem <;>
    simp only [CreateRequest.opts, Option.map_none, Option.map_some, Option.toList_none,
      Option.toList_some, List.append_nil, List.nil_append, List.cons_append, List.permutations',
      List.permutations'Aux, List.flatMap_cons, List.flatMap_nil, List.map_cons, List.map_nil,
      List.mem_cons, List.not_mem_nil, or_false] at hMem
  case none.none =>
    subst hMem
    exact ⟨rfl, _, .inr rfl, rfl⟩
  case none.some m =>
    rcases hMem with rfl | rfl
    · exact ⟨rfl, _, .inr rfl, rfl⟩
    · exact ⟨rfl, _, .inr rfl, rfl⟩
  case some.none c =>
    rcases hMem with rfl | rfl
    · exact ⟨rfl, _, .inr rfl, rfl⟩
    · exact ⟨rfl, _, .inl rfl, rfl⟩
  case some.some c m =>
    rcases hMem with rfl | rfl | rfl | rfl | rfl | rfl
    · exact ⟨rfl, _, .inr rfl, rfl⟩
    · exact ⟨rfl, _, .inl rfl, rfl⟩
    · exact ⟨rfl, _, .inl rfl, rfl⟩
    · exact ⟨rfl, _, .inr rfl, rfl⟩
    · exact ⟨rfl, _, .inr rfl, rfl⟩
    · exact ⟨rfl, _, .inl rfl, rfl⟩

theorem osType_ne_none (q : CreateRequest) : q.osType ≠ noOsType := by
  unfold CreateRequest.osType getOsTypeFromArgs
  split_ifs <;> decide

theorem parseCreateCmd_perm (seen : Nat) (hPerm : o.Perm q.opts)
    (hOk : okFrom p vcpuUse initialArgs o = o.all (okOpt p vcpuUse seen)) :
    parseCreateCmd p vcpuUse o = if q.accepted p vcpuUse seen then
      some (q.opts.foldl putOpt initialArgs) else none := by
  have hType : (q.opts.foldl putOpt initialArgs).guestOs.osType = q.osType := by
    rcases q with ⟨osName, _ | c, _ | m⟩ <;> rfl
  rw [parseCreateCmd, foldlM_handleOpt, hOk, (okFrom_perm p vcpuUse hPerm).1,
    hPerm.all_eq, CreateRequest.accepted]
  cases q.opts.all (okOpt p vcpuUse seen) with
  | false => rfl
  | true => exact if_neg (hType.trans_ne (osType_ne_none q))

end Order

/-- The options commute exactly if the request is accepted for the type it names if and only if it
is for `UINT16_MAX`. -/
theorem orderFree_iff (p : Platform) (s : HostState) (q : CreateRequest) :
    OrderFree p s q ↔ q.accepted p s.placement.vcpuUse noOsType =
      q.accepted p s.placement.vcpuUse q.osType := by
  constructor
  · intro h
    cases hVcpus : q.vcpus with
    | none =>
      rcases q with ⟨osName, vcpus, _ | m⟩ <;> cases hVcpus <;> rfl
    | some c =>
      -- `-c` stands before `-t`
      have hPerm : (.c c.1 c.2 :: .t q.osName ::
          (q.mem.map fun m => CreateOpt.m m.1 m.2).toList).Perm q.opts := by
        rw [CreateRequest.opts, hVcpus]
        exact .swap _ _ _
      have hChecked := h.checked _ hPerm
      rw [parseCreateCmd_perm noOsType hPerm (by cases q.mem <;> rfl)] at hChecked
      rw [← hChecked]
      cases q.accepted p s.placement.vcpuUse noOsType <;> rfl
  · intro hSame
    have hParse : ∀ o, o.Perm q.opts → parseCreateCmd p s.placement.vcpuUse o =
        if q.accepted p s.placement.vcpuUse q.osType then
          some (q.opts.foldl putOpt initialArgs) else none := by
      intro o hPerm
      obtain ⟨-, seen, hSeen, hOk⟩ := okFrom_perm p _ hPerm
      rw [parseCreateCmd_perm seen hPerm hOk]
      rcases hSeen with rfl | rfl
      · rw [hSame]
      · rfl
    refine ⟨fun o₁ o₂ h₁ h₂ => ?_, fun o hPerm => ?_⟩
    · simp only [handleVmCreateCmd, hParse o₁ h₁, hParse o₂ h₂]
    · rw [hParse o hPerm]
      cases q.accepted p s.placement.vcpuUse q.osType <;> rfl

/-- The physical CPUs of RTOS guests are taken. -/
def rtosFull : HostState :=
  { idleHost with placement := { idleHost.placement with
      vcpuUse := fun cpu => if cpu < 4 then 0 else 1 } }

/-- A platform with the device tree of one Linux guest. -/
def onePlatform : Platform :=
  { Os.GuestRam.samplePlatform with linuxDtbCpiesConfig := [⟨1, 0x1000000, 0, 0⟩] }

/-- A Linux VM with one vCPU is created if the type comes first, and refused if it does not. -/
theorem vcpus_before_type_refused :
    (handleVmCreateCmd onePlatform rtosFull [.t "linux", .c 1 true]).2 = 0 ∧
      (handleVmCreateCmd onePlatform rtosFull [.c 1 true, .t "linux"]).2 = -22 := by
  decide +kernel

end Zvm.Life.Create
