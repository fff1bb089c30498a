-- SUMMARY: The kernel module, its clients, the helper and the GPU as one machine.
import Kgpu.Gpu.Isolation
import Kgpu.System.Agreement

/-!
# The whole system

Clients, the device and the helper step as in `System`, and the GPU executes what the
helper has put on its streams. What the GPU answers to the helper is read off the
streams, as in `Gpu`. Host memory is what the helper and the GPU see; the clients have
the same bytes mapped and may write them at any time.

`kgpu_write` invokes the callback before `kh_service_done` has released the request,
and from then on the client may use its buffers again. The view of the GPU is
therefore taken with that release done as soon as the write has returned.
-/

namespace Kgpu

open Library

variable {T : Type}

/-- The system with host and device memory and the streams, and with what each request
    of the helper was read as and the host memory at that time. -/
structure Whole (T : Type) where
  sys : System T
  host : Memory
  dev : Memory
  fifo : Fin maxStreamNr → List GpuOp
  seen : Token → KuRequest × Memory

inductive WholeStep (T : Type) where
  /-- A step of the clients, the device or the helper that the GPU has no part in. -/
  | sys (l : SysStep T)
  /-- The operation on the next request of the helper's walk. -/
  | op
  /-- `kh_init_service_request` with what was read. -/
  | initRequest
  /-- The operation at the head of a stream executes. -/
  | exec (i : Fin maxStreamNr)
  /-- A client writes to host memory. -/
  | hostWrite (x : Nat) (v : UInt8)

/-- The steps of the system that are not steps of the GPU's view. -/
def SysStep.plain : SysStep T → Bool
  | .op _ | .initRequest => false
  | _ => true

namespace Whole

/-- The helper with the GPU. -/
def gpu (s : Whole T) : Gpu := ⟨s.sys.helper, s.host, s.dev, s.fifo, s.seen⟩

variable [DecidableEq T]

def step (c : Config) (k : Kernels) (s : Whole T) : WholeStep T → Option (Whole T)
  | .sys l =>
    match l.plain, s.sys.step c l with
    | true, some sys => some { s with sys := sys }
    | _, _ => none
  | .op =>
    match s.sys.helper.pc with
    | .process x (t :: _) =>
      match s.sys.step c (.op (s.gpu.answers t)) with
      | some sys =>
        some { s with
          sys := sys
          fifo := (Gpu.callService k { s.gpu with helper := sys.helper } x t).fifo }
      | none => none
    | _ => none
  | .initRequest =>
    match s.sys.pc, s.sys.step c .initRequest with
    | .hasRead kureq, some sys =>
      some { s with
        sys := sys
        seen := Function.update s.seen s.sys.helper.next (kureq, s.host) }
    | _, _ => none
  | .exec i =>
    match s.fifo i with
    | op :: rest =>
      some { s with
        host := (op.exec (s.host, s.dev)).1
        dev := (op.exec (s.host, s.dev)).2
        fifo := Function.update s.fifo i rest }
    | [] => none
  | .hostWrite x v => some { s with host := Function.update s.host x v }

/-- The module is loaded, the helper is about to enter its loop and the GPU is idle. -/
def init (sr : Token → ServiceRequest) (sync : DataPtr → SyncCallData) (pool : Mempool)
    (host dev : Memory) (seen : Token → KuRequest × Memory) : Whole T where
  sys := System.init sr sync pool
  host := host
  dev := dev
  fifo := fun _ => []
  seen := seen

/-- The branches of `step`, with the state each of them leaves. -/
inductive StepCase (c : Config) (k : Kernels) (s : Whole T) : WholeStep T → Whole T → Prop where
  | sys {l : SysStep T} {sys : System T} : l.plain = true → s.sys.step c l = some sys →
      StepCase c k s (.sys l) { s with sys := sys }
  | op {x : ReqState} {t : Token} {rest : List Token} {sys : System T} :
      s.sys.helper.pc = .process x (t :: rest) →
      s.sys.step c (.op (s.gpu.answers t)) = some sys →
      StepCase c k s .op { s with
        sys := sys
        fifo := (Gpu.callService k { s.gpu with helper := sys.helper } x t).fifo }
  | initRequest {kureq : KuRequest} {sys : System T} : s.sys.pc = .hasRead kureq →
      s.sys.step c .initRequest = some sys →
      StepCase c k s .initRequest { s with
        sys := sys
        seen := Function.update s.seen s.sys.helper.next (kureq, s.host) }
  | exec {i : Fin maxStreamNr} {op : GpuOp} {rest : List GpuOp} : s.fifo i = op :: rest →
      StepCase c k s (.exec i) { s with
        host := (op.exec (s.host, s.dev)).1
        dev := (op.exec (s.host, s.dev)).2
        fifo := Function.update s.fifo i rest }
  | hostWrite {x : Nat} {v : UInt8} :
      StepCase c k s (.hostWrite x v) { s with host := Function.update s.host x v }

variable {c : Config} {k : Kernels} {s s' : Whole T}

theorem step_case {l : WholeStep T} (hs : s.step c k l = some s') : StepCase c k s l s' := by
  cases l with
  | sys l =>
    simp only [step] at hs
    split at hs <;> cases hs
    next hplain hsys => exact .sys hplain hsys
  | op =>
    simp only [step] at hs
    split at hs
    next hpc =>
      split at hs <;> cases hs
      next hsys => exact .op hpc hsys
    next => cases hs
  | initRequest =>
    simp only [step] at hs
    split at hs <;> cases hs
    next hpc hsys => exact .initRequest hpc hsys
  | exec i =>
    simp only [step] at hs
    split at hs <;> cases hs
    next hf => exact .exec hf
  | hostWrite x v =>
    cases hs
    exact .hostWrite

/-! ## The system in the whole -/

/-- Every step of the whole is a step of the system, or leaves it alone. -/
theorem step_sys {l : WholeStep T} (hs : s.step c k l = some s') :
    s'.sys = s.sys ∨ ∃ l', s.sys.step c l' = some s'.sys ∧
      ∀ lc, l' = .client lc → l = .sys (.client lc) := by
  cases step_case hs with
  | @sys l _ hplain hsys =>
    refine .inr ⟨l, hsys, ?_⟩
    rintro lc rfl
    rfl
  | op hpc hsys | initRequest hpc hsys =>
    refine .inr ⟨_, hsys, fun lc h => ?_⟩
    cases h
  | exec | hostWrite => exact .inl rfl

/-- The queues in the whole make a step of their own or none, one of a client only when it is
    a step of that client. -/
theorem step_calls {l : WholeStep T} (hs : s.step c k l = some s') :
    s'.sys.calls = s.sys.calls ∨ ∃ lc, s.sys.calls.step lc = some s'.sys.calls ∧
      (lc.kind ≠ .device → l = .sys (.client lc)) := by
  rcases step_sys hs with heq | ⟨l', hsys, hlabel⟩
  · exact .inl (congrArg System.calls heq)
  · generalize s'.sys = sys at hsys
    cases System.step_case hsys with
    | client _ hk => exact .inr ⟨_, hk, fun _ => hlabel _ rfl⟩
    | read _ _ hk | readReturn _ _ hk | send _ _ hk | writeReturn _ hk =>
      exact .inr ⟨_, hk, fun hne => absurd rfl hne⟩
    | op | advance | getNone | initRequest => exact .inl rfl

end Whole
end Kgpu
