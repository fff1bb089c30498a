-- SUMMARY: The kernel module with its clients and the helper, joined at the device.
import Kgpu.Helper.Lists
import Kgpu.Kernel.Submissions

/-!
# The system

The helper is the one process that has the device open. It reads a request in
`kh_get_next_service_request` and writes a response in `kh_service_done`; both
calls run in the kernel in two sections, and the clients may make steps before,
between and after them, as they may between any two steps of the helper.
-/

namespace Kgpu

open Library

variable {T : Type}

/-- Where the helper stands with respect to the device. -/
inductive SysPc where
  /-- Between two operations, or in one that does not use the device. -/
  | user
  /-- In the `read` of `kh_get_next_service_request`. -/
  | reading
  /-- The `read` has returned. -/
  | hasRead (kureq : KuRequest)
  /-- In the `write` of `kh_service_done`. -/
  | writing
  /-- The `write` has returned. -/
  | wrote
  /-- The `write` has failed and `ssc` has aborted the helper. -/
  | aborted

/-- The kernel with its clients, the helper, and the items that `kgpu_write` has taken
    off `rtdreqs`, in that order. -/
structure System (T : Type) where
  calls : Calls T
  helper : Helper
  pc : SysPc
  taken : List RequestItem

inductive SysStep (T : Type) where
  /-- A step of a client, at any time. -/
  | client (l : CallStep T)
  /-- The operation on the next request of the helper's walk. -/
  | op (a : Answers)
  | advance
  /-- `kh_get_next_service_request` without a request. -/
  | getNone
  | read
  | readReturn
  /-- `kh_init_service_request` with what was read. -/
  | initRequest
  /-- `kh_send_response`, up to the look-up in `kgpu_write`. -/
  | send
  | writeReturn

namespace System

variable [DecidableEq T]

/-- The helper may run the operation it is at: `kh_service_done` goes on once its
    response is written. -/
def ready (s : System T) : Bool :=
  match s.pc, s.helper.pc with
  | .user, .process x _ => x != .done
  | .wrote, .process x _ => x == .done
  | _, _ => false

def step (c : Config) (s : System T) : SysStep T → Option (System T)
  | .client l =>
    match l.kind, s.calls.step l with
    | .device, _ => none
    | _, some k => some { s with calls := k }
    | _, none => none
  | .op a =>
    match s.ready, s.helper.step c (.op a) with
    | true, some h => some { s with helper := h, pc := .user }
    | _, _ => none
  | .advance =>
    match s.pc, s.helper.step c .advance with
    | .user, some h => some { s with helper := h, pc := .user }
    | _, _ => none
  | .getNone =>
    match s.pc, s.helper.step c (.get none) with
    | .user, some h => some { s with helper := h, pc := .user }
    | _, _ => none
  | .read =>
    match s.pc, s.helper.pc, s.calls.step (.readTake kuRequestSize) with
    | .user, .get, some k => some { s with calls := k, pc := .reading }
    | _, _, _ => none
  | .readReturn =>
    match s.pc, s.calls.dev, s.calls.step .readRetire with
    | .reading, .reading _ kureq _, some k => some { s with calls := k, pc := .hasRead kureq }
    | _, _, _ => none
  | .initRequest =>
    match s.pc with
    | .hasRead kureq =>
      match s.helper.step c (.get (some kureq)) with
      | some h => some { s with helper := h, pc := .user }
      | none => none
    | _ => none
  | .send =>
    match s.pc, s.helper.pc with
    | .user, .process .done (t :: _) =>
      match s.calls.step (.writeFind kuResponseSize (s.helper.response t)) with
      | some k =>
        some { s with
          calls := k
          pc := match k.dev with
            | .writing .. => .writing
            | _ => .aborted
          taken := s.taken ++ k.dev.held }
      | none => none
    | _, _ => none
  | .writeReturn =>
    match s.pc, s.calls.step .writeComplete with
    | .writing, some k => some { s with calls := k, pc := .wrote }
    | _, _ => none

/-- The branches of `step`, with the state each of them leaves. -/
inductive StepCase (c : Config) (s : System T) : SysStep T → System T → Prop where
  | client {l : CallStep T} {k : Calls T} : l.kind ≠ .device → s.calls.step l = some k →
      StepCase c s (.client l) { s with calls := k }
  | op {a : Answers} {h : Helper} : s.ready = true → s.helper.step c (.op a) = some h →
      StepCase c s (.op a) { s with helper := h, pc := .user }
  | advance {h : Helper} : s.pc = .user → s.helper.step c .advance = some h →
      StepCase c s .advance { s with helper := h, pc := .user }
  | getNone {h : Helper} : s.pc = .user → s.helper.step c (.get none) = some h →
      StepCase c s .getNone { s with helper := h, pc := .user }
  | read {k : Calls T} : s.pc = .user → s.helper.pc = .get →
      s.calls.step (.readTake kuRequestSize) = some k →
      StepCase c s .read { s with calls := k, pc := .reading }
  | readReturn {item : RequestItem} {kureq : KuRequest} {n : UL} {k : Calls T} :
      s.pc = .reading → s.calls.dev = .reading item kureq n → s.calls.step .readRetire = some k →
      StepCase c s .readReturn { s with calls := k, pc := .hasRead kureq }
  | initRequest {kureq : KuRequest} {h : Helper} : s.pc = .hasRead kureq →
      s.helper.step c (.get (some kureq)) = some h →
      StepCase c s .initRequest { s with helper := h, pc := .user }
  | send {t : Token} {rest : List Token} {k : Calls T} : s.pc = .user →
      s.helper.pc = .process .done (t :: rest) →
      s.calls.step (.writeFind kuResponseSize (s.helper.response t)) = some k →
      StepCase c s .send { s with
        calls := k
        pc := match k.dev with
          | .writing .. => .writing
          | _ => .aborted
        taken := s.taken ++ k.dev.held }
  | writeReturn {k : Calls T} : s.pc = .writing → s.calls.step .writeComplete = some k →
      StepCase c s .writeReturn { s with calls := k, pc := .wrote }

theorem step_case {c : Config} {s s' : System T} {l : SysStep T} (hs : s.step c l = some s') :
    StepCase c s l s' := by
  cases l with
  | client l =>
    simp only [step] at hs
    split at hs <;> cases hs
    next hk hkind => exact .client hkind hk
  | op a =>
    simp only [step] at hs
    split at hs <;> cases hs
    next hready hh => exact .op hready hh
  | advance =>
    simp only [step] at hs
    split at hs <;> cases hs
    next hpc hh => exact .advance hpc hh
  | getNone =>
    simp only [step] at hs
    split at hs <;> cases hs
    next hpc hh => exact .getNone hpc hh
  | read =>
    simp only [step] at hs
    split at hs <;> cases hs
    next hpc hget hk => exact .read hpc hget hk
  | readReturn =>
    simp only [step] at hs
    split at hs <;> cases hs
    next hpc hdev hk => exact .readReturn hpc hdev hk
  | initRequest =>
    simp only [step] at hs
    split at hs
    next hpc =>
      split at hs <;> cases hs
      next hh => exact .initRequest hpc hh
    next => cases hs
  | send =>
    simp only [step] at hs
    split at hs
    next hpc hdone =>
      split at hs <;> cases hs
      next hk => exact .send hpc hdone hk
    next => cases hs
  | writeReturn =>
    simp only [step] at hs
    split at hs <;> cases hs
    next hpc hk => exact .writeReturn hpc hk

/-- The module is loaded, the helper has the device open and is about to enter its
    loop. -/
def init (sr : Token → ServiceRequest) (sync : DataPtr → SyncCallData) (pool : Mempool) :
    System T where
  calls := Calls.init sync pool
  helper := Helper.init sr
  pc := .user
  taken := []

/-- No client changes the id of a request in flight. -/
def IdsKept (s : System T) : SysStep T → Prop
  | .client (.edit r q) =>
    q.id = (s.calls.kernel.req r).id ∨ r ∉ s.calls.pending.map (·.r)
  | _ => True

end System
end Kgpu
