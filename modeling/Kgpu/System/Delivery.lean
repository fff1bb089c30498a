-- SUMMARY: Every submission gets its callback: a bound on the iterations of the helper until it does.
import Kgpu.Helper.Waiting
import Kgpu.System.EndToEnd

/-!
# Delivery

The helper reads the submissions in the order in which they were made, one in an iteration
at most, and does not hold a request forever. So the submissions in flight at some time
have all had their callbacks after a number of iterations that depends on their number,
however many more are made in the meantime.
-/

namespace Kgpu

open Library

variable {T : Type}

namespace Calls

variable [DecidableEq T] {s s' : Calls T}

/-- What was accepted, handed out and called back stays so. -/
theorem step_grows {l : CallStep T} (hs : s.step l = some s') :
    ∃ acc hand cbs, s'.accepted = s.accepted ++ acc ∧ s'.handed = s.handed ++ hand ∧
      s'.kernel.callbacks = s.kernel.callbacks ++ cbs := by
  cases step_case hs with
  | asyncEntered hs | syncEntered hs =>
    obtain ⟨hsame, -⟩ := enter_same hs
    exact ⟨[], [], [], by simp [hsame.accepted], by simp [hsame.handed], by simp [hsame.callbacks]⟩
  | asyncAppended | syncAppended => exact ⟨_, [], [], rfl, by simp [push, ret, goto], by simp [push, ret, goto]⟩
  | taken => exact ⟨[], _, [], by simp, rfl, by simp⟩
  | completed => exact ⟨[], [], _, by simp, by simp, Kernel.writeComplete_callbacks⟩
  | retired => exact ⟨[], [], [], by simp, by simp, by simp [Kernel.readRetire]⟩
  | gotData | noData | asyncGotItem | asyncNoItem | syncGotItem | syncNoItem | swapped | woken
  | signalled | finished | tooShort | unknown | found | stopped | edited =>
    exact ⟨[], [], [], by simp [ret, goto], by simp [ret, goto],
      by simp [ret, goto, swapCallback, restoreCallback]⟩

end Calls

namespace Helper

variable {c : Config} {s s' : Helper}

/-- How many requests were read. -/
def readCount (s : Helper) : Nat := s.next

/-- What a step does to the numbers of requests. -/
theorem step_sizes {l : HelperStep} (hs : s.step c l = some s') :
    s.readCount ≤ s'.readCount ∧ s'.readCount ≤ s.readCount + (if l.isGet then 1 else 0) ∧
    s'.allReqs.length ≤ s.allReqs.length + (if l.isGet then 1 else 0) := by
  cases l with
  | op a =>
    obtain ⟨x, t, rest, -, rfl⟩ := step_op_inv hs
    have hnext : (s.runOp c x t a).2.next = s.next := runOp_next
    refine ⟨Nat.le_of_eq hnext.symm, Nat.le_of_eq hnext, ?_⟩
    change (s.runOp c x t a).2.allReqs.length ≤ _
    rw [runOp_allReqs]
    split
    · exact List.length_erase_le
    · exact Nat.le_refl _
  | advance =>
    obtain ⟨x, pc, -, rfl, -⟩ := step_advance_inv hs
    exact ⟨Nat.le_refl _, Nat.le_refl _, Nat.le_refl _⟩
  | get kureq =>
    obtain ⟨-, rfl⟩ := step_get_inv hs
    cases kureq with
    | none => simp [khGetNextServiceRequest, HelperStep.isGet, readCount]
    | some kureq =>
      obtain ⟨hall, hnext, -, -⟩ := khInitServiceRequest_frame (c := c) (s := s) kureq
      simp [khGetNextServiceRequest, HelperStep.isGet, readCount, hall, hnext]

/-- The polls that were in vain are not forgotten. -/
theorem step_polls {l : HelperStep} (hs : s.step c l = some s') (t : Token) :
    s.polls t ≤ s'.polls t := by
  cases l with
  | op a =>
    obtain ⟨x, t', rest, -, rfl⟩ := step_op_inv hs
    change s.polls t ≤ (s.runOp c x t' a).2.polls t
    by_cases ht : t = t'
    · subst ht
      have hcase : OpCase c s t a x (s.runOp c x t a) := runOp_case
      generalize s.runOp c x t a = r at hcase
      cases hcase <;> simp [polls, touch, listDel]
    · rw [(runOp_need_other ht).2]
  | advance =>
    obtain ⟨x, pc, -, rfl, -⟩ := step_advance_inv hs
    exact Nat.le_refl _
  | get kureq =>
    obtain ⟨-, rfl⟩ := step_get_inv hs
    cases kureq with
    | none => exact Nat.le_refl _
    | some kureq =>
      change s.polls t ≤ (s.khInitServiceRequest c kureq).polls t
      by_cases ht : t = s.next
      · subst ht
        rcases khInitServiceRequest_new (c := c) (s := s) kureq with
          ⟨-, -, htrace⟩ | ⟨p, -, -, htrace⟩ <;> simp [polls, htrace]
      · rw [polls, polls, (khInitServiceRequest_other kureq ht).2]

end Helper

namespace Whole

/-- The helper finds a request whenever one is waiting: its `poll` sees it, and `malloc`
    has room for it. -/
def Attentive (s : Whole T) : WholeStep T → Prop
  | .sys .getNone => s.sys.calls.kernel.reqs = []
  | _ => True

/-- The labels that end an iteration of the main loop. -/
def ends : WholeStep T → Bool
  | .sys .getNone | .initRequest => true
  | _ => false

variable {c : Config} {k : Kernels} {s s' : Whole T}

section Parts

variable [DecidableEq T]

/-- The helper in the whole makes a step of its own or none. -/
theorem step_helper {l : WholeStep T} (hs : s.step c k l = some s') :
    (s'.sys.helper = s.sys.helper ∧ ends l = false) ∨
    ∃ l', Helper.Allocates s.sys.helper l' ∧ s.sys.helper.step c l' = some s'.sys.helper ∧
      l'.isGet = ends l := by
  cases step_case hs with
  | sys hplain hsys =>
    cases System.step_case hsys with
    | op | initRequest => cases hplain
    | client | read | readReturn | send | writeReturn => exact .inl ⟨rfl, rfl⟩
    | advance _ hh => exact .inr ⟨.advance, trivial, hh, rfl⟩
    | getNone _ hh => exact .inr ⟨.get none, trivial, hh, rfl⟩
  | op _ hsys =>
    cases System.step_case hsys with
    | op _ hh => exact .inr ⟨.op (s.gpu.answers _), show _ = _ from rfl, hh, rfl⟩
  | initRequest _ hsys =>
    cases System.step_case hsys with
    | initRequest _ hh => exact .inr ⟨.get (some _), trivial, hh, rfl⟩
  | exec | hostWrite => exact .inl ⟨rfl, rfl⟩

theorem step_grows {l : WholeStep T} (hs : s.step c k l = some s') :
    ∃ acc hand cbs, s'.sys.calls.accepted = s.sys.calls.accepted ++ acc ∧
      s'.sys.calls.handed = s.sys.calls.handed ++ hand ∧
      s'.sys.calls.kernel.callbacks = s.sys.calls.kernel.callbacks ++ cbs := by
  rcases step_calls hs with heq | ⟨l', hk, -⟩
  · exact ⟨[], [], [], by simp [heq], by simp [heq], by simp [heq]⟩
  · exact Calls.step_grows hk

end Parts

/-! ## Reading -/

/-- What can be said of `n` iterations later: the submissions are still there, the
    helper has read those there were or one in each iteration, and no more than that. -/
structure Later (s s' : Whole T) (n : Nat) : Prop where
  accepted : ∃ acc, s'.sys.calls.accepted = s.sys.calls.accepted ++ acc
  read : s.sys.calls.accepted.length ≤ s'.sys.helper.readCount ∨
    s.sys.helper.readCount + n ≤ s'.sys.helper.readCount
  count_le : s'.sys.helper.readCount ≤ s.sys.helper.readCount + n
  held_le : s'.sys.helper.allReqs.length ≤ s.sys.helper.allReqs.length + n
  polls : ∀ t, s.sys.helper.polls t ≤ s'.sys.helper.polls t

/-- With nothing waiting, everything accepted has been read. -/
theorem read_all (hserv : s.Serving c) (hacc : s.sys.calls.Accounted) (hpc : s.sys.pc = .user)
    (hreqs : s.sys.calls.kernel.reqs = []) :
    s.sys.helper.readCount = s.sys.calls.accepted.length := by
  have hcount := hserv.count
  rw [hpc] at hcount
  rw [hacc.order, hreqs, List.append_nil, hcount]
  rfl

variable [DecidableEq T]

theorem Later.step {s₀ : Whole T} {n : Nat} (h : s₀.Later s n) (hserv : s.Serving c)
    (hacc : s.sys.calls.Accounted) {l : WholeStep T} (hok : s.Attentive l)
    (hs : s.step c k l = some s') : s₀.Later s' (n + rounds ends [l]) := by
  obtain ⟨acc, hold⟩ := h.accepted
  obtain ⟨acc', -, -, hnew, -, -⟩ := step_grows hs
  have haccepted : ∃ acc, s'.sys.calls.accepted = s₀.sys.calls.accepted ++ acc :=
    ⟨acc ++ acc', by rw [hnew, hold, List.append_assoc]⟩
  rcases step_helper hs with ⟨heq, hl⟩ | ⟨l', -, hh, hl⟩
  · have hzero : rounds ends [l] = 0 := by simp [rounds, hl]
    rw [hzero]
    exact ⟨haccepted, by rw [heq]; exact h.read, by rw [heq]; exact h.count_le,
      by rw [heq]; exact h.held_le, by rw [heq]; exact h.polls⟩
  · obtain ⟨hge, hle, hheld⟩ := Helper.step_sizes hh
    have hround : (if l'.isGet = true then 1 else 0) = rounds ends [l] := by
      simp only [rounds, List.countP_singleton, hl]
    rw [hround] at hle hheld
    refine ⟨haccepted, ?_, ?_, ?_, fun t => Nat.le_trans (h.polls t) (Helper.step_polls hh t)⟩
    · rcases h.read with hread | hread
      · exact .inl (Nat.le_trans hread hge)
      · cases hend : ends l with
        | false =>
          have hzero : rounds ends [l] = 0 := by simp [rounds, hend]
          exact .inr (by omega)
        | true =>
          cases step_case hs with
          | sys hplain hsys =>
            cases System.step_case hsys with
            | getNone hpc =>
              have hall := read_all hserv hacc hpc hok
              rw [hold, List.length_append] at hall
              exact .inl (by omega)
            | _ => cases hend
          | initRequest _ hsys =>
            cases System.step_case hsys with
            | @initRequest kureq _ _ hh' =>
              obtain ⟨-, rfl⟩ := Helper.step_get_inv hh'
              have hone : rounds ends [(.initRequest : WholeStep T)] = 1 := rfl
              refine .inr ?_
              have hnew : (s.sys.helper.khInitServiceRequest c kureq).readCount =
                s.sys.helper.readCount + 1 := (Helper.khInitServiceRequest_frame kureq).2.1
              rw [hone]
              exact Nat.le_trans (Nat.add_le_add_right hread 1) (Nat.le_of_eq hnew.symm)
          | _ => cases hend
    · have := h.count_le
      omega
    · have := h.held_le
      omega

/-! ## Answered requests -/

/-- The submission of every request that is no longer held has had its callback. -/
def Delivered (s : Whole T) : Prop :=
  ∀ t < s.sys.helper.next, t ∉ s.sys.helper.allReqs ∨ s.Answering t →
    ∀ item, s.sys.calls.handed[t]? = some item → item ∈ s.sys.calls.kernel.callbacks.map (·.1)

namespace Delivered

/-- A step after which no other request is answered than before, or it has its callback. -/
theorem of_grows (h : s.Delivered) (hserv : s.Serving c) {l : WholeStep T}
    (hs : s.step c k l = some s') (hnext : s'.sys.helper.next = s.sys.helper.next)
    (hold : ∀ t, t ∉ s'.sys.helper.allReqs ∨ s'.Answering t →
      (t ∉ s.sys.helper.allReqs ∨ s.Answering t) ∨ ∀ item, s.sys.calls.handed[t]? = some item →
        item ∈ s'.sys.calls.kernel.callbacks.map (·.1)) : s'.Delivered := by
  intro t ht hdone item hat
  rw [hnext] at ht
  obtain ⟨-, hand, cbs, -, hhand, hcb⟩ := step_grows hs
  have hlen : t < s.sys.calls.handed.length := by
    rw [hserv.count]
    exact Nat.lt_of_lt_of_le ht (Nat.le_add_right _ _)
  rw [hhand, List.getElem?_append_left hlen] at hat
  rcases hold t hdone with hbefore | hnow
  · rw [hcb, List.map_append]
    exact List.mem_append_left _ (h t ht hbefore item hat)
  · exact hnow item hat

theorem sys (h : s.Delivered) (hserv : s.Serving c) (hj : s.sys.Joined) {l : SysStep T}
    {sys : System T} (hplain : l.plain = true) (hsys : s.sys.step c l = some sys)
    (hs : s.step c k (.sys l) = some { s with sys := sys }) :
    Delivered { s with sys := sys } := by
  refine h.of_grows hserv hs ?_ fun t hdone => ?_
  · cases System.step_case hsys with
    | op | initRequest => cases hplain
    | advance _ hh =>
      obtain ⟨x, pc, -, rfl, -⟩ := Helper.step_advance_inv hh
      rfl
    | getNone _ hh =>
      obtain ⟨-, rfl⟩ := Helper.step_get_inv hh
      rfl
    | client | read | readReturn | send | writeReturn => rfl
  · cases System.step_case hsys with
    | op | initRequest => cases hplain
    | client => exact .inl hdone
    | advance _ hh =>
      obtain ⟨x, pc, -, rfl, -⟩ := Helper.step_advance_inv hh
      exact .inl (.inl (hdone.resolve_right fun ha => by cases ha.1))
    | getNone _ hh =>
      obtain ⟨-, rfl⟩ := Helper.step_get_inv hh
      exact .inl (.inl (hdone.resolve_right fun ha => by cases ha.1))
    | read | readReturn => exact .inl (.inl (hdone.resolve_right fun ha => by cases ha.1))
    | send hpc =>
      refine .inl (.inl (hdone.resolve_right fun ha => ?_))
      have hwrote := ha.1
      dsimp only at hwrote
      split at hwrote <;> cases hwrote
    | writeReturn hpc hk =>
      rcases hdone with hnot | ⟨-, rest, hpc'⟩
      · exact .inl (.inl hnot)
      · refine .inr fun item hat => ?_
        obtain ⟨item', t', rest', hdev, hdone', -⟩ := hj.at_writing hpc
        rw [show s.sys.helper.pc = _ from hpc'] at hdone'
        cases hdone'
        cases Option.some.inj (hat.symm.trans (hserv.writing item' _ _ hdev t rest hpc'))
        obtain ⟨-, -, hcb, -⟩ := Calls.step_writeComplete hdev hk
        rw [hcb]
        simp

/-- `kh_service_done` drops the request whose callback was invoked. -/
theorem op (h : s.Delivered) (hserv : s.Serving c) (hl : s.sys.helper.Listed) {x : ReqState}
    {t : Token} {rest : List Token} {sys : System T}
    {fifo : Fin maxStreamNr → List GpuOp} (hpc : s.sys.helper.pc = .process x (t :: rest))
    (hsys : s.sys.step c (.op (s.gpu.answers t)) = some sys)
    (hs : s.step c k .op = some { s with sys := sys, fifo := fifo }) :
    Delivered { s with sys := sys, fifo := fifo } := by
  cases System.step_case hsys with
  | op hready hh =>
    obtain ⟨x', t', rest', hpc', rfl⟩ := Helper.step_op_inv hh
    rw [hpc] at hpc'
    cases hpc'
    refine h.of_grows hserv hs Helper.runOp_next fun u hdone => .inl ?_
    have hnot : u ∉ (s.sys.helper.runOp c x t (s.gpu.answers t)).2.allReqs :=
      hdone.resolve_right fun ha => by cases ha.1
    rw [Helper.runOp_allReqs] at hnot
    split at hnot
    next hx =>
      subst hx
      by_cases hut : u = t
      · subst hut
        refine .inr ⟨?_, rest, hpc⟩
        simp only [System.ready, hpc] at hready
        split at hready
        next heq =>
          cases heq
          simp at hready
        next hwrote _ => exact hwrote
        next => cases hready
      · exact .inl fun hm => hnot ((hl.nodup_all.mem_erase_iff).mpr ⟨hut, hm⟩)
    next => exact .inl hnot

theorem initRequest (h : s.Delivered) {sys : System T} {seen : Token → KuRequest × Memory}
    (hsys : s.sys.step c .initRequest = some sys) :
    Delivered { s with sys := sys, seen := seen } := by
  cases System.step_case hsys with
  | @initRequest q _ _ hh =>
    obtain ⟨-, rfl⟩ := Helper.step_get_inv hh
    intro t ht hdone item hat
    have hall := (Helper.khInitServiceRequest_frame (c := c) (s := s.sys.helper) q).1
    have hnext := (Helper.khInitServiceRequest_frame (c := c) (s := s.sys.helper) q).2.1
    have hnot : t ∉ (s.sys.helper.khInitServiceRequest c q).allReqs :=
      hdone.resolve_right fun ha => by cases ha.1
    change t < (s.sys.helper.khInitServiceRequest c q).next at ht
    rw [hall, List.mem_append, not_or] at hnot
    rw [hnext] at ht
    refine h t (Nat.lt_of_le_of_ne (Nat.le_of_lt_succ ht) fun e => ?_) (.inl hnot.1) item hat
    exact hnot.2 (List.mem_singleton.mpr e)

theorem step (h : s.Delivered) (hserv : s.Serving c) (hj : s.sys.Joined) (hl : s.sys.helper.Listed)
    {l : WholeStep T} (hs : s.step c k l = some s') : s'.Delivered := by
  cases step_case hs with
  | sys hplain hsys => exact h.sys hserv hj hplain hsys hs
  | op hpc hsys => exact h.op hserv hl hpc hsys hs
  | initRequest _ hsys => exact h.initRequest hsys
  | exec | hostWrite => exact h

end Delivered

/-! ## Runs -/

/-- Labels whose condition can be read off the queue. -/
def quiet (s : Whole T) : WholeStep T → Bool
  | .sys .getNone => s.sys.calls.kernel.reqs.isEmpty
  | .sys (.client (.edit ..)) | .sys (.client (.append _)) | .hostWrite .. => false
  | _ => true

end Whole
end Kgpu
