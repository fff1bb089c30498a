-- SUMMARY: What a client finds when its callback is invoked: the result of its own request.
import Kgpu.System.Whole

/-!
# End to end

A client puts a request on the queue, the kernel hands it to the helper, the helper has
the GPU work on it, and the response of the helper leads back to the client's callback
by the id only. This file follows one submission all the way: the helper's request
with token `t` is the `t`-th submission handed out, its response completes that
submission, and the output it finds is the one of the service on its own input.
-/

namespace Kgpu

open Library

variable {T : Type}

/-! ## What the queues ask for -/

/-- Requests that can be told apart and have no byte in common. -/
def Config.Unrelated (c : Config) (q q' : KuRequest) : Prop :=
  q.id ≠ q'.id ∧ ∀ x, ¬ ((c.ofKuRequest q).Own x ∧ (c.ofKuRequest q').Own x)

theorem Config.Unrelated.symm {c : Config} {q q' : KuRequest} (h : c.Unrelated q q') :
    c.Unrelated q' q :=
  ⟨h.1.symm, fun x hx => h.2 x hx.symm⟩

/-- What the clients see to: requests in flight are inside the two regions and apart from
    each other. -/
structure Config.Apart (c : Config) (qs : List KuRequest) : Prop where
  contained : ∀ q ∈ qs, c.Contained (c.ofKuRequest q)
  separate : qs.Pairwise c.Unrelated

namespace Config.Apart

variable {c : Config} {qs qs' : List KuRequest} {q : KuRequest}

theorem perm (h : c.Apart qs) (hp : qs'.Perm qs) : c.Apart qs' :=
  ⟨fun q hq => h.contained q (hp.mem_iff.mp hq),
    (hp.pairwise_iff fun h => h.symm).mpr h.separate⟩

theorem push (h : c.Apart qs) (hq : c.Contained (c.ofKuRequest q))
    (hsep : ∀ q' ∈ qs, c.Unrelated q q') : c.Apart (q :: qs) :=
  ⟨List.forall_mem_cons.mpr ⟨hq, h.contained⟩, List.pairwise_cons.mpr ⟨hsep, h.separate⟩⟩

theorem tail (h : c.Apart (q :: qs)) : c.Apart qs :=
  ⟨fun q' hq => h.contained q' (List.mem_cons_of_mem _ hq), (List.pairwise_cons.mp h.separate).2⟩

end Config.Apart

namespace Calls

/-- What `fill_ku_request` makes of a request as it is now. -/
def asked (s : Calls T) (r : ReqPtr) : KuRequest := s.kernel.gmpool.fillKuRequest (s.kernel.req r)

/-- What the items in flight ask for. -/
def asks (s : Calls T) : List KuRequest := s.pending.map fun item => s.asked item.r

variable {s s' : Calls T}

theorem asked_mem {item : RequestItem} (hi : item ∈ s.pending) : s.asked item.r ∈ s.asks :=
  List.mem_map.mpr ⟨item, hi, rfl⟩

theorem asks_perm (hp : s'.pending.Perm s.pending) (ha : s'.asked = s.asked) :
    s'.asks.Perm s.asks := by
  rw [asks, asks, ha]
  exact hp.map _

/-- Different items in flight ask for things apart. -/
theorem unrelated_of_ne {c : Config} (h : c.Apart s.asks) {item item' : RequestItem}
    (hi : item ∈ s.pending) (hi' : item' ∈ s.pending) (hne : item ≠ item') :
    c.Unrelated (s.asked item.r) (s.asked item'.r) := by
  have hsymm : Std.Symm fun i j : RequestItem => c.Unrelated (s.asked i.r) (s.asked j.r) :=
    ⟨fun _ _ h => h.symm⟩
  exact (List.pairwise_map.mp h.separate).forall hi hi' hne

variable [DecidableEq T]

/-- A step of a call leaves the pool alone. -/
theorem step_gmpool {l : CallStep T} (hs : s.step l = some s') :
    s'.kernel.gmpool = s.kernel.gmpool := by
  cases step_case hs with
  | asyncEntered hs | syncEntered hs => rw [enter_kernel hs]
  | _ => rfl

/-- Apart from edits, only the callback with its data and the error code are assigned to. -/
theorem step_req {l : CallStep T} (hs : s.step l = some s') {r : ReqPtr}
    (hedit : ∀ q, l ≠ .edit r q) : ∃ callback kdata errcode, s'.kernel.req r =
      { s.kernel.req r with callback := callback, kdata := kdata, errcode := errcode } := by
  have hupdate : ∀ {r' : ReqPtr} {q : KgpuRequest},
      s'.kernel.req = Function.update s.kernel.req r' q →
      (∃ callback kdata errcode, q =
        { s.kernel.req r' with callback := callback, kdata := kdata, errcode := errcode }) →
      ∃ callback kdata errcode, s'.kernel.req r =
        { s.kernel.req r with callback := callback, kdata := kdata, errcode := errcode } := by
    intro r' q heq hq
    by_cases hr : r = r'
    · subst hr
      rw [heq, Function.update_self]
      exact hq
    · rw [heq, Function.update_of_ne hr]
      exact ⟨_, _, _, rfl⟩
  cases step_case hs with
  | asyncEntered hs | syncEntered hs =>
    rw [enter_kernel hs]
    exact ⟨_, _, _, rfl⟩
  | gotData | noData | asyncGotItem | asyncNoItem | syncGotItem | syncNoItem | asyncAppended
  | syncAppended | woken | signalled | taken | retired | tooShort | unknown | found
  | stopped => exact ⟨_, _, _, rfl⟩
  | swapped | finished => exact hupdate rfl ⟨_, _, _, rfl⟩
  | completed => exact hupdate Kernel.writeComplete_req ⟨_, _, _, rfl⟩
  | @edited r' q =>
    have hr : r ≠ r' := fun e => hedit q (by rw [e])
    exact ⟨_, _, _, Function.update_of_ne hr ..⟩

/-- Only an edit changes what a request asks for. -/
theorem step_asked {l : CallStep T} (hs : s.step l = some s') {r : ReqPtr}
    (hedit : ∀ q, l ≠ .edit r q) : s'.asked r = s.asked r := by
  obtain ⟨_, _, _, hreq⟩ := step_req hs hedit
  rw [asked, asked, step_gmpool hs, hreq]
  rfl

omit [DecidableEq T] in
theorem SameQueues.pending (h : s.SameQueues s') : s'.pending = s.pending := by
  rw [Calls.pending, Calls.pending, h.reqs, h.dev, h.rtdreqs]

/-- A step of a client adds at most one item to those in flight. -/
theorem step_client_pending {l : CallStep T} (hl : l.kind ≠ .device) (hs : s.step l = some s') :
    s'.handed = s.handed ∧ s'.dev = s.dev ∧ (s'.pending = s.pending ∨
      ∃ t r, l = .append t ∧ (s.pc t).req = some r ∧
        s'.pending.Perm (⟨s.nextItem, r⟩ :: s.pending)) := by
  have hpush : ∀ r, (s.push r).pending.Perm (⟨s.nextItem, r⟩ :: s.pending) := by
    intro r
    simp [Calls.pending, push]
  cases hk : l.kind with
  | device => exact absurd hk hl
  | inside =>
    have hsame := (step_inside hk hs).1
    exact ⟨hsame.handed, hsame.dev, .inl hsame.pending⟩
  | append =>
    cases step_case hs with
    | asyncAppended hpc | syncAppended hpc =>
      exact ⟨rfl, rfl, .inr ⟨_, _, rfl, by rw [hpc]; rfl, hpush _⟩⟩
    | _ => cases hk
  | edit =>
    cases l with
    | edit r q =>
      have hsame := (step_edit hs).1
      exact ⟨hsame.handed, hsame.dev, .inl hsame.pending⟩
    | _ => cases hk

end Calls

/-! ## Following the submissions -/

/-- What the response to a request says when every function of its service succeeds. -/
def Config.codeFor (c : Config) (q : KuRequest) : Int :=
  if (c.khLookupService q.serviceName).isSome then 0 else kgpuNoService

/-- The helper has a request in its hands that it has not set up yet. -/
def SysPc.ahead : SysPc → Nat
  | .reading | .hasRead _ => 1
  | _ => 0

/-- The steps that may be taken at any time. -/
def WholeStep.free : WholeStep T → Bool
  | .sys (.client (.edit _ _)) | .sys (.client (.append _)) | .hostWrite _ _ => false
  | _ => true

namespace Whole

/-- A client does not write to a request in flight. When it puts one on the queue, that
    one is inside the two regions and apart from those in flight, and nobody writes the
    host bytes of a request in flight. -/
def Orderly (c : Config) (s : Whole T) : WholeStep T → Prop
  | .sys (.client (.edit r _)) => r ∉ s.sys.calls.pending.map (·.r)
  | .sys (.client (.append t)) => ∀ r, (s.sys.calls.pc t).req = some r →
      c.Contained (c.ofKuRequest (s.sys.calls.asked r)) ∧
      ∀ q ∈ s.sys.calls.asks, c.Unrelated (s.sys.calls.asked r) q
  | .hostWrite x _ => ∀ q ∈ s.sys.calls.asks, ¬ (c.ofKuRequest q).Own x
  | _ => True

/-- The callback of the request has been invoked and the helper has not released it yet. -/
def Answering (s : Whole T) (t : Token) : Prop :=
  s.sys.pc = .wrote ∧ ∃ rest, s.sys.helper.pc = .process .done (t :: rest)

/-- The request with token `t` is the `t`-th submission handed out. -/
structure Serving (c : Config) (s : Whole T) : Prop where
  apart : c.Apart s.sys.calls.asks
  count : s.sys.calls.handed.length = s.sys.helper.next + s.sys.pc.ahead
  reading : ∀ item kureq n, s.sys.calls.dev = .reading item kureq n →
    s.sys.calls.handed[s.sys.helper.next]? = some item ∧ kureq = s.sys.calls.asked item.r
  hasRead : ∀ kureq, s.sys.pc = .hasRead kureq → ∃ item ∈ s.sys.calls.pending,
    s.sys.calls.handed[s.sys.helper.next]? = some item ∧ kureq = s.sys.calls.asked item.r
  held : ∀ t ∈ s.sys.helper.allReqs, s.Answering t ∨ ∃ item ∈ s.sys.calls.pending,
    s.sys.calls.handed[t]? = some item ∧ (s.seen t).1 = s.sys.calls.asked item.r
  writing : ∀ item n resp, s.sys.calls.dev = .writing item n resp → ∀ t rest,
    s.sys.helper.pc = .process .done (t :: rest) → s.sys.calls.handed[t]? = some item
  coded : ∀ t ∈ s.sys.helper.allReqs, (s.sys.helper.sr t).id = (s.seen t).1.id ∧
    (s.sys.helper.sr t).errcode = c.codeFor (s.seen t).1

namespace Serving

variable {c : Config} {s : Whole T} {k : Calls T}

section Clients

variable [DecidableEq T]

theorem client (h : s.Serving c) {l : CallStep T} (hl : l.kind ≠ .device)
    (hok : s.Orderly c (.sys (.client l))) (hs : s.sys.calls.step l = some k) :
    Serving c { s with sys := { s.sys with calls := k } } := by
  obtain ⟨hhanded, hdev, hpend⟩ := Calls.step_client_pending hl hs
  have hasked : ∀ item ∈ s.sys.calls.pending, k.asked item.r = s.sys.calls.asked item.r := by
    refine fun item hi => Calls.step_asked hs fun q hq => ?_
    subst hq
    exact hok (List.mem_map.mpr ⟨item, hi, rfl⟩)
  have hmap : s.sys.calls.pending.map (fun item => k.asked item.r) = s.sys.calls.asks :=
    List.map_congr_left hasked
  have hmem : ∀ item ∈ s.sys.calls.pending, item ∈ k.pending := by
    intro item hi
    rcases hpend with hp | ⟨t, r, -, -, hp⟩
    · rw [hp]
      exact hi
    · exact hp.mem_iff.mpr (List.mem_cons_of_mem _ hi)
  refine ⟨?_, ?_, ?_, ?_, ?_, ?_, h.coded⟩
  · change c.Apart k.asks
    rcases hpend with hp | ⟨t, r, rfl, hr, hp⟩
    · rw [Calls.asks, hp, hmap]
      exact h.apart
    · obtain ⟨hin, hsep⟩ := hok r hr
      have hnew : k.asked r = s.sys.calls.asked r := Calls.step_asked hs (by simp)
      refine (h.apart.push hin hsep).perm ?_
      rw [Calls.asks, ← hnew, ← hmap]
      exact hp.map _
  · change k.handed.length = _
    rw [hhanded]
    exact h.count
  · intro item kureq n hd
    obtain ⟨hat, hq⟩ := h.reading item kureq n (hdev ▸ hd)
    have hi : item ∈ s.sys.calls.pending := by
      rw [Calls.pending, show s.sys.calls.dev = _ from hdev ▸ hd]
      simp [DevPc.held]
    exact ⟨hhanded ▸ hat, hq.trans (hasked item hi).symm⟩
  · intro kureq hpc
    obtain ⟨item, hi, hat, hq⟩ := h.hasRead kureq hpc
    exact ⟨item, hmem item hi, hhanded ▸ hat, hq.trans (hasked item hi).symm⟩
  · intro t ht
    rcases h.held t ht with ha | ⟨item, hi, hat, hq⟩
    · exact .inl ha
    · exact .inr ⟨item, hmem item hi, hhanded ▸ hat, hq.trans (hasked item hi).symm⟩
  · intro item n resp hd t rest hpc
    change k.handed[t]? = some item
    rw [hhanded]
    exact h.writing item n resp (hdev ▸ hd) t rest hpc

end Clients

/-! ## The device -/

/-- Outside of `kh_service_done` every request of the helper is in flight. -/
theorem inFlight (h : s.Serving c) (hpc : s.sys.pc ≠ .wrote) {t : Token}
    (ht : t ∈ s.sys.helper.allReqs) : ∃ item ∈ s.sys.calls.pending,
      s.sys.calls.handed[t]? = some item ∧ (s.seen t).1 = s.sys.calls.asked item.r :=
  (h.held t ht).resolve_left fun ha => hpc ha.1

/-- A section of `kgpu_read` or `kgpu_write` that keeps the items in flight. -/
theorem device (h : s.Serving c) {pc : SysPc} {taken : List RequestItem}
    (hpc : s.sys.pc ≠ .wrote) (hasked : k.asked = s.sys.calls.asked)
    (hperm : k.pending.Perm s.sys.calls.pending)
    (hhanded : ∃ new, k.handed = s.sys.calls.handed ++ new)
    (hcount : k.handed.length = s.sys.helper.next + pc.ahead)
    (hreading : ∀ item kureq n, k.dev = .reading item kureq n →
      k.handed[s.sys.helper.next]? = some item ∧ kureq = s.sys.calls.asked item.r)
    (hhasRead : ∀ kureq, pc = .hasRead kureq → ∃ item ∈ s.sys.calls.pending,
      k.handed[s.sys.helper.next]? = some item ∧ kureq = s.sys.calls.asked item.r)
    (hwriting : ∀ item n resp, k.dev = .writing item n resp → ∀ t rest,
      s.sys.helper.pc = .process .done (t :: rest) → k.handed[t]? = some item) :
    Serving c { s with sys := { s.sys with calls := k, pc := pc, taken := taken } } := by
  refine ⟨?_, hcount, ?_, ?_, ?_, hwriting, h.coded⟩
  · exact h.apart.perm (Calls.asks_perm hperm hasked)
  · intro item kureq n hd
    obtain ⟨hat, hq⟩ := hreading item kureq n hd
    exact ⟨hat, hq.trans (congrFun hasked item.r).symm⟩
  · intro kureq hk
    obtain ⟨item, hi, hat, hq⟩ := hhasRead kureq hk
    exact ⟨item, hperm.mem_iff.mpr hi, hat, hq.trans (congrFun hasked item.r).symm⟩
  · intro t ht
    obtain ⟨item, hi, hat, hq⟩ := h.inFlight hpc ht
    refine .inr ⟨item, hperm.mem_iff.mpr hi, ?_, hq.trans (congrFun hasked item.r).symm⟩
    change k.handed[t]? = some item
    obtain ⟨new, hnew⟩ := hhanded
    rw [hnew, List.getElem?_append_left (List.getElem?_eq_some_iff.mp hat).1]
    exact hat

section Device

variable [DecidableEq T]

theorem read (h : s.Serving c) (hpc : s.sys.pc = .user)
    (hs : s.sys.calls.step (.readTake kuRequestSize) = some k) :
    Serving c { s with sys := { s.sys with calls := k, pc := .reading } } := by
  have hasked : k.asked = s.sys.calls.asked := funext fun r => Calls.step_asked hs (by simp)
  have hlen : s.sys.calls.handed.length = s.sys.helper.next := by
    have hcount := h.count
    rwa [hpc] at hcount
  obtain ⟨hdev, item, rest, hreqs, rfl⟩ := Calls.step_readTake hs
  refine h.device (by simp [hpc]) hasked ?_ ⟨[item], rfl⟩ ?_ ?_ (by simp) (by simp)
  · simp [Calls.pending, hdev, hreqs, DevPc.held]
  · simp [hlen, SysPc.ahead]
  · intro item' kureq n hd
    cases hd
    exact ⟨by simp [← hlen], rfl⟩

theorem readReturn (h : s.Serving c) (hpc : s.sys.pc = .reading) {item : RequestItem}
    {kureq : KuRequest} (hdev : s.sys.calls.dev = .reading item kureq kuRequestSize)
    (hs : s.sys.calls.step .readRetire = some k) :
    Serving c { s with sys := { s.sys with calls := k, pc := .hasRead kureq } } := by
  have hasked : k.asked = s.sys.calls.asked := funext fun r => Calls.step_asked hs (by simp)
  have hcount := h.count
  rw [hpc] at hcount
  obtain ⟨hat, hq⟩ := h.reading item kureq _ hdev
  have hi : item ∈ s.sys.calls.pending := by
    rw [Calls.pending, hdev]
    simp [DevPc.held]
  cases Calls.step_readRetire (by decide) hdev hs
  refine h.device (by simp [hpc]) hasked ?_ ⟨[], by simp⟩ hcount (by simp) ?_ (by simp)
  · simp only [Calls.pending, hdev, DevPc.held, List.nil_append]
    exact List.perm_append_comm.append_left _
  · intro kureq' hk
    cases hk
    exact ⟨item, hi, hat, hq⟩

/-- The response finds the submission that the request was read from, because no other in
    flight has its id. -/
theorem send (h : s.Serving c) (hpc : s.sys.pc = .user) {t : Token} {rest : List Token}
    {pc : SysPc} {taken : List RequestItem} (hahead : pc.ahead = 0)
    (hnot : ∀ kureq, pc ≠ .hasRead kureq) (ht : t ∈ s.sys.helper.allReqs)
    (hdone : s.sys.helper.pc = .process .done (t :: rest))
    (hs : s.sys.calls.step (.writeFind kuResponseSize (s.sys.helper.response t)) = some k) :
    Serving c { s with sys := { s.sys with calls := k, pc := pc, taken := taken } } := by
  have hasked : k.asked = s.sys.calls.asked := funext fun r => Calls.step_asked hs (by simp)
  have hne : s.sys.pc ≠ .wrote := by simp [hpc]
  have hcount := h.count
  rw [hpc] at hcount
  obtain ⟨hdev, ⟨-, rfl⟩ | ⟨item, hmem, hid, rfl⟩⟩ := Calls.step_writeFind hs
  · refine h.device hne rfl (List.Perm.refl _) ⟨[], by simp⟩ ?_ ?_ ?_ ?_
    · rw [hahead]
      exact hcount
    · intro item kureq n hd
      rw [show s.sys.calls.dev = _ from hd] at hdev
      cases hdev
    · exact fun kureq hk => absurd hk (hnot kureq)
    · intro item n resp hd
      rw [show s.sys.calls.dev = _ from hd] at hdev
      cases hdev
  · refine h.device hne hasked ?_ ⟨[], by simp⟩ ?_ (by simp) ?_ ?_
    · simp only [Calls.pending, hdev, DevPc.held, List.nil_append]
      exact (List.perm_cons_erase hmem).symm.append_left _
    · rw [hahead]
      exact hcount
    · exact fun kureq hk => absurd hk (hnot kureq)
    · intro item' n resp hd t' rest' hpc'
      cases hd
      rw [hdone] at hpc'
      cases hpc'
      obtain ⟨item', hi', hat, hq⟩ := h.inFlight hne ht
      have hin : item ∈ s.sys.calls.pending := by simp [Calls.pending, hmem]
      have hsame : item = item' := by
        by_contra hdiff
        refine (Calls.unrelated_of_ne h.apart hin hi' hdiff).1 ?_
        calc (s.sys.calls.asked item.r).id
            = (s.sys.helper.response t).id := hid
          _ = (s.seen t).1.id := (h.coded t ht).1
          _ = (s.sys.calls.asked item'.r).id := by rw [hq]
      rw [hsame]
      exact hat

/-- The write takes its submission out of flight; the helper's request stays until
    `kh_service_done` goes on. -/
theorem writeReturn (h : s.Serving c) (hnd : s.sys.calls.handed.Nodup)
    (hpc : s.sys.pc = .writing) {item : RequestItem}
    {n : UL} {resp : KuResponse} {t : Token} {rest : List Token}
    (hdev : s.sys.calls.dev = .writing item n resp)
    (hdone : s.sys.helper.pc = .process .done (t :: rest))
    (hs : s.sys.calls.step .writeComplete = some k) :
    Serving c { s with sys := { s.sys with calls := k, pc := .wrote } } := by
  have hasked : k.asked = s.sys.calls.asked := funext fun r => Calls.step_asked hs (by simp)
  have hcount := h.count
  rw [hpc] at hcount
  have hat := h.writing item n resp hdev t rest hdone
  obtain ⟨hreqs, hrtd, -, hdev', -, -, hhanded, -, -⟩ := Calls.step_writeComplete hdev hs
  have hperm : s.sys.calls.pending.Perm (item :: k.pending) := by
    rw [Calls.pending, Calls.pending, hdev, hdev', hreqs, hrtd]
    simp [DevPc.held]
  refine ⟨?_, ?_, ?_, by simp, ?_, ?_, h.coded⟩
  · have hall := h.apart.perm (hperm.symm.map fun item => s.sys.calls.asked item.r)
    rw [List.map_cons] at hall
    change c.Apart k.asks
    rw [Calls.asks, hasked]
    exact hall.tail
  · change k.handed.length = _
    rw [hhanded]
    exact hcount
  · intro item' kureq n' hd
    rw [show k.dev = _ from hd] at hdev'
    cases hdev'
  · intro t' ht'
    by_cases htt : t' = t
    · exact .inl ⟨rfl, rest, by rw [htt]; exact hdone⟩
    · obtain ⟨item', hi', hat', hq⟩ := h.inFlight (by simp [hpc]) ht'
      have hne : item' ≠ item := by
        rintro rfl
        exact htt ((List.getElem?_inj (List.getElem?_eq_some_iff.mp hat').1 hnd).mp (hat'.trans hat.symm))
      refine .inr ⟨item', ?_, hhanded ▸ hat', hq.trans (congrFun hasked item'.r).symm⟩
      exact (List.mem_cons.mp (hperm.mem_iff.mp hi')).resolve_left hne
  · intro item' n' resp' hd
    rw [show k.dev = _ from hd] at hdev'
    cases hdev'

end Device

/-! ## The helper -/

/-- The helper works on requests that it keeps, and keeps their ids and error codes. -/
theorem inside (h : s.Serving c) (hpc : s.sys.pc = .user) {h' : Helper}
    {fifo : Fin maxStreamNr → List GpuOp}
    (hidle : s.sys.calls.dev = .idle) (hnext : h'.next = s.sys.helper.next)
    (hall : h'.allReqs = s.sys.helper.allReqs)
    (hcode : ∀ t ∈ s.sys.helper.allReqs, (h'.sr t).id = (s.sys.helper.sr t).id ∧
      (h'.sr t).errcode = (s.sys.helper.sr t).errcode) :
    Serving c { s with sys := { s.sys with helper := h', pc := .user }, fifo := fifo } := by
  have hcount := h.count
  rw [hpc] at hcount
  refine ⟨h.apart, ?_, ?_, by simp, fun t ht => ?_, ?_, fun t ht => ?_⟩
  · rw [hnext]
    exact hcount
  · intro item kureq n hd
    rw [show s.sys.calls.dev = _ from hd] at hidle
    cases hidle
  · rw [hall] at ht
    exact .inr (h.inFlight (by simp [hpc]) ht)
  · intro item n resp hd
    rw [show s.sys.calls.dev = _ from hd] at hidle
    cases hidle
  · rw [hall] at ht
    obtain ⟨hid, he⟩ := h.coded t ht
    obtain ⟨hid', he'⟩ := hcode t ht
    exact ⟨hid'.trans hid, he'.trans he⟩

/-- An operation for which nothing fails leaves the error codes alone. -/
theorem runOp_errcode {h : Helper} {x : ReqState} {t : Token} {a : Answers} (ha : a.prepare = 0)
    (hb : a.launch = 0) (hd : a.post = 0) (t' : Token) :
    ((h.runOp c x t a).2.sr t').errcode = (h.sr t').errcode := by
  by_cases htt : t' = t
  · subst htt
    have hcase : Helper.OpCase c h t' a x (h.runOp c x t' a) := Helper.runOp_case
    generalize h.runOp c x t' a = r at hcase
    cases hcase with
    | prepareFailed _ _ hne => exact absurd ha hne
    | launchFailed hne => exact absurd hb hne
    | postFailed _ hne => exact absurd hd hne
    | allocRefused | allocated | noStream | prepared | launched | executing | posted | copying
    | finished | answered =>
      simp [Helper.touch, Helper.listDel, Config.gpuAllocDeviceMem, Config.gpuFreeDeviceMem]
  · rw [(Helper.runOp_other htt).1]

/-- `kh_service_done` drops the request whose callback was invoked. -/
theorem serviceDone (h : s.Serving c) (hl : s.sys.helper.Listed) (hpc : s.sys.pc = .wrote)
    {t : Token} {rest : List Token} {a : Answers} {pc : LoopPc}
    {fifo : Fin maxStreamNr → List GpuOp} (hidle : s.sys.calls.dev = .idle)
    (hdone : s.sys.helper.pc = .process .done (t :: rest)) :
    Serving c { s with
      sys := { s.sys with
        helper := { (s.sys.helper.runOp c .done t a).2 with pc := pc }
        pc := .user }
      fifo := fifo } := by
  have hcount := h.count
  rw [hpc] at hcount
  have hall : (s.sys.helper.runOp c .done t a).2.allReqs = s.sys.helper.allReqs.erase t := by
    rw [Helper.runOp_allReqs, if_pos rfl]
  have hother : ∀ t' ∈ (s.sys.helper.runOp c .done t a).2.allReqs,
      t' ≠ t ∧ t' ∈ s.sys.helper.allReqs := by
    intro t' ht'
    rw [hall, hl.nodup_all.mem_erase_iff] at ht'
    exact ht'
  refine ⟨h.apart, ?_, ?_, by simp, fun t' ht' => ?_, ?_, fun t' ht' => ?_⟩
  · change _ = (s.sys.helper.runOp c .done t a).2.next + 0
    rw [Helper.runOp_next]
    exact hcount
  · intro item kureq n hd
    rw [show s.sys.calls.dev = _ from hd] at hidle
    cases hidle
  · obtain ⟨hne, hmem⟩ := hother t' ht'
    refine .inr ((h.held t' hmem).resolve_left fun ha => ?_)
    obtain ⟨-, rest', hpc'⟩ := ha
    rw [hdone] at hpc'
    cases hpc'
    exact hne rfl
  · intro item n resp hd
    rw [show s.sys.calls.dev = _ from hd] at hidle
    cases hidle
  · obtain ⟨hne, hmem⟩ := hother t' ht'
    change ((s.sys.helper.runOp c .done t a).2.sr t').id = _ ∧
      ((s.sys.helper.runOp c .done t a).2.sr t').errcode = _
    rw [(Helper.runOp_other hne).1]
    exact h.coded t' hmem

/-- `kh_init_service_request` gives the submission that was read the next token. -/
theorem initRequest (h : s.Serving c) (hl : s.sys.helper.Listed) {kureq : KuRequest}
    {pc : LoopPc} {host : Memory} (hpc : s.sys.pc = .hasRead kureq)
    (hidle : s.sys.calls.dev = .idle) :
    Serving c { s with
      sys := { s.sys with
        helper := { s.sys.helper.khInitServiceRequest c kureq with pc := pc }
        pc := .user }
      seen := Function.update s.seen s.sys.helper.next (kureq, host) } := by
  obtain ⟨hall, hnext, -, -⟩ := Helper.khInitServiceRequest_frame (c := c) (s := s.sys.helper) kureq
  have hcount := h.count
  rw [hpc] at hcount
  have hcases : ∀ t ∈ (s.sys.helper.khInitServiceRequest c kureq).allReqs,
      (t ∈ s.sys.helper.allReqs ∧ t ≠ s.sys.helper.next) ∨ t = s.sys.helper.next := by
    intro t ht
    rw [hall, List.mem_append, List.mem_singleton] at ht
    exact ht.imp_left fun hm => ⟨hm, Nat.ne_of_lt (hl.lt_next t hm)⟩
  refine ⟨h.apart, ?_, ?_, by simp, fun t ht => .inr ?_, ?_, fun t ht => ?_⟩
  · change _ = (s.sys.helper.khInitServiceRequest c kureq).next + 0
    rw [hnext]
    exact hcount
  · intro item kureq' n hd
    rw [show s.sys.calls.dev = _ from hd] at hidle
    cases hidle
  · rcases hcases t ht with ⟨hm, hne⟩ | rfl
    · obtain ⟨item, hi, hat, hq⟩ := h.inFlight (by simp [hpc]) hm
      exact ⟨item, hi, hat, by simpa [Function.update_of_ne hne] using hq⟩
    · obtain ⟨item, hi, hat, hq⟩ := h.hasRead kureq hpc
      exact ⟨item, hi, hat, by simpa using hq⟩
  · intro item n resp hd
    rw [show s.sys.calls.dev = _ from hd] at hidle
    cases hidle
  · change ((s.sys.helper.khInitServiceRequest c kureq).sr t).id = _ ∧
      ((s.sys.helper.khInitServiceRequest c kureq).sr t).errcode = _
    rcases hcases t ht with ⟨hm, hne⟩ | rfl
    · rw [(Helper.khInitServiceRequest_other kureq hne).1]
      simpa [Function.update_of_ne hne] using h.coded t hm
    · rcases Helper.khInitServiceRequest_new (c := c) (s := s.sys.helper) kureq with
        ⟨hnone, hsr, -⟩ | ⟨p, hsome, hsr, -⟩
      · simp [hsr, Config.codeFor, Config.ofKuRequest, hnone]
      · simp [hsr, Config.codeFor, Config.ofKuRequest, hsome]

end Serving

/-! ## The view of the GPU -/

/-- The helper once the release of an answered request is done. -/
def released (c : Config) (h : Helper) : Helper :=
  match h.pc with
  | .process .done (t :: rest) => { (h.khServiceDone c t).2 with pc := .process .done rest }
  | _ => h

/-- The helper without a request whose callback was invoked. -/
def remaining (c : Config) (sys : System T) : Helper :=
  match sys.pc with
  | .wrote => released c sys.helper
  | _ => sys.helper

/-- What the GPU works with. -/
def view (c : Config) (s : Whole T) : Gpu := { s.gpu with helper := remaining c s.sys }

variable {c : Config} {k : Kernels} {s s' : Whole T}

theorem view_of_ne (hpc : s.sys.pc ≠ .wrote) : s.view c = s.gpu := by
  have hrest : remaining c s.sys = s.sys.helper := by
    unfold remaining
    split
    next h => exact absurd h hpc
    next => rfl
  rw [view, hrest]
  rfl

theorem view_wrote (hpc : s.sys.pc = .wrote) :
    s.view c = { s.gpu with helper := released c s.sys.helper } := by
  simp [view, remaining, hpc]

theorem released_done {h : Helper} {t : Token} {rest : List Token}
    (hdone : h.pc = .process .done (t :: rest)) :
    released c h = { (h.khServiceDone c t).2 with pc := .process .done rest } := by
  simp [released, hdone]

/-- The release is the operation of the helper on a request that is done. -/
theorem released_step {h : Helper} {t : Token} {rest : List Token} (a : Answers)
    (hdone : h.pc = .process .done (t :: rest)) : h.step c (.op a) = some (released c h) := by
  rw [released_done hdone]
  simp [Helper.step, hdone, Helper.runOp, Helper.once]

theorem gpu_step_done {t : Token} {rest : List Token}
    (hdone : s.sys.helper.pc = .process .done (t :: rest)) :
    s.gpu.step c k .op = some { s.gpu with helper := released c s.sys.helper } := by
  have hpc : s.gpu.helper.pc = .process .done (t :: rest) := hdone
  simp only [Gpu.step, hpc]
  rw [show s.gpu.helper.step c _ = _ from released_step _ hdone]
  simp only
  rw [Gpu.GpuInv.callService_idle (.inr (.inr (.inr rfl)))]
  rfl

/-- What the invariants of the main loop say of the helper in the view. -/
theorem view_helper {sr : Token → ServiceRequest} {ls : List HelperStep}
    (hj : s.sys.Joined) (hrun : Run (Helper.step c) Free (Helper.init sr) ls s.sys.helper) :
    (s.view c).helper.Listed ∧ (s.view c).helper.Walking ∧ (s.view c).helper.Streamed := by
  by_cases hpc : s.sys.pc = .wrote
  · obtain ⟨t, rest, -, hdone, -⟩ := hj.at_wrote hpc
    rw [view_wrote hpc]
    exact Helper.streamed_of_run (hrun.snoc trivial (released_step ⟨0, 0, 0, 0, false, false⟩ hdone))
  · rw [view_of_ne hpc]
    exact Helper.streamed_of_run hrun

/-- A request of the view is held by the helper, and not only until the release. -/
theorem view_mem (hj : s.sys.Joined) (hl : s.sys.helper.Listed) {t : Token}
    (ht : t ∈ (s.view c).helper.allReqs) : t ∈ s.sys.helper.allReqs ∧ ¬ s.Answering t := by
  by_cases hpc : s.sys.pc = .wrote
  · obtain ⟨t₀, rest, -, hdone, -⟩ := hj.at_wrote hpc
    rw [view_wrote hpc] at ht
    change t ∈ (released c s.sys.helper).allReqs at ht
    rw [released_done hdone] at ht
    change t ∈ (s.sys.helper.runOp c .done t₀ ⟨0, 0, 0, 0, false, false⟩).2.allReqs at ht
    rw [Helper.runOp_allReqs, if_pos rfl, hl.nodup_all.mem_erase_iff] at ht
    refine ⟨ht.2, fun ha => ?_⟩
    obtain ⟨-, rest', hpc'⟩ := ha
    rw [hdone] at hpc'
    cases hpc'
    exact ht.1 rfl
  · rw [view_of_ne hpc] at ht
    exact ⟨ht, fun ha => hpc ha.1⟩

/-- The requests of the view are in flight. -/
theorem Serving.view_held (h : s.Serving c) (hj : s.sys.Joined) (hl : s.sys.helper.Listed)
    {t : Token} (ht : t ∈ (s.view c).helper.allReqs) : ∃ item ∈ s.sys.calls.pending,
      s.sys.calls.handed[t]? = some item ∧ (s.seen t).1 = s.sys.calls.asked item.r := by
  obtain ⟨hmem, hnot⟩ := view_mem hj hl ht
  exact (h.held t hmem).resolve_left hnot

theorem Serving.view_inFlight (h : s.Serving c) (hj : s.sys.Joined) (hl : s.sys.helper.Listed)
    {t : Token} (ht : t ∈ (s.view c).helper.allReqs) :
    (s.seen t).1 ∈ s.sys.calls.asks := by
  obtain ⟨item, hi, -, hq⟩ := h.view_held hj hl ht
  rw [hq]
  exact Calls.asked_mem hi

/-! ## Runs -/

/-- What every run keeps. -/
structure Good (c : Config) (k : Kernels) (s : Whole T) : Prop where
  serving : s.Serving c
  gpuInv : (s.view c).GpuInv c k

namespace Good

theorem own_of_view (h : s.Good c k) {t : Token} (ht : t ∈ (s.view c).helper.allReqs) :
    ((s.view c).helper.sr t).Own = (c.ofKuRequest ((s.view c).seen t).1).Own :=
  (Gpu.sameRanges_own (h.gpuInv.asRead t ht)).2.2

variable [DecidableEq T]

theorem sys (h : s.Good c k) (hc : c.Regions) (ha : s.sys.Agreed) (hl : s.sys.helper.Listed)
    (hw : s.sys.helper.Walking) (hst : s.sys.helper.Streamed) {l : SysStep T} {sys : System T}
    (hplain : l.plain = true) (hok : s.Orderly c (.sys l)) (hs : s.sys.step c l = some sys) :
    Good c k { s with sys := sys } := by
  cases System.step_case hs with
  | op | initRequest => cases hplain
  | client hkind hk => exact ⟨h.serving.client hkind hok hk, h.gpuInv⟩
  | advance hpc hh =>
    obtain ⟨hidle, -⟩ := ha.joined.at_user hpc
    obtain ⟨x, pc, -, rfl, -⟩ := Helper.step_advance_inv hh
    have hne : s.sys.pc ≠ .wrote := by simp [hpc]
    have hinv := h.gpuInv
    rw [view_of_ne hne] at hinv
    refine ⟨h.serving.inside hpc hidle rfl rfl fun _ _ => ⟨rfl, rfl⟩, ?_⟩
    exact hinv.setPc pc
  | getNone hpc hh =>
    obtain ⟨hidle, -⟩ := ha.joined.at_user hpc
    obtain ⟨-, rfl⟩ := Helper.step_get_inv hh
    have hne : s.sys.pc ≠ .wrote := by simp [hpc]
    have hinv := h.gpuInv
    rw [view_of_ne hne] at hinv
    refine ⟨h.serving.inside hpc hidle rfl rfl fun _ _ => ⟨rfl, rfl⟩, ?_⟩
    exact hinv.setPc _
  | read hpc hget hk =>
    have hinv := h.gpuInv
    rw [view_of_ne (by simp [hpc])] at hinv
    exact ⟨h.serving.read hpc hk, hinv⟩
  | readReturn hpc hdev hk =>
    obtain ⟨item', kureq', hdev', -⟩ := ha.joined.at_reading hpc
    have hinv := h.gpuInv
    rw [view_of_ne (by simp [hpc])] at hinv
    rw [hdev] at hdev'
    cases hdev'
    exact ⟨h.serving.readReturn hpc hdev hk, hinv⟩
  | @send t rest _ hpc hdone hk =>
    have ht : t ∈ s.sys.helper.allReqs :=
      ((hl.mem_iff t .done).mp ((hw .done _ hdone).2 t List.mem_cons_self)).1
    have hinv := h.gpuInv
    rw [view_of_ne (by simp [hpc])] at hinv
    refine ⟨h.serving.send hpc ?_ ?_ ht hdone hk, ?_⟩
    · split <;> rfl
    · intro kureq
      split <;> simp
    · rw [view_of_ne]
      · exact hinv
      · dsimp only
        split <;> simp
  | writeReturn hpc hk =>
    obtain ⟨item, t, rest, hdev, hdone, -⟩ := ha.joined.at_writing hpc
    have hnd : s.sys.calls.handed.Nodup := by
      have hacc := ha.accounted.nodup
      rw [ha.accounted.order] at hacc
      exact (List.nodup_append.mp hacc).1
    have hinv := h.gpuInv
    rw [view_of_ne (by simp [hpc])] at hinv
    refine ⟨h.serving.writeReturn hnd hpc hdev hdone hk, ?_⟩
    rw [view_wrote rfl]
    exact hinv.step hc hl hw hst (l := .op) trivial (gpu_step_done hdone)

omit [DecidableEq T] in
/-- An operation of the pipeline before the last, with what the GPU answers to it. -/
theorem op_user (h : s.Good c k) (hc : c.Regions) (ha : s.sys.Agreed) (hl : s.sys.helper.Listed)
    (hw : s.sys.helper.Walking) (hst : s.sys.helper.Streamed) {x : ReqState} {t : Token}
    {rest : List Token} {h' : Helper} (hpc : s.sys.helper.pc = .process x (t :: rest))
    (hsys : s.sys.pc = .user) (hx : x ≠ .done)
    (hh : s.sys.helper.step c (.op (s.gpu.answers t)) = some h') :
    Good c k { s with
      sys := { s.sys with helper := h', pc := .user }
      fifo := (Gpu.callService k { s.gpu with helper := h' } x t).fifo } := by
  have hstep := hh
  obtain ⟨x', t', rest', hpc', rfl⟩ := Helper.step_op_inv hh
  rw [hpc] at hpc'
  cases hpc'
  obtain ⟨hidle, -⟩ := ha.joined.at_user hsys
  have hinv := h.gpuInv
  rw [view_of_ne (by simp [hsys])] at hinv
  refine ⟨h.serving.inside hsys hidle ?_ ?_ fun t' _ => ⟨?_, ?_⟩, ?_⟩
  · exact Helper.runOp_next
  · change (s.sys.helper.runOp c x t _).2.allReqs = _
    rw [Helper.runOp_allReqs, if_neg hx]
  · exact Helper.runOp_id t'
  · exact Serving.runOp_errcode rfl rfl rfl t'
  · rw [view_of_ne (by simp)]
    refine hinv.step hc hl hw hst (l := .op) trivial ?_
    have hgpu : s.gpu.helper.pc = .process x (t :: rest) := hpc
    simp only [Gpu.step, hgpu]
    rw [show s.gpu.helper.step c _ = _ from hstep]
    refine congrArg some ?_
    simp only [Gpu.callService]
    split <;> rfl

omit [DecidableEq T] in
/-- The rest of `kh_service_done` changes nothing in the view. -/
theorem op_wrote (h : s.Good c k) (ha : s.sys.Agreed) (hl : s.sys.helper.Listed) {t : Token}
    {rest : List Token} {h' : Helper} (hpc : s.sys.helper.pc = .process .done (t :: rest))
    (hsys : s.sys.pc = .wrote) (hh : s.sys.helper.step c (.op (s.gpu.answers t)) = some h') :
    Good c k { s with
      sys := { s.sys with helper := h', pc := .user }
      fifo := (Gpu.callService k { s.gpu with helper := h' } .done t).fifo } := by
  have hrel := Option.some.inj (hh.symm.trans (released_step _ hpc))
  obtain ⟨x', t', rest', hpc', rfl⟩ := Helper.step_op_inv hh
  rw [hpc] at hpc'
  cases hpc'
  obtain ⟨_, _, hidle, -⟩ := ha.joined.at_wrote hsys
  refine ⟨h.serving.serviceDone hl hsys hidle hpc, ?_⟩
  have hinv := h.gpuInv
  rw [view_wrote hsys] at hinv
  rw [view_of_ne (by simp), Gpu.GpuInv.callService_idle (.inr (.inr (.inr rfl)))]
  exact Eq.mpr (congrArg (fun h' => Gpu.GpuInv c k { s.gpu with helper := h' }) hrel) hinv

theorem op (h : s.Good c k) (hc : c.Regions) (ha : s.sys.Agreed) (hl : s.sys.helper.Listed)
    (hw : s.sys.helper.Walking) (hst : s.sys.helper.Streamed) {x : ReqState} {t : Token}
    {rest : List Token} {sys : System T} (hpc : s.sys.helper.pc = .process x (t :: rest))
    (hs : s.sys.step c (.op (s.gpu.answers t)) = some sys) :
    Good c k { s with
      sys := sys
      fifo := (Gpu.callService k { s.gpu with helper := sys.helper } x t).fifo } := by
  cases System.step_case hs with
  | op hready hh =>
    simp only [System.ready, hpc] at hready
    split at hready
    next hsys heq =>
      cases heq
      exact h.op_user hc ha hl hw hst hpc hsys (bne_iff_ne.mp hready) hh
    next hsys heq =>
      cases heq
      cases eq_of_beq hready
      exact h.op_wrote ha hl hpc hsys hh
    next => cases hready

theorem initRequest (h : s.Good c k) (ha : s.sys.Agreed) (hl : s.sys.helper.Listed)
    {kureq : KuRequest} {sys : System T} (hpc : s.sys.pc = .hasRead kureq)
    (hs : s.sys.step c .initRequest = some sys) :
    Good c k { s with
      sys := sys
      seen := Function.update s.seen s.sys.helper.next (kureq, s.host) } := by
  obtain ⟨hidle, -⟩ := ha.joined.at_hasRead hpc
  have hview : s.view c = s.gpu := view_of_ne (by simp [hpc])
  obtain ⟨item, hi, hat, hq⟩ := h.serving.hasRead kureq hpc
  have hin : c.Contained (c.ofKuRequest kureq) := by
    rw [hq]
    exact h.serving.apart.contained _ (Calls.asked_mem hi)
  have hdisj : ∀ t ∈ s.gpu.helper.allReqs, ∀ x,
      ¬ ((c.ofKuRequest kureq).Own x ∧ (s.gpu.helper.sr t).Own x) := by
    intro t ht
    have hown := h.own_of_view (t := t) (by rw [hview]; exact ht)
    rw [hview] at hown
    obtain ⟨item', hi', hat', hq'⟩ := h.serving.inFlight (by simp [hpc]) ht
    have hne : item ≠ item' := by
      rintro rfl
      have hnd := ha.accounted.nodup
      rw [ha.accounted.order] at hnd
      have heq := (List.getElem?_inj (List.getElem?_eq_some_iff.mp hat).1
        (List.nodup_append.mp hnd).1).mp (hat.trans hat'.symm)
      exact Nat.lt_irrefl _ (heq ▸ hl.lt_next t ht)
    rw [hown, hq]
    change ∀ x, ¬ ((c.ofKuRequest (s.sys.calls.asked item.r)).Own x ∧
      (c.ofKuRequest (s.seen t).1).Own x)
    rw [hq']
    exact (Calls.unrelated_of_ne h.serving.apart hi hi' hne).2
  have hinv := h.gpuInv
  rw [hview] at hinv
  cases System.step_case hs with
  | initRequest hpc' hh =>
    rw [hpc] at hpc'
    cases hpc'
    obtain ⟨-, rfl⟩ := Helper.step_get_inv hh
    refine ⟨h.serving.initRequest hl hpc hidle, ?_⟩
    rw [view_of_ne (by simp)]
    exact hinv.read hl _ hin hdisj

omit [DecidableEq T] in
theorem exec (h : s.Good c k) (hc : c.Regions) (hst : (s.view c).helper.Streamed)
    {i : Fin maxStreamNr} {op : GpuOp} {rest : List GpuOp} (hf : s.fifo i = op :: rest) :
    Good c k { s with
      host := (op.exec (s.host, s.dev)).1
      dev := (op.exec (s.host, s.dev)).2
      fifo := Function.update s.fifo i rest } :=
  ⟨⟨h.serving.apart, h.serving.count, h.serving.reading, h.serving.hasRead, h.serving.held,
    h.serving.writing, h.serving.coded⟩, h.gpuInv.exec hc hst hf⟩

omit [DecidableEq T] in
theorem hostWrite (h : s.Good c k) (ha : s.sys.Agreed) (hl : s.sys.helper.Listed) {x : Nat}
    {v : UInt8} (hok : s.Orderly c (.hostWrite x v)) :
    Good c k { s with host := Function.update s.host x v } := by
  refine ⟨⟨h.serving.apart, h.serving.count, h.serving.reading, h.serving.hasRead, h.serving.held,
    h.serving.writing, h.serving.coded⟩, h.gpuInv.hostWrite v fun t ht => ?_⟩
  rw [h.own_of_view ht]
  exact hok _ (h.serving.view_inFlight ha.joined hl ht)

end Good

variable [DecidableEq T]

/-- The system in the whole makes a run of its own, in which ids are kept. -/
theorem sys_run {sr : Token → ServiceRequest} {sync : DataPtr → SyncCallData} {pool : Mempool}
    {host dev : Memory} {seen : Token → KuRequest × Memory} {ls : List (WholeStep T)}
    (hrun : Run (Whole.step c k) (Orderly c) (Whole.init sr sync pool host dev seen) ls s) :
    ∃ ls', Run (System.step c) System.IdsKept (System.init sr sync pool) ls' s.sys := by
  refine hrun.project_under Whole.sys fun s l s' hok hs => ?_
  rcases step_sys hs with heq | ⟨l', hsys, hlabel⟩
  · exact .inl heq
  · refine .inr ⟨l', ?_, hsys⟩
    cases l' with
    | client lc =>
      cases lc with
      | edit r q =>
        cases hlabel _ rfl
        exact .inr hok
      | _ => trivial
    | _ => trivial

theorem good_of_run (hc : c.Regions) {sr : Token → ServiceRequest} {sync : DataPtr → SyncCallData}
    {pool : Mempool} {host dev : Memory} {seen : Token → KuRequest × Memory}
    {ls : List (WholeStep T)}
    (hrun : Run (Whole.step c k) (Orderly c) (Whole.init sr sync pool host dev seen) ls s) :
    s.Good c k ∧ s.sys.Agreed ∧ s.sys.helper.Listed ∧ s.sys.helper.Walking := by
  refine hrun.invariant_reached (I := fun s => s.Good c k ∧ s.sys.Agreed ∧ s.sys.helper.Listed ∧
    s.sys.helper.Walking) ?_ fun ls s l s' hreach h hok hs => ?_
  · refine ⟨⟨?_, ?_⟩, System.agreed_of_run (c := c) .nil, Helper.listed_init sr⟩
    · refine ⟨⟨by simp [Whole.init, System.init, Calls.init, Calls.asks, Calls.pending, DevPc.held],
        List.Pairwise.nil⟩, rfl, by simp [Whole.init, System.init, Calls.init],
        by simp [Whole.init, System.init], by simp [Whole.init, System.init, Helper.init],
        by simp [Whole.init, System.init, Calls.init], by simp [Whole.init, System.init, Helper.init]⟩
    · rw [view_of_ne (by simp [Whole.init, System.init])]
      constructor <;> simp [gpu, Whole.init, System.init, Helper.init]
  · obtain ⟨hgood, ha, hl, hw⟩ := h
    obtain ⟨ls₁, hsys⟩ := sys_run hreach
    obtain ⟨ls₂, hhelper⟩ := System.helper_run hsys
    obtain ⟨-, -, hst⟩ := Helper.streamed_of_run hhelper
    obtain ⟨-, -, hstview⟩ := view_helper ha.joined hhelper
    obtain ⟨ls₁', hsys'⟩ := sys_run (hreach.snoc hok hs)
    obtain ⟨ls₂', hhelper'⟩ := System.helper_run hsys'
    refine ⟨?_, System.agreed_of_run hsys', Helper.listed_of_run hhelper'⟩
    cases step_case hs with
    | sys hplain hsys => exact hgood.sys hc ha hl hw hst hplain hok hsys
    | op hpc hsys => exact hgood.op hc ha hl hw hst hpc hsys
    | initRequest hpc hsys => exact hgood.initRequest ha hl hpc hsys
    | exec hf => exact hgood.exec hc hstview hf
    | hostWrite => exact hgood.hostWrite ha hl hok

/-- A write that returns answers the submission that the helper has read as its request. -/
theorem Good.answers (h : s.Good c k) (hc : c.Regions) (ha : s.sys.Agreed)
    (hl : s.sys.helper.Listed) (hw : s.sys.helper.Walking)
    (hs : s.step c k (.sys .writeReturn) = some s') (dev₀ : Memory) :
    ∃ item cb t, t ∈ s.sys.helper.allReqs ∧
      s'.sys.calls.kernel.callbacks = s.sys.calls.kernel.callbacks ++ [(item, cb)] ∧
      s.sys.calls.handed[t]? = some item ∧ (s.seen t).1 = s'.sys.calls.asked item.r ∧
      (s'.sys.calls.kernel.req item.r).errcode = c.codeFor (s'.sys.calls.asked item.r) ∧
      ∀ x, (c.ofKuRequest (s'.sys.calls.asked item.r)).Out x →
        s'.host x = runAlone c k (s'.sys.calls.asked item.r) (s.seen t).2 dev₀ x := by
  cases step_case hs with
  | sys _ hsys =>
    cases System.step_case hsys with
    | @writeReturn k' hpc hk =>
      obtain ⟨item, t, rest, hdev, hdone, -⟩ := ha.joined.at_writing hpc
      obtain ⟨ht, hstate⟩ :=
        (hl.mem_iff t .done).mp ((hw .done _ hdone).2 t List.mem_cons_self)
      obtain ⟨item', hi', hat', hq⟩ := h.serving.inFlight (by simp [hpc]) ht
      have hat := h.serving.writing item _ _ hdev t rest hdone
      cases Option.some.inj (hat.symm.trans hat')
      have hasked : k'.asked item.r = s.sys.calls.asked item.r := Calls.step_asked hk (by simp)
      have hinv := h.gpuInv
      rw [view_of_ne (by simp [hpc])] at hinv
      obtain ⟨-, -, hcb, -⟩ := Calls.step_writeComplete hdev hk
      refine ⟨item, _, t, ht, hcb, hat, hq.trans hasked.symm, ?_, fun x hx => ?_⟩
      · rw [hasked, ← hq]
        refine Eq.trans ?_ (h.serving.coded t ht).2
        simp only [Calls.step, hdev] at hk
        cases hk
        simp [Kernel.writeComplete_req, Helper.response]
      · rw [hasked, ← hq] at hx ⊢
        exact hinv.done_eq_runAlone hc ht hstate dev₀ hx

/-- In every run in which the clients keep their requests apart: a write that returns has
    invoked the callback of one submission, whose request then has the error code of its
    own service and, at the place it names, the output of that service for the input
    that was in host memory when the helper set the request up. -/
theorem callback_finds_result (hc : c.Regions) {sr : Token → ServiceRequest}
    {sync : DataPtr → SyncCallData} {pool : Mempool} {host dev : Memory}
    {seen : Token → KuRequest × Memory} {ls : List (WholeStep T)}
    (hrun : Run (Whole.step c k) (Orderly c) (Whole.init sr sync pool host dev seen) ls s)
    (hs : s.step c k (.sys .writeReturn) = some s') (dev₀ : Memory) :
    ∃ item cb t, s'.sys.calls.kernel.callbacks = s.sys.calls.kernel.callbacks ++ [(item, cb)] ∧
      s.sys.calls.handed[t]? = some item ∧ (s.seen t).1 = s'.sys.calls.asked item.r ∧
      (s'.sys.calls.kernel.req item.r).errcode = c.codeFor (s'.sys.calls.asked item.r) ∧
      ∀ x, (c.ofKuRequest (s'.sys.calls.asked item.r)).Out x →
        s'.host x = runAlone c k (s'.sys.calls.asked item.r) (s.seen t).2 dev₀ x := by
  obtain ⟨h, ha, hl, hw⟩ := good_of_run hc hrun
  obtain ⟨item, cb, t, -, hresult⟩ := h.answers hc ha hl hw hs dev₀
  exact ⟨item, cb, t, hresult⟩

/-- A pool of two units that the helper has at the start of its `hostbuf`. -/
def smallPool : Mempool := { Mempool.empty 0x100000 2 with uva := 0x1000000 }

/-- A request on the pool, with its output right behind its input. -/
def onPool : KgpuRequest :=
  { KgpuRequest.constructed 7 with
    inp := 0x100000, out := 0x100008, insize := 8, outsize := 8
    serviceName := Vector.replicate 32 65 }

omit [DecidableEq T] in
theorem orderly_of_free {ls : List (WholeStep T)} (h : ls.all WholeStep.free = true) :
    ∀ l ∈ ls, ∀ s, Orderly c s l := by
  intro l hl s
  have hfree := List.all_eq_true.mp h l hl
  unfold Orderly
  split
  next => cases hfree
  next => cases hfree
  next => cases hfree
  next => trivial

omit [DecidableEq T] in
theorem orderly_append {t : T} {r : ReqPtr} (hr : (s.sys.calls.pc t).req = some r)
    (hin : c.Contained (c.ofKuRequest (s.sys.calls.asked r)))
    (hsep : ∀ q ∈ s.sys.calls.asks, c.Unrelated (s.sys.calls.asked r) q) :
    Orderly c s (.sys (.client (.append t))) := by
  intro r' hr'
  cases Option.some.inj (hr.symm.trans hr')
  exact ⟨hin, hsep⟩

/-- A request with its output right behind that of `onPool`. -/
def behindPool : KgpuRequest :=
  { KgpuRequest.constructed 8 with
    inp := 0x100010, out := 0x100018, insize := 8, outsize := 8
    serviceName := Vector.replicate 32 65 }

theorem onPool_contained :
    Config.small.Contained (Config.small.ofKuRequest (smallPool.fillKuRequest onPool)) := by
  refine ⟨.inl fun x hx => ?_, .inl fun x hx => ?_⟩
  · change 0x1000000 ≤ x ∧ x < 0x1000000 + 8 at hx
    change 0x1000000 ≤ x ∧ x < 0x1000000 + 0x200000
    omega
  · change 0x1000008 ≤ x ∧ x < 0x1000008 + 8 at hx
    change 0x1000000 ≤ x ∧ x < 0x1000000 + 0x200000
    omega

theorem behindPool_contained :
    Config.small.Contained (Config.small.ofKuRequest (smallPool.fillKuRequest behindPool)) := by
  refine ⟨.inl fun x hx => ?_, .inl fun x hx => ?_⟩
  · change 0x1000010 ≤ x ∧ x < 0x1000010 + 8 at hx
    change 0x1000000 ≤ x ∧ x < 0x1000000 + 0x200000
    omega
  · change 0x1000018 ≤ x ∧ x < 0x1000018 + 8 at hx
    change 0x1000000 ≤ x ∧ x < 0x1000000 + 0x200000
    omega

theorem behindPool_unrelated :
    Config.small.Unrelated (smallPool.fillKuRequest behindPool) (smallPool.fillKuRequest onPool) := by
  refine ⟨by decide, ?_⟩
  rintro x ⟨hx, hx'⟩
  change (0x1000010 ≤ x ∧ x < 0x1000010 + 8) ∨ (0x1000018 ≤ x ∧ x < 0x1000018 + 8) at hx
  change (0x1000000 ≤ x ∧ x < 0x1000000 + 8) ∨ (0x1000008 ≤ x ∧ x < 0x1000008 + 8) at hx'
  omega

/-- The whole with one client, before it does anything. -/
def oneClient : Whole Unit :=
  Whole.init default (fun _ => ⟨.client 0, .client 0, false⟩) smallPool Gpu.lowBytes Gpu.lowBytes
    fun _ => (Gpu.inPlace, Gpu.lowBytes)

/-- What it does to submit a request. -/
def submitting (r : ReqPtr) (q : KgpuRequest) : List (WholeStep Unit) :=
  [.sys (.client (.edit r q)), .sys (.client (.callAsync () r)),
    .sys (.client (.allocItem () true)), .sys (.client (.append ()))]

def oneQueued : Whole Unit :=
  (exec (Whole.step .small Gpu.addOne) (submitting 0 onPool) oneClient).get rfl

theorem oneQueued_along :
    Along (Whole.step .small Gpu.addOne) (Orderly .small) (submitting 0 onPool) oneClient :=
  ⟨fun h => absurd h List.not_mem_nil, trivial, trivial,
    orderly_append rfl onPool_contained fun _ h => absurd h List.not_mem_nil, trivial⟩

/-- The request is read and is given its memory. -/
def settingUp : List (WholeStep Unit) :=
  List.flatten [
    List.replicate 6 (.sys .advance), [.sys .read, .sys .readReturn, .initRequest],
    List.replicate 5 (.sys .advance), [.op, .sys .advance, .sys .getNone]]

def oneSetUp : Whole Unit :=
  (exec (Whole.step .small Gpu.addOne) settingUp oneQueued).get rfl

def bothQueued : Whole Unit :=
  (exec (Whole.step .small Gpu.addOne) (submitting 1 behindPool) oneSetUp).get rfl

theorem bothQueued_along :
    Along (Whole.step .small Gpu.addOne) (Orderly .small) (submitting 1 behindPool) oneSetUp := by
  have hnew : 1 ∉ oneSetUp.sys.calls.pending.map (·.r) := by decide
  refine ⟨hnew, trivial, trivial, orderly_append rfl behindPool_contained fun q hq => ?_, trivial⟩
  cases List.mem_singleton.mp hq
  exact behindPool_unrelated

def firstStream : Fin maxStreamNr := ⟨0, by decide⟩

def secondStream : Fin maxStreamNr := ⟨1, by decide⟩

/-- The first request is prepared, launched and posted and its response is sent, while the
    second is read, given its memory, prepared and launched. -/
def working : List (WholeStep Unit) :=
  List.flatten [
    List.replicate 4 (.sys .advance),
    [.op, .sys .advance, .sys .advance, .sys .read, .sys .readReturn, .initRequest,
      .exec firstStream],
    List.replicate 3 (.sys .advance),
    [.op, .sys .advance, .sys .advance, .op, .sys .advance, .sys .getNone, .exec firstStream],
    [.sys .advance, .sys .advance, .op, .sys .advance, .sys .advance, .op, .sys .advance,
      .sys .advance, .sys .getNone, .exec firstStream, .exec secondStream],
    [.sys .advance, .op, .sys .advance, .sys .advance, .op, .sys .advance, .sys .advance,
      .sys .advance, .sys .getNone, .exec secondStream, .sys .send]]

def oneSent : Whole Unit :=
  (exec (Whole.step .small Gpu.addOne) working bothQueued).get rfl

/-- Two requests, the second submitted while the helper has the first: the response to the
    first finds it. -/
theorem callback_finds_result_two_requests :
    ∃ ls s', Run (Whole.step .small Gpu.addOne) (Orderly .small) oneClient ls oneSent ∧
      oneSent.step .small Gpu.addOne (.sys .writeReturn) = some s' ∧ s'.host 0x100000b = 4 ∧
      oneSent.sys.helper.q .running = [1] ∧
      ∃ item cb, ∃ t : Token,
        s'.sys.calls.kernel.callbacks = oneSent.sys.calls.kernel.callbacks ++ [(item, cb)] ∧
        oneSent.sys.calls.handed[t]? = some item ∧ (s'.sys.calls.kernel.req item.r).errcode =
          Config.small.codeFor (s'.sys.calls.asked item.r) := by
  have hqueued : Run (Whole.step .small Gpu.addOne) (Orderly .small) oneClient
      (submitting 0 onPool) oneQueued := Run.of_along rfl oneQueued_along
  have hsetUp := hqueued.trans (Run.of_forall (show exec _ settingUp _ = some oneSetUp from rfl)
    (orderly_of_free rfl))
  have hboth := hsetUp.trans
    (Run.of_along (show exec _ _ _ = some bothQueued from rfl) bothQueued_along)
  have hsent := hboth.trans (Run.of_forall (show exec _ working _ = some oneSent from rfl)
    (orderly_of_free rfl))
  obtain ⟨item, cb, t, hcb, hat, -, he, -⟩ :=
    callback_finds_result Config.small_regions hsent rfl Gpu.lowBytes
  exact ⟨_, _, hsent, rfl, rfl, rfl, item, cb, t, hcb, hat, he⟩

end Whole
end Kgpu
