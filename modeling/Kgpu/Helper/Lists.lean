-- SUMMARY: The lists of the helper agree with each other and with the states of the requests.
import Kgpu.Helper.Loop
import Kgpu.Library.Run
import Mathlib.Data.List.Nodup

/-!
# The lists of requests

Every request the helper holds is on `all_reqs` and on exactly the one of the six
lists that its state names. The operations are run over a list while they take
items off it, so the invariant also says that what is left of a walk is still on
the list.
-/

namespace Kgpu

open Library

namespace Helper

variable {c : Config} {s : Helper} {t t' : Token} {x y : ReqState} {a : Answers}

/-! ## What the updates change -/

@[simp] theorem moveTo_sr :
    (s.moveTo t x).sr = Function.update s.sr t { s.sr t with state := x } := rfl

@[simp] theorem moveTo_allReqs : (s.moveTo t x).allReqs = s.allReqs := rfl

@[simp] theorem moveTo_trace :
    (s.moveTo t x).trace = Function.update s.trace t (s.trace t ++ [.enter x]) := rfl

theorem moveTo_q :
    (s.moveTo t x).q y = (s.q y).erase t ++ (if y = x then [t] else []) := by
  by_cases h : y = x
  · subst h
    simp [moveTo, listAddTail, listDel, record, setSr]
  · simp [moveTo, listAddTail, listDel, record, setSr, h]

theorem khFailRequest_eq (e : Int) :
    s.khFailRequest t e = (s.setSr t { s.sr t with errcode := e }).moveTo t .done := rfl

theorem khInitServiceRequest_none {kureq : KuRequest}
    (hs : c.khLookupService kureq.serviceName = none) :
    s.khInitServiceRequest c kureq =
      (({ s.setSr s.next (c.ofKuRequest kureq) with
          next := s.next + 1, allReqs := s.allReqs ++ [s.next] }).record s.next
        (.read kureq)).khFailRequest s.next kgpuNoService := by
  simp only [khInitServiceRequest, Config.ofKuRequest, hs]

theorem khInitServiceRequest_some {kureq : KuRequest} {p : ServicePtr}
    (hs : c.khLookupService kureq.serviceName = some p) :
    s.khInitServiceRequest c kureq =
      ((((({ s.setSr s.next (c.ofKuRequest kureq) with
            next := s.next + 1, allReqs := s.allReqs ++ [s.next] }).record s.next
          (.read kureq)).record s.next .computeSize).setSr s.next
        { c.ofKuRequest kureq with
          geometry := (c.service p).computeSize (c.ofKuRequest kureq), state := .init
          errcode := 0 }).listAddTail s.next .init).record s.next (.enter .init) := by
  simp only [khInitServiceRequest, Config.ofKuRequest, hs]

/-- The parts a new request does not touch. -/
theorem khInitServiceRequest_frame (kureq : KuRequest) :
    (s.khInitServiceRequest c kureq).allReqs = s.allReqs ++ [s.next] ∧
    (s.khInitServiceRequest c kureq).next = s.next + 1 ∧
    (s.khInitServiceRequest c kureq).streamuses = s.streamuses ∧
    (s.khInitServiceRequest c kureq).pins = s.pins := by
  cases hs : c.khLookupService kureq.serviceName with
  | none =>
    rw [khInitServiceRequest_none hs]
    exact ⟨rfl, rfl, rfl, rfl⟩
  | some p =>
    rw [khInitServiceRequest_some hs]
    exact ⟨rfl, rfl, rfl, rfl⟩

theorem khInitServiceRequest_other (kureq : KuRequest) (hne : t ≠ s.next) :
    (s.khInitServiceRequest c kureq).sr t = s.sr t ∧
    (s.khInitServiceRequest c kureq).trace t = s.trace t := by
  cases hs : c.khLookupService kureq.serviceName with
  | none =>
    rw [khInitServiceRequest_none hs]
    simp [khFailRequest_eq, setSr, record, hne]
  | some p =>
    rw [khInitServiceRequest_some hs]
    simp [setSr, record, listAddTail, hne]

/-- The new request and its trace. -/
theorem khInitServiceRequest_new (kureq : KuRequest) :
    (c.khLookupService kureq.serviceName = none ∧
      (s.khInitServiceRequest c kureq).sr s.next =
        { c.ofKuRequest kureq with errcode := kgpuNoService, state := .done } ∧
      (s.khInitServiceRequest c kureq).trace s.next =
        s.trace s.next ++ [.read kureq, .enter .done]) ∨
    ∃ p, c.khLookupService kureq.serviceName = some p ∧
      (s.khInitServiceRequest c kureq).sr s.next =
        { c.ofKuRequest kureq with
          geometry := (c.service p).computeSize (c.ofKuRequest kureq) } ∧
      (s.khInitServiceRequest c kureq).trace s.next =
        s.trace s.next ++ [.read kureq, .computeSize, .enter .init] := by
  cases hs : c.khLookupService kureq.serviceName with
  | none =>
    refine .inl ⟨rfl, ?_⟩
    rw [khInitServiceRequest_none hs]
    simp [khFailRequest_eq, setSr, record]
  | some p =>
    refine .inr ⟨p, rfl, ?_⟩
    rw [khInitServiceRequest_some hs]
    simp [setSr, record, listAddTail, Config.ofKuRequest]

/-! ## What an operation can do -/

/-- A change of the request and the trace of one item, of the streams in use and
    of the pin calls made. -/
def touch (s : Helper) (t : Token) (sr : ServiceRequest) (es : List Event)
    (uses : Fin maxStreamNr → Bool) (pins : List PinCall) : Helper :=
  { s with
    sr := Function.update s.sr t sr
    trace := Function.update s.trace t (s.trace t ++ es)
    streamuses := uses
    pins := pins }

theorem record_eq_touch (e : Event) :
    s.record t e = s.touch t (s.sr t) [e] s.streamuses s.pins := by
  simp [record, touch]

theorem touch_record {sr : ServiceRequest} {es : List Event} {uses : Fin maxStreamNr → Bool}
    {pins : List PinCall} (e : Event) :
    (s.touch t sr es uses pins).record t e = s.touch t sr (es ++ [e]) uses pins := by
  simp [record, touch]

theorem touch_khFailRequest {sr : ServiceRequest} {es : List Event}
    {uses : Fin maxStreamNr → Bool} {pins : List PinCall} (e : Int) :
    (s.touch t sr es uses pins).khFailRequest t e =
      (s.touch t { sr with errcode := e } es uses pins).moveTo t .done := by
  simp [khFailRequest, setSr, touch]

/-- What an operation does to its item, with the value it returns: one case for each
    way through `kh_request_alloc_mem`, `kh_prepare_exec`, `kh_launch_exec`,
    `kh_post_exec`, `kh_finish_post` and `kh_service_done`. -/
inductive OpCase (c : Config) (s : Helper) (t : Token) (a : Answers) :
    ReqState → Int × Helper → Prop where
  | allocRefused (ha : a.alloc ≠ 0) : OpCase c s t a .init
      (-1, s.touch t (c.gpuAllocDeviceMem (s.sr t)).1 [.allocMem a.alloc] s.streamuses
        (s.pins ++ (c.gpuAllocDeviceMem (s.sr t)).2))
  | allocated (ha : a.alloc = 0) : OpCase c s t a .init
      (0, (s.touch t (c.gpuAllocDeviceMem (s.sr t)).1 [.allocMem 0] s.streamuses
        (s.pins ++ (c.gpuAllocDeviceMem (s.sr t)).2)).moveTo t .memDone)
  | noStream (hfull : ∀ i, s.streamuses i = true) : OpCase c s t a .memDone
      (-1, s.touch t (s.sr t) [.allocStream 1] s.streamuses s.pins)
  | prepared (i : Fin maxStreamNr) (hi : s.streamuses i = false) (ha : a.prepare = 0) :
      OpCase c s t a .memDone
        (0, (s.touch t { s.sr t with streamId := i.val, stream := c.streams i }
          [.allocStream 0, .call .prepare 0] (Function.update s.streamuses i true)
          s.pins).moveTo t .prepared)
  | prepareFailed (i : Fin maxStreamNr) (hi : s.streamuses i = false) (ha : a.prepare ≠ 0) :
      OpCase c s t a .memDone
        (a.prepare, (s.touch t
          { s.sr t with streamId := i.val, stream := c.streams i, errcode := a.prepare }
          [.allocStream 0, .call .prepare a.prepare] (Function.update s.streamuses i true)
          s.pins).moveTo t .done)
  | launched (ha : a.launch = 0) : OpCase c s t a .prepared
      (0, (s.touch t (s.sr t) [.call .launch 0] s.streamuses s.pins).moveTo t .running)
  | launchFailed (ha : a.launch ≠ 0) : OpCase c s t a .prepared
      (0, (s.touch t { s.sr t with errcode := a.launch } [.call .launch a.launch] s.streamuses
        s.pins).moveTo t .done)
  | executing (ha : a.execFinished = false) : OpCase c s t a .running
      (1, s.touch t (s.sr t) [.execFinished false] s.streamuses s.pins)
  | posted (hf : a.execFinished = true) (ha : a.post = 0) : OpCase c s t a .running
      (0, (s.touch t (s.sr t) [.execFinished true, .call .post 0] s.streamuses
        s.pins).moveTo t .postExec)
  | postFailed (hf : a.execFinished = true) (ha : a.post ≠ 0) : OpCase c s t a .running
      (a.post, (s.touch t { s.sr t with errcode := a.post }
        [.execFinished true, .call .post a.post] s.streamuses s.pins).moveTo t .done)
  | copying (ha : a.postFinished = false) : OpCase c s t a .postExec
      (1, s.touch t (s.sr t) [.postFinished false] s.streamuses s.pins)
  | finished (ha : a.postFinished = true) : OpCase c s t a .postExec
      (0, (s.touch t (s.sr t) [.postFinished true] s.streamuses s.pins).moveTo t .done)
  | answered : OpCase c s t a .done
      (0, { (s.touch t (c.gpuFreeDeviceMem (s.sr t)).1 [.respond (s.response t)]
            (gpuFreeStream s.streamuses (s.sr t))
            (s.pins ++ (c.gpuFreeDeviceMem (s.sr t)).2)).listDel t with
          allReqs := s.allReqs.erase t })

theorem runOp_case : OpCase c s t a x (s.runOp c x t a) := by
  cases x with
  | init =>
    simp only [runOp, khRequestAllocMem]
    split
    next ha =>
      rw [ha]
      exact .allocated ha
    next ha => exact .allocRefused ha
  | memDone =>
    simp only [runOp, khPrepareExec]
    rcases c.gpuAllocStream_cases s.streamuses (s.sr t) with ⟨hfull, hf⟩ | ⟨i, hi, hf⟩
    · simp only [hf, record_eq_touch]
      exact .noStream hfull
    · have heq : (({ s.setSr t { s.sr t with streamId := i.val, stream := c.streams i } with
          streamuses := Function.update s.streamuses i true } : Helper).record t
            (.allocStream 0)) =
          s.touch t { s.sr t with streamId := i.val, stream := c.streams i } [.allocStream 0]
            (Function.update s.streamuses i true) s.pins := rfl
      simp only [hf, heq, touch_record]
      split
      next ha =>
        rw [ha]
        exact .prepared i hi ha
      next ha =>
        rw [touch_khFailRequest]
        exact .prepareFailed i hi ha
  | prepared =>
    simp only [runOp, khLaunchExec, record_eq_touch]
    split
    next ha =>
      rw [ha]
      exact .launched ha
    next ha =>
      rw [touch_khFailRequest]
      exact .launchFailed ha
  | running =>
    cases hf : a.execFinished with
    | false =>
      simp only [runOp, khPostExec, hf, record_eq_touch]
      exact .executing hf
    | true =>
      simp only [runOp, khPostExec, hf, if_true]
      rw [record_eq_touch (s := s), touch_record]
      split
      next ha =>
        rw [ha]
        exact .posted hf ha
      next ha =>
        rw [touch_khFailRequest]
        exact .postFailed hf ha
  | postExec =>
    cases hf : a.postFinished with
    | false =>
      simp only [runOp, khFinishPost, hf, record_eq_touch]
      exact .copying hf
    | true =>
      simp only [runOp, khFinishPost, hf, record_eq_touch]
      exact .finished hf
  | done =>
    have heq : s.runOp c .done t a =
        (0, { (s.touch t (c.gpuFreeDeviceMem (s.sr t)).1 [.respond (s.response t)]
              (gpuFreeStream s.streamuses (s.sr t))
              (s.pins ++ (c.gpuFreeDeviceMem (s.sr t)).2)).listDel t with
            allReqs := s.allReqs.erase t }) := by
      simp [runOp, khServiceDone, record, setSr, listDel, touch, Config.gpuFreeDeviceMem]
      rfl
    rw [heq]
    exact .answered

/-- The results of an operation on an item that is not answered by it: the item
    stays where it is, or is moved. -/
inductive Handled (s : Helper) (t : Token) : Helper → Prop where
  | stay {sr : ServiceRequest} {es : List Event} {uses : Fin maxStreamNr → Bool}
      {pins : List PinCall} (hstate : sr.state = (s.sr t).state) :
      Handled s t (s.touch t sr es uses pins)
  | move {sr : ServiceRequest} {es : List Event} {uses : Fin maxStreamNr → Bool}
      {pins : List PinCall} (hstate : sr.state = (s.sr t).state) (y : ReqState) :
      Handled s t ((s.touch t sr es uses pins).moveTo t y)

theorem OpCase.handled {r : Int × Helper} (h : OpCase c s t a x r) (hx : x ≠ .done) :
    Handled s t r.2 := by
  cases h with
  | allocRefused | noStream | executing | copying => exact .stay (by rfl)
  | allocated | prepared | prepareFailed | launched | launchFailed | posted | postFailed
  | finished => exact .move (by rfl) _
  | answered => exact absurd rfl hx

/-! ## What an operation leaves alone -/

/-- An operation on one item leaves the requests and traces of the others alone. -/
theorem runOp_other (hne : t' ≠ t) :
    (s.runOp c x t a).2.sr t' = s.sr t' ∧ (s.runOp c x t a).2.trace t' = s.trace t' := by
  have hcase : OpCase c s t a x (s.runOp c x t a) := runOp_case
  generalize s.runOp c x t a = r at hcase
  cases hcase <;> simp [touch, listDel, hne]

theorem runOp_next : (s.runOp c x t a).2.next = s.next := by
  have hcase : OpCase c s t a x (s.runOp c x t a) := runOp_case
  generalize s.runOp c x t a = r at hcase
  cases hcase <;> rfl

theorem runOp_allReqs :
    (s.runOp c x t a).2.allReqs = if x = .done then s.allReqs.erase t else s.allReqs := by
  have hcase : OpCase c s t a x (s.runOp c x t a) := runOp_case
  generalize s.runOp c x t a = r at hcase
  cases hcase <;> rfl

/-- The fields of a request that are set when it is read and never change. -/
def SameRanges (sr sr' : ServiceRequest) : Prop :=
  sr'.hin = sr.hin ∧ sr'.hout = sr.hout ∧ sr'.hdata = sr.hdata ∧ sr'.insize = sr.insize ∧
    sr'.outsize = sr.outsize ∧ sr'.datasize = sr.datasize ∧ sr'.s = sr.s

/-- No operation changes what the request was read as. -/
theorem runOp_sameRanges (t' : Token) : SameRanges (s.sr t') ((s.runOp c x t a).2.sr t') := by
  by_cases htt : t' = t
  · subst htt
    have hcase : OpCase c s t' a x (s.runOp c x t' a) := runOp_case
    generalize s.runOp c x t' a = r at hcase
    cases hcase <;>
      simp [SameRanges, touch, listDel, Config.gpuAllocDeviceMem, Config.gpuFreeDeviceMem]
  · rw [(runOp_other htt).1]
    exact ⟨rfl, rfl, rfl, rfl, rfl, rfl, rfl⟩

theorem runOp_id (t' : Token) : ((s.runOp c x t a).2.sr t').id = (s.sr t').id := by
  by_cases htt : t' = t
  · subst htt
    have hcase : OpCase c s t' a x (s.runOp c x t' a) := runOp_case
    generalize s.runOp c x t' a = r at hcase
    cases hcase <;> simp [touch, listDel, Config.gpuAllocDeviceMem, Config.gpuFreeDeviceMem]
  · rw [(runOp_other htt).1]

/-! ## The invariant -/

/-- The seven lists, the states and the addresses in use fit together. -/
structure Listed (s : Helper) : Prop where
  nodup_all : s.allReqs.Nodup
  nodup : ∀ x, (s.q x).Nodup
  mem_iff : ∀ t x, t ∈ s.q x ↔ t ∈ s.allReqs ∧ (s.sr t).state = x
  lt_next : ∀ t ∈ s.allReqs, t < s.next

/-- What is left of a walk is on the list that is walked. -/
def Walking (s : Helper) : Prop :=
  ∀ x rest, s.pc = .process x rest → rest.Nodup ∧ ∀ t ∈ rest, t ∈ s.q x

namespace Listed

/-- The lists do not depend on the rest of the state. -/
theorem congr {s' : Helper} (h : s.Listed) (hall : s'.allReqs = s.allReqs) (hq : s'.q = s.q)
    (hstate : ∀ t, (s'.sr t).state = (s.sr t).state) (hnext : s'.next = s.next) : s'.Listed := by
  refine ⟨?_, ?_, ?_, ?_⟩
  · rw [hall]
    exact h.nodup_all
  · rw [hq]
    exact h.nodup
  · intro t x
    rw [hq, hall, hstate]
    exact h.mem_iff t x
  · rw [hall, hnext]
    exact h.lt_next

theorem touch (h : s.Listed) {sr : ServiceRequest} {es : List Event}
    {uses : Fin maxStreamNr → Bool} {pins : List PinCall} (hstate : sr.state = (s.sr t).state) :
    (s.touch t sr es uses pins).Listed := by
  refine h.congr rfl rfl (fun t' => ?_) rfl
  by_cases ht : t' = t
  · subst ht
    simpa [Helper.touch] using hstate
  · simp [Helper.touch, ht]

theorem moveTo (h : s.Listed) (ht : t ∈ s.allReqs) (x : ReqState) : (s.moveTo t x).Listed := by
  refine ⟨h.nodup_all, fun y => ?_, fun t' y => ?_, h.lt_next⟩
  · rw [moveTo_q, List.nodup_append]
    refine ⟨(h.nodup y).erase t, by split <;> simp, fun t' ht' t'' ht'' => ?_⟩
    have hne := ((h.nodup y).mem_erase_iff.mp ht').1
    split at ht''
    · rw [List.mem_singleton.mp ht'']
      exact hne
    · cases ht''
  · rw [moveTo_q, List.mem_append, (h.nodup y).mem_erase_iff, h.mem_iff]
    by_cases htt : t' = t
    · subst htt
      by_cases hy : y = x
      · simp [hy, ht]
      · have hxy : x ≠ y := fun e => hy e.symm
        simp [hy, hxy]
    · simp [htt]

theorem khServiceDone (h : s.Listed) : (s.khServiceDone c t).2.Listed := by
  refine ⟨h.nodup_all.erase t, fun y => (h.nodup y).erase t, fun t' y => ?_, fun t' ht' => ?_⟩
  · change t' ∈ (s.q y).erase t ↔ t' ∈ s.allReqs.erase t ∧
      (Function.update s.sr t (c.gpuFreeDeviceMem (s.sr t)).1 t').state = y
    rw [(h.nodup y).mem_erase_iff, h.nodup_all.mem_erase_iff, h.mem_iff]
    by_cases htt : t' = t
    · simp [htt]
    · simp [htt]
  · exact h.lt_next t' (List.mem_of_mem_erase ht')

theorem runOp (h : s.Listed) (ht : t ∈ s.allReqs) : (s.runOp c x t a).2.Listed := by
  by_cases hx : x = .done
  · subst hx
    exact h.khServiceDone
  · have hcase : Handled s t (s.runOp c x t a).2 := runOp_case.handled hx
    generalize (s.runOp c x t a).2 = s' at hcase
    cases hcase with
    | stay hstate => exact h.touch hstate
    | move hstate y => exact (h.touch hstate).moveTo ht y

/-- A new address on `all_reqs` and on one list. -/
theorem add (h : s.Listed) {s' : Helper} (hall : s'.allReqs = s.allReqs ++ [s.next])
    (hq : ∀ y, s'.q y = s.q y ++ (if y = x then [s.next] else []))
    (hsr : ∀ t, t ≠ s.next → s'.sr t = s.sr t) (hstate : (s'.sr s.next).state = x)
    (hnext : s'.next = s.next + 1) : s'.Listed := by
  have hnew : s.next ∉ s.allReqs := fun hmem => Nat.lt_irrefl _ (h.lt_next _ hmem)
  have hnewq : ∀ y, s.next ∉ s.q y := fun y hmem => hnew ((h.mem_iff _ y).mp hmem).1
  refine ⟨?_, fun y => ?_, fun t y => ?_, fun t ht => ?_⟩
  · rw [hall, List.nodup_append]
    refine ⟨h.nodup_all, by simp, fun t ht t' ht' e => hnew ?_⟩
    rw [← List.mem_singleton.mp ht', ← e]
    exact ht
  · rw [hq, List.nodup_append]
    refine ⟨h.nodup y, by split <;> simp, fun t ht t' ht' e => hnewq y ?_⟩
    split at ht'
    · rw [← List.mem_singleton.mp ht', ← e]
      exact ht
    · cases ht'
  · rw [hq, hall, List.mem_append, List.mem_append, h.mem_iff]
    by_cases htn : t = s.next
    · subst htn
      simp [hnew, hstate, eq_comm]
    · rw [hsr t htn]
      split <;> simp [htn]
  · rw [hall, List.mem_append] at ht
    rw [hnext]
    rcases ht with ht | ht
    · exact Nat.lt_succ_of_lt (h.lt_next t ht)
    · rw [List.mem_singleton.mp ht]
      exact Nat.lt_succ_self _

theorem khInitServiceRequest (h : s.Listed) (kureq : KuRequest) :
    (s.khInitServiceRequest c kureq).Listed := by
  obtain ⟨hall, hnext, -, -⟩ := khInitServiceRequest_frame (c := c) (s := s) kureq
  have hsr : ∀ t, t ≠ s.next → (s.khInitServiceRequest c kureq).sr t = s.sr t :=
    fun t ht => (khInitServiceRequest_other kureq ht).1
  rcases khInitServiceRequest_new (c := c) (s := s) kureq with ⟨hs, hnew, -⟩ | ⟨p, hs, hnew, -⟩
  · refine h.add (x := .done) hall (fun y => ?_) hsr (by rw [hnew]) hnext
    have hfresh : s.next ∉ s.q y :=
      fun hmem => Nat.lt_irrefl _ (h.lt_next _ ((h.mem_iff _ y).mp hmem).1)
    rw [khInitServiceRequest_none hs, khFailRequest_eq, moveTo_q]
    exact congrArg (· ++ _) (List.erase_of_not_mem hfresh)
  · refine h.add (x := .init) hall (fun y => ?_) hsr (by rw [hnew]; rfl) hnext
    rw [khInitServiceRequest_some hs]
    by_cases hy : y = .init
    · simp [Helper.record, Helper.setSr, listAddTail, hy]
    · simp [Helper.record, Helper.setSr, listAddTail, hy]

end Listed

/-! ## Walks -/

theorem mem_moveTo_q (hne : t' ≠ t) : t' ∈ (s.moveTo t x).q y ↔ t' ∈ s.q y := by
  rw [moveTo_q, List.mem_append, List.mem_erase_of_ne hne]
  split <;> simp [hne]

/-- An operation on one item leaves the others where they are. -/
theorem mem_runOp_q (hne : t' ≠ t) : t' ∈ (s.runOp c x t a).2.q y ↔ t' ∈ s.q y := by
  by_cases hx : x = .done
  · subst hx
    exact List.mem_erase_of_ne hne
  · have hcase : Handled s t (s.runOp c x t a).2 := runOp_case.handled hx
    generalize (s.runOp c x t a).2 = s' at hcase
    cases hcase with
    | stay => rfl
    | move hstate y => exact mem_moveTo_q hne

/-! ## Runs -/

theorem step_op_inv {s' : Helper} (hs : s.step c (.op a) = some s') :
    ∃ x t rest, s.pc = .process x (t :: rest) ∧
      s' = { (s.runOp c x t a).2 with
        pc := .process x (if (s.runOp c x t a).1 = 0 && once x then [] else rest) } := by
  simp only [Helper.step] at hs
  split at hs
  next x t rest hpc => cases hs; exact ⟨x, t, rest, hpc, rfl⟩
  next => cases hs

theorem step_advance_inv {s' : Helper} (hs : s.step c .advance = some s') :
    ∃ x pc, s.pc = .process x [] ∧ s' = { s with pc := pc } ∧
      ((∃ y, following x = some y ∧ pc = .process y (s.q y)) ∨
        (following x = none ∧ pc = .get)) := by
  simp only [Helper.step] at hs
  split at hs
  next x hpc =>
    split at hs
    next y hy => cases hs; exact ⟨x, _, hpc, rfl, .inl ⟨y, hy, rfl⟩⟩
    next hy => cases hs; exact ⟨x, _, hpc, rfl, .inr ⟨hy, rfl⟩⟩
  next => cases hs

theorem step_get_inv {kureq : Option KuRequest} {s' : Helper}
    (hs : s.step c (.get kureq) = some s') :
    s.pc = .get ∧ s' = { s.khGetNextServiceRequest c kureq with
      pc := .process .done ((s.khGetNextServiceRequest c kureq).q .done) } := by
  simp only [Helper.step] at hs
  split at hs
  next hpc => cases hs; exact ⟨hpc, rfl⟩
  next => cases hs

theorem Listed.step (h : s.Listed) (hw : s.Walking) {l : HelperStep} {s' : Helper}
    (hs : s.step c l = some s') : s'.Listed ∧ s'.Walking := by
  cases l with
  | op a =>
    obtain ⟨x, t, rest, hpc, rfl⟩ := step_op_inv hs
    obtain ⟨hnd, hmem⟩ := hw x (t :: rest) hpc
    have ht : t ∈ s.allReqs := ((h.mem_iff t x).mp (hmem t List.mem_cons_self)).1
    refine ⟨(h.runOp ht).congr rfl rfl (fun _ => rfl) rfl, fun x' rest' hpc' => ?_⟩
    cases hpc'
    split
    · simp
    · refine ⟨(List.nodup_cons.mp hnd).2, fun t' ht' => ?_⟩
      have hne : t' ≠ t := fun e => (List.nodup_cons.mp hnd).1 (e ▸ ht')
      exact (mem_runOp_q hne).mpr (hmem t' (List.mem_cons_of_mem _ ht'))
  | advance =>
    obtain ⟨x, pc, -, rfl, hpc⟩ := step_advance_inv hs
    refine ⟨h.congr rfl rfl (fun _ => rfl) rfl, fun x' rest' hpc' => ?_⟩
    obtain ⟨y, -, rfl⟩ | ⟨-, rfl⟩ := hpc
    · cases hpc'
      exact ⟨h.nodup _, fun _ ht => ht⟩
    · cases hpc'
  | get kureq =>
    obtain ⟨-, rfl⟩ := step_get_inv hs
    have hget : Listed (s.khGetNextServiceRequest c kureq) := by
      cases kureq with
      | none => exact h
      | some kureq => exact h.khInitServiceRequest kureq
    refine ⟨hget.congr rfl rfl (fun _ => rfl) rfl, fun x' rest' hpc' => ?_⟩
    cases hpc'
    exact ⟨hget.nodup .done, fun _ ht => ht⟩

theorem listed_init (sr : Token → ServiceRequest) : (init sr).Listed ∧ (init sr).Walking := by
  refine ⟨⟨List.nodup_nil, fun _ => List.nodup_nil, ?_, ?_⟩, ?_⟩
  · simp [init]
  · simp [init]
  · intro x rest hpc
    cases hpc
    simp

theorem listed_of_run {ok : Helper → HelperStep → Prop} {sr : Token → ServiceRequest}
    {ls : List HelperStep} (hrun : Run (Helper.step c) ok (init sr) ls s) :
    s.Listed ∧ s.Walking :=
  hrun.invariant (I := fun s => s.Listed ∧ s.Walking) (listed_init sr)
    fun _ _ _ h _ hs => h.1.step h.2 hs

/-! ## The ids of the requests held -/

def ids (s : Helper) : List Int := s.allReqs.map fun t => (s.sr t).id

/-- The pipeline keeps every request with its id until it is answered. -/
theorem runOp_ids (hx : x ≠ .done) : (s.runOp c x t a).2.ids = s.ids := by
  simp only [ids, runOp_allReqs, if_neg hx, runOp_id]

theorem runOp_ids_done (ht : t ∈ s.allReqs) :
    s.ids.Perm ((s.sr t).id :: (s.runOp c .done t a).2.ids) := by
  simp only [ids, runOp_allReqs, if_true, runOp_id]
  exact (List.perm_cons_erase ht).map _

theorem khInitServiceRequest_ids (h : s.Listed) (kureq : KuRequest) :
    (s.khInitServiceRequest c kureq).ids = s.ids ++ [kureq.id] := by
  have hold : ∀ t ∈ s.allReqs, (s.khInitServiceRequest c kureq).sr t = s.sr t := fun t ht =>
    (khInitServiceRequest_other kureq (Nat.ne_of_lt (h.lt_next t ht))).1
  have hnew : ((s.khInitServiceRequest c kureq).sr s.next).id = kureq.id := by
    rcases khInitServiceRequest_new (c := c) (s := s) kureq with ⟨-, hsr, -⟩ | ⟨p, -, hsr, -⟩ <;>
      rw [hsr] <;> rfl
  rw [ids, (khInitServiceRequest_frame kureq).1, List.map_append, List.map_singleton, hnew, ids]
  congr 1
  refine List.map_congr_left fun t ht => ?_
  rw [hold t ht]

/-- The invariant rule of the main loop. What does not look at the program
    counter is shown for one operation on an item of the list it belongs to, and
    for one request read. -/
theorem Listed.invariant {I : Helper → Prop} {ok : Helper → HelperStep → Prop}
    {sr : Token → ServiceRequest} {ls : List HelperStep}
    (hrun : Run (Helper.step c) ok (init sr) ls s) (hinit : I (init sr))
    (hpc : ∀ s pc, I s → I { s with pc := pc })
    (hop : ∀ s x t rest a, s.Listed → s.pc = .process x (t :: rest) → t ∈ s.q x →
      ok s (.op a) → I s → I (s.runOp c x t a).2)
    (hread : ∀ s kureq, s.Listed → s.pc = .get → ok s (.get (some kureq)) → I s →
      I (s.khInitServiceRequest c kureq)) : s.Listed ∧ s.Walking ∧ I s := by
  refine hrun.invariant (I := fun s => s.Listed ∧ s.Walking ∧ I s)
    ⟨(listed_init sr).1, (listed_init sr).2, hinit⟩ ?_
  rintro s l s' ⟨h, hw, hI⟩ hok hs
  obtain ⟨h', hw'⟩ := h.step hw hs
  refine ⟨h', hw', ?_⟩
  cases l with
  | op a =>
    obtain ⟨x, t, rest, heq, rfl⟩ := step_op_inv hs
    exact hpc _ _ (hop s x t rest a h heq ((hw x _ heq).2 t List.mem_cons_self) hok hI)
  | advance =>
    obtain ⟨x, pc, -, rfl, -⟩ := step_advance_inv hs
    exact hpc _ _ hI
  | get kureq =>
    obtain ⟨heq, rfl⟩ := step_get_inv hs
    cases kureq with
    | none => exact hpc _ _ hI
    | some kureq => exact hpc _ _ (hread s kureq h heq hok hI)

end Helper
end Kgpu
