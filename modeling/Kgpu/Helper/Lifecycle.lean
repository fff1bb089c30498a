-- SUMMARY: The life cycle of a request in the helper and the response it ends with.
import Kgpu.Helper.Lists

/-!
# The life cycle of a request

A request enters the six states in order, or leaves the order for the last state
when a stage fails or when there is no service for it. `Progress` lists how far a
request can have come, with the states it has entered and what its stages
returned; each operation takes a request from one line of it to another.
-/

namespace Kgpu

open Library

/-! ## What a trace says -/

namespace Event

def readOf : Event → Option KuRequest
  | read kureq => some kureq
  | _ => none

def entered : Event → Option ReqState
  | enter x => some x
  | _ => none

def callOf : Event → Option (Stage × Int)
  | call stage r => some (stage, r)
  | _ => none

def responseOf : Event → Option KuResponse
  | respond resp => some resp
  | _ => none

end Event

/-- The states entered, the calls of stages and the responses, in order. -/
def visited (tr : List Event) : List ReqState := tr.filterMap Event.entered

def calls (tr : List Event) : List (Stage × Int) := tr.filterMap Event.callOf

def responses (tr : List Event) : List KuResponse := tr.filterMap Event.responseOf

def reads (tr : List Event) : List KuRequest := tr.filterMap Event.readOf

theorem visited_append (tr es : List Event) : visited (tr ++ es) = visited tr ++ visited es :=
  List.filterMap_append

theorem calls_append (tr es : List Event) : calls (tr ++ es) = calls tr ++ calls es :=
  List.filterMap_append

theorem responses_append (tr es : List Event) :
    responses (tr ++ es) = responses tr ++ responses es :=
  List.filterMap_append

theorem reads_append (tr es : List Event) : reads (tr ++ es) = reads tr ++ reads es :=
  List.filterMap_append

/-- All six states in the order of the pipeline. -/
def ReqState.all : List ReqState := [.init, .memDone, .prepared, .running, .postExec, .done]

/-- How far a request that was read as `kureq` can have come: its state, its error
    code, the states it has entered and the calls of its stages. -/
inductive Progress (c : Config) (kureq : KuRequest) :
    ReqState → Int → List ReqState → List (Stage × Int) → Prop where
  | noService (hs : c.khLookupService kureq.serviceName = none) :
      Progress c kureq .done kgpuNoService [.done] []
  | init (hs : (c.khLookupService kureq.serviceName).isSome) : Progress c kureq .init 0 [.init] []
  | memDone (hs : (c.khLookupService kureq.serviceName).isSome) :
      Progress c kureq .memDone 0 [.init, .memDone] []
  | prepared (hs : (c.khLookupService kureq.serviceName).isSome) :
      Progress c kureq .prepared 0 [.init, .memDone, .prepared] [(.prepare, 0)]
  | failedPrepare {r : Int} (hs : (c.khLookupService kureq.serviceName).isSome) (hr : r ≠ 0) :
      Progress c kureq .done r [.init, .memDone, .done] [(.prepare, r)]
  | running (hs : (c.khLookupService kureq.serviceName).isSome) :
      Progress c kureq .running 0 [.init, .memDone, .prepared, .running] [(.prepare, 0), (.launch, 0)]
  | failedLaunch {r : Int} (hs : (c.khLookupService kureq.serviceName).isSome) (hr : r ≠ 0) :
      Progress c kureq .done r [.init, .memDone, .prepared, .done] [(.prepare, 0), (.launch, r)]
  | postExec (hs : (c.khLookupService kureq.serviceName).isSome) :
      Progress c kureq .postExec 0 [.init, .memDone, .prepared, .running, .postExec]
        [(.prepare, 0), (.launch, 0), (.post, 0)]
  | failedPost {r : Int} (hs : (c.khLookupService kureq.serviceName).isSome) (hr : r ≠ 0) :
      Progress c kureq .done r [.init, .memDone, .prepared, .running, .done]
        [(.prepare, 0), (.launch, 0), (.post, r)]
  | finished (hs : (c.khLookupService kureq.serviceName).isSome) :
      Progress c kureq .done 0 ReqState.all [(.prepare, 0), (.launch, 0), (.post, 0)]

/-- The request of a trace, with its progress and the responses sent. -/
structure Life (c : Config) (sr : ServiceRequest) (tr : List Event) (resps : List KuResponse) :
    Prop where
  sent : responses tr = resps
  progress : ∃ kureq, reads tr = [kureq] ∧ sr.id = kureq.id ∧
    Progress c kureq sr.state sr.errcode (visited tr) (calls tr)

namespace Life

variable {c : Config} {sr sr' : ServiceRequest} {tr : List Event} {resps : List KuResponse}

/-- A request on its way, after more events. The error code is kept or replaced,
    which is what `f` stands for. -/
theorem move (h : Life c sr tr []) (f : Int → Int) {es : List Event} {x : ReqState}
    (hid : sr'.id = sr.id) (hx : sr'.state = x) (he : sr'.errcode = f sr.errcode)
    (hes : responses es = [] ∧ reads es = [])
    (hmove : ∀ kureq e vs cs, Progress c kureq sr.state e vs cs →
      Progress c kureq x (f e) (vs ++ visited es) (cs ++ calls es)) :
    Life c sr' (tr ++ es) [] := by
  obtain ⟨kureq, hread, hid', hp⟩ := h.progress
  refine ⟨?_, kureq, ?_, hid.trans hid', ?_⟩
  · rw [responses_append, h.sent, hes.1]
    rfl
  · rw [reads_append, hread, hes.2]
    rfl
  · rw [hx, he, visited_append, calls_append]
    exact hmove kureq _ _ _ hp

/-- Events that say nothing about progress, and changes of other fields. -/
theorem quiet (h : Life c sr tr []) {es : List Event}
    (hsr : sr'.id = sr.id ∧ sr'.state = sr.state ∧ sr'.errcode = sr.errcode)
    (hes : responses es = [] ∧ reads es = []) (hno : visited es = [] ∧ calls es = []) :
    Life c sr' (tr ++ es) [] := by
  refine h.move id hsr.1 hsr.2.1 hsr.2.2 hes (fun kureq e vs cs hp => ?_)
  simpa [hno.1, hno.2] using hp

/-- The response of a finished request. -/
theorem respond (h : Life c sr tr []) (hid : sr'.id = sr.id) (hstate : sr'.state = sr.state)
    (he : sr'.errcode = sr.errcode) :
    Life c sr' (tr ++ [.respond ⟨sr.id, sr.errcode⟩]) [⟨sr.id, sr.errcode⟩] := by
  obtain ⟨kureq, hread, hid', hp⟩ := h.progress
  refine ⟨?_, kureq, ?_, hid.trans hid', ?_⟩
  · rw [responses_append, h.sent]
    rfl
  · rw [reads_append, hread]
    rfl
  · rw [visited_append, calls_append, hstate, he]
    change Progress c kureq _ _ (visited tr ++ []) (calls tr ++ [])
    rw [List.append_nil, List.append_nil]
    exact hp

end Life

namespace Helper

variable {c : Config} {s : Helper} {t t' : Token} {x y : ReqState} {a : Answers}

/-- One operation takes a request of the state it is for along the life cycle. -/
theorem runOp_life (h : Life c (s.sr t) (s.trace t) []) (hx : (s.sr t).state = x) :
    Life c ((s.runOp c x t a).2.sr t) ((s.runOp c x t a).2.trace t)
      (if x = .done then [s.response t] else []) := by
  have hcase : OpCase c s t a x (s.runOp c x t a) := runOp_case
  generalize s.runOp c x t a = r at hcase
  cases hcase with
  | allocRefused | noStream | executing | copying =>
    simp only [touch, Function.update_self]
    exact h.quiet ⟨rfl, rfl, rfl⟩ ⟨rfl, rfl⟩ ⟨rfl, rfl⟩
  | allocated =>
    simp only [moveTo_sr, moveTo_trace, touch, Function.update_self, List.append_assoc]
    refine h.move id rfl rfl rfl ⟨rfl, rfl⟩ (fun kureq e vs cs hp => ?_)
    rw [hx] at hp
    cases hp with
    | init hs => exact .memDone hs
  | prepared =>
    simp only [moveTo_sr, moveTo_trace, touch, Function.update_self, List.append_assoc]
    refine h.move id rfl rfl rfl ⟨rfl, rfl⟩ (fun kureq e vs cs hp => ?_)
    rw [hx] at hp
    cases hp with
    | memDone hs => exact .prepared hs
  | prepareFailed i hi ha =>
    simp only [moveTo_sr, moveTo_trace, touch, Function.update_self, List.append_assoc]
    refine h.move (fun _ => a.prepare) rfl rfl rfl ⟨rfl, rfl⟩ (fun kureq e vs cs hp => ?_)
    rw [hx] at hp
    cases hp with
    | memDone hs => exact .failedPrepare hs ha
  | launched =>
    simp only [moveTo_sr, moveTo_trace, touch, Function.update_self, List.append_assoc]
    refine h.move id rfl rfl rfl ⟨rfl, rfl⟩ (fun kureq e vs cs hp => ?_)
    rw [hx] at hp
    cases hp with
    | prepared hs => exact .running hs
  | launchFailed ha =>
    simp only [moveTo_sr, moveTo_trace, touch, Function.update_self, List.append_assoc]
    refine h.move (fun _ => a.launch) rfl rfl rfl ⟨rfl, rfl⟩ (fun kureq e vs cs hp => ?_)
    rw [hx] at hp
    cases hp with
    | prepared hs => exact .failedLaunch hs ha
  | posted =>
    simp only [moveTo_sr, moveTo_trace, touch, Function.update_self, List.append_assoc]
    refine h.move id rfl rfl rfl ⟨rfl, rfl⟩ (fun kureq e vs cs hp => ?_)
    rw [hx] at hp
    cases hp with
    | running hs => exact .postExec hs
  | postFailed hf ha =>
    simp only [moveTo_sr, moveTo_trace, touch, Function.update_self, List.append_assoc]
    refine h.move (fun _ => a.post) rfl rfl rfl ⟨rfl, rfl⟩ (fun kureq e vs cs hp => ?_)
    rw [hx] at hp
    cases hp with
    | running hs => exact .failedPost hs ha
  | finished =>
    simp only [moveTo_sr, moveTo_trace, touch, Function.update_self, List.append_assoc]
    refine h.move id rfl rfl rfl ⟨rfl, rfl⟩ (fun kureq e vs cs hp => ?_)
    rw [hx] at hp
    cases hp with
    | postExec hs => exact .finished hs
  | answered =>
    simp only [listDel, touch, Function.update_self]
    exact h.respond rfl rfl rfl

/-- Every request read is on its way and unanswered, or answered once at its end.
    Addresses not used yet have no events. -/
structure Lives (c : Config) (s : Helper) : Prop where
  live : ∀ t ∈ s.allReqs, Life c (s.sr t) (s.trace t) []
  answered : ∀ t < s.next, t ∉ s.allReqs →
    (s.sr t).state = .done ∧ Life c (s.sr t) (s.trace t) [s.response t]
  unused : ∀ t, s.next ≤ t → s.trace t = []

/-- Answering a request does not change the fields its response was made from. -/
theorem khServiceDone_response :
    (s.runOp c .done t a).2.response t = s.response t ∧
      ((s.runOp c .done t a).2.sr t).state = (s.sr t).state := by
  simp [runOp, khServiceDone, response, record, setSr, listDel, Config.gpuFreeDeviceMem]

theorem Lives.runOp (h : s.Lives c) (hl : s.Listed) (ht : t ∈ s.q x) :
    (s.runOp c x t a).2.Lives c := by
  obtain ⟨htall, hx⟩ := (hl.mem_iff t x).mp ht
  have hlife := runOp_life (a := a) (h.live t htall) hx
  refine ⟨fun t' ht' => ?_, fun t' hlt hnot => ?_, fun t' hle => ?_⟩
  · rw [runOp_allReqs] at ht'
    by_cases htt : t' = t
    · subst htt
      by_cases hd : x = .done
      · simp only [hd, if_true, hl.nodup_all.mem_erase_iff] at ht'
        exact absurd rfl ht'.1
      · simpa [hd] using hlife
    · have hmem : t' ∈ s.allReqs := by
        split at ht'
        · exact List.mem_of_mem_erase ht'
        · exact ht'
      rw [(runOp_other htt).1, (runOp_other htt).2]
      exact h.live t' hmem
  · rw [runOp_next] at hlt
    rw [runOp_allReqs] at hnot
    by_cases htt : t' = t
    · subst htt
      by_cases hd : x = .done
      · subst hd
        rw [khServiceDone_response.1, khServiceDone_response.2]
        exact ⟨hx, by simpa using hlife⟩
      · exact absurd htall (by simpa [hd] using hnot)
    · have hnot' : t' ∉ s.allReqs := by
        split at hnot
        · exact fun hmem => hnot ((List.mem_erase_of_ne htt).mpr hmem)
        · exact hnot
      unfold response
      rw [(runOp_other htt).1, (runOp_other htt).2]
      exact h.answered t' hlt hnot'
  · rw [runOp_next] at hle
    have htt : t' ≠ t := fun e => Nat.not_lt.mpr hle (e ▸ hl.lt_next t htall)
    rw [(runOp_other htt).2]
    exact h.unused t' hle

theorem Lives.khInitServiceRequest (h : s.Lives c) (kureq : KuRequest) :
    (s.khInitServiceRequest c kureq).Lives c := by
  obtain ⟨hall, hnext, -, -⟩ := khInitServiceRequest_frame (c := c) (s := s) kureq
  have hfresh : s.trace s.next = [] := h.unused s.next (Nat.le_refl _)
  refine ⟨fun t ht => ?_, fun t hlt hnot => ?_, fun t hle => ?_⟩
  · by_cases htn : t = s.next
    · subst htn
      rcases khInitServiceRequest_new (c := c) (s := s) kureq with ⟨hs, hsr, htr⟩ | ⟨p, hs, hsr, htr⟩
      · rw [hsr, htr, hfresh]
        exact ⟨rfl, kureq, rfl, rfl, .noService hs⟩
      · rw [hsr, htr, hfresh]
        exact ⟨rfl, kureq, rfl, rfl, .init (by rw [hs]; rfl)⟩
    · rw [(khInitServiceRequest_other kureq htn).1, (khInitServiceRequest_other kureq htn).2]
      rw [hall, List.mem_append, List.mem_singleton] at ht
      exact h.live t (ht.resolve_right htn)
  · rw [hall, List.mem_append, not_or, List.mem_singleton] at hnot
    rw [hnext] at hlt
    have hlt' : t < s.next := Nat.lt_of_le_of_ne (Nat.lt_succ_iff.mp hlt) hnot.2
    unfold response
    rw [(khInitServiceRequest_other kureq hnot.2).1, (khInitServiceRequest_other kureq hnot.2).2]
    exact h.answered t hlt' hnot.1
  · rw [hnext] at hle
    have htn : t ≠ s.next := Nat.ne_of_gt hle
    rw [(khInitServiceRequest_other kureq htn).2]
    exact h.unused t (Nat.le_of_succ_le hle)

theorem lives_of_run {ok : Helper → HelperStep → Prop} {sr : Token → ServiceRequest}
    {ls : List HelperStep} (hrun : Run (Helper.step c) ok (init sr) ls s) :
    s.Listed ∧ s.Walking ∧ s.Lives c := by
  refine Listed.invariant hrun ⟨by simp [init], by simp [init], by simp [init]⟩ ?_ ?_ ?_
  · exact fun s pc h => ⟨h.live, h.answered, h.unused⟩
  · exact fun s x t rest a hl _ ht _ h => h.runOp hl ht
  · exact fun s kureq _ _ _ h => h.khInitServiceRequest kureq

/-! ## The answer -/

/-- The errcode of a response, read off the life of its request: the error of the
    missing service, the result of the one stage that failed, or 0 after all six
    states. -/
structure RightErrcode (c : Config) (kureq : KuRequest) (tr : List Event) (errcode : Int) :
    Prop where
  no_service : c.khLookupService kureq.serviceName = none → errcode = kgpuNoService
  one_failure : ((calls tr).filter fun call => call.2 ≠ 0).length ≤ 1
  failure : ∀ stage r, .call stage r ∈ tr → r ≠ 0 → errcode = r
  success : errcode = 0 ↔ visited tr = ReqState.all ∧ ∀ stage r, .call stage r ∈ tr → r = 0

theorem mem_calls {tr : List Event} {stage : Stage} {r : Int} :
    .call stage r ∈ tr ↔ (stage, r) ∈ calls tr := by
  refine ⟨fun h => List.mem_filterMap.mpr ⟨_, h, rfl⟩, fun h => ?_⟩
  obtain ⟨e, he, heq⟩ := List.mem_filterMap.mp h
  cases e with
  | call stage' r' =>
    cases heq
    exact he
  | read | computeSize | allocMem | allocStream | execFinished | postFinished | enter | respond =>
    cases heq

end Helper

theorem Progress.rightErrcode {c : Config} {kureq : KuRequest} {e : Int} {tr : List Event}
    (h : Progress c kureq .done e (visited tr) (calls tr)) : Helper.RightErrcode c kureq tr e := by
  generalize hv : visited tr = vs at h
  generalize hc : calls tr = cs at h
  cases h with
  | noService hs =>
    refine ⟨fun _ => rfl, by simp [hc], ?_, ?_⟩
    · simp [Helper.mem_calls, hc]
    · simp [Helper.mem_calls, hc, hv, ReqState.all, kgpuNoService]
  | failedPrepare hs hr | failedLaunch hs hr | failedPost hs hr =>
    refine ⟨fun hn => by simp [hn] at hs, by simp [hc, hr], ?_, ?_⟩
    · simp only [Helper.mem_calls, hc]
      grind
    · simp [Helper.mem_calls, hc, hv, ReqState.all, hr]
  | finished hs =>
    refine ⟨fun hn => by simp [hn] at hs, by simp [hc], ?_, ?_⟩
    · simp only [Helper.mem_calls, hc]
      grind
    · simp only [Helper.mem_calls, hc, hv]
      grind

namespace Helper

variable {c : Config} {s : Helper}

theorem mem_reads {tr : List Event} {kureq : KuRequest} :
    .read kureq ∈ tr ↔ kureq ∈ reads tr := by
  refine ⟨fun h => List.mem_filterMap.mpr ⟨_, h, rfl⟩, fun h => ?_⟩
  obtain ⟨e, he, heq⟩ := List.mem_filterMap.mp h
  cases e with
  | read kureq' =>
    cases heq
    exact he
  | respond | computeSize | allocMem | allocStream | execFinished | postFinished | enter | call =>
    cases heq

theorem mem_responses {tr : List Event} {resp : KuResponse} :
    .respond resp ∈ tr ↔ resp ∈ responses tr := by
  refine ⟨fun h => List.mem_filterMap.mpr ⟨_, h, rfl⟩, fun h => ?_⟩
  obtain ⟨e, he, heq⟩ := List.mem_filterMap.mp h
  cases e with
  | respond resp' =>
    cases heq
    exact he
  | read | computeSize | allocMem | allocStream | execFinished | postFinished | enter | call =>
    cases heq

/-- A request with events has a life, with at most the one response of its end. -/
theorem Lives.life (h : s.Lives c) {t : Token} (hne : s.trace t ≠ []) :
    ∃ resps, Life c (s.sr t) (s.trace t) resps ∧
      (resps = [] ∨ (resps = [s.response t] ∧ (s.sr t).state = .done)) := by
  have hlt : t < s.next := Nat.lt_of_not_le fun hle => hne (h.unused t hle)
  by_cases hmem : t ∈ s.allReqs
  · exact ⟨[], h.live t hmem, .inl rfl⟩
  · obtain ⟨hdone, hlife⟩ := h.answered t hlt hmem
    exact ⟨_, hlife, .inr ⟨rfl, hdone⟩⟩

/-- In every state the main loop reaches: each request held is on exactly the list
    its state names, the lists hold nothing else, and the poll waits without a
    timeout only when every request read has been answered. And a request that was
    read has at most one response, with its id and the right errcode. -/
theorem helper_life_cycle {sr : Token → ServiceRequest} {ls : List HelperStep}
    (hrun : Run (Helper.step c) Free (init sr) ls s) :
    (s.allReqs.Nodup ∧ ∀ x, (s.q x).Nodup) ∧
    (∀ t ∈ s.allReqs, ∀ x, t ∈ s.q x ↔ (s.sr t).state = x) ∧
    (∀ x, ∀ t ∈ s.q x, t ∈ s.allReqs) ∧
    (s.pollTimeout = -1 → (∀ x, s.q x = []) ∧ ∀ t < s.next, ∃ resp, .respond resp ∈ s.trace t) ∧
    (∀ t resp, .respond resp ∈ s.trace t → ∃ kureq, .read kureq ∈ s.trace t) ∧
    ∀ t kureq, .read kureq ∈ s.trace t →
      (responses (s.trace t)).length ≤ 1 ∧
      ∀ resp, .respond resp ∈ s.trace t →
        resp.id = kureq.id ∧ RightErrcode c kureq (s.trace t) resp.errcode := by
  obtain ⟨hl, -, h⟩ := lives_of_run hrun
  refine ⟨⟨hl.nodup_all, hl.nodup⟩, fun t ht x => ?_, fun x t ht => ((hl.mem_iff t x).mp ht).1,
    fun hpoll => ?_, fun t resp hresp => ?_, fun t kureq hread => ?_⟩
  · rw [hl.mem_iff]
    simp [ht]
  · have hnil : s.allReqs = [] := by
      unfold pollTimeout at hpoll
      split at hpoll
      next he => exact List.isEmpty_iff.mp he
      next => cases hpoll
    refine ⟨fun x => List.eq_nil_iff_forall_not_mem.mpr fun t ht => ?_, fun t ht => ?_⟩
    · have hmem := ((hl.mem_iff t x).mp ht).1
      rw [hnil] at hmem
      cases hmem
    · have hlife := (h.answered t ht (by rw [hnil]; exact List.not_mem_nil)).2
      exact ⟨s.response t, mem_responses.mpr (by rw [hlife.sent]; exact List.mem_singleton_self _)⟩
  · obtain ⟨resps, hlife, -⟩ := h.life (List.ne_nil_of_mem hresp)
    obtain ⟨kureq, hread, -⟩ := hlife.progress
    exact ⟨kureq, mem_reads.mpr (by rw [hread]; exact List.mem_singleton_self _)⟩
  · obtain ⟨resps, hlife, hend⟩ := h.life (List.ne_nil_of_mem hread)
    obtain ⟨kureq', hreads, hid, hprog⟩ := hlife.progress
    have hkureq : kureq = kureq' := by
      rw [mem_reads, hreads] at hread
      exact List.mem_singleton.mp hread
    subst hkureq
    rw [hlife.sent]
    rcases hend with rfl | ⟨rfl, hdone⟩
    · refine ⟨by simp, fun resp hresp => ?_⟩
      rw [mem_responses, hlife.sent] at hresp
      cases hresp
    · refine ⟨by simp, fun resp hresp => ?_⟩
      rw [mem_responses, hlife.sent, List.mem_singleton] at hresp
      subst hresp
      rw [hdone] at hprog
      exact ⟨hid, hprog.rightErrcode⟩

/-- An iteration with an operation for the first item of the `n`-th list. -/
def turnAt (n : Nat) (a : Answers) (kureq : Option KuRequest) : List HelperStep :=
  List.replicate n .advance ++ .op a :: List.replicate (6 - n) .advance ++ [.get kureq]

/-- One request goes through all states, with a poll of the GPU in vain; another, for a
    service that is not registered, is read while the first is running. -/
def twoAnsweredSteps : List HelperStep :=
  List.flatten [
    List.replicate 6 .advance,
    [.get (some ⟨7, Vector.replicate 32 65, 0x2000000, 0x2001000, 0, 8, 8, 0⟩)],
    turnAt 5 ⟨0, 0, 0, 0, false, false⟩ none,
    turnAt 4 ⟨0, 0, 0, 0, false, false⟩ none,
    turnAt 3 ⟨0, 0, 0, 0, false, false⟩ none,
    turnAt 2 ⟨0, 0, 0, 0, false, false⟩ (some ⟨8, Vector.replicate 32 66, 0, 0, 0, 0, 0, 0⟩),
    [.op ⟨0, 0, 0, 0, false, false⟩, .advance, .advance, .op ⟨0, 0, 0, 0, true, false⟩,
      .advance, .advance, .advance, .advance, .get none],
    turnAt 1 ⟨0, 0, 0, 0, false, true⟩ none,
    [.op ⟨0, 0, 0, 0, false, false⟩]]

def twoAnswered : Helper := (exec (step .small) twoAnsweredSteps (init default)).get rfl

/-- Both requests are answered, the second before the first. -/
theorem helper_life_cycle_two_requests :
    Run (Helper.step .small) Free (init default) twoAnsweredSteps twoAnswered ∧
      visited (twoAnswered.trace 0) = [.init, .memDone, .prepared, .running, .postExec, .done] ∧
      responses (twoAnswered.trace 0) = [⟨7, 0⟩] ∧
      responses (twoAnswered.trace 1) = [⟨8, kgpuNoService⟩] ∧
      twoAnswered.pollTimeout = -1 ∧ (∀ x, twoAnswered.q x = []) ∧
      (responses (twoAnswered.trace 0)).length ≤ 1 := by
  have hrun : Run (Helper.step .small) Free (init default) twoAnsweredSteps twoAnswered :=
    Run.of_exec rfl
  have hread : .read ⟨7, Vector.replicate 32 65, 0x2000000, 0x2001000, 0, 8, 8, 0⟩ ∈
      twoAnswered.trace 0 := List.mem_cons_self
  obtain ⟨-, -, -, hpoll, -, honce⟩ := helper_life_cycle hrun
  exact ⟨hrun, rfl, rfl, rfl, rfl, (hpoll rfl).1, (honce 0 _ hread).1⟩

end Helper
end Kgpu
