-- SUMMARY: The log of the main loop: in which order and in which iterations the functions of a service are called.
import Kgpu.Helper.Lifecycle

/-!
# The service callback protocol

Each event of the helper is logged with the iteration of `kh_main_loop` and the step
it belongs to. Over a whole run, the functions of a service are called for a request
in the order of the protocol, and an iteration takes a request at most one list
further: the lists are processed from the last to the first, and every operation moves
a request to a list that was processed before.
-/

namespace Kgpu

open Library

/-! ## The log -/

/-- An event of the request `token`. -/
structure LogEntry where
  iter : Nat
  step : Nat
  token : Token
  event : Event

/-- The helper, the number of iterations completed and of steps made, and the log. -/
structure Logged where
  helper : Helper
  iter : Nat
  steps : Nat
  log : List LogEntry

namespace Logged

/-- The request that has events in a step. -/
def subject (h : Helper) : HelperStep → Option Token
  | .op _ =>
    match h.pc with
    | .process _ (t :: _) => some t
    | _ => none
  | .advance | .get none => none
  | .get (some _) => some h.next

/-- `kh_get_next_service_request` ends an iteration. -/
def nextIter (i : Nat) : HelperStep → Nat
  | .op _ | .advance => i
  | .get _ => i + 1

/-- The events of a step that led to `h'`. -/
def newEntries (s : Logged) (l : HelperStep) (h' : Helper) : List LogEntry :=
  match subject s.helper l with
  | some t => ((h'.trace t).drop (s.helper.trace t).length).map fun e => ⟨s.iter, s.steps, t, e⟩
  | none => []

def step (c : Config) (s : Logged) (l : HelperStep) : Option Logged :=
  (s.helper.step c l).map fun h' =>
    { helper := h'
      iter := nextIter s.iter l
      steps := s.steps + 1
      log := s.log ++ s.newEntries l h' }

def init (sr : Token → ServiceRequest) : Logged where
  helper := Helper.init sr
  iter := 0
  steps := 0
  log := []

/-- The part of the log that is about one request. -/
def entries (s : Logged) (t : Token) : List LogEntry := s.log.filter fun e => e.token = t

/-- Events of a request in the next step. -/
def stamp (s : Logged) (t : Token) (es : List Event) : List LogEntry :=
  es.map fun e => ⟨s.iter, s.steps, t, e⟩

theorem mem_stamp {s : Logged} {t : Token} {es : List Event} {e : LogEntry}
    (he : e ∈ s.stamp t es) : e.iter = s.iter ∧ e.step = s.steps ∧ e.token = t ∧ e.event ∈ es := by
  obtain ⟨ev, hev, rfl⟩ := List.mem_map.mp he
  exact ⟨rfl, rfl, rfl, hev⟩

end Logged

/-! ## What an operation reports -/

/-- The events of one operation over the list of a state, with the value it returns and
    the state of the request after. -/
inductive OpEvents (resp : KuResponse) : ReqState → Int → List Event → ReqState → Prop where
  | allocRefused {r : Int} (hr : r ≠ 0) : OpEvents resp .init (-1) [.allocMem r] .init
  | allocated : OpEvents resp .init 0 [.allocMem 0, .enter .memDone] .memDone
  | noStream : OpEvents resp .memDone (-1) [.allocStream 1] .memDone
  | prepared : OpEvents resp .memDone 0
      [.allocStream 0, .call .prepare 0, .enter .prepared] .prepared
  | prepareFailed {r : Int} (hr : r ≠ 0) : OpEvents resp .memDone r
      [.allocStream 0, .call .prepare r, .enter .done] .done
  | launched : OpEvents resp .prepared 0 [.call .launch 0, .enter .running] .running
  | launchFailed {r : Int} (hr : r ≠ 0) : OpEvents resp .prepared 0
      [.call .launch r, .enter .done] .done
  | executing : OpEvents resp .running 1 [.execFinished false] .running
  | posted : OpEvents resp .running 0
      [.execFinished true, .call .post 0, .enter .postExec] .postExec
  | postFailed {r : Int} (hr : r ≠ 0) : OpEvents resp .running r
      [.execFinished true, .call .post r, .enter .done] .done
  | copying : OpEvents resp .postExec 1 [.postFinished false] .postExec
  | finished : OpEvents resp .postExec 0 [.postFinished true, .enter .done] .done
  | answered : OpEvents resp .done 0 [.respond resp] .done

namespace Helper

variable {c : Config} {s : Helper} {t : Token} {x : ReqState} {a : Answers}

theorem touch_moveTo_trace {sr : ServiceRequest} {es : List Event}
    {uses : Fin maxStreamNr → Bool} {pins : List PinCall} {y : ReqState} :
    ((s.touch t sr es uses pins).moveTo t y).trace t = s.trace t ++ (es ++ [.enter y]) := by
  simp [touch]

theorem runOp_events (hx : (s.sr t).state = x) :
    ∃ es, (s.runOp c x t a).2.trace t = s.trace t ++ es ∧
      OpEvents (s.response t) x (s.runOp c x t a).1 es ((s.runOp c x t a).2.sr t).state := by
  have hcase : OpCase c s t a x (s.runOp c x t a) := runOp_case
  generalize s.runOp c x t a = r at hcase
  cases hcase with
  | allocRefused ha =>
    refine ⟨[.allocMem a.alloc], by simp [touch], ?_⟩
    simpa [touch, Config.gpuAllocDeviceMem, hx] using .allocRefused ha
  | noStream =>
    refine ⟨[.allocStream 1], by simp [touch], ?_⟩
    simpa [touch, hx] using .noStream
  | executing =>
    refine ⟨[.execFinished false], by simp [touch], ?_⟩
    simpa [touch, hx] using .executing
  | copying =>
    refine ⟨[.postFinished false], by simp [touch], ?_⟩
    simpa [touch, hx] using .copying
  | allocated => exact ⟨_, touch_moveTo_trace, by simpa using .allocated⟩
  | prepared => exact ⟨_, touch_moveTo_trace, by simpa using .prepared⟩
  | prepareFailed _ _ ha => exact ⟨_, touch_moveTo_trace, by simpa using .prepareFailed ha⟩
  | launched => exact ⟨_, touch_moveTo_trace, by simpa using .launched⟩
  | launchFailed ha => exact ⟨_, touch_moveTo_trace, by simpa using .launchFailed ha⟩
  | posted => exact ⟨_, touch_moveTo_trace, by simpa using .posted⟩
  | postFailed _ ha => exact ⟨_, touch_moveTo_trace, by simpa using .postFailed ha⟩
  | finished => exact ⟨_, touch_moveTo_trace, by simpa using .finished⟩
  | answered =>
    refine ⟨[.respond (s.response t)], by simp [touch, listDel], ?_⟩
    simpa [touch, listDel, Config.gpuFreeDeviceMem, hx] using .answered

end Helper

/-- The events of `kh_get_next_service_request`. -/
inductive ReadEvents : List Event → Prop where
  | nothing : ReadEvents []
  | noService (kureq : KuRequest) : ReadEvents [.read kureq, .enter .done]
  | served (kureq : KuRequest) : ReadEvents [.read kureq, .computeSize, .enter .init]

/-! ## What a step does -/

/-- The place of a list in an iteration. -/
def ReqState.order : ReqState → Nat
  | done => 0
  | postExec => 1
  | running => 2
  | prepared => 3
  | memDone => 4
  | init => 5

def LoopPc.order : LoopPc → Nat
  | process x _ => x.order
  | get => 6

namespace Logged

variable {c : Config} {s s' : Logged}

/-- What a step does to the log, and what of the helper the log depends on. -/
inductive StepCase (s : Logged) : Logged → Prop where
  | op {h' : Helper} {x y : ReqState} {t : Token} {rest : List Token} {r : Int} {es : List Event}
      (hpc : s.helper.pc = .process x (t :: rest)) (ht : t ∈ s.helper.q x)
      (hes : OpEvents (s.helper.response t) x r es y)
      (hpc' : h'.pc = .process x (if r = 0 && Helper.once x then [] else rest))
      (hstate : ∀ t', (h'.sr t').state = if t' = t then y else (s.helper.sr t').state)
      (htrace : ∀ t', h'.trace t' = s.helper.trace t' ++ if t' = t then es else []) :
      StepCase s ⟨h', s.iter, s.steps + 1, s.log ++ s.stamp t es⟩
  | advance {h' : Helper} {x : ReqState} (hpc : s.helper.pc = .process x [])
      (hpc' : h'.pc.order = x.order + 1) (hsr : h'.sr = s.helper.sr)
      (htrace : h'.trace = s.helper.trace) :
      StepCase s ⟨h', s.iter, s.steps + 1, s.log⟩
  | get {h' : Helper} {es : List Event} (hpc : s.helper.pc = .get) (hes : ReadEvents es)
      (htrace : ∀ t', h'.trace t' =
        s.helper.trace t' ++ if t' = s.helper.next then es else []) :
      StepCase s ⟨h', s.iter + 1, s.steps + 1, s.log ++ s.stamp s.helper.next es⟩

theorem newEntries_eq {l : HelperStep} {h' : Helper} {t : Token} {es : List Event}
    (ht : subject s.helper l = some t) (htrace : h'.trace t = s.helper.trace t ++ es) :
    s.newEntries l h' = s.stamp t es := by
  rw [newEntries, ht]
  simp only [htrace, List.drop_left, stamp]

theorem step_case_op (hl : s.helper.Listed) (hw : s.helper.Walking) {a : Answers}
    (hs : s.step c (.op a) = some s') : StepCase s s' := by
  obtain ⟨h', hstep, rfl⟩ := Option.map_eq_some_iff.mp hs
  obtain ⟨x, t, rest, hpc, hh⟩ := Helper.step_op_inv hstep
  have ht : t ∈ s.helper.q x := (hw x _ hpc).2 t List.mem_cons_self
  obtain ⟨es, htrace, hes⟩ := @Helper.runOp_events c s.helper t x a ((hl.mem_iff t x).mp ht).2
  have hnew : s.newEntries (.op a) h' = s.stamp t es :=
    newEntries_eq (by simp only [subject, hpc]) (by rw [hh]; exact htrace)
  rw [hnew, hh]
  refine .op hpc ht hes rfl (fun t' => ?_) fun t' => ?_
  · by_cases htt : t' = t
    · rw [if_pos htt, htt]
    · rw [if_neg htt]
      exact congrArg ServiceRequest.state (Helper.runOp_other htt).1
  · by_cases htt : t' = t
    · rw [if_pos htt, htt]
      exact htrace
    · rw [if_neg htt, List.append_nil]
      exact (Helper.runOp_other htt).2

theorem step_case_advance (hs : s.step c .advance = some s') : StepCase s s' := by
  obtain ⟨h', hstep, rfl⟩ := Option.map_eq_some_iff.mp hs
  have hnew : s.newEntries .advance h' = [] := rfl
  rw [hnew, List.append_nil]
  obtain ⟨x, pc, hpc, rfl, ⟨y, hy, rfl⟩ | ⟨hy, rfl⟩⟩ := Helper.step_advance_inv hstep
  · refine .advance hpc ?_ rfl rfl
    cases x <;> cases hy <;> rfl
  · refine .advance hpc ?_ rfl rfl
    cases x <;> cases hy
    rfl

theorem step_case_get {kureq : Option KuRequest} (hs : s.step c (.get kureq) = some s') :
    StepCase s s' := by
  obtain ⟨h', hstep, rfl⟩ := Option.map_eq_some_iff.mp hs
  obtain ⟨hpc, hh⟩ := Helper.step_get_inv hstep
  cases kureq with
  | none =>
    rw [hh]
    exact .get hpc .nothing fun t' => by simp [Helper.khGetNextServiceRequest]
  | some kureq =>
    have hes : ∃ es, ReadEvents es ∧ h'.trace s.helper.next =
        s.helper.trace s.helper.next ++ es := by
      rw [hh]
      rcases @Helper.khInitServiceRequest_new c s.helper kureq with
        ⟨-, -, htrace⟩ | ⟨p, -, -, htrace⟩
      · exact ⟨_, .noService kureq, htrace⟩
      · exact ⟨_, .served kureq, htrace⟩
    obtain ⟨es, hread, htrace⟩ := hes
    rw [newEntries_eq rfl htrace]
    refine .get hpc hread fun t' => ?_
    by_cases htt : t' = s.helper.next
    · rw [if_pos htt, htt]
      exact htrace
    · rw [if_neg htt, List.append_nil, hh]
      exact (Helper.khInitServiceRequest_other kureq htt).2

theorem step_case {l : HelperStep} (hl : s.helper.Listed) (hw : s.helper.Walking)
    (hs : s.step c l = some s') : StepCase s s' := by
  cases l with
  | op a => exact step_case_op hl hw hs
  | advance => exact step_case_advance hs
  | get kureq => exact step_case_get hs

theorem helper_run {ok : Logged → HelperStep → Prop} {sr : Token → ServiceRequest}
    {ls : List HelperStep} (hrun : Run (Logged.step c) ok (init sr) ls s) :
    Run (Helper.step c) Free (Helper.init sr) ls s.helper := by
  induction hrun with
  | nil => exact .nil
  | snoc _ _ hs ih =>
    obtain ⟨h', hstep, rfl⟩ := Option.map_eq_some_iff.mp hs
    exact ih.snoc trivial hstep

theorem entries_append {t t' : Token} {es : List Event} {h' : Helper} {i n : Nat} :
    entries ⟨h', i, n, s.log ++ s.stamp t es⟩ t' =
      s.entries t' ++ if t' = t then s.stamp t es else [] := by
  simp only [entries, List.filter_append]
  congr 1
  by_cases htt : t' = t
  · rw [if_pos htt]
    refine List.filter_eq_self.mpr fun e he => ?_
    simp [(mem_stamp he).2.2.1, htt]
  · rw [if_neg htt]
    refine List.filter_eq_nil_iff.mpr fun e he heq => htt ?_
    rw [← (mem_stamp he).2.2.1]
    exact (of_decide_eq_true heq).symm

theorem stamp_event {t : Token} {es : List Event} : (s.stamp t es).map (·.event) = es := by
  simp [stamp, Function.comp_def]

/-- The log has the events of each request in their order. -/
def Faithful (s : Logged) : Prop := ∀ t, (s.entries t).map (·.event) = s.helper.trace t

theorem Faithful.step (h : s.Faithful) (hs : StepCase s s') : s'.Faithful := by
  intro t'
  cases hs with
  | op _ _ _ _ _ htrace =>
    rw [entries_append, List.map_append, h t', htrace]
    split
    · rw [stamp_event]
    · rfl
  | advance _ _ _ htrace =>
    simp only [htrace]
    exact h t'
  | get _ _ htrace =>
    rw [entries_append, List.map_append, h t', htrace]
    split
    next heq => rw [stamp_event]
    · rfl

theorem Faithful.mem_trace (h : s.Faithful) {e : LogEntry} (he : e ∈ s.log) :
    e.event ∈ s.helper.trace e.token := by
  rw [← h e.token]
  exact List.mem_map_of_mem (List.mem_filter.mpr ⟨he, by simp⟩)

/-- The invariant rule for the log: the lists and the lives of the requests may be used. -/
theorem log_invariant {I : Logged → Prop} {sr : Token → ServiceRequest} {ls : List HelperStep}
    (hrun : Run (Logged.step c) Free (init sr) ls s) (hinit : I (init sr))
    (hstep : ∀ s s', s.helper.Listed → s.helper.Lives c → s.Faithful → I s → StepCase s s' → I s') :
    s.Faithful ∧ I s := by
  refine hrun.invariant_reached (I := fun s => s.Faithful ∧ I s) ⟨fun _ => rfl, hinit⟩ ?_
  rintro ls s l s' hrun ⟨hf, hI⟩ - hs
  obtain ⟨hl, hw, hlives⟩ := Helper.lives_of_run (helper_run hrun)
  have hcase := step_case hl hw hs
  exact ⟨hf.step hcase, hstep s s' hl hlives hf hI hcase⟩

end Logged

/-! ## Iterations -/

/-- The list whose walk ends with an event: a request was moved by `prepare` or by `post`,
    or was handed to `launch`. -/
def Event.stops : Event → Option ReqState
  | enter .prepared => some .memDone
  | call .launch _ => some .prepared
  | enter .postExec => some .running
  | _ => none

/-- Of two entries of the log, the first before the second: an iteration has no two events
    that end the same walk, a request enters its next list, or is answered, in a later
    iteration than the one it entered a list in, and its answer is its last event. -/
structure Apart (e e' : LogEntry) : Prop where
  stops : e.iter = e'.iter → e.event.stops = none ∨ e.event.stops ≠ e'.event.stops
  moves : e.token = e'.token → e.event.entered.isSome → e'.event.entered.isSome →
    e.iter < e'.iter
  answer : e.token = e'.token → e.event.entered.isSome → e'.event.responseOf.isSome →
    e.iter < e'.iter
  last : e.token = e'.token → e.event.responseOf = none

namespace OpEvents

variable {resp : KuResponse} {x y z : ReqState} {r : Int} {es : List Event}

/-- A list that is entered has been processed in this iteration. -/
theorem enter_order (h : OpEvents resp x r es y) (hz : .enter z ∈ es) :
    z = y ∧ z.order < x.order := by
  cases h <;> simp_all [ReqState.order]

theorem stops (h : OpEvents resp x r es y) {ev : Event} (hev : ev ∈ es) (hz : ev.stops = some z) :
    z = x ∧ r = 0 ∧ Helper.once x = true := by
  cases h <;> simp only [List.mem_cons, List.not_mem_nil, or_false] at hev <;>
    rcases hev with rfl | rfl | rfl <;> cases hz <;> exact ⟨rfl, rfl, rfl⟩

/-- Only the last event of an operation is a move or an answer. -/
theorem pairwise (h : OpEvents resp x r es y) : es.Pairwise fun ev ev' =>
    (ev.stops = none ∨ ev.stops ≠ ev'.stops) ∧ ev.entered = none ∧ ev.responseOf = none := by
  cases h <;> simp [Event.stops, Event.entered, Event.responseOf]

end OpEvents

namespace ReadEvents

variable {es : List Event}

theorem stops (h : ReadEvents es) {ev : Event} (hev : ev ∈ es) : ev.stops = none := by
  cases h <;> simp only [List.mem_cons, List.not_mem_nil, or_false] at hev <;>
    rcases hev with rfl | rfl | rfl <;> rfl

theorem pairwise (h : ReadEvents es) : es.Pairwise fun ev ev' =>
    (ev.stops = none ∨ ev.stops ≠ ev'.stops) ∧ ev.entered = none ∧ ev.responseOf = none := by
  cases h <;> simp [Event.stops, Event.entered, Event.responseOf]

end ReadEvents

namespace Logged

variable {c : Config} {s s' : Logged}

/-- What the log says about the iteration that is going on: a request that was moved is on
    a list that was processed before, and a walk that was to stop is over. -/
structure Paced (s : Logged) : Prop where
  iter_le : ∀ e ∈ s.log, e.iter ≤ s.iter
  moved : ∀ e ∈ s.log, e.iter = s.iter → ∀ y, e.event = .enter y →
    y.order < s.helper.pc.order ∧ (s.helper.sr e.token).state = y
  stopped : ∀ e ∈ s.log, e.iter = s.iter → ∀ x, e.event.stops = some x →
    s.helper.pc = .process x [] ∨ x.order < s.helper.pc.order
  apart : s.log.Pairwise Apart

theorem apart_stamp {t : Token} {es : List Event}
    (h : es.Pairwise fun ev ev' =>
      (ev.stops = none ∨ ev.stops ≠ ev'.stops) ∧ ev.entered = none ∧ ev.responseOf = none) :
    (s.stamp t es).Pairwise Apart := by
  refine List.pairwise_map.mpr (h.imp fun {ev ev'} hev => ?_)
  obtain ⟨hstops, hentered, hresp⟩ := hev
  refine ⟨fun _ => hstops, fun _ he => ?_, fun _ he => ?_, fun _ => hresp⟩
  · simp [hentered] at he
  · simp [hentered] at he

/-- An operation finds its request as an earlier iteration has left it. -/
theorem Paced.earlier (h : s.Paced) (hl : s.helper.Listed) {x : ReqState} {t : Token}
    {rest : List Token} (hpc : s.helper.pc = .process x (t :: rest)) (ht : t ∈ s.helper.q x)
    {e : LogEntry} (he : e ∈ s.log) (het : e.token = t) (hentered : e.event.entered.isSome) :
    e.iter < s.iter := by
  refine Nat.lt_of_le_of_ne (h.iter_le e he) fun hiter => ?_
  obtain ⟨y, hy⟩ := Option.isSome_iff_exists.mp hentered
  have hev : e.event = .enter y := by
    cases hcase : e.event with
    | enter z =>
      rw [hcase] at hy
      rw [Option.some.inj hy]
    | _ =>
      rw [hcase] at hy
      cases hy
  obtain ⟨hlt, hstate⟩ := h.moved e he hiter y hev
  rw [het, ((hl.mem_iff t x).mp ht).2] at hstate
  rw [hpc, hstate] at hlt
  exact Nat.lt_irrefl _ hlt

/-- A request that is held has not been answered. -/
theorem Faithful.unanswered (hf : s.Faithful) (hlives : s.helper.Lives c) {e : LogEntry}
    (he : e ∈ s.log) (ht : e.token ∈ s.helper.allReqs) : e.event.responseOf = none := by
  by_contra hne
  obtain ⟨resp, hresp⟩ := Option.ne_none_iff_exists'.mp hne
  have hmem : resp ∈ responses (s.helper.trace e.token) :=
    List.mem_filterMap.mpr ⟨e.event, hf.mem_trace he, hresp⟩
  rw [(hlives.live _ ht).sent] at hmem
  cases hmem

theorem Paced.op (h : s.Paced) (hl : s.helper.Listed) (hlives : s.helper.Lives c)
    (hf : s.Faithful) {h' : Helper} {x y : ReqState} {t : Token} {rest : List Token} {r : Int}
    {es : List Event} (hpc : s.helper.pc = .process x (t :: rest)) (ht : t ∈ s.helper.q x)
    (hes : OpEvents (s.helper.response t) x r es y)
    (hpc' : h'.pc = .process x (if r = 0 && Helper.once x then [] else rest))
    (hstate : ∀ t', (h'.sr t').state = if t' = t then y else (s.helper.sr t').state) :
    Paced ⟨h', s.iter, s.steps + 1, s.log ++ s.stamp t es⟩ := by
  -- A walk that was to stop is one over a list before this one.
  have hstay : ∀ e ∈ s.log, ∀ z, e.iter = s.iter → e.event.stops = some z → z.order < x.order := by
    intro e he z hiter hz
    rcases h.stopped e he hiter z hz with hend | hlt
    · rw [hpc] at hend
      cases hend
    · rwa [hpc] at hlt
  refine ⟨fun e he => ?_, fun e he hiter z hz => ?_, fun e he hiter z hz => ?_, ?_⟩
  · rcases List.mem_append.mp he with he | he
    · exact h.iter_le e he
    · exact (mem_stamp he).1.le
  · simp only [hpc', LoopPc.order, hstate]
    rcases List.mem_append.mp he with he | he
    · have hne : e.token ≠ t := by
        intro het
        have := h.earlier hl hpc ht he het (by rw [hz]; rfl)
        exact Nat.ne_of_lt this hiter
      rw [if_neg hne]
      have hmoved := h.moved e he hiter z hz
      rwa [hpc] at hmoved
    · obtain ⟨-, -, htok, hev⟩ := mem_stamp he
      rw [hz] at hev
      rw [if_pos htok]
      exact ⟨(hes.enter_order hev).2, (hes.enter_order hev).1.symm⟩
  · simp only [hpc', LoopPc.order]
    rcases List.mem_append.mp he with he | he
    · exact .inr (hstay e he z hiter hz)
    · obtain ⟨rfl, rfl, honce⟩ := hes.stops (mem_stamp he).2.2.2 hz
      simp [honce]
  · refine List.pairwise_append.mpr ⟨h.apart, apart_stamp hes.pairwise, fun e he e' he' => ?_⟩
    obtain ⟨hiter', -, htok', hev'⟩ := mem_stamp he'
    refine ⟨fun hiter => ?_, fun htok hent _ => ?_, fun htok hent _ => ?_, fun htok => ?_⟩
    · cases hz : e.event.stops with
      | none => exact .inl rfl
      | some z =>
        refine .inr fun heq => ?_
        have hlt := hstay e he z (hiter.trans hiter') hz
        rw [(hes.stops hev' heq.symm).1] at hlt
        exact Nat.lt_irrefl _ hlt
    · rw [hiter']
      exact h.earlier hl hpc ht he (htok.trans htok') hent
    · rw [hiter']
      exact h.earlier hl hpc ht he (htok.trans htok') hent
    · refine hf.unanswered hlives he ?_
      rw [htok, htok']
      exact ((hl.mem_iff t x).mp ht).1

theorem Paced.advance (h : s.Paced) {h' : Helper} {x : ReqState} {n : Nat}
    (hpc : s.helper.pc = .process x []) (hpc' : h'.pc.order = x.order + 1)
    (hsr : h'.sr = s.helper.sr) : Paced ⟨h', s.iter, n, s.log⟩ := by
  have horder : s.helper.pc.order < h'.pc.order := by
    rw [hpc, hpc']
    exact Nat.lt_succ_self _
  refine ⟨h.iter_le, fun e he hiter y hy => ?_, fun e he hiter z hz => .inr ?_, h.apart⟩
  · obtain ⟨hlt, hstate⟩ := h.moved e he hiter y hy
    simp only [hsr]
    exact ⟨hlt.trans horder, hstate⟩
  · rcases h.stopped e he hiter z hz with hend | hlt
    · rw [hend] at horder
      exact horder
    · exact hlt.trans horder

theorem Paced.get (h : s.Paced) (hlives : s.helper.Lives c) (hf : s.Faithful) {h' : Helper}
    {es : List Event} {n : Nat} (hes : ReadEvents es) :
    Paced ⟨h', s.iter + 1, n, s.log ++ s.stamp s.helper.next es⟩ := by
  have hlt : ∀ e ∈ s.log ++ s.stamp s.helper.next es, e.iter < s.iter + 1 := by
    intro e he
    rcases List.mem_append.mp he with he | he
    · exact Nat.lt_succ_of_le (h.iter_le e he)
    · exact Nat.lt_succ_of_le (mem_stamp he).1.le
  refine ⟨fun e he => (hlt e he).le, fun e he hiter => absurd hiter (hlt e he).ne,
    fun e he hiter => absurd hiter (hlt e he).ne, ?_⟩
  refine List.pairwise_append.mpr ⟨h.apart, apart_stamp hes.pairwise, fun e he e' he' => ?_⟩
  obtain ⟨-, -, htok', hev'⟩ := mem_stamp he'
  -- Nothing is logged for an address before it is used.
  have hnew : e.token ≠ e'.token := by
    intro htok
    have hmem := hf.mem_trace he
    rw [htok, htok', hlives.unused _ (Nat.le_refl _)] at hmem
    cases hmem
  refine ⟨fun _ => ?_, fun htok => absurd htok hnew, fun htok => absurd htok hnew,
    fun htok => absurd htok hnew⟩
  rw [hes.stops hev']
  exact Classical.em _

theorem Paced.step (h : s.Paced) (hl : s.helper.Listed) (hlives : s.helper.Lives c)
    (hf : s.Faithful) (hs : StepCase s s') : s'.Paced := by
  cases hs with
  | op hpc ht hes hpc' hstate => exact h.op hl hlives hf hpc ht hes hpc' hstate
  | advance hpc hpc' hsr => exact h.advance hpc hpc' hsr
  | get _ hes => exact h.get hlives hf hes

end Logged

/-! ## The order of the calls -/

/-- The functions of a service. -/
inductive ServiceFn where
  | computeSize
  | stage (x : Stage)
  deriving DecidableEq

/-- The order in which they are called for a request. -/
def ServiceFn.protocol : List ServiceFn :=
  [.computeSize, .stage .prepare, .stage .launch, .stage .post]

def Event.service : Event → Option ServiceFn
  | computeSize => some .computeSize
  | call x _ => some (.stage x)
  | _ => none

/-- The functions of a service that were called, in order. -/
def services (tr : List Event) : List ServiceFn := tr.filterMap Event.service

theorem services_append (tr es : List Event) : services (tr ++ es) = services tr ++ services es :=
  List.filterMap_append

/-- `compute_size` is called first, for a request that enters the first list. -/
def ComputeSizeFirst (tr : List Event) : Prop :=
  services tr =
    (if .init ∈ visited tr then [.computeSize] else []) ++ (calls tr).map fun call => .stage call.1

theorem OpEvents.computeSizeFirst {resp : KuResponse} {x y : ReqState} {r : Int} {es tr : List Event}
    (h : OpEvents resp x r es y) (htr : ComputeSizeFirst tr) :
    ComputeSizeFirst (tr ++ es) := by
  have hes : services es = (calls es).map (fun call => .stage call.1) ∧ .init ∉ visited es := by
    cases h <;> exact ⟨rfl, by simp [visited, Event.entered]⟩
  rw [ComputeSizeFirst, services_append, visited_append, calls_append, List.map_append, htr, hes.1,
    List.append_assoc]
  simp only [List.mem_append, hes.2, or_false]

theorem ReadEvents.computeSizeFirst {es : List Event} (h : ReadEvents es) : ComputeSizeFirst es := by
  cases h <;> rfl

/-- What an entry needs before it in the log of its request. -/
structure Needs (pre : List LogEntry) (e : LogEntry) : Prop where
  memDone : e.event = .enter .memDone → ∃ e' ∈ pre, e'.event = .allocMem 0
  prepare : ∀ r, e.event = .call .prepare r → (∃ e' ∈ pre, e'.event = .allocMem 0) ∧
    ∃ e' ∈ pre, e'.event = .allocStream 0 ∧ e'.step = e.step
  launch : ∀ r, e.event = .call .launch r → ∃ e' ∈ pre, e'.event = .call .prepare 0
  post : ∀ r, e.event = .call .post r → (∃ e' ∈ pre, e'.event = .call .launch 0) ∧
    ∃ e' ∈ pre, e'.event = .execFinished true ∧ e'.step = e.step
  succeeded : e.event.service.isSome → ∀ e' ∈ pre, ∀ stage r, e'.event = .call stage r → r = 0

theorem Needs.quiet {pre : List LogEntry} {e : LogEntry} (hm : e.event ≠ .enter .memDone)
    (hs : e.event.service = none) : Needs pre e := by
  refine ⟨fun h => absurd h hm, fun r h => ?_, fun r h => ?_, fun r h => ?_, fun h => ?_⟩
  · rw [h] at hs
    cases hs
  · rw [h] at hs
    cases hs
  · rw [h] at hs
    cases hs
  · rw [hs] at h
    cases h

/-- What a request on its way has behind it. -/
theorem Progress.behind {c : Config} {kureq : KuRequest} {x : ReqState} {e : Int} {vs : List ReqState}
    {cs : List (Stage × Int)} (h : Progress c kureq x e vs cs) :
    (x = .memDone → .memDone ∈ vs) ∧ (x = .prepared → (.prepare, 0) ∈ cs) ∧
      (x = .running → (.launch, 0) ∈ cs) ∧ (x ≠ .done → ∀ call ∈ cs, call.2 = 0) := by
  cases h <;> simp

theorem mem_visited {tr : List Event} {x : ReqState} : x ∈ visited tr → .enter x ∈ tr := by
  intro h
  obtain ⟨ev, hev, heq⟩ := List.mem_filterMap.mp h
  cases ev <;> cases heq
  exact hev

namespace Logged

variable {c : Config} {s s' : Logged} {t : Token} {x y : ReqState} {r : Int} {es : List Event}
  {resp : KuResponse}

/-- The calls for each request, and what each entry needs. -/
structure Ordered (s : Logged) : Prop where
  first : ∀ t, ComputeSizeFirst (s.helper.trace t)
  needs : ∀ t, Preceded Needs (s.entries t)

theorem supplied_op (hlife : Life c (s.helper.sr t) (s.helper.trace t) [])
    (hx : (s.helper.sr t).state = x) (hf : s.Faithful) (hneeds : Preceded Needs (s.entries t))
    (hes : OpEvents resp x r es y) : Supplied Needs (s.entries t) (s.stamp t es) := by
  obtain ⟨kureq, -, -, hprog⟩ := hlife.progress
  obtain ⟨hmem, hprep, hrun, hzero⟩ := Progress.behind hprog
  rw [hx] at hmem hprep hrun hzero
  have hentry : ∀ ev ∈ s.helper.trace t, ∃ e ∈ s.entries t, e.event = ev := by
    intro ev hev
    rw [← hf t] at hev
    exact List.mem_map.mp hev
  have hok : x ≠ .done → ∀ e ∈ s.entries t, ∀ stage r, e.event = .call stage r → r = 0 := by
    intro hnd e he stage r hr
    have hev : e.event ∈ s.helper.trace t := by
      rw [← hf t]
      exact List.mem_map_of_mem he
    rw [hr] at hev
    exact hzero hnd _ (Helper.mem_calls.mp hev)
  have hok' : x ≠ .done → ∀ q : LogEntry, q.event.callOf = none →
      ∀ e ∈ s.entries t ++ [q], ∀ stage r, e.event = .call stage r → r = 0 := by
    intro hnd q hq e he stage r hr
    rcases List.mem_append.mp he with he | he
    · exact hok hnd e he stage r hr
    · rw [List.mem_singleton.mp he] at hr
      rw [hr] at hq
      cases hq
  cases hes with
  | allocRefused | noStream | executing | copying | answered => exact ⟨.quiet nofun rfl, trivial⟩
  | finished => exact ⟨.quiet nofun rfl, .quiet nofun rfl, trivial⟩
  | allocated =>
    refine ⟨.quiet nofun rfl, ⟨fun _ => ?_, nofun, nofun, nofun, nofun⟩, trivial⟩
    exact ⟨_, List.mem_append_right _ (List.mem_singleton_self _), rfl⟩
  | prepared | prepareFailed =>
    refine ⟨.quiet nofun rfl, ⟨nofun, fun _ _ => ⟨?_, ?_⟩, nofun, nofun, fun _ => hok' nofun _ rfl⟩,
      .quiet nofun rfl, trivial⟩
    · -- The request is on `memdone_reqs`, which it entered with its memory allocated.
      obtain ⟨e, he, hev⟩ := hentry _ (mem_visited (hmem rfl))
      obtain ⟨pre, post, heq, hneed⟩ := hneeds.of_mem he
      obtain ⟨e', he', hev'⟩ := hneed.memDone hev
      refine ⟨e', List.mem_append_left _ ?_, hev'⟩
      rw [heq]
      exact List.mem_append_left _ he'
    · exact ⟨_, List.mem_append_right _ (List.mem_singleton_self _), rfl, rfl⟩
  | launched | launchFailed =>
    exact ⟨⟨nofun, nofun, fun _ _ => hentry _ (Helper.mem_calls.mpr (hprep rfl)), nofun,
      fun _ => hok nofun⟩, .quiet nofun rfl, trivial⟩
  | posted | postFailed =>
    refine ⟨.quiet nofun rfl, ⟨nofun, nofun, nofun, fun _ _ => ⟨?_, ?_⟩,
      fun _ => hok' nofun _ rfl⟩, .quiet nofun rfl, trivial⟩
    · obtain ⟨e, he, hev⟩ := hentry _ (Helper.mem_calls.mpr (hrun rfl))
      exact ⟨e, List.mem_append_left _ he, hev⟩
    · exact ⟨_, List.mem_append_right _ (List.mem_singleton_self _), rfl, rfl⟩

theorem supplied_read (hempty : s.entries t = []) (hes : ReadEvents es) :
    Supplied Needs (s.entries t) (s.stamp t es) := by
  cases hes with
  | nothing => trivial
  | noService => exact ⟨.quiet nofun rfl, .quiet nofun rfl, trivial⟩
  | served =>
    refine ⟨.quiet nofun rfl, ⟨nofun, nofun, nofun, nofun, fun _ e he stage r hr => ?_⟩,
      .quiet nofun rfl, trivial⟩
    rw [hempty, List.nil_append, List.mem_singleton] at he
    rw [he] at hr
    cases hr

/-- A step that has events of one request leaves what is known of the others. -/
theorem forall_trace {P : List Event → Prop} {h' : Helper} (h : ∀ t', P (s.helper.trace t'))
    (htrace : ∀ t', h'.trace t' = s.helper.trace t' ++ if t' = t then es else [])
    (hnew : P (s.helper.trace t ++ es)) (t' : Token) : P (h'.trace t') := by
  rw [htrace]
  split
  next htt =>
    rw [htt]
    exact hnew
  next =>
    rw [List.append_nil]
    exact h t'

theorem forall_entries {P : List LogEntry → Prop} {h' : Helper} {i n : Nat}
    (h : ∀ t', P (s.entries t')) (hnew : P (s.entries t ++ s.stamp t es)) (t' : Token) :
    P (entries ⟨h', i, n, s.log ++ s.stamp t es⟩ t') := by
  rw [entries_append]
  split
  next htt =>
    rw [htt]
    exact hnew
  next =>
    rw [List.append_nil]
    exact h t'

theorem Ordered.step (h : s.Ordered) (hl : s.helper.Listed) (hlives : s.helper.Lives c)
    (hf : s.Faithful) (hs : StepCase s s') : s'.Ordered := by
  cases hs with
  | @op h' x y t rest r es hpc ht hes hpc' hstate htrace =>
    obtain ⟨htall, hx⟩ := (hl.mem_iff t x).mp ht
    have hsupplied := supplied_op (hlives.live t htall) hx hf (h.needs t) hes
    exact ⟨forall_trace h.first htrace (hes.computeSizeFirst (h.first t)),
      forall_entries h.needs ((h.needs t).append hsupplied)⟩
  | advance hpc hpc' hsr htrace =>
    refine ⟨fun t' => ?_, h.needs⟩
    simp only [htrace]
    exact h.first t'
  | @get h' es hpc hes htrace =>
    have hfresh : s.helper.trace s.helper.next = [] := hlives.unused _ (Nat.le_refl _)
    have hempty : s.entries s.helper.next = [] := by
      rw [← List.map_eq_nil_iff, hf, hfresh]
    refine ⟨forall_trace h.first htrace ?_, forall_entries h.needs ?_⟩
    · rw [hfresh]
      exact hes.computeSizeFirst
    · exact (h.needs _).append (supplied_read hempty hes)

/-- The calls for a request are the beginning of the protocol. -/
theorem services_prefix (hlives : s.helper.Lives c) (hfirst : ComputeSizeFirst (s.helper.trace t)) :
    services (s.helper.trace t) <+: ServiceFn.protocol := by
  by_cases hne : s.helper.trace t = []
  · rw [hne]
    exact List.nil_prefix
  · obtain ⟨resps, hlife, -⟩ := hlives.life hne
    obtain ⟨kureq, -, -, hprog⟩ := hlife.progress
    rw [hfirst]
    generalize visited (s.helper.trace t) = vs at hprog ⊢
    generalize calls (s.helper.trace t) = cs at hprog ⊢
    generalize (s.helper.sr t).state = x at hprog
    generalize (s.helper.sr t).errcode = e at hprog
    cases hprog <;> exact ⟨_, rfl⟩

/-- In every run of the main loop: the functions of a service are called for a request in
    the order of the protocol, each at most once and with what it needs before it; an
    iteration moves at most one request by `prepare`, hands at most one to `launch` and
    moves at most one by `post`; and a request gets at most one list further in an
    iteration and is answered in a later one than it was done in. -/
theorem service_callback_protocol {sr : Token → ServiceRequest} {ls : List HelperStep}
    (hrun : Run (Logged.step c) Free (init sr) ls s) :
    (∀ t, (s.entries t).map (·.event) = s.helper.trace t) ∧
    (∀ t, services (s.helper.trace t) <+: ServiceFn.protocol) ∧
    (∀ t, Preceded Needs (s.entries t)) ∧
    s.log.Pairwise Apart := by
  obtain ⟨-, -, hlives⟩ := Helper.lives_of_run (helper_run hrun)
  obtain ⟨hf, hpaced⟩ := log_invariant (I := Paced) hrun ⟨nofun, nofun, nofun, .nil⟩
    fun s s' hl hlives hf h hs => h.step hl hlives hf hs
  obtain ⟨-, hord⟩ := log_invariant (I := Ordered) hrun ⟨fun _ => rfl, fun _ => .nil⟩
    fun s s' hl hlives hf h hs => h.step hl hlives hf hs
  exact ⟨hf, fun t => services_prefix hlives (hord.first t), hord.needs, hpaced.apart⟩

/-- A request that is read in the first iteration, gets its memory in the second and its
    stream in the third, in which its `prepare` fails. -/
theorem service_callback_protocol_three_iterations :
    ∃ s, Run (Logged.step .small) Free (init default)
        [.advance, .advance, .advance, .advance, .advance, .advance,
          .get (some ⟨7, Vector.replicate 32 65, 0x1000000, 0x1001000, 0, 8, 8, 0⟩),
          .advance, .advance, .advance, .advance, .advance, .op ⟨0, 0, 0, 0, false, false⟩,
          .advance, .get none,
          .advance, .advance, .advance, .advance, .op ⟨0, 5, 0, 0, false, false⟩] s ∧
      s.log.map (fun e => (e.iter, e.step)) =
        [(0, 6), (0, 6), (0, 6), (1, 12), (1, 12), (2, 19), (2, 19), (2, 19)] ∧
      services (s.helper.trace 0) = [.computeSize, .stage .prepare] ∧
      Preceded Needs (s.entries 0) ∧ s.log.Pairwise Apart := by
  have hrun : Run (Logged.step .small) Free (init default)
      [.advance, .advance, .advance, .advance, .advance, .advance,
        .get (some ⟨7, Vector.replicate 32 65, 0x1000000, 0x1001000, 0, 8, 8, 0⟩),
        .advance, .advance, .advance, .advance, .advance, .op ⟨0, 0, 0, 0, false, false⟩,
        .advance, .get none,
        .advance, .advance, .advance, .advance, .op ⟨0, 5, 0, 0, false, false⟩] _ :=
    Run.of_exec rfl
  have hres := service_callback_protocol hrun
  exact ⟨_, hrun, rfl, rfl, hres.2.2.1 0, hres.2.2.2⟩

end Logged

end Kgpu
