-- SUMMARY: With the OpenCL backend no request that was launched is ever answered, and eight of them stop all others.
import Kgpu.Helper.Streams

/-!
# The helper on the OpenCL backend

`gpu_execution_finished` and `gpu_post_finished` of `openCLOperations.c` return what
`__check_stream_done` does, and that is 0 whatever the queue has done. The rest of what
the helper calls is translated from the CUDA version. A request whose `launch` has
succeeded then keeps its stream for ever, and when every stream is kept nothing but
requests without a service is answered.
-/

namespace Kgpu

open Library

namespace OpenCL

/-- `__check_stream_done`. -/
def checkStreamDone : Int := 0

/-- `gpu_execution_finished`. -/
def gpuExecutionFinished : Bool := checkStreamDone != 0

/-- `gpu_post_finished`. -/
def gpuPostFinished : Bool := checkStreamDone != 0

/-- The functions of the backend answer the calls of an operation. `gpu_alloc_device_mem`
    always answers 0. -/
def Answered (_ : Helper) : HelperStep → Prop
  | .op a => a.alloc = 0 ∧ a.execFinished = gpuExecutionFinished ∧ a.postFinished = gpuPostFinished
  | _ => True

end OpenCL

/-- How far a request can have come for which `post` was not called. -/
theorem Progress.unposted {c : Config} {kureq : KuRequest} {x : ReqState} {e : Int}
    {vs : List ReqState} {cs : List (Stage × Int)} (h : Progress c kureq x e vs cs)
    (hpost : ∀ call ∈ cs, call.1 ≠ .post) :
    ((.launch, 0) ∈ cs ↔ x = .running) ∧ (x = .done → e ≠ 0) ∧
      (x = .done → cs = [] → c.khLookupService kureq.serviceName = none ∧ e = kgpuNoService) := by
  cases h with
  | noService hs => simp [hs, kgpuNoService]
  | init | memDone | prepared | running => simp
  | failedPrepare _ hr | failedLaunch _ hr => simp [hr, Ne.symm hr]
  | postExec | failedPost | finished => simp at hpost

namespace Helper

variable {c : Config} {s s' : Helper} {t u : Token} {x : ReqState} {a : Answers}

/-! ## Traces -/

/-- An operation adds to the trace of its item. -/
theorem runOp_trace_grows (u : Token) : s.trace u <+: (s.runOp c x t a).2.trace u := by
  by_cases hu : u = t
  · subst hu
    have hcase : OpCase c s u a x (s.runOp c x u a) := runOp_case
    generalize s.runOp c x u a = r at hcase
    cases hcase <;> simp [touch, listDel]
  · rw [(runOp_other hu).2]

theorem khInitServiceRequest_trace_grows (kureq : KuRequest) (u : Token) :
    s.trace u <+: (s.khInitServiceRequest c kureq).trace u := by
  by_cases hu : u = s.next
  · subst hu
    rcases khInitServiceRequest_new (c := c) (s := s) kureq with ⟨-, -, htr⟩ | ⟨p, -, -, htr⟩
    · rw [htr]
      exact List.prefix_append _ _
    · rw [htr]
      exact List.prefix_append _ _
  · rw [(khInitServiceRequest_other kureq hu).2]

/-- What has happened to a request stays in its trace. -/
theorem trace_grows_of_run {ok : Helper → HelperStep → Prop} {ls : List HelperStep}
    (hrun : Run (Helper.step c) ok s ls s') (u : Token) : s.trace u <+: s'.trace u := by
  refine hrun.invariant (I := fun s' => s.trace u <+: s'.trace u) List.prefix_rfl ?_
  intro s₁ l s₂ h _ hs
  cases l with
  | op a =>
    obtain ⟨x, t, rest, -, rfl⟩ := step_op_inv hs
    exact h.trans (runOp_trace_grows u)
  | advance =>
    obtain ⟨x, pc, -, rfl, -⟩ := step_advance_inv hs
    exact h
  | get kureq =>
    obtain ⟨-, rfl⟩ := step_get_inv hs
    cases kureq with
    | none => exact h
    | some kureq => exact h.trans (khInitServiceRequest_trace_grows kureq u)

/-! ## Nothing gets past the running list -/

/-- `post` has not been called for any request. -/
def Unposted (s : Helper) : Prop := ∀ t, ∀ call ∈ calls (s.trace t), call.1 ≠ .post

theorem Unposted.runOp (h : s.Unposted) (ha : a.execFinished = false) :
    (s.runOp c x t a).2.Unposted := by
  intro u
  by_cases hu : u = t
  · subst hu
    have hcase : OpCase c s u a x (s.runOp c x u a) := runOp_case
    generalize s.runOp c x u a = r at hcase
    have hkeep : ∀ es, (∀ call ∈ calls es, call.1 ≠ .post) →
        ∀ call ∈ calls (s.trace u ++ es), call.1 ≠ .post := by
      intro es hes call hcall
      rw [calls_append, List.mem_append] at hcall
      exact hcall.elim (h u call) (hes call)
    cases hcase with
    | posted hf | postFailed hf =>
      rw [ha] at hf
      cases hf
    | allocRefused | noStream | executing | copying =>
      simp only [touch, Function.update_self]
      exact hkeep _ (by simp [calls, Event.callOf])
    | answered =>
      simp only [touch, listDel, Function.update_self]
      exact hkeep _ (by simp [calls, Event.callOf])
    | allocated | prepared | prepareFailed | launched | launchFailed | finished =>
      simp only [moveTo_trace, touch, Function.update_self, List.append_assoc]
      exact hkeep _ (by simp [calls, Event.callOf])
  · rw [(runOp_other hu).2]
    exact h u

/-- Reading a request calls no function whose result the helper looks at. -/
theorem khInitServiceRequest_calls (kureq : KuRequest) (u : Token) :
    calls ((s.khInitServiceRequest c kureq).trace u) = calls (s.trace u) := by
  by_cases hu : u = s.next
  · subst hu
    rcases khInitServiceRequest_new (c := c) (s := s) kureq with ⟨-, -, htr⟩ | ⟨p, -, -, htr⟩
    · rw [htr, calls_append]
      exact List.append_nil _
    · rw [htr, calls_append]
      exact List.append_nil _
  · rw [(khInitServiceRequest_other kureq hu).2]

/-- What the runs on the OpenCL backend keep. -/
structure Stalling (c : Config) (s : Helper) : Prop where
  listed : s.Listed
  streamed : s.Streamed
  lives : s.Lives c
  unposted : s.Unposted

theorem stalling_of_run {sr : Token → ServiceRequest} {ls : List HelperStep}
    (hrun : Run (Helper.step c) OpenCL.Answered (init sr) ls s) : s.Stalling c := by
  obtain ⟨hl, -, hst⟩ := streamed_of_run hrun
  obtain ⟨-, -, hlives⟩ := lives_of_run hrun
  refine ⟨hl, hst, hlives, (Listed.invariant (I := Unposted) hrun ?_ ?_ ?_ ?_).2.2⟩
  · intro t call hcall
    cases hcall
  · exact fun s pc h => h
  · exact fun s x t rest a _ _ _ hok h => h.runOp hok.2.1
  · intro s kureq _ _ _ h t
    rw [khInitServiceRequest_calls]
    exact h t

namespace Stalling

/-- A request with events, and how far it has come. -/
theorem progress (h : s.Stalling c) (hne : s.trace t ≠ []) :
    ∃ kureq, reads (s.trace t) = [kureq] ∧ (s.sr t).id = kureq.id ∧
      Progress c kureq (s.sr t).state (s.sr t).errcode (visited (s.trace t)) (calls (s.trace t)) ∧
      (responses (s.trace t) = [] ∨
        (responses (s.trace t) = [s.response t] ∧ (s.sr t).state = .done)) := by
  obtain ⟨resps, hlife, hresps⟩ := h.lives.life hne
  obtain ⟨kureq, hread, hid, hp⟩ := hlife.progress
  refine ⟨kureq, hread, hid, hp, ?_⟩
  rw [hlife.sent]
  exact hresps

/-- A request that has been launched is running. -/
theorem running_of_launched (h : s.Stalling c) (hlaunch : .call .launch 0 ∈ s.trace t) :
    t ∈ s.q .running ∧ responses (s.trace t) = [] := by
  have hne : s.trace t ≠ [] := List.ne_nil_of_mem hlaunch
  obtain ⟨kureq, -, -, hp, hresp⟩ := h.progress hne
  have hstate : (s.sr t).state = .running :=
    (hp.unposted (h.unposted t)).1.mp (mem_calls.mp hlaunch)
  have hmem : t ∈ s.allReqs := by
    by_contra hnot
    have hlt : t < s.next := Nat.lt_of_not_le fun hle => hne (h.lives.unused t hle)
    have hdone := (h.lives.answered t hlt hnot).1
    rw [hstate] at hdone
    cases hdone
  refine ⟨(h.listed.mem_iff t .running).mpr ⟨hmem, hstate⟩, hresp.resolve_right fun hr => ?_⟩
  rw [hstate] at hr
  cases hr.2

theorem launched_of_running (h : s.Stalling c) (ht : t ∈ s.q .running) :
    .call .launch 0 ∈ s.trace t := by
  obtain ⟨hmem, hstate⟩ := (h.listed.mem_iff t .running).mp ht
  obtain ⟨kureq, -, -, hp⟩ := (h.lives.live t hmem).progress
  exact mem_calls.mpr ((hp.unposted (h.unposted t)).1.mpr hstate)

/-- Every response carries an error. -/
theorem errcode_ne (h : s.Stalling c) {resp : KuResponse} (hresp : .respond resp ∈ s.trace t) :
    resp.errcode ≠ 0 := by
  obtain ⟨kureq, -, -, hp, hsent⟩ := h.progress (List.ne_nil_of_mem hresp)
  rw [mem_responses] at hresp
  rcases hsent with hnil | ⟨hone, hdone⟩
  · rw [hnil] at hresp
    cases hresp
  rw [hone, List.mem_singleton] at hresp
  subst hresp
  exact (hp.unposted (h.unposted t)).2.1 hdone

/-! ## All streams kept -/

theorem stream_of_running (h : s.Stalling c) (ht : t ∈ s.q .running) :
    ∃ j : Fin maxStreamNr, (s.sr t).streamId = j.val := by
  obtain ⟨hmem, hst⟩ := (h.listed.mem_iff t .running).mp ht
  exact (h.streamed.range t hmem).resolve_left (h.streamed.busy t hmem (.inr (.inl hst)))

/-- When as many requests are running as there are streams, each stream is in use and
    none of the other requests has one. -/
theorem full (h : s.Stalling c) (hlen : maxStreamNr ≤ (s.q .running).length) :
    (∀ i, s.streamuses i = true) ∧ s.q .prepared = [] := by
  have hle := h.streamed.busy_length_le h.listed
  simp only [List.length_append] at hle
  refine ⟨fun i => ?_, List.length_eq_zero_iff.mp (by omega)⟩
  -- The running requests have different streams, so they have all of them.
  have hnd : ((s.q .running).map fun t => (s.sr t).streamId.toNat).Nodup := by
    refine List.Nodup.map_on (fun t₁ h₁ t₂ h₂ he => ?_) (h.listed.nodup .running)
    obtain ⟨i₁, hi₁⟩ := h.stream_of_running h₁
    obtain ⟨i₂, hi₂⟩ := h.stream_of_running h₂
    exact h.streamed.once t₁ ((h.listed.mem_iff t₁ _).mp h₁).1 t₂
      ((h.listed.mem_iff t₂ _).mp h₂).1 (by omega) (by omega)
  have hsub : ((s.q .running).map fun t => (s.sr t).streamId.toNat) ⊆ List.range maxStreamNr := by
    intro n hn
    obtain ⟨t, ht, rfl⟩ := List.mem_map.mp hn
    obtain ⟨j, hj⟩ := h.stream_of_running ht
    rw [List.mem_range, hj]
    exact j.isLt
  have hperm := (List.subperm_of_subset hnd hsub).perm_of_length_le (by simpa using hlen)
  obtain ⟨t, ht, hti⟩ := List.mem_map.mp (hperm.mem_iff.mpr (List.mem_range.mpr i.isLt))
  obtain ⟨j, hj⟩ := h.stream_of_running ht
  exact (h.streamed.uses i).mpr ⟨t, ((h.listed.mem_iff t _).mp ht).1, by omega⟩

/-- Then no operation calls a function of a service. -/
theorem runOp_calls (h : s.Stalling c) (hlen : maxStreamNr ≤ (s.q .running).length)
    (ht : t ∈ s.q x) (ha : a.execFinished = false) (u : Token) :
    calls ((s.runOp c x t a).2.trace u) = calls (s.trace u) := by
  obtain ⟨huses, hprep⟩ := h.full hlen
  by_cases hu : u = t
  · subst hu
    have hcase : OpCase c s u a x (s.runOp c x u a) := runOp_case
    generalize s.runOp c x u a = r at hcase
    cases hcase with
    | prepared i hi | prepareFailed i hi =>
      rw [huses i] at hi
      cases hi
    | launched | launchFailed =>
      rw [hprep] at ht
      cases ht
    | posted hf | postFailed hf =>
      rw [ha] at hf
      cases hf
    | allocRefused | noStream | executing | copying =>
      simp [touch, calls, Event.callOf]
    | answered => simp [touch, listDel, calls, Event.callOf]
    | allocated | finished => simp [touch, calls, Event.callOf]
  · rw [(runOp_other hu).2]

end Stalling

/-- A running request is running in every later state. -/
theorem running_of_later {sr : Token → ServiceRequest} {ls ls' : List HelperStep}
    (hreach : Run (Helper.step c) OpenCL.Answered (init sr) ls s)
    (hrun : Run (Helper.step c) OpenCL.Answered s ls' s') (ht : t ∈ s.q .running) :
    t ∈ s'.q .running := by
  have hlaunch := (stalling_of_run hreach).launched_of_running ht
  have hlater := (trace_grows_of_run hrun t).subset hlaunch
  exact ((stalling_of_run (hreach.trans hrun)).running_of_launched hlater).1

/-- A running request keeps its stream. -/
theorem streamId_of_later {sr : Token → ServiceRequest} {ls ls' : List HelperStep}
    (hreach : Run (Helper.step c) OpenCL.Answered (init sr) ls s)
    (hrun : Run (Helper.step c) OpenCL.Answered s ls' s') (ht : t ∈ s.q .running) :
    (s'.sr t).streamId = (s.sr t).streamId := by
  refine hrun.invariant_reached (I := fun s' => (s'.sr t).streamId = (s.sr t).streamId) rfl ?_
  intro ls₁ s₁ l s₂ h₁ h _ hs
  obtain ⟨hl, hw⟩ := listed_of_run (hreach.trans h₁)
  obtain ⟨hmem, hstate⟩ := (hl.mem_iff t .running).mp (running_of_later hreach h₁ ht)
  cases l with
  | op a =>
    obtain ⟨x, u, rest, hpc, rfl⟩ := step_op_inv hs
    by_cases htu : t = u
    · subst htu
      have hx := ((hl.mem_iff t x).mp ((hw x _ hpc).2 t List.mem_cons_self)).2
      have hne : x ≠ .memDone := by
        rintro rfl
        rw [hstate] at hx
        cases hx
      exact (runOp_streamId hne).trans h
    · rw [(runOp_other htu).1]
      exact h
  | advance =>
    obtain ⟨x, pc, -, rfl, -⟩ := step_advance_inv hs
    exact h
  | get kureq =>
    obtain ⟨-, rfl⟩ := step_get_inv hs
    cases kureq with
    | none => exact h
    | some kureq =>
      have hne : t ≠ s₁.next := Nat.ne_of_lt (hl.lt_next t hmem)
      change ((s₁.khInitServiceRequest c kureq).sr t).streamId = _
      rw [(khInitServiceRequest_other kureq hne).1]
      exact h

theorem calls_of_full {sr : Token → ServiceRequest} {ls ls' : List HelperStep}
    (hreach : Run (Helper.step c) OpenCL.Answered (init sr) ls s)
    (hfull : (s.q .running).length = maxStreamNr)
    (hrun : Run (Helper.step c) OpenCL.Answered s ls' s') (u : Token) :
    calls (s'.trace u) = calls (s.trace u) := by
  refine hrun.invariant_reached (I := fun s' => calls (s'.trace u) = calls (s.trace u)) rfl ?_
  intro ls₁ s₁ l s₂ h₁ h hok hs
  have hstall := stalling_of_run (hreach.trans h₁)
  have hlen : maxStreamNr ≤ (s₁.q .running).length := by
    rw [← hfull]
    refine (List.subperm_of_subset ((stalling_of_run hreach).listed.nodup .running) ?_).length_le
    exact fun t ht => running_of_later hreach h₁ ht
  cases l with
  | op a =>
    obtain ⟨x, t, rest, hpc, rfl⟩ := step_op_inv hs
    have ht : t ∈ s₁.q x :=
      ((listed_of_run (hreach.trans h₁)).2 x _ hpc).2 t List.mem_cons_self
    exact (hstall.runOp_calls hlen ht hok.2.1 u).trans h
  | advance =>
    obtain ⟨x, pc, -, rfl, -⟩ := step_advance_inv hs
    exact h
  | get kureq =>
    obtain ⟨-, rfl⟩ := step_get_inv hs
    cases kureq with
    | none => exact h
    | some kureq => exact (khInitServiceRequest_calls kureq u).trans h

/-- In every run on the OpenCL backend, every response carries an error, a request
    whose `launch` has succeeded is running in every later state, with the stream that it
    has, and never answered, at most eight requests are ever in that position, and once
    there are eight, no `prepare`, `launch` or `post` is called any more, so that of the
    requests for which there was no such call before only those without a service are
    answered. -/
theorem opencl_stalls {sr : Token → ServiceRequest} {ls ls' : List HelperStep}
    (hreach : Run (Helper.step c) OpenCL.Answered (init sr) ls s)
    (hrun : Run (Helper.step c) OpenCL.Answered s ls' s') :
    (∀ t resp, .respond resp ∈ s.trace t → resp.errcode ≠ 0) ∧
    (∀ t, .call .launch 0 ∈ s.trace t →
      t ∈ s'.q .running ∧ (s'.sr t).streamId = (s.sr t).streamId ∧
        (∃ i : Fin maxStreamNr, (s'.sr t).streamId = i.val) ∧
        ∀ resp, .respond resp ∉ s'.trace t) ∧
    (∀ ts : List Token, ts.Nodup → (∀ t ∈ ts, .call .launch 0 ∈ s.trace t) →
      ts.length ≤ maxStreamNr) ∧
    ((s.q .running).length = maxStreamNr →
      (∀ t, calls (s'.trace t) = calls (s.trace t)) ∧
      ∀ t, (∀ stage r, .call stage r ∉ s.trace t) → ∀ kureq, .read kureq ∈ s'.trace t →
        ∀ resp, .respond resp ∈ s'.trace t →
          c.khLookupService kureq.serviceName = none ∧ resp = ⟨kureq.id, kgpuNoService⟩) := by
  have hs := stalling_of_run hreach
  have hs' := stalling_of_run (hreach.trans hrun)
  refine ⟨fun t resp => hs.errcode_ne, fun t ht => ?_, fun ts hnd hts => ?_, fun hfull => ?_⟩
  · have hbefore := (hs.running_of_launched ht).1
    obtain ⟨hrunning, hnil⟩ := hs'.running_of_launched ((trace_grows_of_run hrun t).subset ht)
    refine ⟨hrunning, streamId_of_later hreach hrun hbefore, hs'.stream_of_running hrunning,
      fun resp hresp => ?_⟩
    rw [mem_responses, hnil] at hresp
    cases hresp
  · have hsub : ts ⊆ s.q .running := fun t ht => (hs.running_of_launched (hts t ht)).1
    have hle := (List.subperm_of_subset hnd hsub).length_le
    have hbusy := hs.streamed.busy_length_le hs.listed
    simp only [List.length_append] at hbusy
    omega
  · have hsame := calls_of_full hreach hfull hrun
    refine ⟨hsame, fun t hnone kureq hread resp hresp => ?_⟩
    have hcalls : calls (s'.trace t) = [] := by
      rw [hsame]
      refine List.eq_nil_iff_forall_not_mem.mpr fun call hcall => ?_
      exact hnone call.1 call.2 (mem_calls.mpr hcall)
    obtain ⟨kureq', hread', hid, hp, hsent⟩ := hs'.progress (List.ne_nil_of_mem hread)
    rw [mem_reads, hread', List.mem_singleton] at hread
    subst hread
    rw [mem_responses] at hresp
    rcases hsent with hnil | ⟨hone, hdone⟩
    · rw [hnil] at hresp
      cases hresp
    rw [hone, List.mem_singleton] at hresp
    subst hresp
    obtain ⟨hnone, he⟩ := (hp.unposted (hs'.unposted t)).2.2 hdone hcalls
    rw [response, hid, he]
    exact ⟨hnone, rfl⟩

/-- What the helper does next when there is always a request of the one service to read
    and the functions of the service succeed. -/
def busyStep (s : Helper) : HelperStep :=
  match s.pc with
  | .process _ (_ :: _) => .op ⟨0, 0, 0, 0, OpenCL.gpuExecutionFinished, OpenCL.gpuPostFinished⟩
  | .process _ [] => .advance
  | .get => .get (some ⟨s.next, Vector.replicate 32 65, 0x2000000, 0x2001000, 0, 8, 8, 0⟩)

def busySteps (c : Config) : Nat → Helper → List HelperStep
  | 0, _ => []
  | n + 1, s => busyStep s :: match s.step c (busyStep s) with
    | some s' => busySteps c n s'
    | none => []

theorem answered_of_busy {n : Nat} : ∀ l ∈ busySteps c n s, ∀ s', OpenCL.Answered s' l := by
  induction n generalizing s with
  | zero => simp [busySteps]
  | succ n ih =>
    intro l hl s'
    rcases List.mem_cons.mp hl with rfl | hl
    · unfold busyStep
      split
      · exact ⟨rfl, rfl, rfl⟩
      · trivial
      · trivial
    · split at hl
      · exact ih l hl s'
      · cases hl

set_option maxRecDepth 4000 in
/-- Eight requests are running and the tenth has just been given its memory. -/
def stalled : Helper :=
  (exec (step .small) (busySteps .small 136 (init default)) (init default)).get rfl

set_option maxRecDepth 4000 in
/-- Of ten requests, eight are launched and keep the eight streams; the tenth is never
    answered. -/
theorem opencl_stalls_ten_requests :
    ∃ ls s', Run (Helper.step .small) OpenCL.Answered (init default) ls s' ∧
      stalled.q .running = [0, 1, 2, 3, 4, 5, 6, 7] ∧
      (∀ t ∈ stalled.q .running, t ∈ s'.q .running ∧ (s'.sr t).streamId = (stalled.sr t).streamId ∧
        ∀ resp, .respond resp ∉ s'.trace t) ∧
      9 ∈ s'.allReqs ∧ calls (s'.trace 9) = [] ∧ ∀ resp, .respond resp ∉ s'.trace 9 := by
  have hreach : Run (Helper.step .small) OpenCL.Answered (init default)
      (busySteps .small 136 (init default)) stalled := Run.of_forall rfl answered_of_busy
  have hrun : Run (Helper.step .small) OpenCL.Answered stalled (busySteps .small 40 stalled) _ :=
    Run.of_forall rfl answered_of_busy
  obtain ⟨-, hlaunched, -, hwaiting⟩ := opencl_stalls hreach hrun
  obtain ⟨hcalls, hanswered⟩ := hwaiting rfl
  have hnil : calls (stalled.trace 9) = [] := rfl
  refine ⟨_, _, hreach.trans hrun, rfl, fun t ht => ?_, by decide, (hcalls 9).trans hnil,
    fun resp hresp => ?_⟩
  · have hkept := hlaunched t ((stalling_of_run hreach).launched_of_running ht)
    obtain ⟨hq, hstream, -, hresp⟩ := hkept
    exact ⟨hq, hstream, hresp⟩
  · have hnone : ∀ stage r, .call stage r ∉ stalled.trace 9 := fun stage r hcall =>
      absurd (mem_calls.mp hcall) (by rw [hnil]; simp)
    have hread : .read ⟨9, Vector.replicate 32 65, 0x2000000, 0x2001000, 0, 8, 8, 0⟩ ∈
        stalled.trace 9 := List.mem_cons_self
    have hlater := (trace_grows_of_run hrun 9).subset hread
    exact absurd (hanswered 9 hnone _ hlater resp hresp).1 (by decide)

end Helper
end Kgpu
