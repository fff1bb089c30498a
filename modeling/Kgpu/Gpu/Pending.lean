-- SUMMARY: A request is answered only when nothing it enqueued is still pending, unless a stage failed with work on its stream.
import Kgpu.Helper.Streams

/-!
# Work that is still pending

The streams are queues of operations, each enqueued for one request by the
`prepare`, `launch` or `post` of its service, which may enqueue any number of them
whatever they return. A request that runs through all its stages is moved to
`done_reqs` by a completion check. `kh_fail_request` moves it there without one, so
whether its work is over depends on what the stage that failed left on the stream.
-/

namespace Kgpu

open Library

/-- The helper and, for every stream, the requests its pending operations were
    enqueued for. -/
structure Pending where
  helper : Helper
  fifo : Fin maxStreamNr → List Token

inductive PendingStep where
  /-- The operation on the next request of the walk. The service function it calls, if
      any, enqueues `n` operations before it returns what `a` says; the answers of the
      two completion checks are not taken from `a`. -/
  | op (a : Answers) (n : Nat)
  | advance
  | get (kureq : Option KuRequest)
  /-- The operation at the head of a stream completes. -/
  | complete (i : Fin maxStreamNr)

/-- Whether the operation on `t` calls a function of its service. -/
def Helper.callsService (c : Config) (s : Helper) (x : ReqState) (t : Token) (a : Answers) : Bool :=
  match x with
  | .memDone => (c.gpuAllocStream s.streamuses (s.sr t)).isSome
  | .prepared => true
  | .running => a.execFinished
  | .init | .postExec | .done => false

/-- What the service function that is called for a state returns. -/
def Answers.result (a : Answers) : ReqState → Int
  | .memDone => a.prepare
  | .prepared => a.launch
  | .running => a.post
  | .init | .postExec | .done => 0

namespace Pending

/-- `cudaStreamQuery` on the stream of a request. -/
def idle (s : Pending) (t : Token) : Bool :=
  (List.finRange maxStreamNr).all fun i =>
    decide ((s.helper.sr t).streamId = i.val → s.fifo i = [])

/-- The answers to an operation on `t`, with those of the completion checks. -/
def answers (s : Pending) (t : Token) (a : Answers) : Answers :=
  { a with execFinished := s.idle t, postFinished := s.idle t }

/-- Put `n` operations for `t` on its stream. -/
def enqueue (s : Pending) (t : Token) (n : Nat) : Pending :=
  { s with fifo := fun i =>
      if (s.helper.sr t).streamId = i.val then s.fifo i ++ List.replicate n t else s.fifo i }

def step (c : Config) (s : Pending) : PendingStep → Option Pending
  | .op a n =>
    match s.helper.pc with
    | .process x (t :: _) =>
      match s.helper.step c (.op (s.answers t a)) with
      | some h =>
        if s.helper.callsService c x t (s.answers t a) then
          some (enqueue { s with helper := h } t n)
        else some { s with helper := h }
      | none => none
    | _ => none
  | .advance =>
    match s.helper.step c .advance with
    | some h => some { s with helper := h }
    | none => none
  | .get kureq =>
    match s.helper.step c (.get kureq) with
    | some h => some { s with helper := h }
    | none => none
  | .complete i =>
    match s.fifo i with
    | _ :: rest => some { s with fifo := Function.update s.fifo i rest }
    | [] => none

/-- The state after `gpu_init`. -/
def init (sr : Token → ServiceRequest) : Pending := ⟨Helper.init sr, fun _ => []⟩

/-- Nothing is pending for a request. -/
def Clear (s : Pending) (t : Token) : Prop := ∀ i, t ∉ s.fifo i

/-- `kh_service_done` is about to answer `t`. -/
def Answering (s : Pending) (t : Token) : Prop := ∃ rest, s.helper.pc = .process .done (t :: rest)

/-- A service function that returns an error has enqueued nothing and leaves nothing
    of the request pending. -/
def Drained (c : Config) (s : Pending) : PendingStep → Prop
  | .op a n => ∀ x t rest, s.helper.pc = .process x (t :: rest) →
      s.helper.callsService c x t (s.answers t a) = true → a.result x ≠ 0 → n = 0 ∧ s.Clear t
  | .advance | .get _ | .complete _ => True

/-! ## Steps -/

variable {c : Config} {s s' : Pending} {t : Token} {x : ReqState} {a : Answers} {n : Nat}

theorem idle_iff : s.idle t = true ↔ ∀ i : Fin maxStreamNr,
    (s.helper.sr t).streamId = i.val → s.fifo i = [] := by
  simp only [idle, List.all_eq_true, List.mem_finRange, decide_eq_true_eq, forall_true_left]

theorem mem_enqueue {t' : Token} {i : Fin maxStreamNr} (h : t' ∈ (s.enqueue t n).fifo i) :
    t' ∈ s.fifo i ∨ (t' = t ∧ n ≠ 0 ∧ (s.helper.sr t).streamId = i.val) := by
  simp only [enqueue] at h
  split at h
  next hid =>
    rcases List.mem_append.mp h with h | h
    · exact .inl h
    · obtain ⟨hn, heq⟩ := List.mem_replicate.mp h
      exact .inr ⟨heq, hn, hid⟩
  next => exact .inl h

/-- What an operation does to the helper and to the streams. -/
theorem step_op (hs : s.step c (.op a n) = some s') :
    ∃ x t rest pc, s.helper.pc = .process x (t :: rest) ∧
      s'.helper = { (s.helper.runOp c x t (s.answers t a)).2 with pc := pc } ∧
      ∀ i, ∀ t' ∈ s'.fifo i, t' ∈ s.fifo i ∨
        (t' = t ∧ n ≠ 0 ∧ s.helper.callsService c x t (s.answers t a) = true ∧
          (s'.helper.sr t).streamId = i.val) := by
  simp only [step] at hs
  split at hs
  next x t rest hpc =>
    refine ⟨x, t, rest, ?_⟩
    simp only [Helper.step, hpc] at hs
    split at hs
    next hcall =>
      cases hs
      refine ⟨_, hpc, rfl, fun i t' ht' => ?_⟩
      rcases mem_enqueue ht' with hold | ⟨heq, hn, hid⟩
      · exact .inl hold
      · exact .inr ⟨heq, hn, hcall, hid⟩
    next hcall =>
      cases hs
      exact ⟨_, hpc, rfl, fun i t' ht' => .inl ht'⟩
  next => cases hs

/-- Every step is one of the helper or leaves it alone. -/
theorem step_helper {l : PendingStep} (hs : s.step c l = some s') :
    s'.helper = s.helper ∨ ∃ k, s.helper.step c k = some s'.helper := by
  cases l with
  | op a n =>
    simp only [step] at hs
    split at hs
    next x t rest hpc =>
      split at hs
      next h hstep =>
        refine .inr ⟨_, hstep.trans ?_⟩
        split at hs <;> cases hs <;> rfl
      next => cases hs
    next => cases hs
  | advance | get =>
    simp only [step] at hs
    split at hs
    next h hstep =>
      cases hs
      exact .inr ⟨_, hstep⟩
    next => cases hs
  | complete i =>
    simp only [step] at hs
    split at hs
    next =>
      cases hs
      exact .inl rfl
    next => cases hs

theorem streamed_of_run {ok : Pending → PendingStep → Prop} {sr : Token → ServiceRequest}
    {ls : List PendingStep} (hrun : Run (step c) ok (init sr) ls s) :
    s.helper.Listed ∧ s.helper.Walking ∧ s.helper.Streamed := by
  obtain ⟨ks, hk⟩ := hrun.project Pending.helper fun _ _ _ hs => step_helper hs
  exact Helper.streamed_of_run hk

/-! ## Where the operations are -/

/-- What was enqueued for a request that is held is on its stream. -/
def Placed (s : Pending) : Prop :=
  ∀ i, ∀ t ∈ s.fifo i, t < s.helper.next ∧
    (t ∈ s.helper.allReqs → (s.helper.sr t).streamId = i.val)

theorem Placed.op (h : s.Placed) (hl : s.helper.Listed) (hw : s.helper.Walking)
    (hst : s.helper.Streamed) (hs : s.step c (.op a n) = some s') : s'.Placed := by
  obtain ⟨x, t, rest, pc, hpc, hhelper, hfifo⟩ := step_op hs
  have ht : t ∈ s.helper.q x := (hw x _ hpc).2 t List.mem_cons_self
  obtain ⟨htall, hx⟩ := (hl.mem_iff t x).mp ht
  intro i t' ht'
  have hmem := hfifo i t' ht'
  rw [hhelper] at hmem ⊢
  simp only [Helper.runOp_allReqs, Helper.runOp_next] at hmem ⊢
  by_cases htt : t' = t
  · subst htt
    refine ⟨hl.lt_next t' htall, fun _ => ?_⟩
    rcases hmem with hold | ⟨-, -, -, hid⟩
    · have hid := (h i t' hold).2 htall
      -- A request that has no stream yet has nothing on one.
      have hne : x ≠ .memDone := by
        rintro rfl
        rw [hst.early t' htall (.inr hx)] at hid
        omega
      rw [Helper.runOp_streamId hne]
      exact hid
    · exact hid
  · obtain ⟨hlt, hid⟩ := h i t' (hmem.resolve_right fun he => htt he.1)
    refine ⟨hlt, fun hall => ?_⟩
    rw [(Helper.runOp_other htt).1]
    apply hid
    split at hall
    · exact List.mem_of_mem_erase hall
    · exact hall

theorem Placed.get (h : s.Placed) {kureq : Option KuRequest} {hp : Helper}
    (hs : s.helper.step c (.get kureq) = some hp) : Placed { s with helper := hp } := by
  obtain ⟨-, rfl⟩ := Helper.step_get_inv hs
  cases kureq with
  | none => exact h
  | some kureq =>
    intro i t ht
    obtain ⟨hlt, hid⟩ := h i t ht
    have hne : t ≠ s.helper.next := Nat.ne_of_lt hlt
    obtain ⟨hall, hnext, -, -⟩ :=
      Helper.khInitServiceRequest_frame (c := c) (s := s.helper) kureq
    simp only [Helper.khGetNextServiceRequest, hall, hnext,
      (Helper.khInitServiceRequest_other kureq hne).1]
    refine ⟨Nat.lt_succ_of_lt hlt, fun hmem => hid ?_⟩
    exact (List.mem_append.mp hmem).resolve_right fun he => hne (List.mem_singleton.mp he)

/-- A completed operation was one of those pending. -/
theorem mem_of_complete {i j : Fin maxStreamNr} {t' : Token} {rest : List Token}
    (hfifo : s.fifo i = t :: rest) (h : t' ∈ Function.update s.fifo i rest j) : t' ∈ s.fifo j := by
  by_cases hj : j = i
  · subst hj
    rw [Function.update_self] at h
    rw [hfifo]
    exact List.mem_cons_of_mem _ h
  · rwa [Function.update_of_ne hj] at h

/-- The invariant rule for what the program counter does not enter and what only
    gets less when an operation completes. -/
theorem invariant {I : Pending → Prop} {ok : Pending → PendingStep → Prop}
    {sr : Token → ServiceRequest} {ls : List PendingStep} (hrun : Run (step c) ok (init sr) ls s)
    (hinit : I (init sr)) (hpc : ∀ s pc, I s → I { s with helper := { s.helper with pc := pc } })
    (hop : ∀ s a n s', s.helper.Listed → s.helper.Walking → s.helper.Streamed → I s →
      ok s (.op a n) → s.step c (.op a n) = some s' → I s')
    (hget : ∀ s kureq h, s.helper.Listed → I s → s.helper.step c (.get kureq) = some h →
      I { s with helper := h })
    (hless : ∀ s (fifo : Fin maxStreamNr → List Token), I s →
      (∀ i, ∀ t ∈ fifo i, t ∈ s.fifo i) → I { s with fifo := fifo }) : I s := by
  refine hrun.invariant_reached hinit fun ls s l s' hrun h hok hs => ?_
  obtain ⟨hl, hw, hst⟩ := streamed_of_run hrun
  cases l with
  | op a n => exact hop s a n s' hl hw hst h hok hs
  | advance =>
    simp only [step] at hs
    split at hs
    next hp hstep =>
      cases hs
      obtain ⟨x, pc, -, rfl, -⟩ := Helper.step_advance_inv hstep
      exact hpc _ _ h
    next => cases hs
  | get kureq =>
    simp only [step] at hs
    split at hs
    next hp hstep =>
      cases hs
      exact hget s kureq hp hl h hstep
    next => cases hs
  | complete i =>
    simp only [step] at hs
    split at hs
    next t rest hfifo =>
      cases hs
      exact hless s _ h fun j t' ht' => mem_of_complete hfifo ht'
    next => cases hs

theorem placed_of_run {ok : Pending → PendingStep → Prop} {sr : Token → ServiceRequest}
    {ls : List PendingStep} (hrun : Run (step c) ok (init sr) ls s) : s.Placed := by
  refine invariant hrun (fun _ _ ht => by cases ht) (fun _ _ h => h) ?_ ?_ ?_
  · exact fun s a n s' hl hw hst h _ hs => h.op hl hw hst hs
  · exact fun s kureq hp _ h hs => h.get hs
  · exact fun s fifo h hsub i t ht => h i t (hsub i t ht)

/-! ## Who the operations are for -/

/-- What is pending was enqueued for a request the GPU works for. -/
def Owned (s : Pending) : Prop :=
  ∀ i, ∀ t ∈ s.fifo i, t ∈ s.helper.allReqs ∧ (s.helper.sr t).state.Busy

theorem Owned.clear_of_idle (h : s.Owned) (hp : s.Placed) (hidle : s.idle t = true) :
    s.Clear t := by
  intro i hi
  have hnil := idle_iff.mp hidle i ((hp i t hi).2 (h i t hi).1)
  rw [hnil] at hi
  cases hi

theorem Owned.clear_of_state (h : s.Owned) (hstate : ¬ (s.helper.sr t).state.Busy) : s.Clear t :=
  fun i hi => hstate (h i t hi).2

/-- An operation on `t` leaves it in a busy state when something is pending for it,
    unless the service function fails. -/
theorem Owned.runOp_busy (h : s.Owned) (hp : s.Placed) (hx : (s.helper.sr t).state = x)
    (hok : s.helper.callsService c x t (s.answers t a) = true → a.result x ≠ 0 →
      n = 0 ∧ s.Clear t)
    (hpending : ¬ s.Clear t ∨ (n ≠ 0 ∧ s.helper.callsService c x t (s.answers t a) = true)) :
    x ≠ .done ∧ ((s.helper.runOp c x t (s.answers t a)).2.sr t).state.Busy := by
  have hcase : Helper.OpCase c s.helper t (s.answers t a) x
      (s.helper.runOp c x t (s.answers t a)) := Helper.runOp_case
  generalize s.helper.runOp c x t (s.answers t a) = r at hcase
  have hresult : s.helper.callsService c x t (s.answers t a) = true → a.result x = 0 := by
    intro hcall
    by_contra hne
    obtain ⟨hn, hclear⟩ := hok hcall hne
    rcases hpending with hp | ⟨hn', -⟩
    · exact hp hclear
    · exact hn' hn
  -- With nothing pending before, the operations are those of the function called.
  have hcalls : s.Clear t → s.helper.callsService c x t (s.answers t a) = true := by
    intro hclear
    rcases hpending with hp | ⟨-, hcall⟩
    · exact absurd hclear hp
    · exact hcall
  cases hcase with
  | allocRefused | allocated | answered =>
    have hcall := hcalls (h.clear_of_state (by simp [hx, ReqState.Busy]))
    cases hcall
  | noStream hfull =>
    have hcall := hcalls (h.clear_of_state (by simp [hx, ReqState.Busy]))
    rcases c.gpuAllocStream_cases s.helper.streamuses (s.helper.sr t) with ⟨-, hf⟩ | ⟨i, hi, -⟩
    · rw [Helper.callsService, hf] at hcall
      cases hcall
    · rw [hfull] at hi
      cases hi
  | prepareFailed i hi ha =>
    have hcall := hcalls (h.clear_of_state (by simp [hx, ReqState.Busy]))
    exact absurd (hresult hcall) ha
  | launchFailed ha => exact absurd (hresult rfl) ha
  | postFailed hf ha => exact absurd (hresult hf) ha
  | finished ha =>
    have hcall := hcalls (h.clear_of_idle hp ha)
    cases hcall
  | prepared | launched | posted | executing | copying =>
    exact ⟨by decide, by simp [Helper.touch, ReqState.Busy, hx]⟩

theorem Owned.op (h : s.Owned) (hp : s.Placed) (hl : s.helper.Listed) (hw : s.helper.Walking)
    (hok : s.Drained c (.op a n)) (hs : s.step c (.op a n) = some s') : s'.Owned := by
  obtain ⟨x, t, rest, pc, hpc, hhelper, hfifo⟩ := step_op hs
  have ht : t ∈ s.helper.q x := (hw x _ hpc).2 t List.mem_cons_self
  obtain ⟨htall, hx⟩ := (hl.mem_iff t x).mp ht
  intro i t' ht'
  have hmem := hfifo i t' ht'
  rw [hhelper]
  simp only [Helper.runOp_allReqs]
  by_cases htt : t' = t
  · subst htt
    have hpending : ¬ s.Clear t' ∨
        (n ≠ 0 ∧ s.helper.callsService c x t' (s.answers t' a) = true) := by
      rcases hmem with hold | ⟨-, hn, hcall, -⟩
      · exact .inl fun hclear => hclear i hold
      · exact .inr ⟨hn, hcall⟩
    obtain ⟨hd, hb⟩ := h.runOp_busy hp hx (hok x t' rest hpc) hpending
    exact ⟨by rwa [if_neg hd], hb⟩
  · rw [(Helper.runOp_other htt).1]
    obtain ⟨hall, hb⟩ := h i t' (hmem.resolve_right fun he => htt he.1)
    refine ⟨?_, hb⟩
    split
    · exact (List.mem_erase_of_ne htt).mpr hall
    · exact hall

/-- A request that is read takes an address with nothing pending. -/
theorem Owned.get (h : s.Owned) (hl : s.helper.Listed) {kureq : Option KuRequest} {hp : Helper}
    (hs : s.helper.step c (.get kureq) = some hp) : Owned { s with helper := hp } := by
  obtain ⟨-, rfl⟩ := Helper.step_get_inv hs
  cases kureq with
  | none => exact h
  | some kureq =>
    intro i t ht
    obtain ⟨hall, hb⟩ := h i t ht
    have hne : t ≠ s.helper.next := Nat.ne_of_lt (hl.lt_next t hall)
    simp only [Helper.khGetNextServiceRequest, (Helper.khInitServiceRequest_frame kureq).1,
      (Helper.khInitServiceRequest_other kureq hne).1]
    exact ⟨List.mem_append_left _ hall, hb⟩

theorem owned_of_run {sr : Token → ServiceRequest} {ls : List PendingStep}
    (hrun : Run (step c) (Drained c) (init sr) ls s) : s.Owned ∧ s.Placed := by
  refine invariant (I := fun s => s.Owned ∧ s.Placed) hrun
    ⟨fun _ _ ht => by (cases ht), fun _ _ ht => by (cases ht)⟩ (fun _ _ h => h) ?_ ?_ ?_
  · exact fun s a n s' hl hw hst h hok hs => ⟨h.1.op h.2 hl hw hok hs, h.2.op hl hw hst hs⟩
  · exact fun s kureq hp hl h hs => ⟨h.1.get hl hs, h.2.get hs⟩
  · exact fun s fifo h hsub => ⟨fun i t ht => h.1 i t (hsub i t ht), fun i t ht => h.2 i t (hsub i t ht)⟩

theorem clear_of_answering {sr : Token → ServiceRequest} {ls : List PendingStep}
    (hrun : Run (step c) (Drained c) (init sr) ls s) (ht : s.Answering t) : s.Clear t := by
  obtain ⟨hl, hw, -⟩ := streamed_of_run hrun
  obtain ⟨rest, hpc⟩ := ht
  have hdone : t ∈ s.helper.q .done := (hw _ _ hpc).2 t List.mem_cons_self
  refine (owned_of_run hrun).1.clear_of_state ?_
  rw [((hl.mem_iff t _).mp hdone).2]
  simp [ReqState.Busy]

/-! ## What a failing stage leaves behind -/

/-- A request with work on a stream that is on its way to `kh_service_done`. -/
structure Stuck (s : Pending) (t : Token) : Prop where
  listed : s.helper.Listed
  walking : s.helper.Walking
  queued : t ∈ s.helper.q .done
  pending : ∃ i, t ∈ s.fifo i

/-- The main loop can go on to answer `t` while something of it is pending. -/
def Leads (c : Config) (s : Pending) (t : Token) : Prop :=
  ∃ ls s', Run (step c) Free s ls s' ∧ s'.Answering t ∧ ¬ s'.Clear t

theorem Leads.step {l : PendingStep} (hs : s.step c l = some s') (h : Leads c s' t) :
    Leads c s t := by
  obtain ⟨ls, s'', hrun, hend⟩ := h
  have hone : Run (Pending.step c) Free s [l] s' := Run.snoc .nil trivial hs
  exact ⟨[l] ++ ls, s'', hone.trans hrun, hend⟩

/-- The steps of the helper keep its lists in order. -/
theorem Stuck.of_step (h : s.Stuck t) {l : PendingStep} (hs : s.step c l = some s')
    (hq : t ∈ s'.helper.q .done) (hp : ∃ i, t ∈ s'.fifo i) : s'.Stuck t := by
  rcases step_helper hs with heq | ⟨k, hk⟩
  · exact ⟨heq ▸ h.listed, heq ▸ h.walking, hq, hp⟩
  · obtain ⟨hl, hw⟩ := h.listed.step h.walking hk
    exact ⟨hl, hw, hq, hp⟩

/-- The operation on another request, with no work enqueued. -/
theorem Stuck.op {t₀ : Token} {rest : List Token} (h : s.Stuck t)
    (hpc : s.helper.pc = .process x (t₀ :: rest)) (hne : t ≠ t₀) :
    ∃ s' rest', s.step c (.op a 0) = some s' ∧ s'.Stuck t ∧ s'.helper.pc = .process x rest' ∧
      (rest' = rest ∨ (rest' = [] ∧ x ≠ .done)) := by
  obtain ⟨i, hi⟩ := h.pending
  have hstep : ∃ s', s.step c (.op a 0) = some s' ∧ s'.fifo = s.fifo ∧
      s'.helper = { (s.helper.runOp c x t₀ (s.answers t₀ a)).2 with
        pc := .process x (if (s.helper.runOp c x t₀ (s.answers t₀ a)).1 = 0 && Helper.once x
          then [] else rest) } := by
    simp only [Pending.step, hpc, Helper.step]
    split
    · refine ⟨_, rfl, ?_, rfl⟩
      simp [enqueue]
    · exact ⟨_, rfl, rfl, rfl⟩
  obtain ⟨s', hs, hfifo, hhelper⟩ := hstep
  refine ⟨s', _, hs, h.of_step hs ?_ ⟨i, hfifo ▸ hi⟩, by rw [hhelper], ?_⟩
  · rw [hhelper]
    exact (Helper.mem_runOp_q hne).mpr h.queued
  · split
    next hr =>
      refine .inr ⟨rfl, ?_⟩
      rintro rfl
      simp [Helper.once] at hr
    next => exact .inl rfl

/-- The walk over `done_reqs` comes to `t`. -/
theorem Stuck.leads_done {rest : List Token} (h : s.Stuck t)
    (hpc : s.helper.pc = .process .done rest) (ht : t ∈ rest) : Leads c s t := by
  induction rest generalizing s with
  | nil => cases ht
  | cons t₀ rest ih =>
    by_cases htt : t = t₀
    · subst htt
      obtain ⟨i, hi⟩ := h.pending
      exact ⟨[], s, .nil, ⟨rest, hpc⟩, fun hclear => hclear i hi⟩
    · obtain ⟨s', rest', hs, h', hpc', hrest⟩ := h.op (a := ⟨0, 0, 0, 0, false, false⟩) hpc htt
      have heq : rest' = rest := hrest.resolve_right fun hr => hr.2 rfl
      subst heq
      exact .step hs (ih h' hpc' ((List.mem_cons.mp ht).resolve_left htt))

theorem Stuck.leads_get (h : s.Stuck t) (hpc : s.helper.pc = .get) : Leads c s t := by
  obtain ⟨s', hs, hfifo, hhelper⟩ : ∃ s', s.step c (.get none) = some s' ∧ s'.fifo = s.fifo ∧
      s'.helper = { s.helper with pc := .process .done (s.helper.q .done) } := by
    simp only [Pending.step, Helper.step, hpc]
    exact ⟨_, rfl, rfl, rfl⟩
  have hq : s'.helper.q .done = s.helper.q .done := by rw [hhelper]
  have h' : s'.Stuck t := h.of_step hs (hq ▸ h.queued) (hfifo ▸ h.pending)
  exact .step hs (h'.leads_done (by rw [hhelper]) h.queued)

/-- What the main loop does with a list comes to its end. -/
theorem Stuck.leads_walk {rest : List Token} (h : s.Stuck t)
    (hpc : s.helper.pc = .process x rest) (hx : x ≠ .done)
    (hend : ∀ s' : Pending, s'.Stuck t → s'.helper.pc = .process x [] → Leads c s' t) :
    Leads c s t := by
  induction rest generalizing s with
  | nil => exact hend s h hpc
  | cons t₀ rest ih =>
    have hne : t ≠ t₀ := by
      rintro rfl
      have hmem := (h.walking x _ hpc).2 t List.mem_cons_self
      exact hx (((h.listed.mem_iff t x).mp hmem).2.symm.trans
        ((h.listed.mem_iff t .done).mp h.queued).2)
    obtain ⟨s', rest', hs, h', hpc', hrest⟩ := h.op (a := ⟨0, 0, 0, 0, false, false⟩) hpc hne
    apply Leads.step hs
    rcases hrest with rfl | ⟨rfl, -⟩
    · exact ih h' hpc'
    · exact hend s' h' hpc'

/-- From the end of one list the main loop goes on to the next. -/
theorem Stuck.leads_advance (h : s.Stuck t) (hpc : s.helper.pc = .process x [])
    (hnext : ∀ s' : Pending, s'.Stuck t → s'.helper.pc = (match Helper.following x with
      | some y => .process y (s.helper.q y)
      | none => .get) → Leads c s' t) : Leads c s t := by
  obtain ⟨s', hs, hfifo, hq, hpc'⟩ : ∃ s', s.step c .advance = some s' ∧ s'.fifo = s.fifo ∧
      s'.helper.q = s.helper.q ∧ s'.helper.pc = (match Helper.following x with
        | some y => .process y (s.helper.q y)
        | none => .get) := by
    simp only [Pending.step, Helper.step, hpc]
    cases Helper.following x <;> exact ⟨_, rfl, rfl, rfl, rfl⟩
  exact .step hs (hnext s' (h.of_step hs (hq ▸ h.queued) (hfifo ▸ h.pending)) hpc')

theorem Stuck.leads_process {rest : List Token} (h : s.Stuck t)
    (hpc : s.helper.pc = .process x rest) (hx : x ≠ .done) : Leads c s t := by
  have hnext : ∀ x y, x ≠ .done → Helper.following x = some y →
      (∀ (s : Pending) rest, s.Stuck t → s.helper.pc = .process y rest → Leads c s t) →
      ∀ (s : Pending) rest, s.Stuck t → s.helper.pc = .process x rest → Leads c s t := by
    intro x y hx hy hleads s rest h hpc
    refine h.leads_walk hpc hx fun s' h' hpc' => h'.leads_advance hpc' fun s'' h'' hpc'' => ?_
    rw [hy] at hpc''
    exact hleads s'' _ h'' hpc''
  have hinit : ∀ (s : Pending) rest, s.Stuck t → s.helper.pc = .process .init rest →
      Leads c s t := by
    intro s rest h hpc
    exact h.leads_walk hpc nofun fun s' h' hpc' =>
      h'.leads_advance hpc' fun s'' h'' hpc'' => h''.leads_get hpc''
  have hmemDone := hnext .memDone .init nofun rfl hinit
  have hprepared := hnext .prepared .memDone nofun rfl hmemDone
  have hrunning := hnext .running .prepared nofun rfl hprepared
  have hpostExec := hnext .postExec .running nofun rfl hrunning
  cases x with
  | done => exact absurd rfl hx
  | init => exact hinit s rest h hpc
  | memDone => exact hmemDone s rest h hpc
  | prepared => exact hprepared s rest h hpc
  | running => exact hrunning s rest h hpc
  | postExec => exact hpostExec s rest h hpc

/-- A service function that fails moves its request to `done_reqs`, with a stream. -/
theorem failed_done (hl : s.helper.Listed) (hst : s.helper.Streamed) (ht : t ∈ s.helper.q x)
    (hcall : s.helper.callsService c x t a = true) (hr : a.result x ≠ 0) :
    x ≠ .done ∧ t ∈ (s.helper.runOp c x t a).2.q .done ∧
      ∃ i : Fin maxStreamNr, ((s.helper.runOp c x t a).2.sr t).streamId = i.val := by
  obtain ⟨htall, hx⟩ := (hl.mem_iff t x).mp ht
  have hbusy : (s.helper.sr t).state.Busy →
      ∃ i : Fin maxStreamNr, (s.helper.sr t).streamId = i.val := fun hb =>
    (hst.range t htall).resolve_left (hst.busy t htall hb)
  have hcase : Helper.OpCase c s.helper t a x (s.helper.runOp c x t a) := Helper.runOp_case
  generalize s.helper.runOp c x t a = r at hcase
  cases hcase with
  | allocRefused | allocated | copying | finished | answered => cases hcall
  | prepared _ _ ha | launched ha | posted _ ha => exact absurd ha hr
  | executing ha =>
    rw [Helper.callsService, ha] at hcall
    cases hcall
  | noStream hfull =>
    rcases c.gpuAllocStream_cases s.helper.streamuses (s.helper.sr t) with ⟨-, hf⟩ | ⟨i, hi, -⟩
    · rw [Helper.callsService, hf] at hcall
      cases hcall
    · rw [hfull] at hi
      cases hi
  | prepareFailed i =>
    exact ⟨by decide, by simp [Helper.moveTo_q], i, by simp [Helper.touch]⟩
  | launchFailed | postFailed =>
    obtain ⟨i, hi⟩ := hbusy (by simp [hx, ReqState.Busy])
    exact ⟨by decide, by simp [Helper.moveTo_q], i, by simp [Helper.touch, hi]⟩

/-- A step that does not meet the condition leaves a request with work on its stream on
    the way to `kh_service_done`. -/
theorem stuck_of_not_drained {l : PendingStep} (hl : s.helper.Listed) (hw : s.helper.Walking)
    (hst : s.helper.Streamed) (hs : s.step c l = some s') (hnot : ¬ s.Drained c l) :
    ∃ x t rest, s'.Stuck t ∧ s'.helper.pc = .process x rest ∧ x ≠ .done := by
  cases l with
  | advance | get | complete => exact absurd trivial hnot
  | op a n =>
    simp only [Drained, not_forall] at hnot
    obtain ⟨x, t, rest, hpc, hcall, hr, hleft⟩ := hnot
    obtain ⟨hx, hq, i, hi⟩ := failed_done hl hst ((hw x _ hpc).2 t List.mem_cons_self) hcall
      (show (s.answers t a).result x ≠ 0 by cases x <;> exact hr)
    have hlw : s'.helper.Listed ∧ s'.helper.Walking := by
      rcases step_helper hs with heq | ⟨k, hk⟩
      · exact heq ▸ ⟨hl, hw⟩
      · exact hl.step hw hk
    simp only [step, hpc, Helper.step, hcall, if_true, Option.some.injEq] at hs
    subst hs
    refine ⟨x, t, _, ⟨hlw.1, hlw.2, hq, ?_⟩, rfl, hx⟩
    -- What was pending before, or what the function has just enqueued.
    by_cases hclear : s.Clear t
    · have hn : n ≠ 0 := fun hn => hleft ⟨hn, hclear⟩
      refine ⟨i, ?_⟩
      simp only [enqueue, hi, if_true]
      exact List.mem_append_right _ (List.mem_replicate.mpr ⟨hn, rfl⟩)
    · simp only [Clear, not_forall, not_not] at hclear
      obtain ⟨j, hj⟩ := hclear
      refine ⟨j, ?_⟩
      simp only [enqueue]
      split
      · exact List.mem_append_left _ hj
      · exact hj

/-! ## The answer -/

/-- In every run in which no stage returns an error with work of its request left on the
    stream, a request that is answered has nothing pending on its stream. And from every
    step that does not meet the condition the main loop can go on to the answer of a
    request with work pending on its stream. -/
theorem answered_without_pending_work (sr : Token → ServiceRequest) :
    (∀ ls s, Run (step c) (Drained c) (init sr) ls s → ∀ t, s.Answering t →
      ∀ i : Fin maxStreamNr, (s.helper.sr t).streamId = i.val → t ∉ s.fifo i) ∧
    ∀ ls s l s', Run (step c) Free (init sr) ls s → s.step c l = some s' → ¬ s.Drained c l →
      ∃ ls' s'' t, Run (step c) Free s' ls' s'' ∧ s''.Answering t ∧
        ∃ i : Fin maxStreamNr, (s''.helper.sr t).streamId = i.val ∧ t ∈ s''.fifo i := by
  refine ⟨fun ls s hrun t ht i _ => clear_of_answering hrun ht i, ?_⟩
  intro ls s l s' hrun hs hnot
  obtain ⟨hl, hw, hst⟩ := streamed_of_run hrun
  obtain ⟨x, t, rest, hstuck, hpc, hx⟩ := stuck_of_not_drained hl hw hst hs hnot
  obtain ⟨ls', s'', hrun', hans, hclear⟩ := hstuck.leads_process hpc hx
  simp only [Clear, not_forall, not_not] at hclear
  obtain ⟨i, hi⟩ := hclear
  refine ⟨ls', s'', t, hrun', hans, i, ?_, hi⟩
  -- The request is still held, so what is pending for it is on its stream.
  have hwhole := (Run.snoc hrun trivial hs).trans hrun'
  obtain ⟨hl', hw', -⟩ := streamed_of_run hwhole
  obtain ⟨rest', hpc'⟩ := hans
  have hmem := (hw' _ _ hpc').2 t List.mem_cons_self
  exact (placed_of_run hwhole i t hi).2 ((hl'.mem_iff t _).mp hmem).1

/-- The main loop with one request up to its `prepare`. -/
def untilPrepare : List PendingStep :=
  List.replicate 6 .advance ++
    [.get (some ⟨7, Vector.replicate 32 65, 0x2000000, 0x2001000, 0, 8, 8, 0⟩)] ++
  List.replicate 5 .advance ++ [.op ⟨0, 0, 0, 0, false, false⟩ 0, .advance, .get none] ++
  List.replicate 4 .advance

/-- A request whose three stages each enqueue one operation, and a request whose
    `prepare` enqueues one and fails. -/
theorem answered_without_pending_work_one_request :
    (∃ ls s, Run (step .small) (Drained .small) (init default) ls s ∧
      s.helper.pc = .process .done [0] ∧ (s.helper.sr 0).errcode = 0 ∧
      0 ∉ s.fifo ⟨0, by decide⟩) ∧
    ∃ s s', Run (step .small) Free (init default) untilPrepare s ∧
      s.step .small (.op ⟨0, 5, 0, 0, false, false⟩ 1) = some s' ∧
      ∃ ls s'' t, Run (step .small) Free s' ls s'' ∧ s''.Answering t ∧
        ∃ i : Fin maxStreamNr, (s''.helper.sr t).streamId = i.val ∧ t ∈ s''.fifo i := by
  have hop : ∀ n (s : Pending), s.Drained .small (.op ⟨0, 0, 0, 0, false, false⟩ n) := by
    intro n s x t rest _ _ hr
    exact absurd (by cases x <;> rfl) hr
  have hadvance : ∀ s : Pending, s.Drained .small .advance := fun _ => trivial
  have hget : ∀ kureq (s : Pending), s.Drained .small (.get kureq) := fun _ _ => trivial
  have hcomplete : ∀ i (s : Pending), s.Drained .small (.complete i) := fun _ _ => trivial
  refine ⟨?_, ?_⟩
  · have hrun : Run (step .small) (Drained .small) (init default)
        (untilPrepare ++
          [.op ⟨0, 0, 0, 0, false, false⟩ 1, .advance, .advance, .get none, .advance, .advance,
            .advance, .op ⟨0, 0, 0, 0, false, false⟩ 1, .advance, .advance, .advance,
            .complete ⟨0, by decide⟩, .complete ⟨0, by decide⟩, .get none, .advance, .advance,
            .op ⟨0, 0, 0, 0, false, false⟩ 1, .advance, .advance, .advance, .advance,
            .complete ⟨0, by decide⟩, .get none, .advance, .op ⟨0, 0, 0, 0, false, false⟩ 0,
            .advance, .advance, .advance, .advance, .advance, .get none]) _ :=
      Run.of_forall rfl (by simp [untilPrepare, hop, hadvance, hget, hcomplete])
    exact ⟨_, _, hrun, rfl, rfl,
      (answered_without_pending_work default).1 _ _ hrun 0 ⟨[], rfl⟩ ⟨0, by decide⟩ rfl⟩
  · have hrun : Run (step .small) Free (init default) untilPrepare _ := Run.of_exec rfl
    have hlead := (answered_without_pending_work default).2 _ _
      (.op ⟨0, 5, 0, 0, false, false⟩ 1) _ hrun rfl fun hd =>
        absurd (hd .memDone 0 [] rfl rfl (by decide)).1 (by decide)
    exact ⟨_, _, hrun, rfl, hlead⟩

/-- The answer is sent while the operation that a failed `prepare` enqueued is pending. -/
theorem not_answered_without_pending_work :
    ∃ s, Run (step .small) Free (init default)
        (untilPrepare ++ [.op ⟨0, 5, 0, 0, false, false⟩ 1, .advance, .advance, .get none]) s ∧
      s.Answering 0 ∧ (s.helper.sr 0).streamId = 0 ∧ 0 ∈ s.fifo ⟨0, by decide⟩ :=
  ⟨_, Run.of_exec rfl, ⟨[], rfl⟩, rfl, List.mem_cons_self⟩

end Pending
end Kgpu
