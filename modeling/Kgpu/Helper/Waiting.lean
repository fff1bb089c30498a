-- SUMMARY: No request the helper holds starves: a bound on the iterations until all of them are answered.
import Kgpu.Helper.Protocol
import Kgpu.Helper.Stored
import Kgpu.Helper.Streams
import Kgpu.Library.Rounds
import Mathlib.Algebra.Order.BigOperators.Group.List
import Mathlib.Algebra.Order.Ring.Nat

/-!
# Waiting for the answer

An iteration of `kh_main_loop` takes at most one request over from `prepare`, from
`launch` and from `post`, and requests keep coming in. This file shows that those that
are held at some time are all answered within a number of iterations that depends
on them only: newer requests never get between, because up to the running ones the
lists are worked off in their order, and none of the newer ones takes a stream
while an older one is in want of it.

The CUDA version of `gpu_alloc_device_mem` always succeeds, and the runs here are those
in which it does.
-/

namespace Kgpu

open Library

/-- A poll of the GPU that found it at work. -/
def Event.unfinished : Event → Bool
  | execFinished false | postFinished false => true
  | _ => false

/-- `kh_get_next_service_request` ends an iteration. -/
def HelperStep.isGet : HelperStep → Bool
  | get _ => true
  | _ => false

namespace Helper

/-- `gpu_alloc_device_mem` answers 0. -/
def Allocates (_ : Helper) : HelperStep → Prop
  | .op a => a.alloc = 0
  | _ => True

/-- The operations a request has ahead of it. -/
def need (s : Helper) (t : Token) : Nat :=
  if t ∈ s.allReqs then (s.sr t).state.order + 1 else 0

/-- How often a request was polled in vain. -/
def polls (s : Helper) (t : Token) : Nat := (s.trace t).countP Event.unfinished

def needs (s : Helper) (ts : List Token) : Nat := (ts.map s.need).sum

variable {c : Config} {s s' : Helper} {t u : Token} {x y : ReqState} {a : Answers}
  {ts : List Token} {rest : List Token}

/-! ## What an operation costs -/

theorem runOp_need_other (hne : u ≠ t) :
    (s.runOp c x t a).2.need u = s.need u ∧ (s.runOp c x t a).2.polls u = s.polls u := by
  obtain ⟨hsr, htrace⟩ := runOp_other (c := c) (s := s) (x := x) (a := a) hne
  refine ⟨?_, by rw [polls, polls, htrace]⟩
  rw [need, need, hsr, runOp_allReqs]
  split <;> simp [List.mem_erase_of_ne hne]

/-- What a walk has passed and is still on the list had to wait: for the GPU, or for a
    stream when there was none. -/
def Walked (s : Helper) : Prop :=
  ∀ x rest, s.pc = .process x rest → ∃ passed, s.q x = passed ++ rest ∧
    (rest ≠ [] → passed ≠ [] →
      x.order ≤ 2 ∨ (x = .memDone ∧ ∀ i, s.streamuses i = true))

theorem walked_nil (hpc : s.pc = .process x []) : s.Walked := by
  intro x' rest hpc'
  rw [hpc] at hpc'
  cases hpc'
  exact ⟨_, (List.append_nil _).symm, fun h => absurd rfl h⟩

theorem Walked.op (h : s.Walked) (hl : s.Listed) (hpc : s.pc = .process x (t :: rest))
    (ha : a.alloc = 0) : Walked { (s.runOp c x t a).2 with
      pc := .process x (if (s.runOp c x t a).1 = 0 && once x then [] else rest) } := by
  obtain ⟨passed, hq, hpassed⟩ := h x _ hpc
  have hgone : (s.q x).erase t = passed ++ rest := by
    have hnodup := hl.nodup x
    rw [hq] at hnodup ⊢
    exact erase_middle hnodup
  by_cases hstop : ((s.runOp c x t a).1 = 0 && once x) = true
  · rw [if_pos hstop]
    exact walked_nil rfl
  · rw [if_neg hstop]
    intro x' rest' hpc'
    cases hpc'
    have hcase : OpCase c s t a x (s.runOp c x t a) := runOp_case
    generalize s.runOp c x t a = r at hcase hstop
    have hsame : passed ≠ [] → x.order ≤ 2 ∨ (x = .memDone ∧ ∀ i, s.streamuses i = true) :=
      hpassed (by simp)
    cases hcase with
    | allocRefused hr => exact absurd ha hr
    | noStream hfull =>
      exact ⟨passed ++ [t], by simpa [touch] using hq, fun _ _ => .inr ⟨rfl, hfull⟩⟩
    | executing | copying =>
      exact ⟨passed ++ [t], by simpa [touch] using hq, fun _ _ => .inl (by decide)⟩
    | prepared | launched | launchFailed | posted => simp [once] at hstop
    | allocated =>
      refine ⟨passed, ?_, fun _ hne => ?_⟩
      · simp [moveTo_q, touch, hgone]
      · rcases hsame hne with hle | ⟨heq, -⟩
        · exact absurd hle (by decide)
        · cases heq
    | prepareFailed i hi =>
      refine ⟨passed, ?_, fun _ hne => ?_⟩
      · simp [moveTo_q, touch, hgone]
      · rcases hsame hne with hle | ⟨-, hfull⟩
        · exact absurd hle (by decide)
        · rw [hfull i] at hi
          cases hi
    | postFailed | finished =>
      refine ⟨passed, ?_, fun _ _ => .inl (by decide)⟩
      simp [moveTo_q, touch, hgone]
    | answered => exact ⟨passed, by simpa [touch, listDel] using hgone, fun _ _ => .inl (by decide)⟩

theorem Walked.step (h : s.Walked) (hl : s.Listed) {l : HelperStep} (hok : Allocates s l)
    (hs : s.step c l = some s') : s'.Walked := by
  cases l with
  | op a =>
    obtain ⟨x, t, rest, hpc, rfl⟩ := step_op_inv hs
    exact h.op hl hpc hok
  | advance =>
    obtain ⟨x, pc, -, rfl, ⟨y, -, rfl⟩ | ⟨-, rfl⟩⟩ := step_advance_inv hs
    · intro x' rest' hpc'
      cases hpc'
      exact ⟨[], rfl, fun _ hne => absurd rfl hne⟩
    · intro x' rest' hpc'
      cases hpc'
  | get kureq =>
    obtain ⟨-, rfl⟩ := step_get_inv hs
    intro x' rest' hpc'
    cases hpc'
    exact ⟨[], rfl, fun _ hne => absurd rfl hne⟩

/-! ## Nobody gets ahead -/

/-- A new request is at the end of the list it is put on. -/
theorem khInitServiceRequest_q (hl : s.Listed) (kureq : KuRequest) (x : ReqState) :
    ∃ new, (s.khInitServiceRequest c kureq).q x = s.q x ++ new ∧ ∀ u ∈ new, u = s.next := by
  have hfresh : s.next ∉ s.q x :=
    fun hm => Nat.lt_irrefl _ (hl.lt_next _ ((hl.mem_iff _ x).mp hm).1)
  cases hs : c.khLookupService kureq.serviceName with
  | none =>
    rw [khInitServiceRequest_none hs, khFailRequest_eq, moveTo_q]
    refine ⟨if x = .done then [s.next] else [], congrArg (· ++ _) (List.erase_of_not_mem hfresh), ?_⟩
    intro u hu
    split at hu
    · exact List.mem_singleton.mp hu
    · cases hu
  | some p =>
    rw [khInitServiceRequest_some hs]
    by_cases hx : x = .init
    · exact ⟨[s.next], by simp [record, setSr, listAddTail, hx], by simp⟩
    · exact ⟨[], by simp [record, setSr, listAddTail, hx], by simp⟩

/-- Newer requests do not get ahead of the requests `ts`: on the lists up to the running
    ones these come first, no other is on a list further on, and no other has a stream
    while one of these has yet to get one. -/
structure Ahead (s : Helper) (ts : List Token) : Prop where
  old : ∀ t ∈ ts, t < s.next
  first : ∀ x : ReqState, 2 ≤ x.order → (s.q x).Pairwise fun u t => t ∈ ts → u ∈ ts
  behind : ∀ t ∈ ts, t ∈ s.allReqs → ∀ u ∈ s.allReqs, u ∉ ts → 2 ≤ (s.sr u).state.order →
    (s.sr t).state.order ≤ (s.sr u).state.order
  streams : ∀ t ∈ ts, t ∈ s.allReqs → (s.sr t).state.Early → ∀ u ∈ s.allReqs, u ∉ ts →
    (s.sr u).streamId = -1

namespace Ahead

/-- When the walk is at a newer request, none of the older ones is to come. -/
theorem not_mem_rest (h : s.Ahead ts) {passed : List Token} (hx : 2 ≤ x.order)
    (hq : s.q x = passed ++ t :: rest) (ht : t ∉ ts) : ∀ u ∈ ts, u ∉ rest := by
  intro u hu hrest
  have hpair := h.first x hx
  rw [hq, List.pairwise_append] at hpair
  exact ht ((List.pairwise_cons.mp hpair.2.1).1 u hrest hu)

/-- The walk is at a newer request that can go on, and the list has none of the older. -/
theorem not_mem_q (h : s.Ahead ts) (hw : s.Walked) (hpc : s.pc = .process x (t :: rest))
    (hx : 2 < x.order) (hfree : x = .memDone → ∃ i, s.streamuses i = false) (ht : t ∉ ts) :
    ∀ u ∈ ts, u ∉ s.q x := by
  obtain ⟨passed, hq, hpassed⟩ := hw x _ hpc
  have hnone : passed = [] := by
    by_contra hne
    rcases hpassed (by simp) hne with hle | ⟨hmem, hfull⟩
    · omega
    · obtain ⟨i, hi⟩ := hfree hmem
      rw [hfull i] at hi
      cases hi
  subst hnone
  intro u hu hm
  rw [hq, List.nil_append] at hm
  rcases List.mem_cons.mp hm with rfl | hm
  · exact ht hu
  · exact h.not_mem_rest (by omega) hq ht u hu hm

/-- An item whose state and stream do not change. -/
theorem stay (h : s.Ahead ts) {sr : ServiceRequest} {es : List Event}
    {uses : Fin maxStreamNr → Bool} {pins : List PinCall} (hstate : sr.state = (s.sr t).state)
    (hid : sr.streamId = (s.sr t).streamId) : (s.touch t sr es uses pins).Ahead ts := by
  have hsr : ∀ u, ((s.touch t sr es uses pins).sr u).state = (s.sr u).state ∧
      ((s.touch t sr es uses pins).sr u).streamId = (s.sr u).streamId := by
    intro u
    by_cases hu : u = t
    · subst hu
      simp [touch, hstate, hid]
    · simp [touch, hu]
  refine ⟨h.old, h.first, fun v hv hall u hu hn => ?_, fun v hv hall he u hu hn => ?_⟩
  · rw [(hsr v).1, (hsr u).1]
    exact h.behind v hv hall u hu hn
  · rw [(hsr v).1] at he
    rw [(hsr u).2]
    exact h.streams v hv hall he u hu hn

theorem moved (h : s.Ahead ts) (hl : s.Listed) (ht : t ∈ s.q x) {sr : ServiceRequest}
    {es : List Event} {uses : Fin maxStreamNr → Bool} {pins : List PinCall}
    (hy : y.order < x.order) (hnext : 2 ≤ y.order → x.order = y.order + 1)
    (hid : x ≠ .memDone → sr.streamId = (s.sr t).streamId)
    (hlast : t ∉ ts → 2 ≤ y.order ∨ x = .memDone → ∀ u ∈ ts, u ∉ s.q x) :
    ((s.touch t sr es uses pins).moveTo t y).Ahead ts := by
  obtain ⟨htall, htx⟩ := (hl.mem_iff t x).mp ht
  have hself : ((s.touch t sr es uses pins).moveTo t y).sr t = { sr with state := y } := by
    simp [touch]
  have hother : ∀ u, u ≠ t → ((s.touch t sr es uses pins).moveTo t y).sr u = s.sr u := by
    intro u hu
    simp [touch, hu]
  -- A newer request that goes on leaves no older one behind on its list.
  have hlate : ∀ u ∈ ts, u ∈ s.allReqs → t ∉ ts → 2 ≤ y.order ∨ x = .memDone →
      (s.sr u).state.order < x.order := by
    intro u hu hall hn hcase
    have hxb : 2 ≤ (s.sr t).state.order := by
      rcases hcase with hc | rfl
      · rw [htx]
        omega
      · rw [htx]
        decide
    refine Nat.lt_of_le_of_ne (htx ▸ h.behind u hu hall t htall hn hxb) fun heq => ?_
    have hux : (s.sr u).state = x := by
      cases hs : (s.sr u).state <;> rw [hs] at heq <;> cases x <;> cases heq <;> rfl
    exact hlast hn hcase u hu ((hl.mem_iff u x).mpr ⟨hall, hux⟩)
  refine ⟨h.old, fun z hz => ?_, fun v hv hall u hu hn hub => ?_, fun v hv hall he u hu hn => ?_⟩
  · rw [moveTo_q]
    change ((s.q z).erase t ++ _).Pairwise _
    refine List.pairwise_append.mpr ⟨(h.first z hz).sublist List.erase_sublist, by split <;> simp,
      fun u hu w hw hwts => ?_⟩
    split at hw
    next hzy =>
      cases List.mem_singleton.mp hw
      obtain ⟨huall, huz⟩ := (hl.mem_iff u z).mp (List.mem_of_mem_erase hu)
      by_contra hun
      have hle := h.behind t hwts htall u huall hun (by rw [huz]; exact hz)
      rw [htx, huz, hzy] at hle
      omega
    next => cases hw
  · by_cases hvt : v = t
    · subst hvt
      have hut : u ≠ v := fun e => hn (e ▸ hv)
      rw [hself, hother u hut] at *
      have hle := h.behind v hv hall u hu hn hub
      rw [htx] at hle
      exact Nat.le_trans (Nat.le_of_lt hy) hle
    · rw [hother v hvt]
      by_cases hut : u = t
      · subst hut
        rw [hself] at hub ⊢
        have hlt := hlate v hv hall hn (.inl hub)
        have heq := hnext hub
        change (s.sr v).state.order ≤ y.order
        omega
      · rw [hother u hut] at hub ⊢
        exact h.behind v hv hall u hu hn hub
  · have hearly : (s.sr v).state.Early := by
      by_cases hvt : v = t
      · subst hvt
        rw [hself] at he
        rw [htx]
        rcases he with he | he
        · change y = _ at he
          subst he
          cases x <;> simp [ReqState.order] at hy
        · change y = _ at he
          subst he
          cases x <;> simp [ReqState.order] at hy
          exact .inl rfl
      · rwa [hother v hvt] at he
    by_cases hut : u = t
    · subst hut
      rw [hself]
      by_cases hx : x = .memDone
      · have hlt := hlate v hv hall hn (.inr hx)
        rw [hx] at hlt
        rcases hearly with he' | he' <;> rw [he'] at hlt <;> simp [ReqState.order] at hlt
      · change sr.streamId = -1
        rw [hid hx]
        exact h.streams v hv hall hearly u hu hn
    · rw [hother u hut]
      exact h.streams v hv hall hearly u hu hn

theorem answered (h : s.Ahead ts) :
    ({ (s.touch t (c.gpuFreeDeviceMem (s.sr t)).1 [.respond (s.response t)]
        (gpuFreeStream s.streamuses (s.sr t))
        (s.pins ++ (c.gpuFreeDeviceMem (s.sr t)).2)).listDel t with
      allReqs := s.allReqs.erase t } : Helper).Ahead ts := by
  have hstay : (s.touch t (c.gpuFreeDeviceMem (s.sr t)).1 [.respond (s.response t)]
      (gpuFreeStream s.streamuses (s.sr t))
      (s.pins ++ (c.gpuFreeDeviceMem (s.sr t)).2)).Ahead ts := h.stay rfl rfl
  exact ⟨h.old, fun x hx => (h.first x hx).sublist List.erase_sublist,
    fun v hv hall u hu => hstay.behind v hv (List.mem_of_mem_erase hall) u (List.mem_of_mem_erase hu),
    fun v hv hall he u hu => hstay.streams v hv (List.mem_of_mem_erase hall) he u
      (List.mem_of_mem_erase hu)⟩

theorem runOp (h : s.Ahead ts) (hl : s.Listed) (hw : s.Walked)
    (hpc : s.pc = .process x (t :: rest)) (ht : t ∈ s.q x) : (s.runOp c x t a).2.Ahead ts := by
  have hcase : OpCase c s t a x (s.runOp c x t a) := runOp_case
  generalize s.runOp c x t a = r at hcase
  cases hcase with
  | allocRefused | noStream | executing | copying => exact h.stay rfl rfl
  | allocated =>
    refine h.moved hl ht (by decide) (by decide) (fun _ => rfl) fun hn _ => ?_
    exact h.not_mem_q hw hpc (by decide) (fun e => by cases e) hn
  | prepared i hi | prepareFailed i hi =>
    refine h.moved hl ht (by decide) (by decide) (fun hne => absurd rfl hne) fun hn _ => ?_
    exact h.not_mem_q hw hpc (by decide) (fun _ => ⟨i, hi⟩) hn
  | launched | launchFailed =>
    refine h.moved hl ht (by decide) (by decide) (fun _ => rfl) fun hn _ => ?_
    exact h.not_mem_q hw hpc (by decide) (fun e => by cases e) hn
  | posted | postFailed | finished =>
    refine h.moved hl ht (by decide) (by decide) (fun _ => rfl) fun _ hc => ?_
    rcases hc with hc | hc
    · exact absurd hc (by decide)
    · cases hc
  | answered => exact h.answered

theorem khInitServiceRequest (h : s.Ahead ts) (hl : s.Listed) (kureq : KuRequest) :
    (s.khInitServiceRequest c kureq).Ahead ts := by
  obtain ⟨hall, hnext, -, -⟩ := khInitServiceRequest_frame (c := c) (s := s) kureq
  have hl' := hl.khInitServiceRequest (c := c) kureq
  have hnew : s.next ∉ ts := fun hm => Nat.lt_irrefl _ (h.old _ hm)
  have hsr : ∀ u, u ≠ s.next → (s.khInitServiceRequest c kureq).sr u = s.sr u :=
    fun u hu => (khInitServiceRequest_other kureq hu).1
  have hheld : ∀ t ∈ ts, t ∈ (s.khInitServiceRequest c kureq).allReqs →
      t ∈ s.allReqs ∧ (s.khInitServiceRequest c kureq).sr t = s.sr t := by
    intro t ht hm
    have hne : t ≠ s.next := fun e => hnew (e ▸ ht)
    rw [hall, List.mem_append, List.mem_singleton] at hm
    exact ⟨hm.resolve_right hne, hsr t hne⟩
  have hfresh : ((s.khInitServiceRequest c kureq).sr s.next).streamId = -1 ∧
      (2 ≤ ((s.khInitServiceRequest c kureq).sr s.next).state.order →
        ((s.khInitServiceRequest c kureq).sr s.next).state = .init) := by
    rcases khInitServiceRequest_new (c := c) (s := s) kureq with ⟨-, hs, -⟩ | ⟨p, -, hs, -⟩
    · rw [hs]
      exact ⟨rfl, fun hle => absurd hle (show ¬ 2 ≤ ReqState.order .done by decide)⟩
    · rw [hs]
      exact ⟨rfl, fun _ => rfl⟩
  refine ⟨fun t ht => ?_, fun x hx => ?_, fun t ht hm u hu hn hub => ?_,
    fun t ht hm he u hu hn => ?_⟩
  · rw [hnext]
    exact Nat.lt_succ_of_lt (h.old t ht)
  · obtain ⟨new, hq, hin⟩ : ∃ new, (s.khInitServiceRequest c kureq).q x = s.q x ++ new ∧
        ∀ u ∈ new, u = s.next := khInitServiceRequest_q hl kureq x
    rw [hq]
    refine List.pairwise_append.mpr ⟨h.first x hx, ?_, fun u _ w hw hwts => ?_⟩
    · exact List.pairwise_of_forall_mem_list fun u _ w hw hwts => absurd (hin w hw ▸ hwts) hnew
    · exact absurd (hin w hw ▸ hwts) hnew
  · obtain ⟨htall, hts⟩ := hheld t ht hm
    rw [hts]
    by_cases hun : u = s.next
    · subst hun
      rw [hfresh.2 hub]
      cases (s.sr t).state <;> decide
    · rw [hall, List.mem_append, List.mem_singleton] at hu
      rw [hsr u hun] at hub ⊢
      exact h.behind t ht htall u (hu.resolve_right hun) hn hub
  · obtain ⟨htall, hts⟩ := hheld t ht hm
    rw [hts] at he
    by_cases hun : u = s.next
    · subst hun
      exact hfresh.1
    · rw [hall, List.mem_append, List.mem_singleton] at hu
      rw [hsr u hun]
      exact h.streams t ht htall he u (hu.resolve_right hun) hn

theorem step (h : s.Ahead ts) (hl : s.Listed) (hwalk : s.Walking) (hw : s.Walked)
    {l : HelperStep} (hs : s.step c l = some s') : s'.Ahead ts := by
  have hpc : ∀ {s : Helper} (pc : LoopPc), s.Ahead ts → ({ s with pc := pc } : Helper).Ahead ts :=
    fun _ h => ⟨h.old, h.first, h.behind, h.streams⟩
  cases l with
  | op a =>
    obtain ⟨x, t, rest, heq, rfl⟩ := step_op_inv hs
    exact hpc _ (h.runOp hl hw heq ((hwalk x _ heq).2 t List.mem_cons_self))
  | advance =>
    obtain ⟨x, pc, -, rfl, -⟩ := step_advance_inv hs
    exact hpc _ h
  | get kureq =>
    obtain ⟨-, rfl⟩ := step_get_inv hs
    cases kureq with
    | none => exact hpc _ h
    | some kureq => exact hpc _ (h.khInitServiceRequest hl kureq)

end Ahead

/-! ## Iterations that do nothing -/

/-- The helper right after it has read its first request. -/
def oneRead : Helper :=
  { (init default).khInitServiceRequest .small
      ⟨7, Vector.replicate 32 65, 0x2000000, 0x2001000, 0, 8, 8, 0⟩ with
    pc := .process .done [] }

end Helper
end Kgpu
