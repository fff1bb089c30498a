-- SUMMARY: Requests that are worked on at the same time do not interfere.
import Kgpu.Gpu.Work

/-!
# Isolation

A stream holds operations of one request only, the one that has it, so whatever
executes next is the next operation of some request and leaves the bytes of all
others alone. When a response is sent, the output of the request is therefore
what the request would have produced alone.
-/

namespace Kgpu

open Library

/-! ## Queues -/

namespace Gpu

variable {c : Config} {k : Kernels} {s s' : Gpu} {t : Token} {x : ReqState}

theorem queue_val (s : Gpu) (i : Fin maxStreamNr) : s.queue i.val = s.fifo i := by
  simp [queue]

theorem queue_none (s : Gpu) : s.queue (-1) = [] := by
  simp [queue]

theorem queue_enqueue_self (i : Fin maxStreamNr) (op : GpuOp) :
    (s.enqueue i.val op).queue i.val = s.queue i.val ++ [op] := by
  rw [queue_val, queue_val, enqueue]
  simp

theorem queue_enqueue_ne {id id' : Int} (op : GpuOp) (hne : id' ≠ id) :
    (s.enqueue id op).queue id' = s.queue id' := by
  simp only [queue, enqueue]
  split
  next h =>
    rw [if_neg]
    intro heq
    exact hne (by rw [heq, Int.toNat_of_nonneg h.1])
  next => rfl

/-! ## The invariant -/

/-- What every request held keeps while others are worked on. -/
structure GpuInv (c : Config) (k : Kernels) (s : Gpu) : Prop where
  asRead : ∀ t ∈ s.helper.allReqs,
    Helper.SameRanges (c.ofKuRequest (s.seen t).1) (s.helper.sr t)
  contained : ∀ t ∈ s.helper.allReqs, c.Contained (s.helper.sr t)
  disjoint : ∀ t ∈ s.helper.allReqs, ∀ t' ∈ s.helper.allReqs, t ≠ t' →
    ∀ x, ¬ ((s.helper.sr t).Own x ∧ (s.helper.sr t').Own x)
  unserved : ∀ t ∈ s.helper.allReqs, (s.helper.sr t).s = none → (s.helper.sr t).state = .done
  placed : ∀ t ∈ s.helper.allReqs, (s.helper.sr t).state ≠ .init → (s.helper.sr t).s ≠ none →
    c.Placed (s.helper.sr t)
  idle : ∀ i, s.helper.streamuses i = false → s.fifo i = []
  work : ∀ t ∈ s.helper.allReqs, Working c k (s.helper.sr t) (s.seen t).2 s.host s.dev
    (s.queue (s.helper.sr t).streamId)

theorem sameRanges_own {sr sr' : ServiceRequest} (h : Helper.SameRanges sr sr') :
    sr'.In = sr.In ∧ sr'.Out = sr.Out ∧ sr'.Own = sr.Own := by
  obtain ⟨h₁, h₂, -, h₄, h₅, -, -⟩ := h
  refine ⟨?_, ?_, ?_⟩ <;> funext x <;>
    simp only [ServiceRequest.Own, ServiceRequest.In, ServiceRequest.Out, h₁, h₂, h₄, h₅]

theorem sameRanges_contained {sr sr' : ServiceRequest} (h : Helper.SameRanges sr sr')
    (hin : c.Contained sr) : c.Contained sr' := by
  obtain ⟨hi, ho, -⟩ := sameRanges_own h
  exact ⟨by rw [hi]; exact hin.inp, by rw [ho]; exact hin.out⟩

theorem sameRanges_trans {a b d : ServiceRequest} (h : Helper.SameRanges a b)
    (h' : Helper.SameRanges b d) : Helper.SameRanges a d := by
  obtain ⟨h₁, h₂, h₃, h₄, h₅, h₆, h₇⟩ := h
  obtain ⟨g₁, g₂, g₃, g₄, g₅, g₆, g₇⟩ := h'
  exact ⟨g₁.trans h₁, g₂.trans h₂, g₃.trans h₃, g₄.trans h₄, g₅.trans h₅, g₆.trans h₆, g₇.trans h₇⟩

namespace GpuInv

/-- A step of the helper on one request, seen by all of them. -/
theorem update (h : s.GpuInv c k) (ht : t ∈ s.helper.allReqs)
    (hall : ∀ t' ∈ s'.helper.allReqs, t' ∈ s.helper.allReqs)
    (hmem : s'.host = s.host ∧ s'.dev = s.dev ∧ s'.seen = s.seen)
    (hother : ∀ t', t' ≠ t → s'.helper.sr t' = s.helper.sr t')
    (hsame : Helper.SameRanges (s.helper.sr t) (s'.helper.sr t))
    (hdone : (s.helper.sr t).state = .done → (s'.helper.sr t).state = .done)
    (hplaced : t ∈ s'.helper.allReqs → (s'.helper.sr t).state ≠ .init →
      (s'.helper.sr t).s ≠ none → c.Placed (s'.helper.sr t))
    (hidle : ∀ i, s'.helper.streamuses i = false → s'.fifo i = [])
    (hqueue : ∀ t' ∈ s.helper.allReqs, t' ≠ t →
      s'.queue (s.helper.sr t').streamId = s.queue (s.helper.sr t').streamId)
    (hwork : t ∈ s'.helper.allReqs → Working c k (s'.helper.sr t) (s.seen t).2 s.host s.dev
      (s'.queue (s'.helper.sr t).streamId)) : s'.GpuInv c k := by
  obtain ⟨hhost, hdev, hseen⟩ := hmem
  have hown : ∀ t' ∈ s.helper.allReqs, (s'.helper.sr t').Own = (s.helper.sr t').Own := by
    intro t' _
    by_cases htt : t' = t
    · rw [htt]
      exact (sameRanges_own hsame).2.2
    · rw [hother t' htt]
  refine ⟨fun t' ht' => ?_, fun t' ht' => ?_, fun t₁ h₁ t₂ h₂ hne => ?_, fun t' ht' hs => ?_,
    fun t' ht' hst hs => ?_, hidle, fun t' ht' => ?_⟩
  · rw [hseen]
    by_cases htt : t' = t
    · rw [htt]
      exact sameRanges_trans (h.asRead t ht) hsame
    · rw [hother t' htt]
      exact h.asRead t' (hall t' ht')
  · by_cases htt : t' = t
    · rw [htt]
      exact sameRanges_contained hsame (h.contained t ht)
    · rw [hother t' htt]
      exact h.contained t' (hall t' ht')
  · rw [hown t₁ (hall t₁ h₁), hown t₂ (hall t₂ h₂)]
    exact h.disjoint t₁ (hall t₁ h₁) t₂ (hall t₂ h₂) hne
  · by_cases htt : t' = t
    · rw [htt] at hs ⊢
      rw [hsame.2.2.2.2.2.2] at hs
      exact hdone (h.unserved t ht hs)
    · rw [hother t' htt] at hs ⊢
      exact h.unserved t' (hall t' ht') hs
  · by_cases htt : t' = t
    · subst htt
      exact hplaced ht' hst hs
    · rw [hother t' htt] at hst hs ⊢
      exact h.placed t' (hall t' ht') hst hs
  · rw [hhost, hdev, hseen]
    by_cases htt : t' = t
    · subst htt
      exact hwork ht'
    · rw [hother t' htt, hqueue t' (hall t' ht') htt]
      exact h.work t' (hall t' ht')

/-- Nothing is enqueued for a request that stays in its state, or in the first and the
    last two. -/
theorem callService_idle (h : (s.helper.sr t).state = x ∨ x = .init ∨ x = .postExec ∨ x = .done) :
    callService k s x t = s := by
  unfold callService
  cases x <;> simp_all

theorem callService_prepare {u : Gpu} {p : ServicePtr} (hst : (u.helper.sr t).state = .prepared)
    (hs : (u.helper.sr t).s = some p) :
    callService k u .memDone t =
      u.enqueue (u.helper.sr t).streamId (defaultPrepare (u.helper.sr t)) := by
  simp only [callService, hst, hs]

theorem callService_launch {u : Gpu} {p : ServicePtr} (hst : (u.helper.sr t).state = .running)
    (hs : (u.helper.sr t).s = some p) :
    callService k u .prepared t =
      u.enqueue (u.helper.sr t).streamId (launchKernel k p (u.helper.sr t)) := by
  simp only [callService, hst, hs]

theorem callService_post {u : Gpu} {p : ServicePtr} (hst : (u.helper.sr t).state = .postExec)
    (hs : (u.helper.sr t).s = some p) :
    callService k u .running t =
      u.enqueue (u.helper.sr t).streamId (defaultPost (u.helper.sr t)) := by
  simp only [callService, hst, hs]

theorem placed_of_same {sr sr' : ServiceRequest} (h : c.Placed sr)
    (heq : sr'.din = sr.din ∧ sr'.dout = sr.dout ∧ sr'.hin = sr.hin ∧ sr'.hout = sr.hout) :
    c.Placed sr' := by
  obtain ⟨h₁, h₂, h₃, h₄⟩ := heq
  exact ⟨by rw [h₁, h₃]; exact h.1, by rw [h₂, h₄]; exact h.2⟩

/-- What is put on the stream of a request changes nothing for the others. -/
theorem enqueue_other (h : s.GpuInv c k) (hst : s.helper.Streamed) (ht : t ∈ s.helper.allReqs)
    {i : Fin maxStreamNr} (hi : (s.helper.sr t).streamId = i.val) (op : GpuOp) :
    (∀ j, s.helper.streamuses j = false → (s.enqueue i.val op).fifo j = []) ∧
    ∀ t' ∈ s.helper.allReqs, t' ≠ t →
      (s.enqueue i.val op).queue (s.helper.sr t').streamId = s.queue (s.helper.sr t').streamId := by
  refine ⟨fun j hj => ?_, fun t' ht' hne => queue_enqueue_ne op fun heq => ?_⟩
  · have hji : (i.val : Int) ≠ j.val := by
      intro heq
      have huse := (hst.uses j).mpr ⟨t, ht, hi.trans heq⟩
      rw [hj] at huse
      cases huse
    simp only [enqueue, if_neg hji]
    exact h.idle j hj
  · exact hne (hst.once t' ht' t ht (heq.trans hi.symm) (by omega))

section Helper

variable {h' : Helper} (hother : ∀ t', t' ≠ t → h'.sr t' = s.helper.sr t')

include hother

/-- `kh_request_alloc_mem` translates the addresses. -/
theorem allocated (h : s.GpuInv c k) (ht : t ∈ s.helper.allReqs) {p : ServicePtr}
    (hs : (s.helper.sr t).s = some p) (hx : (s.helper.sr t).state = .init)
    (hall : h'.allReqs = s.helper.allReqs) (huses : h'.streamuses = s.helper.streamuses)
    (hsr : h'.sr t = { (c.gpuAllocDeviceMem (s.helper.sr t)).1 with state := .memDone }) :
    GpuInv c k (callService k { s with helper := h' } .init t) := by
  obtain ⟨hhost, hops⟩ := (h.work t ht).early hs (.inl hx)
  rw [callService_idle (.inr (.inl rfl))]
  refine h.update ht (by simp [hall]) ⟨rfl, rfl, rfl⟩ hother ?_ (by rw [hx]; exact nofun)
    (fun _ _ _ => ?_) (by simpa [huses] using h.idle) (fun _ _ _ => rfl) (fun _ => ?_)
  · simp only [hsr]
    exact ⟨rfl, rfl, rfl, rfl, rfl, rfl, rfl⟩
  · simp only [hsr]
    exact ⟨rfl, rfl⟩
  · simp only [hsr]
    exact .waiting (.inr rfl) hhost hops

/-- `kh_prepare_exec` takes a stream and puts the copy of the input on it. -/
theorem prepared (h : s.GpuInv c k) (hst : s.helper.Streamed) (ht : t ∈ s.helper.allReqs)
    {p : ServicePtr} (hs : (s.helper.sr t).s = some p) (hx : (s.helper.sr t).state = .memDone)
    {i : Fin maxStreamNr} {w : UL} (hi : s.helper.streamuses i = false)
    (hall : h'.allReqs = s.helper.allReqs)
    (huses : h'.streamuses = Function.update s.helper.streamuses i true)
    (hsr : h'.sr t = { s.helper.sr t with streamId := i.val, stream := w, state := .prepared }) :
    GpuInv c k (callService k { s with helper := h' } .memDone t) := by
  obtain ⟨hhost, -⟩ := (h.work t ht).early hs (.inr hx)
  have hplaced : c.Placed (s.helper.sr t) :=
    h.placed t ht (by rw [hx]; exact nofun) (by rw [hs]; exact nofun)
  have hunused : ∀ t' ∈ s.helper.allReqs, (s.helper.sr t').streamId ≠ i.val := by
    intro t' ht' heq
    have huse := (hst.uses i).mpr ⟨t', ht', heq⟩
    rw [hi] at huse
    cases huse
  rw [callService_prepare (p := p) (by simp [hsr]) (by simp [hsr, hs])]
  simp only [hsr]
  refine h.update ht (by simp [hall, enqueue]) ⟨rfl, rfl, rfl⟩ hother ?_ (by rw [hx]; exact nofun)
    (fun _ _ _ => ?_) (fun j hj => ?_) (fun t' ht' _ => ?_) (fun _ => ?_)
  · simp only [enqueue, hsr]
    exact ⟨rfl, rfl, rfl, rfl, rfl, rfl, rfl⟩
  · simp only [enqueue, hsr]
    exact placed_of_same hplaced ⟨rfl, rfl, rfl, rfl⟩
  · simp only [enqueue, huses] at hj ⊢
    by_cases hji : j = i
    · subst hji
      simp at hj
    · rw [Function.update_of_ne hji] at hj
      rw [if_neg (fun heq => hji (Fin.ext (by omega)))]
      exact h.idle j hj
  · exact queue_enqueue_ne _ (hunused t' ht')
  · change Working c k (h'.sr t) _ _ _
      ((enqueue { s with helper := h' } i.val _).queue (h'.sr t).streamId)
    rw [hsr, queue_enqueue_self, queue_val]
    exact .toLoad p hs hhost (.inl ⟨rfl, by rw [h.idle i hi]; rfl⟩)

/-- A request that has a stream goes on with one more operation on it. -/
theorem enqueued (h : s.GpuInv c k) (hst : s.helper.Streamed) (ht : t ∈ s.helper.allReqs)
    {p : ServicePtr} (hs : (s.helper.sr t).s = some p) (hbusy : (s.helper.sr t).state.Busy)
    (hall : h'.allReqs = s.helper.allReqs) (huses : h'.streamuses = s.helper.streamuses)
    {y : ReqState} (hsr : h'.sr t = { s.helper.sr t with state := y }) {op : GpuOp}
    (hwork : Working c k { s.helper.sr t with state := y } (s.seen t).2 s.host s.dev
      (s.queue (s.helper.sr t).streamId ++ [op])) :
    GpuInv c k (enqueue { s with helper := h' } (s.helper.sr t).streamId op) := by
  have hstate : (s.helper.sr t).state ≠ .init ∧ (s.helper.sr t).state ≠ .done := by
    rcases hbusy with hx | hx | hx <;> rw [hx] <;> exact ⟨nofun, nofun⟩
  have hplaced : c.Placed (s.helper.sr t) := h.placed t ht hstate.1 (by rw [hs]; exact nofun)
  obtain ⟨i, hi⟩ := (hst.range t ht).resolve_left (hst.busy t ht hbusy)
  obtain ⟨hidle, hqueue⟩ := h.enqueue_other hst ht hi op
  rw [hi] at hwork ⊢
  refine h.update ht (by simp [hall, enqueue]) ⟨rfl, rfl, rfl⟩ hother ?_
    (fun hdone => absurd hdone hstate.2) (fun _ _ _ => ?_) (fun j hj => ?_) hqueue (fun _ => ?_)
  · simp only [enqueue, hsr]
    exact ⟨rfl, rfl, rfl, rfl, rfl, rfl, rfl⟩
  · simp only [enqueue, hsr]
    exact placed_of_same hplaced ⟨rfl, rfl, rfl, rfl⟩
  · simp only [enqueue, huses] at hj
    exact hidle j hj
  · change Working c k (h'.sr t) _ _ _
      ((enqueue { s with helper := h' } i.val _).queue (h'.sr t).streamId)
    rw [hsr, hi, queue_enqueue_self]
    exact hwork

/-- `kh_launch_exec` puts the kernel on the stream. -/
theorem launched (h : s.GpuInv c k) (hst : s.helper.Streamed) (ht : t ∈ s.helper.allReqs)
    {p : ServicePtr} (hs : (s.helper.sr t).s = some p) (hx : (s.helper.sr t).state = .prepared)
    (hall : h'.allReqs = s.helper.allReqs) (huses : h'.streamuses = s.helper.streamuses)
    (hsr : h'.sr t = { s.helper.sr t with state := .running }) :
    GpuInv c k (callService k { s with helper := h' } .prepared t) := by
  have hwork := (h.work t ht).launched hs hx
  rw [callService_launch (p := p) (by simp [hsr]) (by simp [hsr, hs])]
  simp only [hsr]
  exact h.enqueued hother hst ht hs (.inl hx) hall huses hsr hwork

/-- `kh_post_exec` finds the stream empty and puts the copy of the output on it. -/
theorem posted (h : s.GpuInv c k) (hst : s.helper.Streamed) (ht : t ∈ s.helper.allReqs)
    {p : ServicePtr} (hs : (s.helper.sr t).s = some p) (hx : (s.helper.sr t).state = .running)
    (hempty : s.queue (s.helper.sr t).streamId = [])
    (hall : h'.allReqs = s.helper.allReqs) (huses : h'.streamuses = s.helper.streamuses)
    (hsr : h'.sr t = { s.helper.sr t with state := .postExec }) :
    GpuInv c k (callService k { s with helper := h' } .running t) := by
  have hwork := h.work t ht
  rw [hempty] at hwork
  replace hwork := hwork.posted hs hx
  rw [callService_post (p := p) (by simp [hsr]) (by simp [hsr, hs])]
  simp only [hsr]
  refine h.enqueued hother hst ht hs (.inr (.inl hx)) hall huses hsr ?_
  rw [hempty]
  exact hwork

/-- `kh_finish_post` finds the stream empty: the output is back. -/
theorem finished (h : s.GpuInv c k) (ht : t ∈ s.helper.allReqs)
    {p : ServicePtr} (hs : (s.helper.sr t).s = some p) (hx : (s.helper.sr t).state = .postExec)
    (hempty : s.queue (s.helper.sr t).streamId = [])
    (hall : h'.allReqs = s.helper.allReqs) (huses : h'.streamuses = s.helper.streamuses)
    (hsr : h'.sr t = { s.helper.sr t with state := .done }) :
    GpuInv c k (callService k { s with helper := h' } .postExec t) := by
  have hplaced : c.Placed (s.helper.sr t) :=
    h.placed t ht (by rw [hx]; exact nofun) (by rw [hs]; exact nofun)
  have hwork := h.work t ht
  rw [hempty] at hwork
  replace hwork := hwork.finished hs hx
  rw [callService_idle (.inr (.inr (.inl rfl)))]
  refine h.update ht (by simp [hall]) ⟨rfl, rfl, rfl⟩ hother ?_ (by rw [hx]; exact nofun)
    (fun _ _ _ => ?_) (by simpa [huses] using h.idle) (fun _ _ _ => rfl) (fun _ => ?_)
  · simp only [hsr]
    exact ⟨rfl, rfl, rfl, rfl, rfl, rfl, rfl⟩
  · simp only [hsr]
    exact placed_of_same hplaced ⟨rfl, rfl, rfl, rfl⟩
  · simp only [hsr]
    rw [show ({ s with helper := h' } : Gpu).queue (s.helper.sr t).streamId = [] from hempty]
    exact hwork

/-- `kh_service_done` frees a stream that is empty. -/
theorem answered (h : s.GpuInv c k) (hl : s.helper.Listed)
    (ht : t ∈ s.helper.allReqs) (hx : (s.helper.sr t).state = .done)
    (hall : h'.allReqs = s.helper.allReqs.erase t)
    (huses : h'.streamuses = gpuFreeStream s.helper.streamuses (s.helper.sr t))
    (hsame : Helper.SameRanges (s.helper.sr t) (h'.sr t)) (hdone : (h'.sr t).state = .done) :
    GpuInv c k (callService k { s with helper := h' } .done t) := by
  have hgone : t ∉ h'.allReqs := by
    rw [hall, hl.nodup_all.mem_erase_iff]
    exact fun hmem => hmem.1 rfl
  rw [callService_idle (.inr (.inr (.inr rfl)))]
  refine h.update ht (fun t' ht' => ?_) ⟨rfl, rfl, rfl⟩ hother hsame (fun _ => hdone)
    (fun hmem => absurd hmem hgone) (fun j hj => ?_) (fun _ _ _ => rfl)
    (fun hmem => absurd hmem hgone)
  · simp only [hall] at ht'
    exact List.mem_of_mem_erase ht'
  · simp only [huses, gpuFreeStream] at hj
    split at hj
    next hjt =>
      have hempty := ((h.work t ht).done hx).1
      rw [hjt, queue_val] at hempty
      exact hempty
    next => exact h.idle j hj

end Helper

/-- One operation of the helper, with the answers of the GPU. -/
theorem op (h : s.GpuInv c k) (hl : s.helper.Listed) (hst : s.helper.Streamed)
    (ht : t ∈ s.helper.q x) (pc : LoopPc) :
    (callService k { s with
      helper := { (s.helper.runOp c x t (s.answers t)).2 with pc := pc } } x t).GpuInv c k := by
  obtain ⟨htall, hx⟩ := (hl.mem_iff t x).mp ht
  have hsame : Helper.SameRanges (s.helper.sr t) ((s.helper.runOp c x t (s.answers t)).2.sr t) :=
    Helper.runOp_sameRanges t
  have hother : ∀ t', t' ≠ t → (s.helper.runOp c x t (s.answers t)).2.sr t' = s.helper.sr t' :=
    fun t' hne => (Helper.runOp_other hne).1
  have hcase : Helper.OpCase c s.helper t (s.answers t) x (s.helper.runOp c x t (s.answers t)) :=
    Helper.runOp_case
  have hserved : x ≠ .done → ∃ p, (s.helper.sr t).s = some p := by
    intro hne
    cases hs : (s.helper.sr t).s with
    | none => exact absurd (hx.symm.trans (h.unserved t htall hs)) hne
    | some p => exact ⟨p, rfl⟩
  have hself : Function.update s.helper.sr t (s.helper.sr t) = s.helper.sr :=
    Function.update_eq_self t _
  generalize s.helper.runOp c x t (s.answers t) = r at hcase hother hsame
  cases hcase with
  | allocRefused hne => exact absurd rfl hne
  | prepareFailed i hi ha => exact absurd rfl ha
  | launchFailed ha => exact absurd rfl ha
  | postFailed hf ha => exact absurd rfl ha
  | allocated =>
    obtain ⟨p, hs⟩ := hserved (by decide)
    exact h.allocated hother htall hs hx rfl rfl (by simp [Helper.touch])
  | noStream | executing | copying =>
    rw [callService_idle (.inl (by simpa [Helper.touch] using hx))]
    simp only [Helper.touch, hself]
    exact ⟨h.asRead, h.contained, h.disjoint, h.unserved, h.placed, h.idle, h.work⟩
  | prepared i hi =>
    obtain ⟨p, hs⟩ := hserved (by decide)
    exact h.prepared (w := c.streams i) hother hst htall hs hx hi rfl rfl (by simp [Helper.touch])
  | launched =>
    obtain ⟨p, hs⟩ := hserved (by decide)
    exact h.launched hother hst htall hs hx rfl rfl (by simp [Helper.touch])
  | posted hf =>
    obtain ⟨p, hs⟩ := hserved (by decide)
    exact h.posted hother hst htall hs hx (List.isEmpty_iff.mp hf) rfl rfl (by simp [Helper.touch])
  | finished hf =>
    obtain ⟨p, hs⟩ := hserved (by decide)
    exact h.finished hother htall hs hx (List.isEmpty_iff.mp hf) rfl rfl (by simp [Helper.touch])
  | answered =>
    refine h.answered hother hl htall hx rfl rfl hsame ?_
    simpa [Helper.touch, Helper.listDel, Config.gpuFreeDeviceMem] using hx

/-- A request is read: nothing has happened for it yet. -/
theorem read (h : s.GpuInv c k) (hl : s.helper.Listed) {kureq : KuRequest} (pc : LoopPc)
    (hin : c.Contained (c.ofKuRequest kureq))
    (hdisj : ∀ t ∈ s.helper.allReqs, ∀ x, ¬ ((c.ofKuRequest kureq).Own x ∧ (s.helper.sr t).Own x)) :
    GpuInv c k { s with
      helper := { s.helper.khInitServiceRequest c kureq with pc := pc }
      seen := Function.update s.seen s.helper.next (kureq, s.host) } := by
  obtain ⟨hall, -, huses, -⟩ := Helper.khInitServiceRequest_frame (c := c) (s := s.helper) kureq
  have hfresh : s.helper.next ∉ s.helper.allReqs := fun hmem => Nat.lt_irrefl _ (hl.lt_next _ hmem)
  have hne : ∀ t ∈ s.helper.allReqs, t ≠ s.helper.next := fun t ht e => hfresh (e ▸ ht)
  have hold : ∀ t ∈ s.helper.allReqs,
      (s.helper.khInitServiceRequest c kureq).sr t = s.helper.sr t :=
    fun t ht => (Helper.khInitServiceRequest_other kureq (hne t ht)).1
  have hsame : Helper.SameRanges (c.ofKuRequest kureq)
      ((s.helper.khInitServiceRequest c kureq).sr s.helper.next) := by
    rcases Helper.khInitServiceRequest_new (c := c) (s := s.helper) kureq with
      ⟨-, hsr, -⟩ | ⟨p, -, hsr, -⟩ <;> rw [hsr] <;> exact ⟨rfl, rfl, rfl, rfl, rfl, rfl, rfl⟩
  have hown := (sameRanges_own hsame).2.2
  have hcases : ∀ t ∈ (s.helper.khInitServiceRequest c kureq).allReqs,
      t ∈ s.helper.allReqs ∨ t = s.helper.next := by
    intro t ht
    rw [hall, List.mem_append, List.mem_singleton] at ht
    exact ht
  refine ⟨fun t ht => ?_, fun t ht => ?_, fun t₁ h₁ t₂ h₂ hne₁₂ x hboth => ?_, fun t ht hs => ?_,
    fun t ht hst hs => ?_, by simpa [huses] using h.idle, fun t ht => ?_⟩
  · rcases hcases t ht with hm | rfl
    · simp only [hold t hm, Function.update_of_ne (hne t hm)]
      exact h.asRead t hm
    · simp only [Function.update_self]
      exact hsame
  · rcases hcases t ht with hm | rfl
    · simp only [hold t hm]
      exact h.contained t hm
    · exact sameRanges_contained hsame hin
  · rcases hcases t₁ h₁ with hm₁ | rfl
    · simp only [hold t₁ hm₁] at hboth
      rcases hcases t₂ h₂ with hm₂ | rfl
      · simp only [hold t₂ hm₂] at hboth
        exact h.disjoint t₁ hm₁ t₂ hm₂ hne₁₂ x hboth
      · simp only [hown] at hboth
        exact hdisj t₁ hm₁ x hboth.symm
    · rcases hcases t₂ h₂ with hm₂ | rfl
      · simp only [hold t₂ hm₂, hown] at hboth
        exact hdisj t₂ hm₂ x hboth
      · exact hne₁₂ rfl
  · rcases hcases t ht with hm | rfl
    · simp only [hold t hm] at hs ⊢
      exact h.unserved t hm hs
    · rcases Helper.khInitServiceRequest_new (c := c) (s := s.helper) kureq with
        ⟨-, hsr, -⟩ | ⟨p, hp, hsr, -⟩
      · simp only [hsr]
      · simp only [hsr, Config.ofKuRequest, hp] at hs
        cases hs
  · rcases hcases t ht with hm | rfl
    · simp only [hold t hm] at hst hs ⊢
      exact h.placed t hm hst hs
    · rcases Helper.khInitServiceRequest_new (c := c) (s := s.helper) kureq with
        ⟨hp, hsr, -⟩ | ⟨p, -, hsr, -⟩
      · simp only [hsr, Config.ofKuRequest, hp] at hs
        exact absurd rfl hs
      · simp only [hsr, Config.ofKuRequest] at hst
        exact absurd rfl hst
  · rcases hcases t ht with hm | rfl
    · simp only [hold t hm, Function.update_of_ne (hne t hm)]
      exact h.work t hm
    · have hq : (c.ofKuRequest kureq).streamId = -1 := rfl
      rcases Helper.khInitServiceRequest_new (c := c) (s := s.helper) kureq with
        ⟨hp, hsr, -⟩ | ⟨p, -, hsr, -⟩
      · simp only [hsr, Function.update_self, hq]
        exact .unserved hp (fun _ _ => rfl) (queue_none _)
      · simp only [hsr, Function.update_self, hq]
        exact .waiting (.inl rfl) (fun _ _ => rfl) (queue_none _)

theorem used_of_head (h : s.GpuInv c k) {i : Fin maxStreamNr} {op : GpuOp} {rest : List GpuOp}
    (hf : s.fifo i = op :: rest) : s.helper.streamuses i = true := by
  cases hu : s.helper.streamuses i with
  | true => rfl
  | false =>
    rw [h.idle i hu] at hf
    cases hf

/-- The operation at the head of a stream belongs to the request that has the stream. -/
theorem head (h : s.GpuInv c k) (hc : c.Regions) (hst : s.helper.Streamed) {i : Fin maxStreamNr}
    {op : GpuOp} {rest : List GpuOp} (hf : s.fifo i = op :: rest) :
    ∃ t ∈ s.helper.allReqs, (s.helper.sr t).streamId = i.val ∧
      (c.Placed (s.helper.sr t) ∧ ∃ p, op = defaultPrepare (s.helper.sr t) ∨
        op = launchKernel k p (s.helper.sr t) ∨ op = defaultPost (s.helper.sr t)) ∧
      Working c k (s.helper.sr t) (s.seen t).2 (op.exec (s.host, s.dev)).1
        (op.exec (s.host, s.dev)).2 rest := by
  obtain ⟨t, ht, hti⟩ := (hst.uses i).mp (h.used_of_head hf)
  have hwork := h.work t ht
  rw [hti, queue_val, hf] at hwork
  exact ⟨t, ht, hti, hwork.exec hc (h.contained t ht) (h.placed t ht)⟩

/-- Host bytes that are of no request held stay as they are. -/
theorem exec_host (h : s.GpuInv c k) (hc : c.Regions) (hst : s.helper.Streamed)
    {i : Fin maxStreamNr} {op : GpuOp} {rest : List GpuOp} (hf : s.fifo i = op :: rest) {x : Nat}
    (hx : c.HostByte x) (hown : ∀ t ∈ s.helper.allReqs, ¬ (s.helper.sr t).Own x) :
    (op.exec (s.host, s.dev)).1 x = s.host x := by
  obtain ⟨t, ht, -, ⟨hplaced, p, hop⟩, -⟩ := h.head hc hst hf
  exact (exec_other hc (h.contained t ht) hplaced hop hx (hown t ht)).1

theorem exec (h : s.GpuInv c k) (hc : c.Regions) (hst : s.helper.Streamed) {i : Fin maxStreamNr}
    {op : GpuOp} {rest : List GpuOp} (hf : s.fifo i = op :: rest) :
    GpuInv c k { s with
      host := (op.exec (s.host, s.dev)).1
      dev := (op.exec (s.host, s.dev)).2
      fifo := Function.update s.fifo i rest } := by
  have huse := h.used_of_head hf
  obtain ⟨t, ht, hti, ⟨hplaced, p, hop⟩, hnext⟩ := h.head hc hst hf
  refine ⟨h.asRead, h.contained, h.disjoint, h.unserved, h.placed, fun j hj => ?_, fun t' ht' => ?_⟩
  · have hji : j ≠ i := by
      rintro rfl
      rw [huse] at hj
      cases hj
    simp only [Function.update_of_ne hji]
    exact h.idle j hj
  · by_cases htt : t' = t
    · subst htt
      have hq : queue { s with
          host := (op.exec (s.host, s.dev)).1
          dev := (op.exec (s.host, s.dev)).2
          fifo := Function.update s.fifo i rest } (s.helper.sr t').streamId = rest := by
        rw [hti, queue_val]
        exact Function.update_self ..
      rw [hq]
      exact hnext
    · have hne : (s.helper.sr t').streamId ≠ i.val := fun e =>
        htt (hst.once t' ht' t ht (e.trans hti.symm) (by omega))
      have hq : queue { s with
          host := (op.exec (s.host, s.dev)).1
          dev := (op.exec (s.host, s.dev)).2
          fifo := Function.update s.fifo i rest } (s.helper.sr t').streamId =
          s.queue (s.helper.sr t').streamId := by
        simp only [queue]
        split
        next hid =>
          rw [Function.update_of_ne]
          intro heq
          apply hne
          rw [← heq]
          exact (Int.toNat_of_nonneg hid.1).symm
        next => rfl
      have hsep : ∀ x, (s.helper.sr t').Own x → ¬ (s.helper.sr t).Own x :=
        fun x hx hx' => h.disjoint t' ht' t ht htt x ⟨hx, hx'⟩
      rw [hq]
      refine (h.work t' ht').frame (fun x hx => ?_) (fun x hx => ?_)
      · exact (exec_other hc (h.contained t ht) hplaced hop
          ((h.contained t' ht').hostByte hx) (hsep x hx)).1
      · exact (exec_other hc (h.contained t ht) hplaced hop
          ((h.contained t' ht').hostByte hx) (hsep x hx)).2

theorem hostWrite (h : s.GpuInv c k) {x : Nat} (v : UInt8)
    (hok : ∀ t ∈ s.helper.allReqs, ¬ (s.helper.sr t).Own x) :
    GpuInv c k { s with host := Function.update s.host x v } := by
  refine ⟨h.asRead, h.contained, h.disjoint, h.unserved, h.placed, h.idle, fun t ht => ?_⟩
  refine (h.work t ht).frame (fun y hy => ?_) (fun _ _ => rfl)
  have hyx : y ≠ x := by
    rintro rfl
    exact hok t ht hy
  exact Function.update_of_ne hyx v s.host

end GpuInv

/-! ## Runs -/

theorem callService_helper (s : Gpu) (x : ReqState) (t : Token) :
    (callService k s x t).helper = s.helper := by
  unfold callService
  simp only
  split <;> rfl

/-- The helper in a run with the GPU makes a run of its own. -/
theorem helper_run {ok : Gpu → GpuStep → Prop} {sr : Token → ServiceRequest} {host dev : Memory}
    {seen : Token → KuRequest × Memory} {ls : List GpuStep}
    (hrun : Run (Gpu.step c k) ok (Gpu.init sr host dev seen) ls s) :
    ∃ ls', Run (Helper.step c) Free (Helper.init sr) ls' s.helper := by
  refine hrun.project Gpu.helper fun s l s' hs => ?_
  cases l with
  | op =>
    simp only [Gpu.step] at hs
    split at hs
    next =>
      split at hs
      next hh =>
        cases hs
        rw [callService_helper]
        exact .inr ⟨_, hh⟩
      next => cases hs
    next => cases hs
  | advance =>
    simp only [Gpu.step] at hs
    split at hs
    next hh => cases hs; exact .inr ⟨_, hh⟩
    next => cases hs
  | get kureq =>
    cases kureq <;>
    · simp only [Gpu.step] at hs
      split at hs
      next hh => cases hs; exact .inr ⟨_, hh⟩
      next => cases hs
  | exec i =>
    simp only [Gpu.step] at hs
    split at hs
    next => cases hs; exact .inl rfl
    next => cases hs
  | hostWrite x v =>
    cases hs
    exact .inl rfl

namespace GpuInv

/-- The program counter is not looked at. -/
theorem setPc (h : s.GpuInv c k) (pc : LoopPc) :
    GpuInv c k { s with helper := { s.helper with pc := pc } } :=
  ⟨h.asRead, h.contained, h.disjoint, h.unserved, h.placed, h.idle, h.work⟩

theorem step (h : s.GpuInv c k) (hc : c.Regions) (hl : s.helper.Listed) (hw : s.helper.Walking)
    (hst : s.helper.Streamed) {l : GpuStep} (hok : Isolated c s l) (hs : s.step c k l = some s') :
    s'.GpuInv c k := by
  cases l with
  | op =>
    simp only [Gpu.step] at hs
    split at hs
    next x t rest hpc =>
      simp only [Helper.step, hpc] at hs
      cases hs
      exact h.op hl hst ((hw x _ hpc).2 t List.mem_cons_self) _
    next => cases hs
  | advance =>
    simp only [Gpu.step] at hs
    split at hs
    next h' hh =>
      cases hs
      obtain ⟨x, pc, -, rfl, -⟩ := Helper.step_advance_inv hh
      exact h.setPc pc
    next => cases hs
  | get kureq =>
    cases kureq with
    | none =>
      simp only [Gpu.step] at hs
      split at hs
      next h' hh =>
        cases hs
        obtain ⟨-, rfl⟩ := Helper.step_get_inv hh
        exact h.setPc _
      next => cases hs
    | some kureq =>
      simp only [Gpu.step] at hs
      split at hs
      next h' hh =>
        cases hs
        obtain ⟨-, rfl⟩ := Helper.step_get_inv hh
        exact h.read hl _ hok.1 hok.2
      next => cases hs
  | exec i =>
    simp only [Gpu.step] at hs
    split at hs
    next op rest hf => cases hs; exact h.exec hc hst hf
    next => cases hs
  | hostWrite x v =>
    cases hs
    exact h.hostWrite v hok

/-- The output of a request that is done is the one of the request alone. -/
theorem done_eq_runAlone (h : s.GpuInv c k) (hc : c.Regions) (ht : t ∈ s.helper.allReqs)
    (hdone : (s.helper.sr t).state = .done) (dev₀ : Memory) {x : Nat}
    (hx : (c.ofKuRequest (s.seen t).1).Out x) :
    s.host x = runAlone c k (s.seen t).1 (s.seen t).2 dev₀ x := by
  have hsame := h.asRead t ht
  obtain ⟨hin, hout, hown⟩ := sameRanges_own hsame
  have hcont : c.Contained (c.ofKuRequest (s.seen t).1) :=
    ⟨by rw [← hin]; exact (h.contained t ht).inp, by rw [← hout]; exact (h.contained t ht).out⟩
  have hx' : (s.helper.sr t).Out x := by
    rw [hout]
    exact hx
  have hservice : (s.helper.sr t).s = (c.ofKuRequest (s.seen t).1).s := hsame.2.2.2.2.2.2
  rcases ((h.work t ht).done hdone).2 with ⟨hs, hhost⟩ | ⟨p, hs, hhost⟩
  · rw [hhost x (.inr hx'), runAlone_unserved (hservice.symm.trans hs)]
  · rw [hhost x hx', runAlone_served hc hcont (hservice.symm.trans hs) hx]
    obtain ⟨h₁, h₂, -, h₄, h₅, -⟩ := hsame
    simp only [resultByte, h₁, h₂, h₄, h₅]

end GpuInv

/-- When the response to a request is sent, its output is what the request run alone
    produces from the host memory at the time it was read, whatever the device
    memory holds before. -/
theorem requests_isolated (hc : c.Regions) {sr : Token → ServiceRequest} {host dev : Memory}
    {seen : Token → KuRequest × Memory} {ls : List GpuStep}
    (hrun : Run (Gpu.step c k) (Isolated c) (Gpu.init sr host dev seen) ls s)
    {rest : List Token} (hpc : s.helper.pc = .process .done (t :: rest)) (dev₀ : Memory) (x : Nat)
    (hx : (c.ofKuRequest (s.seen t).1).Out x) :
    s.host x = runAlone c k (s.seen t).1 (s.seen t).2 dev₀ x := by
  have h : s.GpuInv c k := by
    refine hrun.invariant_reached (I := GpuInv c k) ?_ fun ls s l s' hreach h hok hs => ?_
    · constructor <;> simp [Gpu.init, Helper.init]
    · obtain ⟨ls', hrun'⟩ := helper_run hreach
      obtain ⟨hl, hw, hst⟩ := Helper.streamed_of_run hrun'
      exact h.step hc hl hw hst hok hs
  obtain ⟨ls', hrun'⟩ := helper_run hrun
  obtain ⟨hl, hw, -⟩ := Helper.streamed_of_run hrun'
  obtain ⟨ht, hdone⟩ := (hl.mem_iff t .done).mp ((hw .done _ hpc).2 t List.mem_cons_self)
  exact h.done_eq_runAlone hc ht hdone dev₀ hx

/-! ## Two requests at the same time -/

/-- A kernel that adds one to every byte. -/
def addOne : Kernels := fun _ _ input i => input.getD i 0 + 1

/-- The memory that holds the low bytes of the addresses. -/
def lowBytes : Memory := fun x => x.toUInt8

/-- A request whose output is where its input is. -/
def inPlace : KuRequest := ⟨7, Vector.replicate 32 65, 0x2000000, 0x2000000, 0, 8, 8, 0⟩

/-- A request with its output right behind that of `inPlace`. -/
def behind : KuRequest := ⟨8, Vector.replicate 32 65, 0x1000000, 0x2000008, 0, 8, 8, 0⟩

theorem inPlace_contained : Config.small.Contained (Config.small.ofKuRequest inPlace) := by
  have hr : ∀ x, 0x2000000 ≤ x ∧ x < 0x2000000 + 8 → Config.small.hostvma.Has x := by
    intro x hx
    change 0x2000000 ≤ x ∧ x < 0x2000000 + 0x200000
    omega
  exact ⟨.inr hr, .inr hr⟩

theorem behind_contained : Config.small.Contained (Config.small.ofKuRequest behind) := by
  refine ⟨.inl fun x hx => ?_, .inr fun x hx => ?_⟩
  · change 0x1000000 ≤ x ∧ x < 0x1000000 + 8 at hx
    change 0x1000000 ≤ x ∧ x < 0x1000000 + 0x200000
    omega
  · change 0x2000008 ≤ x ∧ x < 0x2000008 + 8 at hx
    change 0x2000000 ≤ x ∧ x < 0x2000000 + 0x200000
    omega

theorem behind_disjoint (x : Nat) : ¬ ((Config.small.ofKuRequest behind).Own x ∧
    (Config.small.ofKuRequest inPlace).Own x) := by
  rintro ⟨hx, hy⟩
  change (0x1000000 ≤ x ∧ x < 0x1000000 + 8) ∨ (0x2000008 ≤ x ∧ x < 0x2000008 + 8) at hx
  change (0x2000000 ≤ x ∧ x < 0x2000000 + 8) ∨ (0x2000000 ≤ x ∧ x < 0x2000000 + 8) at hy
  omega

/-- The labels on which `Isolated` puts no condition. -/
theorem isolated_forall {ls : List GpuStep}
    (h : ∀ l ∈ ls, l = .op ∨ l = .advance ∨ l = .get none ∨ ∃ i, l = .exec i) :
    ∀ l ∈ ls, ∀ s, Isolated c s l := by
  intro l hl s
  rcases h l hl with rfl | rfl | rfl | ⟨i, rfl⟩ <;> trivial

/-- Two requests that are worked on at the same time, the first of which is answered. -/
theorem requests_isolated_two :
    ∃ ls s, Run (Gpu.step .small addOne) (Isolated .small)
        (Gpu.init default lowBytes lowBytes fun _ => (inPlace, lowBytes)) ls s ∧
      s.helper.allReqs = [0, 1] ∧ s.helper.pc = .process .done [0] ∧ s.host 0x2000003 = 4 ∧
      s.host 0x2000003 = runAlone .small addOne (s.seen 0).1 (s.seen 0).2 lowBytes 0x2000003 := by
  have hstart : Run (Gpu.step .small addOne) (Isolated .small)
      (Gpu.init default lowBytes lowBytes fun _ => (inPlace, lowBytes))
      [.advance, .advance, .advance, .advance, .advance, .advance] _ :=
    Run.of_forall rfl (isolated_forall (by simp))
  have hfirst := hstart.snoc (l := GpuStep.get (some inPlace))
    (And.intro inPlace_contained fun t ht => nomatch ht) rfl
  -- the first request gets its device memory
  have hmem := hfirst.trans (Run.of_forall
    (show exec _ [.advance, .advance, .advance, .advance, .advance, .op, .advance] _ = some _ from rfl)
    (isolated_forall (by simp)))
  have hsecond := hmem.snoc (l := GpuStep.get (some behind))
    (And.intro behind_contained fun t ht x hx => by
      cases List.mem_singleton.mp ht
      exact behind_disjoint x hx) rfl
  -- the first is prepared, then launched while the second is prepared
  have hlaunch := hsecond.trans (Run.of_forall
    (show exec _ [.advance, .advance, .advance, .advance, .op, .advance, .op, .advance, .get none,
      .advance, .advance, .advance, .op, .advance, .op, .advance, .advance, .get none] _ = some _
      from rfl) (isolated_forall (by simp)))
  -- both copies and one kernel execute, and the copy back while the second is launched
  have hpost := hlaunch.trans (Run.of_forall
    (show exec _ [.exec ⟨1, by decide⟩, .exec ⟨0, by decide⟩, .exec ⟨0, by decide⟩, .advance,
      .advance, .op, .advance, .op, .advance, .advance, .advance, .get none, .advance,
      .exec ⟨0, by decide⟩] _ = some _ from rfl) (isolated_forall (by simp)))
  have hdone := hpost.trans (Run.of_forall
    (show exec _ [.op, .advance, .op, .advance, .advance, .advance, .advance, .get none] _ = some _
      from rfl) (isolated_forall (by simp)))
  exact ⟨_, _, hdone, rfl, rfl, rfl, requests_isolated Config.small_regions hdone rfl _ _ (by decide)⟩

end Gpu
end Kgpu
