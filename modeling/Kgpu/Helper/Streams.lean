-- SUMMARY: No two requests the helper holds ever share a CUDA stream, and no stream is lost.
import Kgpu.Helper.Lifecycle

/-!
# Streams

`kh_prepare_exec` takes a stream for a request and `kh_service_done` gives it back,
whichever way the request came to its end. `streamuses` therefore marks exactly
the streams of the requests that are held.
-/

namespace Kgpu

open Library

namespace ReqState

/-- The states before a stream is taken. -/
def Early (x : ReqState) : Prop := x = init ∨ x = memDone

/-- The states in which the GPU works for the request. -/
def Busy (x : ReqState) : Prop := x = prepared ∨ x = running ∨ x = postExec

end ReqState

namespace Helper

variable {c : Config} {s s' : Helper} {t : Token} {x : ReqState} {a : Answers}

/-- Only `kh_prepare_exec` gives a request another stream. -/
theorem runOp_streamId (hx : x ≠ .memDone) :
    ((s.runOp c x t a).2.sr t).streamId = (s.sr t).streamId := by
  have hcase : OpCase c s t a x (s.runOp c x t a) := runOp_case
  generalize s.runOp c x t a = r at hcase
  cases hcase with
  | noStream | prepared | prepareFailed => exact absurd rfl hx
  | allocRefused | allocated => simp [touch, Config.gpuAllocDeviceMem]
  | launched | launchFailed | executing | posted | postFailed | copying | finished => simp [touch]
  | answered => simp [touch, listDel, Config.gpuFreeDeviceMem]

/-- The streams in use are those of the requests held, one each. -/
structure Streamed (s : Helper) : Prop where
  range : ∀ t ∈ s.allReqs, (s.sr t).streamId = -1 ∨ ∃ i : Fin maxStreamNr, (s.sr t).streamId = i.val
  early : ∀ t ∈ s.allReqs, (s.sr t).state.Early → (s.sr t).streamId = -1
  busy : ∀ t ∈ s.allReqs, (s.sr t).state.Busy → (s.sr t).streamId ≠ -1
  uses : ∀ i, s.streamuses i = true ↔ ∃ t ∈ s.allReqs, (s.sr t).streamId = i.val
  once : ∀ t ∈ s.allReqs, ∀ t' ∈ s.allReqs, (s.sr t).streamId = (s.sr t').streamId →
    (s.sr t).streamId ≠ -1 → t = t'

namespace Streamed

/-- Steps that leave the streams alone and do not go back before the taking of one,
    or into the states in between. -/
theorem keep (h : s.Streamed) (hall : s'.allReqs = s.allReqs) (huses : s'.streamuses = s.streamuses)
    (hid : ∀ t, (s'.sr t).streamId = (s.sr t).streamId)
    (hstate : ∀ t ∈ s.allReqs, ((s'.sr t).state.Early → (s.sr t).state.Early) ∧
      ((s'.sr t).state.Busy → (s.sr t).state.Busy)) : s'.Streamed := by
  refine ⟨?_, ?_, ?_, ?_, ?_⟩
  · rw [hall]
    intro t ht
    rw [hid]
    exact h.range t ht
  · rw [hall]
    intro t ht he
    rw [hid]
    exact h.early t ht ((hstate t ht).1 he)
  · rw [hall]
    intro t ht hb
    rw [hid]
    exact h.busy t ht ((hstate t ht).2 hb)
  · intro i
    simp only [huses, hall, hid]
    exact h.uses i
  · simp only [hall, hid]
    exact h.once

/-- A request without a stream takes a free one. -/
theorem take (h : s.Streamed) {i : Fin maxStreamNr} (ht : t ∈ s.allReqs)
    (hnone : (s.sr t).streamId = -1) (hfree : s.streamuses i = false)
    (hall : s'.allReqs = s.allReqs) (huses : s'.streamuses = Function.update s.streamuses i true)
    (hsr : ∀ t', t' ≠ t → s'.sr t' = s.sr t') (hid : (s'.sr t).streamId = i.val)
    (hlate : ¬ (s'.sr t).state.Early) : s'.Streamed := by
  have hi : (i.val : Int) ≠ -1 := by omega
  have hunused : ∀ t' ∈ s.allReqs, (s.sr t').streamId ≠ i.val := by
    intro t' ht' he
    have htrue := (h.uses i).mpr ⟨t', ht', he⟩
    rw [hfree] at htrue
    cases htrue
  have hother : ∀ t', t' ≠ t → t' ∈ s.allReqs → (s'.sr t').streamId ≠ i.val := by
    intro t' hne ht'
    rw [hsr t' hne]
    exact hunused t' ht'
  refine ⟨?_, ?_, ?_, ?_, ?_⟩
  · rw [hall]
    intro t' ht'
    by_cases htt : t' = t
    · subst htt
      exact .inr ⟨i, hid⟩
    · rw [hsr t' htt]
      exact h.range t' ht'
  · rw [hall]
    intro t' ht' he
    by_cases htt : t' = t
    · subst htt
      exact absurd he hlate
    · rw [hsr t' htt] at he ⊢
      exact h.early t' ht' he
  · rw [hall]
    intro t' ht' hb
    by_cases htt : t' = t
    · subst htt
      rw [hid]
      exact hi
    · rw [hsr t' htt] at hb ⊢
      exact h.busy t' ht' hb
  · intro j
    rw [hall, huses]
    by_cases hj : j = i
    · subst hj
      simp only [Function.update_self, true_iff]
      exact ⟨t, ht, hid⟩
    · rw [Function.update_of_ne hj, h.uses]
      have hne : (i.val : Int) ≠ j.val := fun e => hj (Fin.ext (by omega))
      refine exists_congr fun t' => and_congr_right fun _ => ?_
      by_cases htt : t' = t
      · subst htt
        rw [hid, hnone]
        exact iff_of_false (by omega) hne
      · rw [hsr t' htt]
  · rw [hall]
    intro t₁ h₁ t₂ h₂ he hne
    by_cases ht₁ : t₁ = t
    · by_cases ht₂ : t₂ = t
      · rw [ht₁, ht₂]
      · subst ht₁
        exact absurd (he.symm.trans hid) (hother t₂ ht₂ h₂)
    · by_cases ht₂ : t₂ = t
      · subst ht₂
        exact absurd (he.trans hid) (hother t₁ ht₁ h₁)
      · rw [hsr t₁ ht₁] at he hne
        rw [hsr t₂ ht₂] at he
        exact h.once t₁ h₁ t₂ h₂ he hne

/-- An answered request gives its stream back. -/
theorem free (h : s.Streamed) (hnd : s.allReqs.Nodup) (ht : t ∈ s.allReqs)
    (hall : s'.allReqs = s.allReqs.erase t)
    (huses : s'.streamuses = gpuFreeStream s.streamuses (s.sr t))
    (hsr : ∀ t', t' ≠ t → s'.sr t' = s.sr t') : s'.Streamed := by
  have hmem : ∀ t', t' ∈ s'.allReqs → t' ≠ t ∧ t' ∈ s.allReqs := by
    intro t' ht'
    rw [hall, hnd.mem_erase_iff] at ht'
    exact ht'
  refine ⟨fun t' ht' => ?_, fun t' ht' he => ?_, fun t' ht' hb => ?_, fun i => ?_,
    fun t₁ h₁ t₂ h₂ he hne => ?_⟩
  · rw [hsr t' (hmem t' ht').1]
    exact h.range t' (hmem t' ht').2
  · rw [hsr t' (hmem t' ht').1] at he ⊢
    exact h.early t' (hmem t' ht').2 he
  · rw [hsr t' (hmem t' ht').1] at hb ⊢
    exact h.busy t' (hmem t' ht').2 hb
  · simp only [huses, gpuFreeStream]
    split
    next hi =>
      simp only [Bool.false_eq_true, false_iff, not_exists, not_and]
      intro t' ht' he
      rw [hsr t' (hmem t' ht').1] at he
      exact (hmem t' ht').1 (h.once t' (hmem t' ht').2 t ht (he.trans hi.symm) (by omega))
    next hi =>
      rw [h.uses]
      constructor
      · rintro ⟨t', ht', he⟩
        have hne : t' ≠ t := by
          rintro rfl
          exact hi he
        refine ⟨t', ?_, by rw [hsr t' hne]; exact he⟩
        rw [hall, hnd.mem_erase_iff]
        exact ⟨hne, ht'⟩
      · rintro ⟨t', ht', he⟩
        rw [hsr t' (hmem t' ht').1] at he
        exact ⟨t', (hmem t' ht').2, he⟩
  · obtain ⟨hne₁, hm₁⟩ := hmem t₁ h₁
    obtain ⟨hne₂, hm₂⟩ := hmem t₂ h₂
    rw [hsr t₁ hne₁] at he hne
    rw [hsr t₂ hne₂] at he
    exact h.once t₁ hm₁ t₂ hm₂ he hne

/-- A new request has no stream. -/
theorem add (h : s.Streamed) {n : Token} (hall : s'.allReqs = s.allReqs ++ [n])
    (hfresh : n ∉ s.allReqs) (huses : s'.streamuses = s.streamuses)
    (hsr : ∀ t', t' ≠ n → s'.sr t' = s.sr t') (hid : (s'.sr n).streamId = -1)
    (hidle : ¬ (s'.sr n).state.Busy) : s'.Streamed := by
  have hcases : ∀ t', t' ∈ s'.allReqs → (t' ∈ s.allReqs ∧ s'.sr t' = s.sr t') ∨ t' = n := by
    intro t' ht'
    rw [hall, List.mem_append, List.mem_singleton] at ht'
    by_cases htn : t' = n
    · exact .inr htn
    · exact .inl ⟨ht'.resolve_right htn, hsr t' htn⟩
  refine ⟨fun t' ht' => ?_, fun t' ht' he => ?_, fun t' ht' hb => ?_, fun i => ?_,
    fun t₁ h₁ t₂ h₂ he hne => ?_⟩
  · rcases hcases t' ht' with ⟨hm, hs⟩ | rfl
    · rw [hs]
      exact h.range t' hm
    · exact .inl hid
  · rcases hcases t' ht' with ⟨hm, hs⟩ | rfl
    · rw [hs] at he ⊢
      exact h.early t' hm he
    · exact hid
  · rcases hcases t' ht' with ⟨hm, hs⟩ | rfl
    · rw [hs] at hb ⊢
      exact h.busy t' hm hb
    · exact absurd hb hidle
  · rw [huses, h.uses]
    constructor
    · rintro ⟨t', ht', he⟩
      have htn : t' ≠ n := fun e => hfresh (e ▸ ht')
      refine ⟨t', ?_, by rw [hsr t' htn]; exact he⟩
      rw [hall]
      exact List.mem_append_left _ ht'
    · rintro ⟨t', ht', he⟩
      rcases hcases t' ht' with ⟨hm, hs⟩ | rfl
      · rw [hs] at he
        exact ⟨t', hm, he⟩
      · rw [hid] at he
        omega
  · rcases hcases t₁ h₁ with ⟨hm₁, hs₁⟩ | rfl
    · rcases hcases t₂ h₂ with ⟨hm₂, hs₂⟩ | rfl
      · rw [hs₁] at he hne
        rw [hs₂] at he
        exact h.once t₁ hm₁ t₂ hm₂ he hne
      · exact absurd (he.trans hid) hne
    · exact absurd hid hne

/-- Only the states of one item change, and its stream does not. -/
theorem keep_one (h : s.Streamed) (hall : s'.allReqs = s.allReqs)
    (huses : s'.streamuses = s.streamuses) (hsr : ∀ t', t' ≠ t → s'.sr t' = s.sr t')
    (hid : (s'.sr t).streamId = (s.sr t).streamId)
    (hearly : (s'.sr t).state.Early → (s.sr t).state.Early)
    (hbusy : (s'.sr t).state.Busy → (s.sr t).state.Busy) : s'.Streamed := by
  refine h.keep hall huses (fun t' => ?_) (fun t' _ => ?_)
  · by_cases htt : t' = t
    · rw [htt, hid]
    · rw [hsr t' htt]
  · by_cases htt : t' = t
    · rw [htt]
      exact ⟨hearly, hbusy⟩
    · rw [hsr t' htt]
      exact ⟨id, id⟩

theorem runOp (h : s.Streamed) (hl : s.Listed) (ht : t ∈ s.q x) :
    (s.runOp c x t a).2.Streamed := by
  obtain ⟨htall, hx⟩ := (hl.mem_iff t x).mp ht
  have hsr : ∀ t', t' ≠ t → (s.runOp c x t a).2.sr t' = s.sr t' := fun t' hne => (runOp_other hne).1
  have hcase : OpCase c s t a x (s.runOp c x t a) := runOp_case
  generalize s.runOp c x t a = r at hcase hsr
  cases hcase with
  | allocRefused | noStream | executing | copying =>
    refine h.keep_one (t := t) rfl rfl hsr ?_ ?_ ?_ <;> simp [touch, Config.gpuAllocDeviceMem]
  | allocated =>
    refine h.keep_one (t := t) rfl rfl hsr ?_ ?_ ?_ <;>
      simp [touch, Config.gpuAllocDeviceMem, hx, ReqState.Early, ReqState.Busy]
  | launched | launchFailed | posted | postFailed | finished =>
    refine h.keep_one (t := t) rfl rfl hsr ?_ ?_ ?_ <;>
      simp [touch, hx, ReqState.Early, ReqState.Busy]
  | prepared i hi | prepareFailed i hi =>
    have hnone := h.early t htall (.inr hx)
    refine h.take htall hnone hi rfl rfl hsr ?_ ?_ <;> simp [touch, ReqState.Early]
  | answered => exact h.free hl.nodup_all htall rfl rfl hsr

theorem khInitServiceRequest (h : s.Streamed) (hl : s.Listed) (kureq : KuRequest) :
    (s.khInitServiceRequest c kureq).Streamed := by
  obtain ⟨hall, -, huses, -⟩ := khInitServiceRequest_frame (c := c) (s := s) kureq
  have hfresh : s.next ∉ s.allReqs := fun hmem => Nat.lt_irrefl _ (hl.lt_next _ hmem)
  have hsr : ∀ t', t' ≠ s.next → (s.khInitServiceRequest c kureq).sr t' = s.sr t' :=
    fun t' hne => (khInitServiceRequest_other kureq hne).1
  rcases khInitServiceRequest_new (c := c) (s := s) kureq with ⟨-, hnew, -⟩ | ⟨p, -, hnew, -⟩
  · refine h.add hall hfresh huses hsr ?_ ?_ <;>
      simp [hnew, Config.ofKuRequest, ReqState.Busy]
  · refine h.add hall hfresh huses hsr ?_ ?_ <;>
      simp [hnew, Config.ofKuRequest, ReqState.Busy]

/-- The requests the GPU works for have different streams, so there are no more of
    them than streams. -/
theorem busy_length_le (h : s.Streamed) (hl : s.Listed) :
    (s.q .prepared ++ s.q .running ++ s.q .postExec).length ≤ maxStreamNr := by
  have hmem : ∀ t ∈ s.q .prepared ++ s.q .running ++ s.q .postExec,
      t ∈ s.allReqs ∧ (s.sr t).state.Busy := by
    intro t ht
    simp only [List.mem_append, hl.mem_iff] at ht
    unfold ReqState.Busy
    tauto
  have hnd : (s.q .prepared ++ s.q .running ++ s.q .postExec).Nodup := by
    simp only [List.nodup_append, hl.nodup, true_and, List.mem_append, hl.mem_iff]
    grind
  have hinj : ((s.q .prepared ++ s.q .running ++ s.q .postExec).map
      fun t => (s.sr t).streamId.toNat).Nodup := by
    refine List.Nodup.map_on (fun t₁ h₁ t₂ h₂ he => ?_) hnd
    obtain ⟨hm₁, hb₁⟩ := hmem t₁ h₁
    obtain ⟨hm₂, hb₂⟩ := hmem t₂ h₂
    obtain ⟨i, hi⟩ := (h.range t₁ hm₁).resolve_left (h.busy t₁ hm₁ hb₁)
    obtain ⟨j, hj⟩ := (h.range t₂ hm₂).resolve_left (h.busy t₂ hm₂ hb₂)
    exact h.once t₁ hm₁ t₂ hm₂ (by omega) (h.busy t₁ hm₁ hb₁)
  have hsub : ((s.q .prepared ++ s.q .running ++ s.q .postExec).map
      fun t => (s.sr t).streamId.toNat) ⊆ List.range maxStreamNr := by
    intro n hn
    obtain ⟨t, ht, rfl⟩ := List.mem_map.mp hn
    obtain ⟨hm, hb⟩ := hmem t ht
    obtain ⟨i, hi⟩ := (h.range t hm).resolve_left (h.busy t hm hb)
    rw [List.mem_range, hi]
    exact i.isLt
  have hle := (List.subperm_of_subset hinj hsub).length_le
  rwa [List.length_map, List.length_range] at hle

end Streamed

theorem streamed_of_run {ok : Helper → HelperStep → Prop} {sr : Token → ServiceRequest}
    {ls : List HelperStep} (hrun : Run (Helper.step c) ok (init sr) ls s) :
    s.Listed ∧ s.Walking ∧ s.Streamed := by
  refine Listed.invariant hrun ?_ ?_ ?_ ?_
  · constructor <;> simp [init]
  · exact fun s pc h => ⟨h.range, h.early, h.busy, h.uses, h.once⟩
  · exact fun s x t rest a hl _ ht _ h => h.runOp hl ht
  · exact fun s kureq hl _ _ h => h.khInitServiceRequest hl kureq

/-- In every state the main loop reaches, a stream is in use exactly when one of the
    requests held has it, no two have the same, those the GPU works for have one
    and those before have none, and without requests every stream is free. -/
theorem streams_exclusive {sr : Token → ServiceRequest} {ls : List HelperStep}
    (hrun : Run (Helper.step c) Free (init sr) ls s) :
    (∀ i, s.streamuses i = true ↔ ∃! t, t ∈ s.allReqs ∧ (s.sr t).streamId = i.val) ∧
    (∀ t ∈ s.allReqs, ∀ t' ∈ s.allReqs, 0 ≤ (s.sr t).streamId →
      (s.sr t).streamId = (s.sr t').streamId → t = t') ∧
    (∀ t, t ∈ s.q .prepared ∨ t ∈ s.q .running ∨ t ∈ s.q .postExec →
      0 ≤ (s.sr t).streamId ∧ (s.sr t).streamId < maxStreamNr) ∧
    (s.q .prepared).length + (s.q .running).length + (s.q .postExec).length ≤ maxStreamNr ∧
    (∀ t, t ∈ s.q .init ∨ t ∈ s.q .memDone → (s.sr t).streamId = -1) ∧
    (s.allReqs = [] → ∀ i, s.streamuses i = false) := by
  obtain ⟨hl, -, h⟩ := streamed_of_run hrun
  refine ⟨fun i => ?_, fun t ht t' ht' hpos he => ?_, fun t ht => ?_, ?_, fun t ht => ?_,
    fun hnil i => ?_⟩
  · rw [h.uses]
    constructor
    · rintro ⟨t, ht, he⟩
      refine ⟨t, ⟨ht, he⟩, fun t' ht' => ?_⟩
      exact h.once t' ht'.1 t ht (ht'.2.trans he.symm) (by omega)
    · rintro ⟨t, ⟨ht, he⟩, -⟩
      exact ⟨t, ht, he⟩
  · exact h.once t ht t' ht' he (by omega)
  · simp only [hl.mem_iff] at ht
    have hm : t ∈ s.allReqs := by tauto
    have hb : (s.sr t).state.Busy := by
      unfold ReqState.Busy
      tauto
    obtain ⟨i, hi⟩ := (h.range t hm).resolve_left (h.busy t hm hb)
    rw [hi]
    exact ⟨Int.natCast_nonneg _, Int.ofNat_lt.mpr i.isLt⟩
  · simpa [Nat.add_assoc] using h.busy_length_le hl
  · simp only [hl.mem_iff] at ht
    rcases ht with ⟨hm, hs⟩ | ⟨hm, hs⟩
    · exact h.early t hm (.inl hs)
    · exact h.early t hm (.inr hs)
  · refine Bool.eq_false_iff.mpr fun htrue => ?_
    obtain ⟨t, ht, -⟩ := (h.uses i).mp htrue
    rw [hnil] at ht
    cases ht

/-- Two requests are read and given their memory; the older takes a stream and is
    launched, the newer takes one as well. -/
def twoPreparedSteps : List HelperStep :=
  List.flatten [
    List.replicate 6 .advance,
    [.get (some ⟨7, Vector.replicate 32 65, 0x2000000, 0x2001000, 0, 8, 8, 0⟩)],
    turnAt 5 ⟨0, 0, 0, 0, false, false⟩
      (some ⟨8, Vector.replicate 32 65, 0x2002000, 0x2003000, 0, 8, 8, 0⟩),
    List.replicate 4 .advance,
    [.op ⟨0, 0, 0, 0, false, false⟩, .advance, .op ⟨0, 0, 0, 0, false, false⟩, .advance,
      .get none],
    List.replicate 3 .advance,
    [.op ⟨0, 0, 0, 0, false, false⟩, .advance, .op ⟨0, 0, 0, 0, false, false⟩]]

def twoPrepared : Helper := (exec (step .small) twoPreparedSteps (init default)).get rfl

/-- The running request has stream 0 for itself, the prepared one stream 1. -/
theorem streams_exclusive_two_requests :
    Run (Helper.step .small) Free (init default) twoPreparedSteps twoPrepared ∧
      twoPrepared.q .running = [0] ∧ twoPrepared.q .prepared = [1] ∧
      (twoPrepared.sr 0).streamId = 0 ∧ (twoPrepared.sr 1).streamId = 1 ∧
      (∃! t, t ∈ twoPrepared.allReqs ∧ (twoPrepared.sr t).streamId = 0) ∧
      (∃! t, t ∈ twoPrepared.allReqs ∧ (twoPrepared.sr t).streamId = 1) ∧
      twoPrepared.streamuses ⟨2, by decide⟩ = false := by
  have hrun : Run (Helper.step .small) Free (init default) twoPreparedSteps twoPrepared :=
    Run.of_exec rfl
  have huses := (streams_exclusive hrun).1
  exact ⟨hrun, rfl, rfl, rfl, rfl, (huses ⟨0, by decide⟩).mp rfl, (huses ⟨1, by decide⟩).mp rfl,
    rfl⟩

end Helper
end Kgpu
