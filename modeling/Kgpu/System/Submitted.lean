-- SUMMARY: The result of a request is that of the memory at the time when its client submitted it.
import Kgpu.System.Delivery

/-!
# From the submission to the result

Between the submission of a request and the time when the helper sets it up, other
requests are worked on and the clients go on. The bytes of the request stay as they were
all that time, so that what its service computes is the result for what the client had put
there when it submitted the request.
-/

namespace Kgpu

open Library

variable {T : Type} [DecidableEq T]

namespace Calls

variable {s s' : Calls T}

end Calls

namespace System

variable {c : Config} {s s' : System T}

/-- An item in flight stays there until `kgpu_write` completes it. -/
theorem step_pending (hj : s.Joined) {l : SysStep T} (hs : s.step c l = some s')
    {item : RequestItem} (hi : item ∈ s.calls.pending) :
    item ∈ s'.calls.pending ∨ ∃ n resp, s.calls.dev = .writing item n resp := by
  cases step_case hs with
  | client hkind hk =>
    obtain ⟨-, -, hsame | ⟨t, r, -, -, hp⟩⟩ := Calls.step_client_pending hkind hk
    · exact .inl (hsame ▸ hi)
    · exact .inl (hp.mem_iff.mpr (List.mem_cons_of_mem _ hi))
  | op | advance | getNone | initRequest => exact .inl hi
  | read _ _ hk =>
    obtain ⟨hdev, first, rest, hreqs, rfl⟩ := Calls.step_readTake hk
    simp only [Calls.pending, hdev, hreqs, DevPc.held, List.nil_append] at hi ⊢
    exact .inl (List.perm_middle.mem_iff.mpr hi)
  | readReturn hpc hdev hk =>
    obtain ⟨_, _, hdev', -⟩ := hj.at_reading hpc
    cases hdev.symm.trans hdev'
    cases Calls.step_readRetire (by decide) hdev hk
    simp only [Calls.pending, hdev, DevPc.held, List.nil_append] at hi ⊢
    exact .inl ((List.perm_append_comm.append_left _).mem_iff.mp hi)
  | send _ _ hk =>
    obtain ⟨hdev, ⟨-, rfl⟩ | ⟨found, hmem, -, rfl⟩⟩ := Calls.step_writeFind hk
    · exact .inl hi
    · simp only [Calls.pending, hdev, DevPc.held, List.nil_append] at hi ⊢
      exact .inl (((List.perm_cons_erase hmem).append_left _).mem_iff.mp hi)
  | writeReturn hpc hk =>
    obtain ⟨found, t, rest, hdev, -⟩ := hj.at_writing hpc
    obtain ⟨hreqs, hrtd, -, hidle, -⟩ := Calls.step_writeComplete hdev hk
    simp only [Calls.pending, hdev, DevPc.held, List.mem_append, List.mem_singleton] at hi
    rcases hi with hi | rfl | hi
    · refine .inl (List.mem_append_left _ ?_)
      rw [hreqs]
      exact hi
    · exact .inr ⟨_, _, hdev⟩
    · refine .inl (List.mem_append_right _ (List.mem_append_right _ ?_))
      rw [hrtd]
      exact hi

end System

namespace Whole

variable {c : Config} {k : Kernels} {s s' : Whole T} {item : RequestItem} {q : KuRequest}
  {host : Memory}

/-- The item is in flight and not set up by the helper, and the bytes of its request are as
    they were. -/
structure Untouched (c : Config) (item : RequestItem) (q : KuRequest) (host : Memory)
    (s : Whole T) : Prop where
  pending : item ∈ s.sys.calls.pending
  asked : s.sys.calls.asked item.r = q
  unread : ∀ t < s.sys.helper.next, s.sys.calls.handed[t]? ≠ some item
  kept : ∀ x, (c.ofKuRequest q).Own x → s.host x = host x

/-- The helper has set the request of the item up when its bytes were as they had been. -/
def Received (c : Config) (item : RequestItem) (q : KuRequest) (host : Memory)
    (s : Whole T) : Prop :=
  ∃ t < s.sys.helper.next, s.sys.calls.handed[t]? = some item ∧ (s.seen t).1 = q ∧
    ∀ x, (c.ofKuRequest q).Own x → (s.seen t).2 x = host x

theorem step_seen {l : WholeStep T} (hs : s.step c k l = some s') :
    (s'.sys.helper.next = s.sys.helper.next ∧ s'.seen = s.seen) ∨
    (s'.sys.helper.next = s.sys.helper.next + 1 ∧ s'.sys.calls = s.sys.calls ∧
      s'.host = s.host ∧ ∃ kureq, s.sys.pc = .hasRead kureq ∧
        s'.seen = Function.update s.seen s.sys.helper.next (kureq, s.host)) := by
  cases step_case hs with
  | sys hplain hsys =>
    refine .inl ⟨?_, rfl⟩
    cases System.step_case hsys with
    | op | initRequest => cases hplain
    | client | read | readReturn | send | writeReturn => rfl
    | advance _ hh =>
      obtain ⟨x, pc, -, rfl, -⟩ := Helper.step_advance_inv hh
      rfl
    | getNone _ hh =>
      obtain ⟨-, rfl⟩ := Helper.step_get_inv hh
      rfl
  | op _ hsys =>
    refine .inl ⟨?_, rfl⟩
    cases System.step_case hsys with
    | op _ hh =>
      obtain ⟨x, t, rest, -, rfl⟩ := Helper.step_op_inv hh
      exact Helper.runOp_next
  | initRequest hpc hsys =>
    cases System.step_case hsys with
    | initRequest hpc' hh =>
      cases hpc.symm.trans hpc'
      obtain ⟨-, rfl⟩ := Helper.step_get_inv hh
      exact .inr ⟨(Helper.khInitServiceRequest_frame _).2.1, rfl, rfl, _, hpc, rfl⟩
  | exec | hostWrite => exact .inl ⟨rfl, rfl⟩

/-- What the helper has seen stays. -/
theorem Received.step (h : s.Received c item q host) {l : WholeStep T}
    (hs : s.step c k l = some s') : s'.Received c item q host := by
  obtain ⟨t, ht, hat, hq, hkept⟩ := h
  obtain ⟨_, hand, _, -, hhanded, -⟩ := step_grows hs
  have hat' : s'.sys.calls.handed[t]? = some item := by
    rw [hhanded, List.getElem?_append_left (List.getElem?_eq_some_iff.mp hat).1]
    exact hat
  rcases step_seen hs with ⟨hnext, hseen⟩ | ⟨hnext, -, -, kureq, -, hseen⟩
  · exact ⟨t, hnext ▸ ht, hat', hseen ▸ hq, hseen ▸ hkept⟩
  · have hold : s'.seen t = s.seen t := by
      rw [hseen]
      exact Function.update_of_ne (Nat.ne_of_lt ht) _ _
    exact ⟨t, hnext ▸ Nat.lt_succ_of_lt ht, hat', hold ▸ hq, hold ▸ hkept⟩

/-! ## What a step does to the bytes of a request -/

namespace Untouched

omit [DecidableEq T] in
/-- The device does not have it for completion, because the helper has not set it up. -/
theorem not_writing (h : s.Untouched c item q host) (hserv : s.Serving c) (hj : s.sys.Joined)
    (hl : s.sys.helper.Listed) (hw : s.sys.helper.Walking) (n : UL) (resp : KuResponse) :
    s.sys.calls.dev ≠ .writing item n resp := by
  intro hdev
  cases hj with
  | writing item' t rest _ hdev' hdone _ =>
    cases hdev.symm.trans hdev'
    have ht := ((hl.mem_iff t .done).mp ((hw .done _ hdone).2 t List.mem_cons_self)).1
    exact h.unread t (hl.lt_next t ht) (hserv.writing item _ _ hdev t rest hdone)
  | user _ hidle | hasRead _ _ hidle | wrote _ _ _ hidle =>
    rw [hidle] at hdev
    cases hdev
  | reading _ _ _ hreading =>
    rw [hreading] at hdev
    cases hdev

/-- The GPU writes bytes of the requests that the helper has set up, and nobody else writes
    the bytes of a request in flight. -/
theorem step_host (h : s.Untouched c item q host) (hc : c.Regions) (hgood : s.Good c k)
    (hj : s.sys.Joined) (hl : s.sys.helper.Listed) (hst : (s.view c).helper.Streamed)
    {l : WholeStep T} (hok : s.Orderly c l) (hs : s.step c k l = some s') {x : Nat}
    (hx : (c.ofKuRequest q).Own x) : s'.host x = s.host x := by
  have hmem : q ∈ s.sys.calls.asks := h.asked ▸ Calls.asked_mem h.pending
  cases step_case hs with
  | sys | op | initRequest => rfl
  | exec hf =>
    refine hgood.gpuInv.exec_host hc hst hf
      ((hgood.serving.apart.contained q hmem).hostByte hx) fun t ht => ?_
    obtain ⟨item', hi', hat', hq'⟩ := hgood.serving.view_held hj hl ht
    have hne : item ≠ item' := by
      rintro rfl
      exact h.unread t (hl.lt_next t (view_mem hj hl ht).1) hat'
    have hsep := (Calls.unrelated_of_ne hgood.serving.apart h.pending hi' hne).2 x
    rw [hgood.own_of_view ht]
    change ¬ (c.ofKuRequest (s.seen t).1).Own x
    rw [hq']
    exact fun hx' => hsep ⟨h.asked ▸ hx, hx'⟩
  | @hostWrite y v =>
    have hne : x ≠ y := by
      rintro rfl
      exact hok q hmem hx
    exact Function.update_of_ne hne v s.host

theorem step (h : s.Untouched c item q host) (hc : c.Regions) (hgood : s.Good c k)
    (ha : s.sys.Agreed) (hl : s.sys.helper.Listed) (hw : s.sys.helper.Walking)
    (hst : (s.view c).helper.Streamed) {l : WholeStep T} (hok : s.Orderly c l)
    (hs : s.step c k l = some s') :
    s'.Untouched c item q host ∨ s'.Received c item q host := by
  have hpending : item ∈ s'.sys.calls.pending := by
    rcases step_sys hs with heq | ⟨l', hsys, -⟩
    · rw [heq]
      exact h.pending
    · refine (System.step_pending ha.joined hsys h.pending).resolve_right ?_
      rintro ⟨n, resp, hdev⟩
      exact h.not_writing hgood.serving ha.joined hl hw n resp hdev
  have hasked : s'.sys.calls.asked item.r = q := by
    rw [← h.asked]
    rcases step_calls hs with heq | ⟨lc, hk, hclient⟩
    · rw [heq]
    · refine Calls.step_asked hk fun r' heq => ?_
      subst heq
      cases hclient (by simp [CallStep.kind])
      exact hok (List.mem_map.mpr ⟨item, h.pending, rfl⟩)
  have hkept : ∀ x, (c.ofKuRequest q).Own x → s'.host x = host x := fun x hx =>
    (h.step_host hc hgood ha.joined hl hst hok hs hx).trans (h.kept x hx)
  rcases step_seen hs with ⟨hnext, -⟩ | ⟨hnext, hcalls, -, kureq, hpc, hseen⟩
  · refine .inl ⟨hpending, hasked, fun t ht => ?_, hkept⟩
    rw [hnext] at ht
    obtain ⟨_, hand, _, -, hhanded, -⟩ := step_grows hs
    have hlen : s.sys.helper.next ≤ s.sys.calls.handed.length := by
      rw [hgood.serving.count]
      exact Nat.le_add_right _ _
    rw [hhanded, List.getElem?_append_left (Nat.lt_of_lt_of_le ht hlen)]
    exact h.unread t ht
  · obtain ⟨item', hi', hat', hq'⟩ := hgood.serving.hasRead kureq hpc
    by_cases heq : item' = item
    · subst heq
      have hself : s'.seen s.sys.helper.next = (kureq, s.host) := by
        rw [hseen]
        exact Function.update_self ..
      refine .inr ⟨s.sys.helper.next, hnext ▸ Nat.lt_succ_self _, hcalls ▸ hat', ?_, ?_⟩
      · rw [hself]
        exact hq'.trans h.asked
      · rw [hself]
        exact h.kept
    · refine .inl ⟨hpending, hasked, fun t ht hat => ?_, hkept⟩
      rw [hnext] at ht
      rw [hcalls] at hat
      rcases Nat.lt_succ_iff_lt_or_eq.mp ht with hlt | rfl
      · exact h.unread t hlt hat
      · exact heq (Option.some.inj (hat'.symm.trans hat))

end Untouched

/-! ## Runs -/

end Whole
end Kgpu
