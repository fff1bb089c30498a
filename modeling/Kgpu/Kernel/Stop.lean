-- SUMMARY: `KGPU_IOC_SET_STOP` against calls under way: what is queued and what is returned after the stop.
import Kgpu.Kernel.Submissions

/-!
# Stopping the device

`terminate_all_requests` sets `kgpudev.state` and does nothing else. A call
tests the state once, without the lock, and then allocates what it needs before
it appends to `reqs`. A stop is therefore final for the calls that come after
it, and too late for those that stand between their test and their append.
-/

namespace Kgpu

open Library

variable {T : Type} [DecidableEq T]

/-- The call has passed the test of the state and has not appended its item. -/
def CallPc.Inside : CallPc → Prop
  | asyncTested _ | asyncItem _ | syncTested _ | syncData .. | syncItem .. | swapped .. => True
  | idle | waiting .. | woken .. => False

instance : DecidablePred CallPc.Inside
  | .asyncTested _ | .asyncItem _ | .syncTested _ | .syncData .. | .syncItem .. | .swapped .. =>
    isTrue trivial
  | .idle | .waiting .. | .woken .. => isFalse id

namespace Calls

variable {s s' : Calls T}

/-- The state that `KGPU_IOC_SET_STOP` leaves. -/
def stopped (s : Calls T) : Calls T := { s with kernel := { s.kernel with terminated := true } }

theorem step_setStop : s.step .setStop = some s.stopped := rfl

/-- No call is between its test of the state and its append. -/
def Quiet (s : Calls T) : Prop := ∀ t, ¬ (s.pc t).Inside

/-- What the calls of `t` returned that had not appended when the stop was made in
    `s`, among the returns `new` that came after it. A call that waited then has
    appended, and its return is the first one. -/
def lateCodes (s : Calls T) (t : T) (new : List (T × Int)) : List Int :=
  let codes := (new.filter fun e => e.1 = t).map (·.2)
  if (s.pc t).submitted.isSome then codes.tail else codes

/-- What a stop made in `s` is to guarantee of every state reached after it: no item
    has been appended since, the calls that had not appended by then have returned
    `KGPU_TERMINATED` if they have returned, and calls that are made later do so at
    once. -/
structure FinalStop (s : Calls T) : Prop where
  accepted : ∀ ls s', Run step Free s.stopped ls s' → s'.accepted = s.accepted
  reqs : ∀ ls s', Run step Free s.stopped ls s' → s'.kernel.reqs <:+ s.kernel.reqs
  codes : ∀ ls s', Run step Free s.stopped ls s' →
    ∃ new, s'.returned = s.returned ++ new ∧ ∀ t, ∀ c ∈ s.lateCodes t new, c = kgpuTerminated
  calls : ∀ ls s', Run step Free s.stopped ls s' → ∀ t, s'.pc t = .idle → ∀ r,
    s'.step (.callAsync t r) = some (s'.ret t kgpuTerminated) ∧
      s'.step (.callSync t r) = some (s'.ret t kgpuTerminated)

/-! ## The state stays terminated -/

/-- A call made when the device is terminated returns at its first test. -/
theorem enter_terminated {t : T} {pc : CallPc} (hterm : s.kernel.terminated = true)
    (hidle : s.pc t = .idle) : s.enter t pc = some (s.ret t kgpuTerminated) := by
  simp [enter, hidle, hterm]

/-- No step sets `kgpudev.state` back. -/
theorem step_terminated {l : CallStep T} (hs : s.step l = some s')
    (hterm : s.kernel.terminated = true) : s'.kernel.terminated = true := by
  cases step_case hs with
  | asyncEntered hs | syncEntered hs =>
    rw [enter_kernel hs]
    exact hterm
  | stopped => rfl
  | gotData | noData | asyncGotItem | asyncNoItem | syncGotItem | syncNoItem | swapped
  | asyncAppended | syncAppended | woken | signalled | finished | taken | retired | tooShort
  | unknown | found | completed | edited => exact hterm

theorem terminated_of_run {ls : List (CallStep T)} (hrun : Run step Free s.stopped ls s') :
    s'.kernel.terminated = true := by
  apply hrun.invariant (I := fun s => s.kernel.terminated = true) rfl
  intro s l s' hterm _ hs
  exact step_terminated hs hterm

/-! ## After a stop with no call inside -/

/-- What a step can do when the device is terminated and no call is inside. -/
inductive ClosedCase (s s' : Calls T) : Prop where
  /-- A call is turned away. -/
  | refused (t : T) : s.pc t = .idle → s' = s.ret t kgpuTerminated → ClosedCase s s'
  /-- A call that was submitted returns. -/
  | finished (t : T) : (s.pc t).submitted.isSome → s'.pc = Function.update s.pc t .idle →
      s'.returned = s.returned ++ [(t, 0)] → s'.accepted = s.accepted →
      s'.kernel.reqs = s.kernel.reqs → ClosedCase s s'
  /-- A wait ends. -/
  | moved (t : T) (pc : CallPc) : (s.pc t).submitted.isSome → pc.submitted.isSome →
      s' = s.goto t pc → ClosedCase s s'
  /-- The device, an ioctl or an edit. -/
  | other : s'.pc = s.pc → s'.returned = s.returned → s'.accepted = s.accepted →
      s'.kernel.reqs <:+ s.kernel.reqs → ClosedCase s s'

theorem closed_case {l : CallStep T} (hs : s.step l = some s')
    (hterm : s.kernel.terminated = true) (hquiet : s.Quiet) : ClosedCase s s' := by
  have hrefused {t : T} {pc : CallPc} (hs : s.enter t pc = some s') : ClosedCase s s' := by
    cases hpc : s.pc t with
    | idle =>
      rw [enter_terminated hterm hpc] at hs
      exact .refused t hpc (Option.some.inj hs).symm
    | _ => simp [enter, hpc] at hs
  -- The statements between the test and the append belong to a call that is inside.
  have hinside {t : T} {pc : CallPc} (hpc : s.pc t = pc) (hin : pc.Inside) : ClosedCase s s' :=
    absurd (hpc ▸ hin) (hquiet t)
  cases step_case hs with
  | asyncEntered hs | syncEntered hs => exact hrefused hs
  | gotData hpc | noData hpc | asyncGotItem hpc | asyncNoItem hpc | syncGotItem hpc
  | syncNoItem hpc | swapped hpc | asyncAppended hpc | syncAppended hpc =>
    exact hinside hpc trivial
  | woken hpc | signalled hpc =>
    exact .moved _ _ (by rw [hpc]; rfl) rfl rfl
  | finished hpc => exact .finished _ (by rw [hpc]; rfl) rfl rfl rfl rfl
  | taken _ hreqs => exact .other rfl rfl rfl ⟨[_], hreqs.symm⟩
  | retired | tooShort | unknown | found | completed | stopped | edited =>
    exact .other rfl rfl rfl (List.suffix_refl _)

/-- A terminated device with no call inside, as seen from the stop made in `s₀`. -/
structure Closed (s₀ s : Calls T) : Prop where
  terminated : s.kernel.terminated = true
  quiet : s.Quiet
  accepted : s.accepted = s₀.accepted
  reqs : s.kernel.reqs <:+ s₀.kernel.reqs
  codes : ∃ new, s.returned = s₀.returned ++ new ∧
    ∀ t, (∀ c ∈ s₀.lateCodes t new, c = kgpuTerminated) ∧
      -- A call that still waits is the one that waited at the stop.
      ((s.pc t).submitted.isSome →
        (s₀.pc t).submitted.isSome ∧ new.filter (fun e => e.1 = t) = [])

/-- A return of another thread does not count. -/
theorem lateCodes_other {t t' : T} {new : List (T × Int)} {c : Int} (hne : t' ≠ t) :
    s.lateCodes t (new ++ [(t', c)]) = s.lateCodes t new := by
  simp [lateCodes, List.filter_append, hne]

/-- A return of the thread is added to those that count, or is that of the call that
    waited at the stop. -/
theorem mem_lateCodes_self {t : T} {new : List (T × Int)} {c c' : Int}
    (h : c' ∈ s.lateCodes t (new ++ [(t, c)])) : c' ∈ s.lateCodes t new ∨ c' = c := by
  have hcodes : ((new ++ [(t, c)]).filter fun e => e.1 = t).map (·.2) =
      (new.filter fun e => e.1 = t).map (·.2) ++ [c] := by
    simp [List.filter_append]
  unfold lateCodes at h ⊢
  rw [hcodes] at h
  split at h
  next hsub =>
    rw [if_pos hsub]
    cases hold : (new.filter fun e => e.1 = t).map (·.2) with
    | nil => simp [hold] at h
    | cons c₀ rest => simpa [hold] using h
  next hsub =>
    rw [if_neg hsub]
    simpa using h

/-- The first return of a call that waited at the stop does not count. -/
theorem lateCodes_first {t : T} {new : List (T × Int)} {c : Int}
    (hsub : (s.pc t).submitted.isSome) (hnew : new.filter (fun e => e.1 = t) = []) :
    s.lateCodes t (new ++ [(t, c)]) = [] := by
  simp [lateCodes, hsub, List.filter_append, hnew]

namespace Closed

variable {s₀ : Calls T}

theorem stopped (hquiet : s₀.Quiet) : Closed s₀ s₀.stopped where
  terminated := rfl
  quiet := hquiet
  accepted := rfl
  reqs := List.suffix_refl _
  codes := by
    refine ⟨[], (List.append_nil _).symm, fun t => ⟨?_, fun hsub => ⟨hsub, rfl⟩⟩⟩
    simp [lateCodes]

/-- What is returned to a thread that becomes idle, when it is `KGPU_TERMINATED` or the
    thread was in a submitted call. -/
theorem returned (h : Closed s₀ s) {t : T} {c : Int} (hpc : s'.pc = Function.update s.pc t .idle)
    (hret : s'.returned = s.returned ++ [(t, c)])
    (hc : c = kgpuTerminated ∨ (s.pc t).submitted.isSome) :
    ∃ new, s'.returned = s₀.returned ++ new ∧
      ∀ t, (∀ c ∈ s₀.lateCodes t new, c = kgpuTerminated) ∧
        ((s'.pc t).submitted.isSome →
          (s₀.pc t).submitted.isSome ∧ new.filter (fun e => e.1 = t) = []) := by
  obtain ⟨new, heq, hnew⟩ := h.codes
  refine ⟨new ++ [(t, c)], by rw [hret, heq, List.append_assoc], fun t' => ?_⟩
  obtain ⟨hlate, hwait⟩ := hnew t'
  rw [hpc]
  by_cases ht : t' = t
  · subst ht
    refine ⟨fun c' hc' => ?_, fun hsub => by simp [CallPc.submitted] at hsub⟩
    rcases hc with rfl | hsub
    · rcases mem_lateCodes_self hc' with hold | rfl
      · exact hlate c' hold
      · rfl
    · obtain ⟨hsub₀, hnone⟩ := hwait hsub
      rw [lateCodes_first hsub₀ hnone] at hc'
      cases hc'
  · rw [lateCodes_other (Ne.symm ht), Function.update_of_ne ht]
    refine ⟨hlate, fun hsub => ⟨(hwait hsub).1, ?_⟩⟩
    rw [List.filter_append, (hwait hsub).2]
    simp [Ne.symm ht]

/-- A thread that gets a new place which is not inside leaves no call inside. -/
theorem quiet_update (h : s.Quiet) {t : T} {pc : CallPc} (hpc : s'.pc = Function.update s.pc t pc)
    (hout : ¬ pc.Inside) : s'.Quiet := by
  intro t'
  rw [hpc]
  by_cases ht : t' = t
  · subst ht
    simpa using hout
  · rw [Function.update_of_ne ht]
    exact h t'

theorem step (h : Closed s₀ s) {l : CallStep T} (hs : s.step l = some s') : Closed s₀ s' := by
  have hterm : s'.kernel.terminated = true := step_terminated hs h.terminated
  cases closed_case hs h.terminated h.quiet with
  | refused t hidle heq =>
    subst heq
    exact ⟨hterm, quiet_update h.quiet rfl id, h.accepted, h.reqs, h.returned rfl rfl (.inl rfl)⟩
  | finished t hsub hpc hret hacc hreqs =>
    exact ⟨hterm, quiet_update h.quiet hpc id, hacc.trans h.accepted, hreqs ▸ h.reqs,
      h.returned hpc hret (.inr hsub)⟩
  | moved t pc hold hnew heq =>
    subst heq
    have hout : ¬ pc.Inside := by
      cases pc <;> simp [CallPc.submitted, CallPc.Inside] at hnew ⊢
    refine ⟨hterm, quiet_update h.quiet rfl hout, h.accepted, h.reqs, ?_⟩
    obtain ⟨new, heq, hnew⟩ := h.codes
    refine ⟨new, heq, fun t' => ⟨(hnew t').1, fun hsub => (hnew t').2 ?_⟩⟩
    by_cases ht : t' = t
    · rw [ht]
      exact hold
    · simpa [goto, Function.update_of_ne ht] using hsub
  | other hpc hret hacc hreqs =>
    refine ⟨hterm, ?_, hacc.trans h.accepted, hreqs.trans h.reqs, ?_⟩
    · intro t
      rw [hpc]
      exact h.quiet t
    · rw [hpc, hret]
      exact h.codes

end Closed

theorem Quiet.closed_of_run {s₀ : Calls T} (hquiet : s₀.Quiet) {ls : List (CallStep T)}
    (hrun : Run step Free s₀.stopped ls s) : Closed s₀ s := by
  apply hrun.invariant (I := Closed s₀) (Closed.stopped hquiet)
  intro s l s' h _ hs
  exact h.step hs

theorem Quiet.finalStop (hquiet : s.Quiet) : s.FinalStop where
  accepted ls s' hrun := (hquiet.closed_of_run hrun).accepted
  reqs ls s' hrun := (hquiet.closed_of_run hrun).reqs
  codes ls s' hrun := by
    obtain ⟨new, heq, hnew⟩ := (hquiet.closed_of_run hrun).codes
    exact ⟨new, heq, fun t => (hnew t).1⟩
  calls ls s' hrun t hidle r :=
    ⟨enter_terminated (terminated_of_run hrun) hidle, enter_terminated (terminated_of_run hrun) hidle⟩

/-! ## A stop with a call inside -/

/-- The thread can go on to append an item, whatever the state of the device is. -/
def Appends (s : Calls T) : Prop :=
  ∃ ls s' r, Run step Free s ls s' ∧ s'.accepted = s.accepted ++ [⟨s.nextItem, r⟩]

/-- A step before the append takes the call nearer to it. -/
theorem Appends.of_step {l : CallStep T} (h : s'.Appends) (hs : s.step l = some s')
    (hacc : s'.accepted = s.accepted) (hnext : s'.nextItem = s.nextItem) : s.Appends := by
  obtain ⟨ls, s'', r, hrun, heq⟩ := h
  refine ⟨[l] ++ ls, s'', r, (Run.snoc .nil trivial hs).trans hrun, ?_⟩
  rw [heq, hacc, hnext]

theorem appends_of_asyncItem {t : T} {r : ReqPtr} (hpc : s.pc t = .asyncItem r) : s.Appends :=
  ⟨[.append t], (s.push r).ret t 0, r, Run.snoc .nil trivial (by simp [step, hpc]), rfl⟩

theorem appends_of_swapped {t : T} {r : ReqPtr} {d : DataPtr} (hpc : s.pc t = .swapped r d) :
    s.Appends := by
  have hs : s.step (.append t) =
      some { (s.push r).goto t (.waiting r d ⟨s.nextItem, r⟩) with
        syncItems := s.syncItems ++ [⟨s.nextItem, r⟩] } := by
    simp [step, hpc]
  exact ⟨[.append t], _, r, Run.snoc .nil trivial hs, rfl⟩

theorem appends_of_syncItem {t : T} {r : ReqPtr} {d : DataPtr} (hpc : s.pc t = .syncItem r d) :
    s.Appends := by
  have hs : s.step (.swap t) =
      some { s.goto t (.swapped r d) with kernel := swapCallback s.kernel r d } := by
    simp [step, hpc]
  exact (appends_of_swapped (t := t) (Function.update_self ..)).of_step hs rfl rfl

theorem appends_of_syncData {t : T} {r : ReqPtr} {d : DataPtr} (hpc : s.pc t = .syncData r d) :
    s.Appends := by
  have hs : s.step (.allocItem t true) = some (s.goto t (.syncItem r d)) := by
    simp [step, hpc]
  exact (appends_of_syncItem (t := t) (Function.update_self ..)).of_step hs rfl rfl

theorem appends_of_inside {t : T} (hin : (s.pc t).Inside) : s.Appends := by
  cases hpc : s.pc t with
  | idle | waiting | woken =>
    rw [hpc] at hin
    exact hin.elim
  | asyncItem r => exact appends_of_asyncItem hpc
  | swapped r d => exact appends_of_swapped hpc
  | syncItem r d => exact appends_of_syncItem hpc
  | syncData r d => exact appends_of_syncData hpc
  | asyncTested r =>
    have hs : s.step (.allocItem t true) = some (s.goto t (.asyncItem r)) := by
      simp [step, hpc]
    exact (appends_of_asyncItem (t := t) (Function.update_self ..)).of_step hs rfl rfl
  | syncTested r =>
    have hs : s.step (.allocData t true) =
        some { s.goto t (.syncData r s.nextData) with nextData := s.nextData + 1 } := by
      simp [step, hpc]
    exact (appends_of_syncData (t := t) (Function.update_self ..)).of_step hs rfl rfl

theorem FinalStop.quiet (h : s.FinalStop) : s.Quiet := by
  intro t hin
  obtain ⟨ls, s', r, hrun, heq⟩ := appends_of_inside (s := s.stopped) (t := t) hin
  have hsame : s.stopped.accepted = s.stopped.accepted ++ [⟨s.stopped.nextItem, r⟩] :=
    (h.accepted ls s' hrun).symm.trans heq
  simp at hsame

/-- After a stop the device is terminated for good; and nothing is queued after it
    any more, with `KGPU_TERMINATED` for every call that had not appended, exactly
    when no call was between its test of the state and its append. -/
theorem nothing_queued_after_stop (s : Calls T) :
    (∀ ls s', Run step Free s.stopped ls s' → s'.kernel.terminated = true) ∧
      (s.FinalStop ↔ s.Quiet) :=
  ⟨fun _ _ hrun => terminated_of_run hrun, FinalStop.quiet, Quiet.finalStop⟩

/-- An asynchronous call that has passed its test when the stop arrives appends its
    item and returns 0, and a synchronous one that finds no memory returns `-ENOMEM`. -/
theorem not_nothing_queued_after_stop :
    ∃ s s' : Calls Bool,
      Run step Free (init (fun _ => ⟨.client 0, .client 0, false⟩) (.empty 0x100000 2))
        [.callAsync false 0, .callSync true 1] s ∧
      s.step .setStop = some s.stopped ∧ ¬ s.FinalStop ∧
      Run step Free s.stopped [.allocItem false true, .append false, .allocData true false] s' ∧
      s'.kernel.reqs = [⟨0, 0⟩] ∧ s'.returned = [(false, 0), (true, Kernel.eNOMEM)] := by
  refine ⟨_, _, Run.of_exec rfl, rfl, fun h => ?_, Run.of_exec rfl, rfl, rfl⟩
  have hsame := h.accepted [.allocItem false true, .append false] _ (Run.of_exec rfl)
  cases hsame

end Calls
end Kgpu
