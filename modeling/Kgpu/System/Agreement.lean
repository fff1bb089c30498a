-- SUMMARY: The kernel and the helper always hold the same requests, and no request is lost or answered twice.
import Kgpu.System.Machine

/-!
# Agreement

The kernel keeps the requests that were read in `rtdreqs`, the helper keeps them in
`all_reqs`. Neither sees the other's list, and a response names its request by the
id only. The two lists have the same ids whenever the helper is between two of its
operations, so that the look-up of a response never fails.
-/

namespace Kgpu

open Library

variable {T : Type}

/-- The item that `kgpu_write` is about to complete. -/
def DevPc.completing : DevPc → List RequestItem
  | .writing item _ _ => [item]
  | _ => []

namespace System

variable {c : Config} {s s' : System T}

/-- How the two lists of ids differ while the helper is in one of its system calls. -/
inductive Joined (s : System T) : Prop where
  | user (hpc : s.pc = .user) (hdev : s.calls.dev = .idle)
      (hids : s.calls.kernel.rtdIds.Perm s.helper.ids)
  | reading (item : RequestItem) (kureq : KuRequest) (hpc : s.pc = .reading)
      (hdev : s.calls.dev = .reading item kureq kuRequestSize) (hget : s.helper.pc = .get)
      (hid : (s.calls.kernel.req item.r).id = kureq.id)
      (hids : s.calls.kernel.rtdIds.Perm s.helper.ids)
  | hasRead (kureq : KuRequest) (hpc : s.pc = .hasRead kureq) (hdev : s.calls.dev = .idle)
      (hget : s.helper.pc = .get) (hids : s.calls.kernel.rtdIds.Perm (kureq.id :: s.helper.ids))
  | writing (item : RequestItem) (t : Token) (rest : List Token) (hpc : s.pc = .writing)
      (hdev : s.calls.dev = .writing item kuResponseSize (s.helper.response t))
      (hdone : s.helper.pc = .process .done (t :: rest))
      (hids : s.helper.ids.Perm ((s.helper.sr t).id :: s.calls.kernel.rtdIds))
  | wrote (t : Token) (rest : List Token) (hpc : s.pc = .wrote) (hdev : s.calls.dev = .idle)
      (hdone : s.helper.pc = .process .done (t :: rest))
      (hids : s.helper.ids.Perm ((s.helper.sr t).id :: s.calls.kernel.rtdIds))

namespace Joined

theorem at_user (h : s.Joined) (hpc : s.pc = .user) :
    s.calls.dev = .idle ∧ s.calls.kernel.rtdIds.Perm s.helper.ids := by
  cases h with
  | user _ hdev hids => exact ⟨hdev, hids⟩
  | reading _ _ hpc' | hasRead _ hpc' | writing _ _ _ hpc' | wrote _ _ hpc' =>
    rw [hpc] at hpc'
    cases hpc'

theorem at_reading (h : s.Joined) (hpc : s.pc = .reading) :
    ∃ item kureq, s.calls.dev = .reading item kureq kuRequestSize ∧ s.helper.pc = .get ∧
      (s.calls.kernel.req item.r).id = kureq.id ∧ s.calls.kernel.rtdIds.Perm s.helper.ids := by
  cases h with
  | reading item kureq _ hdev hget hid hids => exact ⟨item, kureq, hdev, hget, hid, hids⟩
  | user hpc' | hasRead _ hpc' | writing _ _ _ hpc' | wrote _ _ hpc' =>
    rw [hpc] at hpc'
    cases hpc'

theorem at_hasRead (h : s.Joined) {kureq : KuRequest} (hpc : s.pc = .hasRead kureq) :
    s.calls.dev = .idle ∧ s.calls.kernel.rtdIds.Perm (kureq.id :: s.helper.ids) := by
  cases h with
  | hasRead _ hpc' hdev _ hids =>
    rw [hpc] at hpc'
    cases hpc'
    exact ⟨hdev, hids⟩
  | user hpc' | reading _ _ hpc' | writing _ _ _ hpc' | wrote _ _ hpc' =>
    rw [hpc] at hpc'
    cases hpc'

theorem at_writing (h : s.Joined) (hpc : s.pc = .writing) :
    ∃ item t rest, s.calls.dev = .writing item kuResponseSize (s.helper.response t) ∧
      s.helper.pc = .process .done (t :: rest) ∧
      s.helper.ids.Perm ((s.helper.sr t).id :: s.calls.kernel.rtdIds) := by
  cases h with
  | writing item t rest _ hdev hdone hids => exact ⟨item, t, rest, hdev, hdone, hids⟩
  | user hpc' | reading _ _ hpc' | hasRead _ hpc' | wrote _ _ hpc' =>
    rw [hpc] at hpc'
    cases hpc'

theorem at_wrote (h : s.Joined) (hpc : s.pc = .wrote) :
    ∃ t rest, s.calls.dev = .idle ∧ s.helper.pc = .process .done (t :: rest) ∧
      s.helper.ids.Perm ((s.helper.sr t).id :: s.calls.kernel.rtdIds) := by
  cases h with
  | wrote t rest _ hdev hdone hids => exact ⟨t, rest, hdev, hdone, hids⟩
  | user hpc' | reading _ _ hpc' | hasRead _ hpc' | writing _ _ _ hpc' =>
    rw [hpc] at hpc'
    cases hpc'

theorem ne_aborted (h : s.Joined) : s.pc ≠ .aborted := by
  cases h with
  | user hpc | reading _ _ hpc | hasRead _ hpc | writing _ _ _ hpc | wrote _ _ hpc =>
    rw [hpc]
    exact nofun

end Joined

/-- What every run keeps. -/
structure Agreed (s : System T) : Prop where
  accounted : s.calls.Accounted
  joined : s.Joined
  taken : s.taken = s.calls.kernel.callbacks.map (·.1) ++ s.calls.dev.completing
  written : ∀ n ∈ s.calls.written, n = kuResponseSize.toInt

namespace Agreed

-- Steps of the helper outside its system calls

/-- The helper moves without the device, and keeps its requests and their ids. -/
theorem inside (h : s.Agreed) (hpc : s.pc = .user) {h' : Helper} (hids : h'.ids = s.helper.ids) :
    Agreed { s with helper := h', pc := .user } := by
  obtain ⟨hdev, hperm⟩ := h.joined.at_user hpc
  refine ⟨h.accounted, .user rfl hdev ?_, h.taken, h.written⟩
  rw [hids]
  exact hperm

/-- An operation of the pipeline before the last. -/
theorem op (h : s.Agreed) (hpc : s.pc = .user) {x : ReqState} {t : Token} {a : Answers}
    (hx : x ≠ .done) (pc : LoopPc) :
    Agreed { s with helper := { (s.helper.runOp c x t a).2 with pc := pc }, pc := .user } :=
  h.inside hpc (Helper.runOp_ids hx)

/-- `kh_service_done` drops the request whose response was written. -/
theorem serviceDone (h : s.Agreed) (hl : s.helper.Listed) (hw : s.helper.Walking)
    (hpc : s.pc = .wrote) {t : Token} {rest : List Token} {a : Answers}
    (hdone : s.helper.pc = .process .done (t :: rest)) (pc : LoopPc) :
    Agreed { s with helper := { (s.helper.runOp c .done t a).2 with pc := pc }, pc := .user } := by
  obtain ⟨t', rest', hdev, hdone', hids⟩ := h.joined.at_wrote hpc
  rw [hdone] at hdone'
  cases hdone'
  have ht : t ∈ s.helper.allReqs :=
    ((hl.mem_iff t .done).mp ((hw .done _ hdone).2 t List.mem_cons_self)).1
  have hperm := (Helper.runOp_ids_done (c := c) (a := a) ht).symm.trans hids
  exact ⟨h.accounted, .user rfl hdev hperm.cons_inv.symm, h.taken, h.written⟩

/-- The operation that the helper may run is the last of the pipeline only after the
    response was written. -/
theorem runOp (h : s.Agreed) (hl : s.helper.Listed) (hw : s.helper.Walking) {a : Answers}
    {h' : Helper} (hready : s.ready = true) (hh : s.helper.step c (.op a) = some h') :
    Agreed { s with helper := h', pc := .user } := by
  obtain ⟨x, t, rest, hloop, rfl⟩ := Helper.step_op_inv hh
  simp only [ready, hloop] at hready
  split at hready
  next hpc heq =>
    cases heq
    exact h.op hpc (bne_iff_ne.mp hready) _
  next hpc heq =>
    cases heq
    cases eq_of_beq hready
    exact h.serviceDone hl hw hpc hloop _
  next => cases hready

/-- `kh_init_service_request` adds the request that was read. -/
theorem initRequest (h : s.Agreed) (hl : s.helper.Listed) {kureq : KuRequest}
    (hpc : s.pc = .hasRead kureq) (pc : LoopPc) :
    Agreed { s with helper := { s.helper.khInitServiceRequest c kureq with pc := pc }
                    pc := .user } := by
  obtain ⟨hdev, hids⟩ := h.joined.at_hasRead hpc
  refine ⟨h.accounted, .user rfl hdev ?_, h.taken, h.written⟩
  change s.calls.kernel.rtdIds.Perm (s.helper.khInitServiceRequest c kureq).ids
  rw [Helper.khInitServiceRequest_ids hl]
  exact hids.trans (List.perm_append_singleton _ _).symm

-- Steps of the kernel

variable [DecidableEq T]

/-- A client may submit requests, but not change the ids of those in flight. -/
theorem client (h : s.Agreed) {l : CallStep T} {k : Calls T} (hl : l.kind ≠ .device)
    (hok : s.IdsKept (.client l)) (hs : s.calls.step l = some k) :
    Agreed { s with calls := k } := by
  have hedit : ∀ r q, l = .edit r q →
      q.id = (s.calls.kernel.req r).id ∨ r ∉ s.calls.pending.map (·.r) := by
    rintro r q rfl
    exact hok
  obtain ⟨hdev', hrtd, hcb, hwr, hsame⟩ := Calls.step_client hl hedit hs
  have hrtdIds : k.kernel.rtdIds = s.calls.kernel.rtdIds := by
    rw [Kernel.rtdIds, hrtd]
    refine List.map_congr_left fun item hmem => hsame item ?_
    exact List.mem_append_right _ (List.mem_append_right _ hmem)
  refine ⟨h.accounted.client hl hs, ?_, ?_, ?_⟩
  · cases h.joined with
    | user hpc hdev hids => exact .user hpc (hdev'.trans hdev) (hrtdIds ▸ hids)
    | reading item kureq hpc hdev hget hid hids =>
      have hheld : item ∈ s.calls.pending := by
        rw [Calls.pending, hdev]
        exact List.mem_append_right _ (List.mem_append_left _ (List.mem_singleton.mpr rfl))
      exact .reading item kureq hpc (hdev'.trans hdev) hget ((hsame item hheld).trans hid)
        (hrtdIds ▸ hids)
    | hasRead kureq hpc hdev hget hids =>
      exact .hasRead kureq hpc (hdev'.trans hdev) hget (hrtdIds ▸ hids)
    | writing item t rest hpc hdev hdone hids =>
      exact .writing item t rest hpc (hdev'.trans hdev) hdone (hrtdIds ▸ hids)
    | wrote t rest hpc hdev hdone hids =>
      exact .wrote t rest hpc (hdev'.trans hdev) hdone (hrtdIds ▸ hids)
  · change s.taken = k.kernel.callbacks.map (·.1) ++ k.dev.completing
    rw [hcb, hdev']
    exact h.taken
  · change ∀ n ∈ k.written, _
    rw [hwr]
    exact h.written

/-- `kgpu_read` takes the oldest request. -/
theorem read (h : s.Agreed) (hpc : s.pc = .user) (hget : s.helper.pc = .get) {k : Calls T}
    (hs : s.calls.step (.readTake kuRequestSize) = some k) :
    Agreed { s with calls := k, pc := .reading } := by
  obtain ⟨hdev, hids⟩ := h.joined.at_user hpc
  have hacc := h.accounted.readTake hs
  obtain ⟨-, item, rest, -, rfl⟩ := Calls.step_readTake hs
  refine ⟨hacc, .reading item _ rfl rfl hget rfl hids, ?_, h.written⟩
  have htaken := h.taken
  rw [hdev] at htaken
  exact htaken

/-- The request is put on `rtdreqs` before the helper sees it. -/
theorem readReturn (h : s.Agreed) (hpc : s.pc = .reading) {item : RequestItem} {kureq : KuRequest}
    {n : UL} (hdev : s.calls.dev = .reading item kureq n) {k : Calls T}
    (hs : s.calls.step .readRetire = some k) :
    Agreed { s with calls := k, pc := .hasRead kureq } := by
  obtain ⟨item', kureq', hdev', hget, hid, hids⟩ := h.joined.at_reading hpc
  rw [hdev] at hdev'
  cases hdev'
  have hpos : 0 < kuRequestSize.toInt := by decide
  have hacc := h.accounted.readRetire hpos hdev hs
  cases Calls.step_readRetire hpos hdev hs
  refine ⟨hacc, .hasRead kureq rfl rfl hget ?_, ?_, h.written⟩
  · change ((s.calls.kernel.rtdreqs ++ [item]).map fun i => (s.calls.kernel.req i.r).id).Perm _
    rw [List.map_append, List.map_singleton, hid]
    exact (List.perm_append_singleton _ _).trans (hids.cons _)
  · have htaken := h.taken
    rw [hdev] at htaken
    exact htaken

/-- `kgpu_write` finds a request for the response. -/
theorem send (h : s.Agreed) (hl : s.helper.Listed) (hw : s.helper.Walking) (hpc : s.pc = .user)
    {t : Token} {rest : List Token} (hdone : s.helper.pc = .process .done (t :: rest))
    {k : Calls T} (hs : s.calls.step (.writeFind kuResponseSize (s.helper.response t)) = some k) :
    Agreed { s with
      calls := k
      pc := match k.dev with
        | .writing .. => .writing
        | _ => .aborted
      taken := s.taken ++ k.dev.held } := by
  obtain ⟨hdev, hids⟩ := h.joined.at_user hpc
  have ht : t ∈ s.helper.allReqs :=
    ((hl.mem_iff t .done).mp ((hw .done _ hdone).2 t List.mem_cons_self)).1
  have hacc := h.accounted.writeFind hs
  obtain ⟨-, ⟨hnone, -⟩ | ⟨item, hmem, hid, rfl⟩⟩ := Calls.step_writeFind hs
  · -- the id of `t` is among those the kernel has, so the look-up cannot fail
    have hmem : (s.helper.sr t).id ∈ s.calls.kernel.rtdIds :=
      hids.mem_iff.mpr (List.mem_map_of_mem ht)
    obtain ⟨item, hitem, heq⟩ := List.mem_map.mp hmem
    exact absurd heq (hnone item hitem)
  · refine ⟨hacc, .writing item t rest rfl rfl hdone ?_, ?_, h.written⟩
    · have hcons := (List.perm_cons_erase hmem).map fun i => (s.calls.kernel.req i.r).id
      rw [List.map_cons, hid] at hcons
      exact hids.symm.trans hcons
    · have htaken := h.taken
      rw [hdev] at htaken
      change s.taken ++ [item] = _ ++ [item]
      rw [htaken]
      exact congrArg (· ++ [item]) (List.append_nil _)

/-- `kgpu_write` completes the request it took. -/
theorem writeReturn (h : s.Agreed) (hpc : s.pc = .writing) {k : Calls T}
    (hs : s.calls.step .writeComplete = some k) : Agreed { s with calls := k, pc := .wrote } := by
  obtain ⟨item, t, rest, hdev, hdone, hids⟩ := h.joined.at_writing hpc
  have hacc := h.accounted.writeComplete hdev hs
  obtain ⟨-, hrtd, hcb, hdev', -, -, -, hwr, hsame⟩ := Calls.step_writeComplete hdev hs
  have hrtdIds : k.kernel.rtdIds = s.calls.kernel.rtdIds := by
    rw [Kernel.rtdIds, hrtd]
    exact List.map_congr_left fun item _ => hsame item.r
  refine ⟨hacc, .wrote t rest rfl hdev' hdone (hrtdIds ▸ hids), ?_, fun n hn => ?_⟩
  · have htaken := h.taken
    rw [hdev] at htaken
    change s.taken = k.kernel.callbacks.map (·.1) ++ k.dev.completing
    rw [htaken, hcb, hdev', List.map_append]
    exact (List.append_nil _).symm
  · change n ∈ k.written at hn
    rw [hwr] at hn
    rcases List.mem_append.mp hn with hold | hnew
    · exact h.written n hold
    · exact List.mem_singleton.mp hnew

theorem step (h : s.Agreed) (hl : s.helper.Listed) (hw : s.helper.Walking) {l : SysStep T}
    (hok : s.IdsKept l) (hs : s.step c l = some s') : s'.Agreed := by
  cases step_case hs with
  | client hkind hk => exact h.client hkind hok hk
  | op hready hh => exact h.runOp hl hw hready hh
  | advance hpc hh =>
    obtain ⟨x, pc, -, rfl, -⟩ := Helper.step_advance_inv hh
    exact h.inside hpc rfl
  | getNone hpc hh =>
    obtain ⟨-, rfl⟩ := Helper.step_get_inv hh
    exact h.inside hpc rfl
  | read hpc hget hk => exact h.read hpc hget hk
  | readReturn hpc hdev hk => exact h.readReturn hpc hdev hk
  | initRequest hpc hh =>
    obtain ⟨-, rfl⟩ := Helper.step_get_inv hh
    exact h.initRequest hl hpc _
  | send hpc hdone hk => exact h.send hl hw hpc hdone hk
  | writeReturn hpc hk => exact h.writeReturn hpc hk

end Agreed

/-! ## Runs -/

variable [DecidableEq T]

/-- The helper in the system makes a run of its own. -/
theorem helper_run {ok : System T → SysStep T → Prop} {sr : Token → ServiceRequest}
    {sync : DataPtr → SyncCallData} {pool : Mempool} {ls : List (SysStep T)}
    (hrun : Run (System.step c) ok (System.init sr sync pool) ls s) :
    ∃ ls', Run (Helper.step c) Free (Helper.init sr) ls' s.helper := by
  refine hrun.project System.helper fun s l s' hs => ?_
  cases step_case hs with
  | op _ hh | advance _ hh | getNone _ hh | initRequest _ hh => exact .inr ⟨_, hh⟩
  | client | read | readReturn | send | writeReturn => exact .inl rfl

theorem agreed_of_run {sr : Token → ServiceRequest} {sync : DataPtr → SyncCallData}
    {pool : Mempool} {ls : List (SysStep T)}
    (hrun : Run (System.step c) IdsKept (System.init sr sync pool) ls s) : s.Agreed := by
  refine hrun.invariant_reached (I := Agreed) ?_ fun ls s l s' hreach h hok hs => ?_
  · exact ⟨⟨rfl, nofun, List.nodup_nil, List.Perm.refl _⟩, .user rfl rfl (List.Perm.refl _), rfl, nofun⟩
  · obtain ⟨ls', hrun'⟩ := helper_run hreach
    obtain ⟨hl, hw⟩ := Helper.listed_of_run hrun'
    exact h.step hl hw hok hs

/-- In every state reached while clients submit requests and the helper works on them:
    between two operations of the helper, the kernel and the helper hold requests
    with the same ids, and a submission accepted waits in `reqs` or in `rtdreqs` or
    has been taken off by a write; reads hand out the submissions accepted once each
    and in order; at any time those that are not pending have had their callback
    once, from the write that took them off; and no write fails. -/
theorem kernel_helper_agree {sr : Token → ServiceRequest} {sync : DataPtr → SyncCallData}
    {pool : Mempool} {ls : List (SysStep T)}
    (hrun : Run (System.step c) IdsKept (System.init sr sync pool) ls s) :
    (s.pc = .user → s.calls.kernel.rtdIds.Perm s.helper.ids ∧
      s.calls.accepted.Perm (s.calls.kernel.reqs ++ (s.calls.kernel.rtdreqs ++ s.taken))) ∧
    s.calls.accepted.Nodup ∧ s.calls.accepted = s.calls.handed ++ s.calls.kernel.reqs ∧
    s.calls.accepted.Perm (s.calls.pending ++ s.calls.kernel.callbacks.map (·.1)) ∧
    s.taken = s.calls.kernel.callbacks.map (·.1) ++ s.calls.dev.completing ∧
    (∀ n ∈ s.calls.written, n = kuResponseSize.toInt ∧ n ≠ Kernel.eFAULT) ∧ s.pc ≠ .aborted := by
  have h := agreed_of_run hrun
  have hplaces : s.calls.accepted.Perm (s.calls.pending ++ s.calls.kernel.callbacks.map (·.1)) := by
    rw [h.accounted.order, Calls.pending, List.append_assoc, List.append_assoc]
    exact List.perm_append_comm.trans (h.accounted.places.append_left _)
  refine ⟨fun hpc => ?_, h.accounted.nodup, h.accounted.order, hplaces, h.taken, fun n hn => ?_,
    h.joined.ne_aborted⟩
  · obtain ⟨hdev, hids⟩ := h.joined.at_user hpc
    refine ⟨hids, ?_⟩
    have htaken := h.taken
    rw [hdev] at htaken
    rw [Calls.pending, hdev, List.append_assoc] at hplaces
    rw [htaken]
    simpa [DevPc.completing, DevPc.held] using hplaces
  · rw [h.written n hn]
    exact ⟨rfl, by decide⟩

/-- Two clients, of which the second submits its request while the helper is in the
    `read` of the first. The first request is answered, then the second is read. -/
theorem kernel_helper_agree_two_clients :
    ∃ ls s, Run (System.step .small) IdsKept (System.init default
        (fun _ => ⟨.client 0, .client 0, false⟩) (.empty 0x100000 2) : System Bool) ls s ∧
      s.pc = .user ∧ s.helper.ids = [8] ∧ s.calls.kernel.rtdIds.Perm s.helper.ids ∧
      s.taken = [⟨0, 0⟩] := by
  have hnamed : Run (System.step .small) IdsKept (System.init default
      (fun _ => ⟨.client 0, .client 0, false⟩) (.empty 0x100000 2) : System Bool)
      [.client (.edit 0 (.constructed 7)), .client (.edit 1 (.constructed 8))] _ :=
    (Run.nil.snoc (.inr (by decide)) rfl).snoc (.inr (by decide)) rfl
  have hanswered := hnamed.trans (Run.of_forall
    (show exec _ [.client (.callAsync true 0), .client (.allocItem true true),
      .client (.append true), .advance, .advance, .advance, .advance, .advance, .advance, .read,
      .client (.callAsync false 1), .client (.allocItem false true), .client (.append false),
      .readReturn, .initRequest, .send, .writeReturn, .op ⟨0, 0, 0, 0, false, false⟩] _ = some _
      from rfl) (by simp [IdsKept]))
  have hread := hanswered.trans (Run.of_forall
    (show exec _ [.advance, .advance, .advance, .advance, .advance, .advance, .read, .readReturn,
      .initRequest] _ = some _ from rfl) (by simp [IdsKept]))
  exact ⟨_, _, hread, rfl, rfl, ((kernel_helper_agree hread).1 rfl).1, rfl⟩

end System
end Kgpu
