-- SUMMARY: What happens to the requests in flight when the helper ends and another one opens the device.
import Kgpu.System.EndToEnd

/-!
# Sessions

`kgpu_release` makes the device available again and does nothing else. The requests that
the helper had read stay in `rtdreqs`, and the helper that opens the device next does not
know of them: they are orphans. To the new helper the kernel looks as if they were not
there, which makes every session a run of the system without them.
-/

namespace Kgpu

open Library

variable {T : Type}

namespace Calls

/-- The queues without the items `o`. -/
def without (s : Calls T) (o : List RequestItem) : Calls T :=
  { s with
    accepted := s.accepted.filter (· ∉ o)
    handed := s.handed.filter (· ∉ o)
    kernel := { s.kernel with rtdreqs := s.kernel.rtdreqs.filter (· ∉ o) } }

/-- The ids of the requests in flight. -/
def inFlightIds (s : Calls T) : List Int := s.pending.map fun item => (s.kernel.req item.r).id

variable [DecidableEq T] {s s' : Calls T} {o : List RequestItem}

theorem enter_without {t : T} {pc : CallPc} (hs : s.enter t pc = some s') :
    (s.without o).enter t pc = some (s'.without o) := by
  unfold enter at hs ⊢
  split at hs
  next hpc =>
    cases hs
    rw [show (s.without o).pc t = _ from hpc]
    cases hterm : s.kernel.terminated <;> simp [without, ret, goto, hterm]
  next => cases hs

/-- The clients do not see the items. -/
theorem step_without_client {l : CallStep T} (hl : l.kind ≠ .device)
    (hfresh : ∀ r, (⟨s.nextItem, r⟩ : RequestItem) ∉ o) (hs : s.step l = some s') :
    (s.without o).step l = some (s'.without o) := by
  have hpc : ∀ t, (s.without o).pc t = s.pc t := fun _ => rfl
  cases step_case hs with
  | taken | retired | tooShort | unknown | found | completed => exact absurd rfl hl
  | asyncEntered hs | syncEntered hs => exact enter_without hs
  | gotData h | noData h | asyncGotItem h | asyncNoItem h | syncGotItem h | syncNoItem h
  | swapped h | signalled h | finished h =>
    simp only [step, hpc, h]
    rfl
  | woken h hd =>
    simp only [step, hpc, h]
    rw [if_pos (show ((s.without o).kernel.sync _).done = true from hd)]
    rfl
  | asyncAppended h | syncAppended h =>
    simp only [step, hpc, h]
    simp [without, push, ret, goto, List.filter_append, hfresh]
  | stopped => rfl
  | edited hq =>
    simp only [step, if_neg hq]
    rfl

/-- `kgpu_read` takes a request that was not read before. -/
theorem step_without_readTake {c : UL} (hnot : ∀ item ∈ s.kernel.reqs, item ∉ o)
    (hs : s.step (.readTake c) = some s') :
    (s.without o).step (.readTake c) = some (s'.without o) := by
  obtain ⟨hdev, item, rest, hreqs, rfl⟩ := step_readTake hs
  have hitem : item ∉ o := hnot item (by rw [hreqs]; exact List.mem_cons_self)
  have hdev' : (s.without o).dev = .idle := hdev
  have htake : (s.without o).kernel.readTake = some (item,
      s.kernel.gmpool.fillKuRequest (s.kernel.req item.r),
      { (s.without o).kernel with reqs := rest }) := by
    simp [Kernel.readTake, without, hreqs]
  simp only [step, hdev', htake]
  simp [without, List.filter_append, hitem]

theorem step_without_readRetire {item : RequestItem} {kureq : KuRequest} {c : UL}
    (hdev : s.dev = .reading item kureq c) (hitem : item ∉ o)
    (hs : s.step .readRetire = some s') : (s.without o).step .readRetire = some (s'.without o) := by
  have hdev' : (s.without o).dev = .reading item kureq c := hdev
  simp only [step, hdev] at hs
  cases hs
  simp only [step, hdev']
  by_cases hc : 0 < c.toInt <;> simp [without, Kernel.readRetire, List.filter_append, hitem, hc]

omit [DecidableEq T] in
/-- Requests that were read are told apart by their ids. -/
theorem eq_of_id (hids : s.inFlightIds.Nodup) {item item' : RequestItem}
    (hi : item ∈ s.kernel.rtdreqs) (hi' : item' ∈ s.kernel.rtdreqs)
    (heq : (s.kernel.req item.r).id = (s.kernel.req item'.r).id) : item = item' :=
  List.inj_on_of_nodup_map hids (List.mem_append_right _ (List.mem_append_right _ hi))
    (List.mem_append_right _ (List.mem_append_right _ hi')) heq

/-- The look-up finds the same request when the ids in flight differ and the one looked
    for is not among those left out. -/
theorem step_without_writeFind {resp : KuResponse} (hids : s.inFlightIds.Nodup)
    {item : RequestItem} (hitem : item ∉ o) (hmem : item ∈ s.kernel.rtdreqs)
    (hid : (s.kernel.req item.r).id = resp.id)
    (hs : s.step (.writeFind kuResponseSize resp) = some s') :
    (s.without o).step (.writeFind kuResponseSize resp) = some (s'.without o) := by
  have hone : ∀ item' ∈ s.kernel.rtdreqs, (s.kernel.req item'.r).id = resp.id → item' = item :=
    fun item' hmem' hid' => eq_of_id hids hmem' hmem (hid'.trans hid.symm)
  have hnodup : s.kernel.rtdreqs.Nodup :=
    (List.nodup_append.mp (List.nodup_append.mp hids.of_map).2.1).2.1
  have hdev : s.dev = .idle := (step_writeFind hs).1
  have hdev' : (s.without o).dev = .idle := hdev
  have hlong : ¬ kuResponseSize < kuResponseSize := by decide
  have hfind : s.kernel.findRequest resp.id true =
      (some item, { s.kernel with rtdreqs := s.kernel.rtdreqs.erase item }) := by
    rcases s.kernel.findRequest_cases resp.id with ⟨hnone, -⟩ | ⟨item', hmem', hid', hf⟩
    · exact absurd hid (hnone item hmem)
    · rwa [hone item' hmem' hid'] at hf
  have hfind' : (s.without o).kernel.findRequest resp.id true =
      (some item, { (s.without o).kernel with
        rtdreqs := (s.without o).kernel.rtdreqs.erase item }) := by
    rcases (s.without o).kernel.findRequest_cases resp.id with ⟨hnone, -⟩ | ⟨item', hmem', hid', hf⟩
    · exact absurd hid (hnone item (List.mem_filter.mpr ⟨hmem, by simpa using hitem⟩))
    · rwa [hone item' (List.mem_filter.mp hmem').1 hid'] at hf
  simp only [step, hdev, if_neg hlong, hfind] at hs
  cases hs
  simp only [step, hdev', if_neg hlong, hfind']
  have herase : (s.kernel.rtdreqs.filter (· ∉ o)).erase item =
      (s.kernel.rtdreqs.erase item).filter (· ∉ o) := by
    rw [(hnodup.filter _).erase_eq_filter, hnodup.erase_eq_filter, List.filter_filter,
      List.filter_filter]
    exact List.filter_congr fun _ _ => Bool.and_comm _ _
  simp only [without, herase]

theorem step_without_writeComplete (hs : s.step .writeComplete = some s') :
    (s.without o).step .writeComplete = some (s'.without o) := by
  cases step_case hs with
  | completed hdev =>
    have hdev' : (s.without o).dev = _ := hdev
    simp only [step, hdev']
    rfl

/-! ## Ids in flight -/

omit [DecidableEq T] in
theorem inFlightIds_of_perm (h : s.inFlightIds.Nodup) (hp : s'.pending.Perm s.pending)
    (hids : s.SameIds s') : s'.inFlightIds.Nodup := by
  have hmap : s'.inFlightIds = s'.pending.map fun item => (s.kernel.req item.r).id :=
    List.map_congr_left fun item _ => hids item.r
  rw [hmap]
  exact (hp.map _).nodup_iff.mpr h

/-- A client that submits a request with an id of its own, and changes none in flight. -/
theorem inFlightIds_client {l : CallStep T} (h : s.inFlightIds.Nodup) (hl : l.kind ≠ .device)
    (hkept : ∀ r q, l = .edit r q → q.id = (s.kernel.req r).id ∨ r ∉ s.pending.map (·.r))
    (hown : ∀ t r, l = .append t → (s.pc t).req = some r →
      ∀ item ∈ s.pending, (s.kernel.req item.r).id ≠ (s.kernel.req r).id)
    (hs : s.step l = some s') : s'.inFlightIds.Nodup := by
  obtain ⟨-, -, -, -, hids⟩ := step_client hl hkept hs
  have hmap : s.pending.map (fun item => (s'.kernel.req item.r).id) = s.inFlightIds :=
    List.map_congr_left hids
  obtain ⟨-, -, hp | ⟨t, r, rfl, hr, hp⟩⟩ := step_client_pending hl hs
  · rw [inFlightIds, hp, hmap]
    exact h
  · obtain ⟨r', hsame, hsameIds⟩ := step_append hs
    rw [inFlightIds, (hp.map _).nodup_iff, List.map_cons, hmap, List.nodup_cons]
    refine ⟨fun hmem => ?_, h⟩
    obtain ⟨item, hitem, heq⟩ := List.mem_map.mp hmem
    exact hown t r rfl hr item hitem (heq.trans (hsameIds r))

end Calls

namespace System

/-- Every branch of `step` is one of its cases. -/
theorem step_of_case [DecidableEq T] {c : Config} {s s' : System T} {l : SysStep T}
    (h : StepCase c s l s') : s.step c l = some s' := by
  cases h with
  | @client l _ hkind hk =>
    cases hl : l.kind with
    | device => exact absurd hl hkind
    | inside | append | edit => simp [step, hl, hk]
  | op hready hh => simp [step, hready, hh]
  | advance hpc hh | getNone hpc hh => simp [step, hpc, hh]
  | read hpc hget hk => simp [step, hpc, hget, hk]
  | readReturn hpc hdev hk => simp [step, hpc, hdev, hk]
  | initRequest hpc hh => simp [step, hpc, hh]
  | send hpc hdone hk => simp [step, hpc, hdone, hk]
  | writeReturn hpc hk => simp [step, hpc, hk]

end System

/-! ## Sessions -/

/-- The system, and the items that earlier helpers had read and not answered. -/
structure Sessions (T : Type) where
  sys : System T
  orphans : List RequestItem

inductive SessionStep (T : Type) where
  | sys (l : SysStep T)
  /-- The helper ends, outside of a system call, and another one opens the device. -/
  | restart (sr : Token → ServiceRequest)

namespace Sessions

/-- The system as the helper that is running knows it. -/
def running (s : Sessions T) : System T :=
  { s.sys with calls := s.sys.calls.without s.orphans }

variable [DecidableEq T]

def step (c : Config) (s : Sessions T) : SessionStep T → Option (Sessions T)
  | .sys l => (s.sys.step c l).map fun sys => { s with sys := sys }
  | .restart sr =>
    match s.sys.calls.dev with
    | .idle => some
        { sys := { s.sys with helper := Helper.init sr, pc := .user }
          orphans := s.sys.calls.kernel.rtdreqs }
    | _ => none

def init (sr : Token → ServiceRequest) (sync : DataPtr → SyncCallData) (pool : Mempool) :
    Sessions T :=
  ⟨System.init sr sync pool, []⟩

/-- No client changes the id of a request in flight, or submits one with the id of another
    in flight. -/
def OwnIds (s : Sessions T) : SessionStep T → Prop
  | .sys (.client (.append t)) => ∀ r, (s.sys.calls.pc t).req = some r →
      ∀ item ∈ s.sys.calls.pending,
        (s.sys.calls.kernel.req item.r).id ≠ (s.sys.calls.kernel.req r).id
  | .sys l => s.sys.IdsKept l
  | .restart _ => True

/-- What every run keeps. -/
structure Kept (s : Sessions T) : Prop where
  accounted : s.sys.calls.Accounted
  ids : s.sys.calls.inFlightIds.Nodup
  orphans : ∀ item ∈ s.orphans, item ∈ s.sys.calls.kernel.rtdreqs
  running : s.running.Agreed
  listed : s.sys.helper.Listed
  walking : s.sys.helper.Walking

namespace Kept

variable {c : Config} {s s' : Sessions T} {l : SysStep T} {sys : System T}

omit [DecidableEq T] in
theorem nodup_pending (h : s.Kept) : s.sys.calls.pending.Nodup := h.ids.of_map

omit [DecidableEq T] in
/-- The orphans are on `rtdreqs` and nowhere else. -/
theorem not_orphan (h : s.Kept) {item : RequestItem}
    (hi : item ∈ s.sys.calls.kernel.reqs ∨ item ∈ s.sys.calls.dev.held) : item ∉ s.orphans := by
  intro ho
  have hrtd := h.orphans item ho
  have hnd := h.nodup_pending
  rw [Calls.pending] at hnd
  have hparts := List.nodup_append.mp hnd
  rcases hi with hreqs | hheld
  · exact hparts.2.2 item hreqs item (List.mem_append_right _ hrtd) rfl
  · exact (List.nodup_append.mp hparts.2.1).2.2 item hheld item hrtd rfl

omit [DecidableEq T] in
theorem fresh (h : s.Kept) (r : ReqPtr) : (⟨s.sys.calls.nextItem, r⟩ : RequestItem) ∉ s.orphans := by
  intro ho
  have hacc : (⟨s.sys.calls.nextItem, r⟩ : RequestItem) ∈ s.sys.calls.accepted := by
    rw [h.accounted.order]
    refine List.mem_append_left _ (h.accounted.places.mem_iff.mpr ?_)
    exact List.mem_append_right _ (List.mem_append_left _ (h.orphans _ ho))
  exact Nat.lt_irrefl _ (h.accounted.addr_lt _ hacc)

omit [DecidableEq T] in
/-- The response of the running helper is for a request that is not an orphan. -/
theorem exists_read (h : s.Kept) (hpc : s.sys.pc = .user) {t : Token} {rest : List Token}
    (hdone : s.sys.helper.pc = .process .done (t :: rest)) : ∃ item ∈ s.sys.calls.kernel.rtdreqs,
      item ∉ s.orphans ∧ (s.sys.calls.kernel.req item.r).id = (s.sys.helper.sr t).id := by
  have ht : t ∈ s.sys.helper.allReqs :=
    ((h.listed.mem_iff t .done).mp ((h.walking .done _ hdone).2 t List.mem_cons_self)).1
  obtain ⟨-, hids⟩ := h.running.joined.at_user hpc
  have hmem : (s.sys.helper.sr t).id ∈ s.running.calls.kernel.rtdIds :=
    hids.mem_iff.mpr (List.mem_map_of_mem ht)
  obtain ⟨item, hitem, hid⟩ := List.mem_map.mp hmem
  obtain ⟨hrtd, hnot⟩ := List.mem_filter.mp hitem
  exact ⟨item, hrtd, by simpa using hnot, hid⟩

/-- Every step of the system is one of the system without the orphans. -/
theorem running_step (h : s.Kept) (hs : s.sys.step c l = some sys) :
    s.running.step c l = some (Sessions.running { s with sys := sys }) := by
  refine System.step_of_case ?_
  cases System.step_case hs with
  | client hkind hk => exact .client hkind (Calls.step_without_client hkind h.fresh hk)
  | op hready hh => exact .op hready hh
  | advance hpc hh => exact .advance hpc hh
  | getNone hpc hh => exact .getNone hpc hh
  | read hpc hget hk =>
    exact .read hpc hget (Calls.step_without_readTake (fun _ hi => h.not_orphan (.inl hi)) hk)
  | @readReturn item _ _ _ hpc hdev hk =>
    have hitem : item ∉ s.orphans := h.not_orphan (.inr (by rw [hdev]; exact List.mem_cons_self))
    exact .readReturn hpc hdev (Calls.step_without_readRetire hdev hitem hk)
  | initRequest hpc hh => exact .initRequest hpc hh
  | send hpc hdone hk =>
    obtain ⟨item, hrtd, hnot, hid⟩ := h.exists_read hpc hdone
    exact .send hpc hdone (Calls.step_without_writeFind h.ids hnot hrtd hid hk)
  | writeReturn hpc hk => exact .writeReturn hpc (Calls.step_without_writeComplete hk)

theorem ids_step (h : s.Kept) (hok : s.OwnIds (.sys l)) (hs : s.sys.step c l = some sys) :
    sys.calls.inFlightIds.Nodup := by
  cases System.step_case hs with
  | @client l k hkind hk =>
    refine Calls.inFlightIds_client h.ids hkind (fun r q hl => ?_) (fun t r hl hr => ?_) hk
    · subst hl
      exact hok
    · subst hl
      exact hok r hr
  | op | advance | getNone | initRequest => exact h.ids
  | read _ _ hk =>
    obtain ⟨hdev, item, rest, hreqs, rfl⟩ := Calls.step_readTake hk
    refine Calls.inFlightIds_of_perm h.ids ?_ fun _ => rfl
    simp [Calls.pending, hdev, hreqs, DevPc.held]
  | @readReturn item kureq n k hpc hdev hk =>
    obtain ⟨item', kureq', hdev', -⟩ := h.running.joined.at_reading hpc
    rw [show s.running.calls.dev = _ from hdev] at hdev'
    cases hdev'
    cases Calls.step_readRetire (by decide) hdev hk
    refine Calls.inFlightIds_of_perm h.ids ?_ fun _ => rfl
    simp only [Calls.pending, hdev, DevPc.held, List.nil_append]
    exact List.perm_append_comm.append_left _
  | send _ _ hk =>
    obtain ⟨hdev, ⟨-, rfl⟩ | ⟨item, hmem, -, rfl⟩⟩ := Calls.step_writeFind hk
    · exact h.ids
    · refine Calls.inFlightIds_of_perm h.ids ?_ fun _ => rfl
      simp only [Calls.pending, hdev, DevPc.held, List.nil_append]
      exact (List.perm_cons_erase hmem).symm.append_left _
  | @writeReturn k hpc hk =>
    obtain ⟨item, t, rest, hwriting, -⟩ := h.running.joined.at_writing hpc
    have hdev : s.sys.calls.dev = _ := hwriting
    obtain ⟨hreqs, hrtd, -, hdev', -, -, -, -, hids⟩ := Calls.step_writeComplete hdev hk
    have hperm : s.sys.calls.pending.Perm (item :: k.pending) := by
      rw [Calls.pending, Calls.pending, hdev, hdev', hreqs, hrtd]
      simp [DevPc.held]
    have hmap : k.inFlightIds = k.pending.map fun item => (s.sys.calls.kernel.req item.r).id :=
      List.map_congr_left fun item _ => hids item.r
    rw [hmap]
    exact (List.nodup_cons.mp ((hperm.map _).nodup_iff.mp h.ids)).2

/-- Steps of the queues that are accounted for, and that leave the orphans where they are. -/
theorem queues_step (h : s.Kept) (hs : s.sys.step c l = some sys) :
    sys.calls.Accounted ∧ ∀ item ∈ s.orphans, item ∈ sys.calls.kernel.rtdreqs := by
  cases System.step_case hs with
  | @client l k hkind hk =>
    refine ⟨h.accounted.client hkind hk, fun item ho => ?_⟩
    have hrtd : k.kernel.rtdreqs = s.sys.calls.kernel.rtdreqs := by
      cases hl : l.kind with
      | device => exact absurd hl hkind
      | inside => exact (Calls.step_inside hl hk).1.rtdreqs
      | append =>
        cases l with
        | append t =>
          obtain ⟨r, hsame, -⟩ := Calls.step_append hk
          exact hsame.rtdreqs
        | _ => cases hl
      | edit =>
        cases l with
        | edit r q => exact (Calls.step_edit hk).1.rtdreqs
        | _ => cases hl
    change item ∈ k.kernel.rtdreqs
    rw [hrtd]
    exact h.orphans item ho
  | op | advance | getNone | initRequest => exact ⟨h.accounted, h.orphans⟩
  | read _ _ hk =>
    refine ⟨h.accounted.readTake hk, ?_⟩
    obtain ⟨-, item, rest, -, rfl⟩ := Calls.step_readTake hk
    exact h.orphans
  | @readReturn item kureq n k hpc hdev hk =>
    obtain ⟨item', kureq', hdev', -⟩ := h.running.joined.at_reading hpc
    rw [show s.running.calls.dev = _ from hdev] at hdev'
    cases hdev'
    refine ⟨h.accounted.readRetire (by decide) hdev hk, fun item ho => ?_⟩
    cases Calls.step_readRetire (by decide) hdev hk
    exact List.mem_append_left _ (h.orphans item ho)
  | send hpc hdone hk =>
    refine ⟨h.accounted.writeFind hk, fun item ho => ?_⟩
    obtain ⟨live, hlive, hnot, hid⟩ := h.exists_read hpc hdone
    obtain ⟨-, ⟨-, rfl⟩ | ⟨found, hmem, hfound, rfl⟩⟩ := Calls.step_writeFind hk
    · exact h.orphans item ho
    · have heq : found = live := Calls.eq_of_id h.ids hmem hlive (hfound.trans hid.symm)
      have hne : item ≠ found := by
        rintro rfl
        exact hnot (heq ▸ ho)
      exact (List.mem_erase_of_ne hne).mpr (h.orphans item ho)
  | @writeReturn k hpc hk =>
    obtain ⟨item, t, rest, hwriting, -⟩ := h.running.joined.at_writing hpc
    have hdev : s.sys.calls.dev = _ := hwriting
    refine ⟨h.accounted.writeComplete hdev hk, fun item ho => ?_⟩
    obtain ⟨-, hrtd, -⟩ := Calls.step_writeComplete hdev hk
    change item ∈ k.kernel.rtdreqs
    rw [hrtd]
    exact h.orphans item ho

theorem sys_step (h : s.Kept) (hok : s.OwnIds (.sys l)) (hs : s.sys.step c l = some sys) :
    Kept { s with sys := sys } := by
  have hrun := h.running_step hs
  obtain ⟨hacc, ho⟩ := h.queues_step hs
  have hkept : s.running.IdsKept l := by
    cases l with
    | client l =>
      cases l with
      | edit r q =>
        refine Or.imp_right (fun hnot hmem => hnot ?_) hok
        obtain ⟨item, hitem, rfl⟩ := List.mem_map.mp hmem
        refine List.mem_map.mpr ⟨item, ?_, rfl⟩
        simp only [Calls.pending, List.mem_append] at hitem ⊢
        exact hitem.imp_right (Or.imp_right fun h => (List.mem_filter.mp h).1)
      | _ => trivial
    | _ => trivial
  have hagreed := h.running.step h.listed h.walking hkept hrun
  have hhelper : sys.helper.Listed ∧ sys.helper.Walking := by
    cases System.step_case hs with
    | op _ hh | advance _ hh | getNone _ hh | initRequest _ hh => exact h.listed.step h.walking hh
    | client | read | readReturn | send | writeReturn => exact ⟨h.listed, h.walking⟩
  exact ⟨hacc, h.ids_step hok hs, ho, hagreed, hhelper.1, hhelper.2⟩

omit [DecidableEq T] in
/-- The next helper has read nothing, and what was read before is an orphan. -/
theorem restart (h : s.Kept) (hdev : s.sys.calls.dev = .idle) (sr : Token → ServiceRequest) :
    Kept
      { sys := { s.sys with helper := Helper.init sr, pc := .user }
        orphans := s.sys.calls.kernel.rtdreqs } := by
  have hparts : s.sys.calls.handed.Perm
      (s.sys.calls.kernel.rtdreqs ++ s.sys.calls.kernel.callbacks.map (·.1)) := by
    have hplaces := h.accounted.places
    rwa [hdev] at hplaces
  have hnd := h.accounted.nodup
  rw [h.accounted.order] at hnd
  obtain ⟨hhanded, -, hapart⟩ := List.nodup_append.mp hnd
  have hcb := (List.nodup_append.mp (hparts.nodup_iff.mp hhanded)).2.2
  have hreqs : s.sys.calls.kernel.reqs.filter (· ∉ s.sys.calls.kernel.rtdreqs) =
      s.sys.calls.kernel.reqs := by
    refine List.filter_eq_self.mpr fun item hi => decide_eq_true fun hrtd => ?_
    exact hapart item (hparts.mem_iff.mpr (List.mem_append_left _ hrtd)) item hi rfl
  have hnone : s.sys.calls.kernel.rtdreqs.filter (· ∉ s.sys.calls.kernel.rtdreqs) = [] :=
    List.filter_eq_nil_iff.mpr fun item hi => by simp [hi]
  have hcallbacks : (s.sys.calls.kernel.callbacks.map (·.1)).filter
      (· ∉ s.sys.calls.kernel.rtdreqs) = s.sys.calls.kernel.callbacks.map (·.1) :=
    List.filter_eq_self.mpr fun item hi => decide_eq_true fun hrtd => hcb item hrtd item hi rfl
  refine ⟨h.accounted, h.ids, fun _ ho => ho, ?_, (Helper.listed_init sr).1, (Helper.listed_init sr).2⟩
  refine ⟨⟨?_, fun item hi => ?_, ?_, ?_⟩, .user rfl hdev ?_, h.running.taken, h.running.written⟩
  · change s.sys.calls.accepted.filter _ = s.sys.calls.handed.filter _ ++ s.sys.calls.kernel.reqs
    rw [h.accounted.order, List.filter_append, hreqs]
  · exact h.accounted.addr_lt item (List.mem_filter.mp hi).1
  · exact h.accounted.nodup.filter _
  · change (s.sys.calls.handed.filter _).Perm (s.sys.calls.dev.held ++
      (s.sys.calls.kernel.rtdreqs.filter _ ++ s.sys.calls.kernel.callbacks.map (·.1)))
    rw [hdev, hnone]
    have hfilter := hparts.filter (· ∉ s.sys.calls.kernel.rtdreqs)
    rwa [List.filter_append, hnone, hcallbacks] at hfilter
  · change (List.map _ (s.sys.calls.kernel.rtdreqs.filter _)).Perm []
    rw [hnone]
    exact List.Perm.nil

theorem step (h : s.Kept) {l : SessionStep T} (hok : s.OwnIds l) (hs : s.step c l = some s') :
    s'.Kept ∧ ∀ item ∈ s.orphans, item ∈ s'.orphans := by
  cases l with
  | sys l =>
    obtain ⟨sys, hsys, rfl⟩ := Option.map_eq_some_iff.mp hs
    exact ⟨h.sys_step hok hsys, fun _ ho => ho⟩
  | restart sr =>
    simp only [Sessions.step] at hs
    split at hs <;> cases hs
    next hdev => exact ⟨h.restart hdev sr, h.orphans⟩

end Kept

variable {c : Config} {s s' : Sessions T}

theorem kept_of_run {sr : Token → ServiceRequest} {sync : DataPtr → SyncCallData} {pool : Mempool}
    {ls : List (SessionStep T)}
    (hrun : Run (Sessions.step c) OwnIds (init sr sync pool) ls s) : s.Kept := by
  refine hrun.invariant (I := Kept) ?_ fun s l s' h hok hs => (h.step hok hs).1
  have hagreed : (System.init sr sync pool : System T).Agreed := System.agreed_of_run (c := c) .nil
  refine ⟨hagreed.accounted, List.nodup_nil, fun _ ho => absurd ho List.not_mem_nil, hagreed,
    (Helper.listed_init sr).1, (Helper.listed_init sr).2⟩

/-- The orphans stay where they are. -/
theorem orphans_of_run {ls : List (SessionStep T)} (h : s.Kept)
    (hrun : Run (Sessions.step c) OwnIds s ls s') :
    s'.Kept ∧ ∀ item ∈ s.orphans, item ∈ s'.orphans := by
  refine hrun.invariant (I := fun s' => s'.Kept ∧ ∀ item ∈ s.orphans, item ∈ s'.orphans)
    ⟨h, fun _ ho => ho⟩ fun s₁ l s₂ h₁ hok hs => ?_
  obtain ⟨hkept, ho⟩ := h₁.1.step hok hs
  exact ⟨hkept, fun item hi => ho item (h₁.2 item hi)⟩

/-- When a helper ends, and whatever the clients and the helpers after it do: the requests
    it had read and not answered stay in `rtdreqs` and never have their callback; the
    submissions are still all there, with one callback at most; the running helper and the
    kernel agree on the requests that are not orphans, and no write of it fails. -/
theorem restart_orphans {sr sr' : Token → ServiceRequest} {sync : DataPtr → SyncCallData}
    {pool : Mempool} {s₁ : Sessions T} {ls ls' : List (SessionStep T)}
    (hreach : Run (Sessions.step c) OwnIds (init sr sync pool) ls s)
    (hs : s.step c (.restart sr') = some s₁) (hrun : Run (Sessions.step c) OwnIds s₁ ls' s') :
    (∀ item ∈ s.sys.calls.kernel.rtdreqs, item ∈ s'.sys.calls.kernel.rtdreqs ∧
      item ∉ s'.sys.calls.kernel.callbacks.map (·.1)) ∧
    s'.sys.calls.accepted.Nodup ∧ s'.sys.calls.accepted.Perm
      (s'.sys.calls.pending ++ s'.sys.calls.kernel.callbacks.map (·.1)) ∧
    (s'.sys.pc = .user → s'.running.calls.kernel.rtdIds.Perm s'.sys.helper.ids) ∧
    (∀ n ∈ s'.sys.calls.written, n = kuResponseSize.toInt) ∧ s'.sys.pc ≠ .aborted := by
  obtain ⟨h₁, -⟩ := (kept_of_run hreach).step (l := .restart sr') trivial hs
  obtain ⟨h, hold⟩ := orphans_of_run h₁ hrun
  have horphans : s₁.orphans = s.sys.calls.kernel.rtdreqs := by
    simp only [Sessions.step] at hs
    split at hs <;> cases hs
    rfl
  have hplaces : s'.sys.calls.accepted.Perm
      (s'.sys.calls.pending ++ s'.sys.calls.kernel.callbacks.map (·.1)) := by
    rw [h.accounted.order, Calls.pending, List.append_assoc, List.append_assoc]
    exact List.perm_append_comm.trans (h.accounted.places.append_left _)
  refine ⟨fun item hi => ?_, h.accounted.nodup, hplaces,
    fun hpc => (h.running.joined.at_user hpc).2, h.running.written, h.running.joined.ne_aborted⟩
  have hrtd := h.orphans item (hold item (horphans ▸ hi))
  refine ⟨hrtd, fun hcb => ?_⟩
  have hapart := (List.nodup_append.mp (hplaces.nodup_iff.mp h.accounted.nodup)).2.2
  exact hapart item (List.mem_append_right _ (List.mem_append_right _ hrtd)) item hcb rfl

/-- Labels on which `OwnIds` puts no condition. -/
def free : SessionStep T → Bool
  | .sys (.client l) => l.kind == .inside
  | _ => true

omit [DecidableEq T] in
theorem ownIds_of_free {l : SessionStep T} (h : free l = true) : s.OwnIds l := by
  cases l with
  | restart => trivial
  | sys l =>
    cases l with
    | client l =>
      cases l with
      | edit | append => cases h
      | _ => trivial
    | _ => trivial

omit [DecidableEq T] in
theorem ownIds_append {t : T} {r : ReqPtr} (hr : (s.sys.calls.pc t).req = some r)
    (hid : (s.sys.calls.kernel.req r).id ∉ s.sys.calls.inFlightIds) :
    s.OwnIds (.sys (.client (.append t))) := by
  intro r' hr' item hitem heq
  cases Option.some.inj (hr.symm.trans hr')
  exact hid (List.mem_map.mpr ⟨item, hitem, heq⟩)

/-- Two clients, before they do anything. -/
def twoClients : Sessions Bool :=
  init default (fun _ => ⟨.client 0, .client 0, false⟩) (.empty 0x100000 2)

/-- The first client submits its request and the helper reads it. -/
def firstRead : List (SessionStep Bool) :=
  [.sys (.client (.edit 0 (.constructed 7))), .sys (.client (.edit 1 (.constructed 8))),
    .sys (.client (.callAsync true 0)), .sys (.client (.allocItem true true)),
    .sys (.client (.append true))] ++
  List.replicate 6 (.sys .advance) ++ [.sys .read, .sys .readReturn, .sys .initRequest]

def oneRead : Sessions Bool := (exec (step .small) firstRead twoClients).get rfl

def reopened : Sessions Bool := (oneRead.step .small (.restart default)).get rfl

/-- The first helper ends with a request read; the second answers another one. -/
theorem restart_orphans_two_clients :
    ∃ ls ls' s', Run (Sessions.step .small) OwnIds twoClients ls oneRead ∧
      oneRead.step .small (.restart default) = some reopened ∧
      Run (Sessions.step .small) OwnIds reopened ls' s' ∧
      s'.sys.calls.kernel.callbacks.map (·.1) = [⟨1, 1⟩] ∧
      (⟨0, 0⟩ : RequestItem) ∈ s'.sys.calls.kernel.rtdreqs := by
  have hstart : Run (Sessions.step .small) OwnIds twoClients [] twoClients := .nil
  have hnamed := (hstart.snoc (l := SessionStep.sys (.client (.edit 0 (.constructed 7))))
    (.inr (by decide)) rfl).snoc (l := SessionStep.sys (.client (.edit 1 (.constructed 8))))
    (.inr (by decide)) rfl
  have hcalled := hnamed.trans (Run.of_checked (show exec (fun s l => bif free l then
    Sessions.step .small s l else none) [.sys (.client (.callAsync true 0)),
      .sys (.client (.allocItem true true))] _ = some _ from rfl) fun _ _ => ownIds_of_free)
  have hqueued := hcalled.snoc (l := SessionStep.sys (.client (.append true)))
    (ownIds_append rfl (by decide)) rfl
  have hread := hqueued.trans (Run.of_checked (show exec (fun s l => bif free l then
    Sessions.step .small s l else none) (List.replicate 6 (.sys .advance) ++
      [.sys .read, .sys .readReturn, .sys .initRequest]) _ = some oneRead from rfl)
    fun _ _ => ownIds_of_free)
  have hopened : Run (Sessions.step .small) OwnIds reopened [] reopened := .nil
  have hcalled' := hopened.trans (Run.of_checked (show exec (fun s l => bif free l then
    Sessions.step .small s l else none) [.sys (.client (.callAsync false 1)),
      .sys (.client (.allocItem false true))] _ = some _ from rfl) fun _ _ => ownIds_of_free)
  have hqueued' := hcalled'.snoc (l := SessionStep.sys (.client (.append false)))
    (ownIds_append rfl (by decide)) rfl
  have hanswered := hqueued'.trans (Run.of_checked (show exec (fun s l => bif free l then
    Sessions.step .small s l else none) (List.replicate 6 (.sys .advance) ++
      [.sys .read, .sys .readReturn, .sys .initRequest, .sys .send, .sys .writeReturn,
        .sys (.op ⟨0, 0, 0, 0, false, false⟩)]) _ = some _ from rfl) fun _ _ => ownIds_of_free)
  obtain ⟨horphans, -⟩ := restart_orphans hread rfl hanswered
  exact ⟨_, _, _, hread, rfl, hanswered, rfl, (horphans ⟨0, 0⟩ (by decide)).1⟩

end Sessions
end Kgpu
