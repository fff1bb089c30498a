-- SUMMARY: Where the submissions are: every item accepted is waiting, read or completed, and is read in order.
import Kgpu.Kernel.Calls

/-!
# Submissions

Each step of a client or of the device moves at most one item: the append puts a
new one on `reqs`, `kgpu_read` takes the oldest from there to `rtdreqs`, and
`kgpu_write` takes one from there and invokes its callback. Nothing else touches
the queues, so that the items accepted are accounted for at any time.
-/

namespace Kgpu

open Library

variable {T : Type}

namespace Calls

variable {s s' : Calls T}

/-- Two states with the same items at the same places and the same record of them. -/
structure SameQueues (s s' : Calls T) : Prop where
  reqs : s'.kernel.reqs = s.kernel.reqs
  rtdreqs : s'.kernel.rtdreqs = s.kernel.rtdreqs
  callbacks : s'.kernel.callbacks = s.kernel.callbacks
  dev : s'.dev = s.dev
  nextItem : s'.nextItem = s.nextItem
  accepted : s'.accepted = s.accepted
  handed : s'.handed = s.handed
  written : s'.written = s.written

/-- The ids that `find_request` compares. -/
def SameIds (s s' : Calls T) : Prop := ∀ r, (s'.kernel.req r).id = (s.kernel.req r).id

/-! ## Accounting -/

/-- The items accepted are those handed out so far, in the order in which they were
    accepted, followed by those that wait. An item handed out is on its way in
    `kgpu_read` or `kgpu_write`, waits in `rtdreqs`, or has had its callback. -/
structure Accounted (s : Calls T) : Prop where
  order : s.accepted = s.handed ++ s.kernel.reqs
  addr_lt : ∀ item ∈ s.accepted, item.addr < s.nextItem
  nodup : s.accepted.Nodup
  places : s.handed.Perm (s.dev.held ++ (s.kernel.rtdreqs ++ s.kernel.callbacks.map (·.1)))

namespace Accounted

theorem congr (h : s.Accounted) (hsame : s.SameQueues s') : s'.Accounted := by
  refine ⟨?_, ?_, ?_, ?_⟩
  · rw [hsame.accepted, hsame.handed, hsame.reqs]
    exact h.order
  · rw [hsame.accepted, hsame.nextItem]
    exact h.addr_lt
  · rw [hsame.accepted]
    exact h.nodup
  · rw [hsame.handed, hsame.dev, hsame.rtdreqs, hsame.callbacks]
    exact h.places

theorem push (h : s.Accounted) (r : ReqPtr) : (s.push r).Accounted := by
  have hfresh : (⟨s.nextItem, r⟩ : RequestItem) ∉ s.accepted := fun hmem =>
    Nat.lt_irrefl _ (h.addr_lt _ hmem)
  refine ⟨?_, ?_, ?_, h.places⟩
  · change s.accepted ++ [_] = s.handed ++ (s.kernel.reqs ++ [_])
    rw [h.order, List.append_assoc]
  · intro item hmem
    change item.addr < s.nextItem + 1
    rcases List.mem_append.mp hmem with hold | hnew
    · exact Nat.lt_succ_of_lt (h.addr_lt item hold)
    · rw [List.mem_singleton.mp hnew]
      exact Nat.lt_succ_self _
  · exact List.nodup_append.mpr ⟨h.nodup, List.nodup_singleton _, fun a ha b hb hab =>
      hfresh (by rw [← List.mem_singleton.mp hb, ← hab]; exact ha)⟩

end Accounted
end Calls

/-- The ids of the requests handed to the helper. -/
def Kernel.rtdIds (k : Kernel) : List Int := k.rtdreqs.map fun item => (k.req item.r).id

/-! ## Clients -/

/-- What a label does to the queues. -/
inductive CallStep.Kind where
  /-- A statement of a call, or of the ioctl, that does not look at the queues. -/
  | inside
  | append
  | edit
  /-- A section of `kgpu_read` or `kgpu_write`. -/
  | device
  deriving DecidableEq

def CallStep.kind : CallStep T → CallStep.Kind
  | .callAsync .. | .callSync .. | .allocData .. | .allocItem .. | .swap _ | .wake _ | .signal _
  | .finish _ | .setStop => .inside
  | .append _ => .append
  | .edit .. => .edit
  | .readTake _ | .readRetire | .writeFind .. | .writeComplete => .device

namespace Calls

variable [DecidableEq T] {s s' : Calls T}

theorem swapCallback_id (k : Kernel) (r : ReqPtr) (d : DataPtr) (r' : ReqPtr) :
    ((swapCallback k r d).req r').id = (k.req r').id := by
  by_cases h : r' = r
  · subst h; simp [swapCallback]
  · simp [swapCallback, h]

theorem restoreCallback_id (k : Kernel) (r : ReqPtr) (d : DataPtr) (r' : ReqPtr) :
    ((restoreCallback k r d).req r').id = (k.req r').id := by
  by_cases h : r' = r
  · subst h; simp [restoreCallback]
  · simp [restoreCallback, h]

/-- The test of the state leaves the kernel alone. -/
theorem enter_kernel {t : T} {pc : CallPc} (hs : s.enter t pc = some s') :
    s'.kernel = s.kernel := by
  unfold enter at hs
  split at hs
  next =>
    cases hs
    split <;> rfl
  next => cases hs

theorem enter_same {t : T} {pc : CallPc} (hs : s.enter t pc = some s') :
    s.SameQueues s' ∧ s.SameIds s' := by
  unfold enter at hs
  split at hs
  next =>
    cases hs
    split <;> exact ⟨⟨rfl, rfl, rfl, rfl, rfl, rfl, rfl, rfl⟩, fun _ => rfl⟩
  next => cases hs

/-- The statements of a call around the append leave queues and ids alone. -/
theorem step_inside {l : CallStep T} (hl : l.kind = .inside) (hs : s.step l = some s') :
    s.SameQueues s' ∧ s.SameIds s' := by
  cases step_case hs with
  | asyncAppended | syncAppended | taken | retired | tooShort | unknown | found | completed
  | edited => cases hl
  | asyncEntered hs | syncEntered hs => exact enter_same hs
  | swapped => exact ⟨⟨rfl, rfl, rfl, rfl, rfl, rfl, rfl, rfl⟩, swapCallback_id _ _ _⟩
  | finished => exact ⟨⟨rfl, rfl, rfl, rfl, rfl, rfl, rfl, rfl⟩, restoreCallback_id _ _ _⟩
  | gotData | noData | asyncGotItem | asyncNoItem | syncGotItem | syncNoItem | woken | signalled
  | stopped => exact ⟨⟨rfl, rfl, rfl, rfl, rfl, rfl, rfl, rfl⟩, fun _ => rfl⟩

/-- An append puts one new item at the end of `reqs`. -/
theorem step_append {t : T} (hs : s.step (.append t) = some s') :
    ∃ r, (s.push r).SameQueues s' ∧ s.SameIds s' := by
  cases step_case hs with
  | asyncAppended | syncAppended =>
    exact ⟨_, ⟨rfl, rfl, rfl, rfl, rfl, rfl, rfl, rfl⟩, fun _ => rfl⟩

theorem step_edit {r : ReqPtr} {q : KgpuRequest} (hs : s.step (.edit r q) = some s') :
    s.SameQueues s' ∧ s'.kernel.req = Function.update s.kernel.req r q := by
  cases step_case hs with
  | edited => exact ⟨⟨rfl, rfl, rfl, rfl, rfl, rfl, rfl, rfl⟩, rfl⟩

/-- What a step of a client can change is the queue `reqs`, and the ids of requests
    that are not in flight. -/
theorem step_client {l : CallStep T} (hl : l.kind ≠ .device)
    (hok : ∀ r q, l = .edit r q → q.id = (s.kernel.req r).id ∨ r ∉ s.pending.map (·.r))
    (hs : s.step l = some s') :
    s'.dev = s.dev ∧ s'.kernel.rtdreqs = s.kernel.rtdreqs ∧
    s'.kernel.callbacks = s.kernel.callbacks ∧ s'.written = s.written ∧
    ∀ item ∈ s.pending, (s'.kernel.req item.r).id = (s.kernel.req item.r).id := by
  cases hk : l.kind with
  | device => exact absurd hk hl
  | inside =>
    obtain ⟨hsame, hids⟩ := step_inside hk hs
    exact ⟨hsame.dev, hsame.rtdreqs, hsame.callbacks, hsame.written, fun item _ => hids item.r⟩
  | append =>
    cases l with
    | append t =>
      obtain ⟨r, hsame, hids⟩ := step_append hs
      exact ⟨hsame.dev, hsame.rtdreqs, hsame.callbacks, hsame.written, fun item _ => hids item.r⟩
    | _ => cases hk
  | edit =>
    cases l with
    | edit r q =>
      obtain ⟨hsame, hreq⟩ := step_edit hs
      refine ⟨hsame.dev, hsame.rtdreqs, hsame.callbacks, hsame.written, fun item hmem => ?_⟩
      rw [hreq]
      by_cases hr : item.r = r
      · have hin : r ∈ s.pending.map (·.r) := List.mem_map.mpr ⟨item, hmem, hr⟩
        rw [hr, Function.update_self]
        exact (hok r q rfl).resolve_right fun hout => hout hin
      · rw [Function.update_of_ne hr]
    | _ => cases hk

namespace Accounted

/-- A step of a client. -/
theorem client (h : s.Accounted) {l : CallStep T} (hl : l.kind ≠ .device)
    (hs : s.step l = some s') : s'.Accounted := by
  cases hk : l.kind with
  | device => exact absurd hk hl
  | inside => exact h.congr (step_inside hk hs).1
  | append =>
    cases l with
    | append t =>
      obtain ⟨r, hsame, -⟩ := step_append hs
      exact (h.push r).congr hsame
    | _ => cases hk
  | edit =>
    cases l with
    | edit r q => exact h.congr (step_edit hs).1
    | _ => cases hk

end Accounted

/-! ## The device -/

/-- The locked section of `kgpu_read`. -/
theorem step_readTake {c : UL} (hs : s.step (.readTake c) = some s') :
    s.dev = .idle ∧ ∃ item rest, s.kernel.reqs = item :: rest ∧
      s' = { s with
        kernel := { s.kernel with reqs := rest }
        dev := .reading item (s.kernel.gmpool.fillKuRequest (s.kernel.req item.r)) c
        handed := s.handed ++ [item] } := by
  cases step_case hs with
  | taken hdev hreqs => exact ⟨hdev, _, _, hreqs, rfl⟩

/-- The end of a `kgpu_read` with a positive count. -/
theorem step_readRetire {item : RequestItem} {kureq : KuRequest} {c : UL} (hc : 0 < c.toInt)
    (hdev : s.dev = .reading item kureq c) (hs : s.step .readRetire = some s') :
    s' = { s with
      kernel := { s.kernel with
        rtdreqs := s.kernel.rtdreqs ++ [item], fpos := s.kernel.fpos + c.toInt }
      dev := .idle } := by
  simp only [Calls.step, hdev, Kernel.readRetire, if_pos hc] at hs
  exact (Option.some.inj hs).symm

/-- The look-up of `kgpu_write`, with a response of full length. -/
theorem step_writeFind {resp : KuResponse} (hs : s.step (.writeFind kuResponseSize resp) = some s') :
    s.dev = .idle ∧
    (((∀ item ∈ s.kernel.rtdreqs, (s.kernel.req item.r).id ≠ resp.id) ∧
      s' = { s with written := s.written ++ [Kernel.eFAULT] }) ∨
    ∃ item ∈ s.kernel.rtdreqs, (s.kernel.req item.r).id = resp.id ∧
      s' = { s with
        kernel := { s.kernel with rtdreqs := s.kernel.rtdreqs.erase item }
        dev := .writing item kuResponseSize resp }) := by
  cases step_case hs with
  | tooShort hdev hshort => exact absurd hshort (by decide)
  | unknown hdev _ hnone => exact ⟨hdev, .inl ⟨hnone, rfl⟩⟩
  | found hdev _ hmem hid => exact ⟨hdev, .inr ⟨_, hmem, hid, rfl⟩⟩

/-- The rest of `kgpu_write`. -/
theorem step_writeComplete {item : RequestItem} {count : UL} {resp : KuResponse}
    (hdev : s.dev = .writing item count resp) (hs : s.step .writeComplete = some s') :
    s'.kernel.reqs = s.kernel.reqs ∧ s'.kernel.rtdreqs = s.kernel.rtdreqs ∧
    s'.kernel.callbacks = s.kernel.callbacks ++ [(item, (s.kernel.req item.r).callback)] ∧
    s'.dev = .idle ∧ s'.nextItem = s.nextItem ∧ s'.accepted = s.accepted ∧ s'.handed = s.handed ∧
    s'.written = s.written ++ [count.toInt] ∧ s.SameIds s' := by
  simp only [Calls.step, hdev] at hs
  cases hs
  exact ⟨rfl, rfl, Kernel.writeComplete_callbacks, rfl, rfl, rfl, rfl, rfl,
    fun _ => Kernel.writeComplete_id⟩

namespace Accounted

theorem readTake (h : s.Accounted) {c : UL} (hs : s.step (.readTake c) = some s') :
    s'.Accounted := by
  obtain ⟨hdev, item, rest, hreqs, rfl⟩ := step_readTake hs
  refine ⟨?_, h.addr_lt, h.nodup, ?_⟩
  · change s.accepted = (s.handed ++ [item]) ++ rest
    rw [h.order, hreqs]
    simp
  · have hplaces := h.places
    rw [hdev] at hplaces
    exact (List.perm_append_singleton item s.handed).trans (hplaces.cons item)

theorem readRetire (h : s.Accounted) {item : RequestItem} {kureq : KuRequest} {c : UL}
    (hc : 0 < c.toInt) (hdev : s.dev = .reading item kureq c) (hs : s.step .readRetire = some s') :
    s'.Accounted := by
  have hplaces := h.places
  rw [hdev] at hplaces
  rw [step_readRetire hc hdev hs]
  refine ⟨h.order, h.addr_lt, h.nodup, hplaces.trans ?_⟩
  change ([item] ++ (s.kernel.rtdreqs ++ _)).Perm ((s.kernel.rtdreqs ++ [item]) ++ _)
  rw [← List.append_assoc]
  exact List.perm_append_comm.append_right _

theorem writeFind (h : s.Accounted) {resp : KuResponse}
    (hs : s.step (.writeFind kuResponseSize resp) = some s') : s'.Accounted := by
  obtain ⟨hdev, ⟨-, rfl⟩ | ⟨item, hmem, -, rfl⟩⟩ := step_writeFind hs
  · exact ⟨h.order, h.addr_lt, h.nodup, h.places⟩
  · have hplaces := h.places
    rw [hdev] at hplaces
    refine ⟨h.order, h.addr_lt, h.nodup, hplaces.trans ?_⟩
    exact (List.perm_cons_erase hmem).append_right _

theorem writeComplete (h : s.Accounted) {item : RequestItem} {count : UL} {resp : KuResponse}
    (hdev : s.dev = .writing item count resp) (hs : s.step .writeComplete = some s') :
    s'.Accounted := by
  obtain ⟨hreqs, hrtd, hcb, hdev', hnext, hacc, hhand, -, -⟩ := step_writeComplete hdev hs
  refine ⟨?_, ?_, ?_, ?_⟩
  · rw [hacc, hhand, hreqs]
    exact h.order
  · rw [hacc, hnext]
    exact h.addr_lt
  · rw [hacc]
    exact h.nodup
  · have hplaces := h.places
    rw [hdev] at hplaces
    rw [hhand, hdev', hrtd, hcb, List.map_append]
    refine hplaces.trans ?_
    change ([item] ++ _).Perm (s.kernel.rtdreqs ++ (s.kernel.callbacks.map (·.1) ++ [item]))
    rw [← List.append_assoc s.kernel.rtdreqs]
    exact List.perm_append_comm

end Accounted
end Calls
end Kgpu
