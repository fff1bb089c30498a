-- SUMMARY: The objects of the two slab caches that the calls of kernel clients use, and what a rejected call leaves.
import Kgpu.Kernel.SyncCall
import Kgpu.Library.Ledger

/-!
# Slab objects

`kgpu_call_async` takes a queue item from its cache, and `kgpu_call_sync` sync-call data
and then an item. `kgpu_write` frees the item it has completed, and `kgpu_call_sync` frees
its data after the wait. The caches are kept here beside the threads of `Calls`, as the
lists of the objects that are out.
-/

namespace Kgpu

open Library

variable {T : Type}

/-- A call has an item that it has not appended yet. -/
def CallPc.hasItem : CallPc → Bool
  | .asyncItem _ | .syncItem .. | .swapped .. => true
  | _ => false

/-- An object of `kgpu_request_item_cache`: of a call that has not appended it, or named by
    its address. -/
inductive ItemObject (T : Type) where
  | inHand (t : T)
  | linked (item : RequestItem)
  deriving DecidableEq

/-- The system and the objects that are out of each cache. -/
structure Slabs (T : Type) where
  calls : Calls T
  items : List (ItemObject T)
  datas : List DataPtr

namespace Slabs

section Steps

variable [DecidableEq T]

/-- The items that are out after a step. -/
def itemsAfter (s : Slabs T) : CallStep T → List (ItemObject T)
  | .allocItem t true => .inHand t :: s.items
  | .append t =>
    match (s.calls.pc t).req with
    | some r => .linked ⟨s.calls.nextItem, r⟩ :: s.items.erase (.inHand t)
    | none => s.items
  | .writeComplete =>
    match s.calls.dev with
    | .writing item _ _ => s.items.erase (.linked item)
    | _ => s.items
  | _ => s.items

/-- The sync-call data that is out after a step. -/
def datasAfter (s : Slabs T) : CallStep T → List DataPtr
  | .allocData _ true => s.calls.nextData :: s.datas
  | .finish t =>
    match (s.calls.pc t).data with
    | some d => s.datas.erase d
    | none => s.datas
  | _ => s.datas

def step (s : Slabs T) (l : CallStep T) : Option (Slabs T) :=
  (s.calls.step l).map fun calls => ⟨calls, s.itemsAfter l, s.datasAfter l⟩

end Steps

/-- The state `kgpu_init` leaves: nothing is out. -/
def init (sync : DataPtr → SyncCallData) (pool : Mempool) : Slabs T := ⟨.init sync pool, [], []⟩

/-! ## One call -/

/-- A call on a request, with the outcomes of its allocations. -/
inductive Submission where
  | async (r : ReqPtr) (okItem : Bool)
  | sync (r : ReqPtr) (okData okItem : Bool)
  deriving DecidableEq

/-- The statements of the call up to its return, or to the wait of a sync call. -/
def Submission.steps (t : T) (terminated : Bool) : Submission → List (CallStep T)
  | .async r okItem =>
    .callAsync t r :: if terminated then [] else
      .allocItem t okItem :: if okItem then [.append t] else []
  | .sync r okData okItem =>
    .callSync t r :: if terminated then [] else
      .allocData t okData :: if okData then
        .allocItem t okItem :: if okItem then [.swap t, .append t] else []
      else []

variable [DecidableEq T]

/-- When the call returns a code that is not 0, the queues, the requests and both caches
    are as before. -/
def RejectionClean (s : Slabs T) (t : T) (sub : Submission) : Prop :=
  ∀ s' code, exec step (sub.steps t s.calls.kernel.terminated) s = some s' →
    s'.calls.returned = s.calls.returned ++ [(t, code)] → code ≠ 0 →
    s'.calls.kernel = s.calls.kernel ∧ s'.items = s.items ∧ s'.datas = s.datas

/-- The call that gets its data and no item returns without freeing the data. -/
theorem exec_sync_without_item {s : Slabs T} {t : T} (hidle : s.calls.pc t = .idle)
    (hterm : s.calls.kernel.terminated = false) (r : ReqPtr) :
    exec step (Submission.steps t s.calls.kernel.terminated (.sync r true false)) s = some
      ⟨{ s.calls.goto t .idle with
          nextData := s.calls.nextData + 1
          returned := s.calls.returned ++ [(t, Kernel.eNOMEM)] },
        s.items, s.calls.nextData :: s.datas⟩ := by
  simp [Submission.steps, hterm, exec, step, itemsAfter, datasAfter, Calls.step, Calls.enter, hidle,
    Calls.goto, Calls.ret]

/-- A rejected call leaves everything as it was unless it is a `kgpu_call_sync` that got its
    data and no item. -/
theorem rejectionClean_iff {s : Slabs T} {t : T} (hidle : s.calls.pc t = .idle)
    (sub : Submission) :
    s.RejectionClean t sub ↔
      s.calls.kernel.terminated = true ∨ ∀ r, sub ≠ .sync r true false := by
  cases hterm : s.calls.kernel.terminated with
  | true =>
    refine iff_of_true (fun s' code hs _ _ => ?_) (.inl rfl)
    cases sub <;>
    · simp only [Submission.steps, hterm, exec, step, Calls.step, Calls.enter, hidle,
        Option.map_some, Option.bind_some, if_true] at hs
      cases hs
      exact ⟨rfl, rfl, rfl⟩
  | false =>
    rw [or_iff_right (by decide)]
    constructor
    · rintro h r rfl
      obtain ⟨-, -, hdatas⟩ := h _ Kernel.eNOMEM (exec_sync_without_item hidle hterm r) rfl (by decide)
      exact List.cons_ne_self _ _ hdatas
    · intro hnot s' code hs hret hne
      rcases sub with ⟨r, _ | _⟩ | ⟨r, _ | _, _ | _⟩
      case sync.true.false => exact absurd rfl (hnot r)
      all_goals
        simp [Submission.steps, hterm, exec, step, Calls.step, Calls.enter, hidle, Calls.goto,
          Calls.ret] at hs
        subst hs
      case async.true =>
        -- The call was accepted and has returned 0.
        simp only [Calls.push, List.append_cancel_left_eq, List.cons.injEq, Prod.mk.injEq] at hret
        exact absurd hret.1.2.symm hne
      case sync.true.true =>
        -- The call waits.
        simp [Calls.push] at hret
      all_goals exact ⟨rfl, rfl, rfl⟩

end Slabs

/-! ## Who holds what -/

namespace Calls

variable {s s' : Calls T} {t : T}

/-- The item is on its way from its append to its completion, or a call has it in hand. -/
def HoldsItem (s : Calls T) : ItemObject T → Prop
  | .inHand t => (s.pc t).hasItem = true
  | .linked item => item ∈ s.pending

/-- A sync call has the data. -/
def HoldsData (s : Calls T) (d : DataPtr) : Prop := ∃ t, (s.pc t).data = some d

/-- A step that moves no object of the caches: items may go from one queue to another. -/
structure SameObjects (s s' : Calls T) : Prop where
  pending : s'.pending.Perm s.pending
  hasItem : ∀ t, (s'.pc t).hasItem = (s.pc t).hasItem
  data : ∀ t, (s'.pc t).data = (s.pc t).data
  nextItem : s'.nextItem = s.nextItem
  nextData : s'.nextData = s.nextData

variable [DecidableEq T]

/-- A thread goes on with the data it has. -/
theorem data_update {pc : CallPc} (hpc : s'.pc = Function.update s.pc t pc)
    (hdata : pc.data = (s.pc t).data) (t' : T) : (s'.pc t').data = (s.pc t').data := by
  rw [hpc]
  by_cases ht : t' = t
  · rw [ht, Function.update_self, hdata]
  · rw [Function.update_of_ne ht]

theorem hasItem_update {pc : CallPc} (hpc : s'.pc = Function.update s.pc t pc) (t' : T) :
    (s'.pc t').hasItem = if t' = t then pc.hasItem else (s.pc t').hasItem := by
  rw [hpc]
  by_cases ht : t' = t
  · rw [ht, Function.update_self, if_pos rfl]
  · rw [Function.update_of_ne ht, if_neg ht]

/-- A thread goes on with the objects it has. -/
theorem SameObjects.goto {pc : CallPc} (hpc : s'.pc = Function.update s.pc t pc)
    (hitem : pc.hasItem = (s.pc t).hasItem) (hdata : pc.data = (s.pc t).data)
    (hpending : s'.pending = s.pending) (hnext : s'.nextItem = s.nextItem)
    (hnext' : s'.nextData = s.nextData) : SameObjects s s' := by
  refine ⟨hpending ▸ .refl _, fun t' => ?_, data_update hpc hdata, hnext, hnext'⟩
  rw [hasItem_update hpc]
  split
  next ht => rw [ht, hitem]
  next => rfl

theorem enter_sameObjects {pc : CallPc} (hitem : pc.hasItem = false) (hdata : pc.data = none)
    (hs : s.enter t pc = some s') : SameObjects s s' ∧ s'.dev = s.dev := by
  unfold enter at hs
  split at hs
  next hidle =>
    cases hs
    split
    · exact ⟨.goto rfl (by rw [hidle]) (by rw [hidle]) rfl rfl rfl, rfl⟩
    · exact ⟨.goto rfl (by rw [hidle]; exact hitem) (by rw [hidle]; exact hdata) rfl rfl rfl, rfl⟩
  next => cases hs

/-- No two objects have one address, and new addresses are not in use. -/
structure Apart (s : Calls T) : Prop where
  pending_nodup : s.pending.Nodup
  addr_lt : ∀ item ∈ s.pending, item.addr < s.nextItem
  data_lt : ∀ t d, (s.pc t).data = some d → d < s.nextData
  one_data : ∀ t t' d, (s.pc t).data = some d → (s.pc t').data = some d → t = t'

omit [DecidableEq T] in
/-- The data is with the same calls. -/
theorem Apart.queues (h : s.Apart) (hdata : ∀ t, (s'.pc t).data = (s.pc t).data)
    (hnext : s'.nextData = s.nextData) (hnodup : s'.pending.Nodup)
    (hlt : ∀ item ∈ s'.pending, item.addr < s'.nextItem) : s'.Apart := by
  refine ⟨hnodup, hlt, ?_, ?_⟩
  · simp only [hdata, hnext]
    exact h.data_lt
  · simp only [hdata]
    exact h.one_data

omit [DecidableEq T] in
theorem Apart.same (h : s.Apart) (hsame : s.SameObjects s') : s'.Apart := by
  refine h.queues hsame.data hsame.nextData (hsame.pending.nodup_iff.mpr h.pending_nodup) ?_
  intro item hmem
  rw [hsame.nextItem]
  exact h.addr_lt item (hsame.pending.mem_iff.mp hmem)

omit [DecidableEq T] in
theorem SameObjects.holdsItem (hsame : s.SameObjects s') (o : ItemObject T) :
    s'.HoldsItem o ↔ s.HoldsItem o := by
  cases o with
  | inHand t => simp only [HoldsItem, hsame.hasItem]
  | linked item => exact hsame.pending.mem_iff

omit [DecidableEq T] in
theorem SameObjects.holdsData (hsame : s.SameObjects s') (d : DataPtr) :
    s'.HoldsData d ↔ s.HoldsData d := by
  simp only [HoldsData, hsame.data]

end Calls

namespace Slabs

variable [DecidableEq T] {s s' : Slabs T} {t : T}

/-- Both caches are in order, and every read is one of the whole record. -/
structure Kept (s : Slabs T) : Prop where
  items : Ledger s.items s.calls.HoldsItem
  datas : Ledger s.datas s.calls.HoldsData
  apart : s.calls.Apart
  full : ∀ item kureq c, s.calls.dev = .reading item kureq c → c = kuRequestSize

/-- No sync call gets its data and then no item, and every read asks for the whole
    record. -/
def Provided (s : Slabs T) : CallStep T → Prop
  | .allocItem t false => ∀ r d, s.calls.pc t ≠ .syncData r d
  | .readTake c => c = kuRequestSize
  | _ => True

omit [DecidableEq T] in
theorem Kept.same (h : s.Kept) {calls : Calls T} (hsame : s.calls.SameObjects calls)
    (hfull : ∀ item kureq c, calls.dev = .reading item kureq c → c = kuRequestSize) :
    Kept ⟨calls, s.items, s.datas⟩ :=
  ⟨h.items.congr hsame.holdsItem, h.datas.congr hsame.holdsData, h.apart.same hsame, hfull⟩

theorem Kept.enter (h : s.Kept) {pc : CallPc} {calls : Calls T} (hitem : pc.hasItem = false)
    (hdata : pc.data = none) (hs : s.calls.enter t pc = some calls) :
    Kept ⟨calls, s.items, s.datas⟩ := by
  obtain ⟨hsame, hdev⟩ := Calls.enter_sameObjects hitem hdata hs
  exact h.same hsame (hdev ▸ h.full)

/-- A thread goes on with the objects it has. -/
theorem Kept.goto (h : s.Kept) {pc pc' : CallPc} {calls : Calls T} (hold : s.calls.pc t = pc)
    (hpc : calls.pc = Function.update s.calls.pc t pc') (hitem : pc'.hasItem = pc.hasItem)
    (hdata : pc'.data = pc.data) (hpending : calls.pending = s.calls.pending)
    (hnext : calls.nextItem = s.calls.nextItem) (hnext' : calls.nextData = s.calls.nextData)
    (hdev : calls.dev = s.calls.dev) : Kept ⟨calls, s.items, s.datas⟩ :=
  h.same (.goto hpc (hold ▸ hitem) (hold ▸ hdata) hpending hnext hnext') (hdev ▸ h.full)

/-- A sync call gets its data. -/
theorem Kept.allocData (h : s.Kept) {r : ReqPtr} (hpc : s.calls.pc t = .syncTested r) :
    Kept ⟨{ s.calls.goto t (.syncData r s.calls.nextData) with nextData := s.calls.nextData + 1 },
      s.items, s.calls.nextData :: s.datas⟩ := by
  have hnew : ∀ t', (s.calls.pc t').data ≠ some s.calls.nextData :=
    fun t' hd => Nat.lt_irrefl _ (h.apart.data_lt t' _ hd)
  have hdata : ∀ t', (Function.update s.calls.pc t (.syncData r s.calls.nextData) t').data =
      if t' = t then some s.calls.nextData else (s.calls.pc t').data := by
    intro t'
    by_cases ht : t' = t
    · simp [ht, CallPc.data]
    · simp [ht]
  refine ⟨h.items.congr fun o => ?_, h.datas.give (not_exists.mpr hnew) fun d => ?_,
    ⟨h.apart.pending_nodup, h.apart.addr_lt, fun t' d hd => ?_, fun t₁ t₂ d h₁ h₂ => ?_⟩, h.full⟩
  · cases o with
    | linked item => exact Iff.rfl
    | inHand t' =>
      by_cases ht : t' = t
      · simp [Calls.HoldsItem, Calls.goto, ht, hpc, CallPc.hasItem]
      · simp [Calls.HoldsItem, Calls.goto, ht]
  · simp only [Calls.HoldsData, Calls.goto, hdata]
    have hold : (s.calls.pc t).data = none := by rw [hpc]; rfl
    grind
  · have := h.apart.data_lt t' d
    simp only [Calls.goto, hdata] at hd
    grind
  · have := h.apart.one_data t₁ t₂ d
    simp only [Calls.goto, hdata] at h₁ h₂
    grind

/-- A call gets an item. -/
theorem Kept.allocItem (h : s.Kept) {pc : CallPc} (hno : (s.calls.pc t).hasItem = false)
    (hitem : pc.hasItem = true) (hdata : pc.data = (s.calls.pc t).data) :
    Kept ⟨s.calls.goto t pc, .inHand t :: s.items, s.datas⟩ := by
  have hpc : (s.calls.goto t pc).pc = Function.update s.calls.pc t pc := rfl
  have hsame := Calls.data_update hpc hdata
  refine ⟨h.items.give (by simp [Calls.HoldsItem, hno]) fun o => ?_, h.datas.congr fun d => ?_,
    h.apart.queues hsame rfl h.apart.pending_nodup h.apart.addr_lt, h.full⟩
  · cases o with
    | linked item => simp [Calls.HoldsItem, Calls.goto, Calls.pending]
    | inHand t' =>
      simp only [Calls.HoldsItem, Calls.hasItem_update hpc t', ItemObject.inHand.injEq, hitem]
      split <;> simp_all
  · simp only [Calls.HoldsData, hsame]

/-- The item in hand gets its address and is appended. -/
theorem Kept.append (h : s.Kept) {r : ReqPtr} {pc : CallPc} {calls : Calls T}
    (hhas : (s.calls.pc t).hasItem = true) (hitem : pc.hasItem = false)
    (hdata : pc.data = (s.calls.pc t).data) (hpc : calls.pc = Function.update s.calls.pc t pc)
    (hpending : calls.pending.Perm (⟨s.calls.nextItem, r⟩ :: s.calls.pending))
    (hnext : calls.nextItem = s.calls.nextItem + 1) (hnext' : calls.nextData = s.calls.nextData)
    (hdev : calls.dev = s.calls.dev) :
    Kept ⟨calls, .linked ⟨s.calls.nextItem, r⟩ :: s.items.erase (.inHand t), s.datas⟩ := by
  have hsame := Calls.data_update hpc hdata
  have hnew : (⟨s.calls.nextItem, r⟩ : RequestItem) ∉ s.calls.pending :=
    fun hmem => Nat.lt_irrefl _ (h.apart.addr_lt _ hmem)
  -- The object is taken from the hand and given to the queue.
  have hgone : Ledger (s.items.erase (.inHand t)) fun o => o ≠ .inHand t ∧ s.calls.HoldsItem o :=
    h.items.take fun o => Iff.rfl
  refine ⟨hgone.give (fun hheld => hnew hheld.2) fun o => ?_, h.datas.congr fun d => ?_,
    h.apart.queues hsame hnext' ?_ fun item hmem => ?_, hdev ▸ h.full⟩
  · cases o with
    | linked item => simp [Calls.HoldsItem, hpending.mem_iff]
    | inHand t' =>
      simp only [Calls.HoldsItem, Calls.hasItem_update hpc t', hitem]
      split <;> simp_all
  · simp only [Calls.HoldsData, hsame]
  · exact hpending.nodup_iff.mpr (List.nodup_cons.mpr ⟨hnew, h.apart.pending_nodup⟩)
  · rw [hnext]
    rcases List.mem_cons.mp (hpending.mem_iff.mp hmem) with rfl | hold
    · exact Nat.lt_succ_self _
    · exact Nat.lt_succ_of_lt (h.apart.addr_lt item hold)

/-- A sync call frees its data. -/
theorem Kept.finish (h : s.Kept) {d : DataPtr} {calls : Calls T}
    (hdata : (s.calls.pc t).data = some d) (hitem : (s.calls.pc t).hasItem = false)
    (hpc : calls.pc = Function.update s.calls.pc t .idle) (hpending : calls.pending = s.calls.pending)
    (hnext : calls.nextItem = s.calls.nextItem) (hnext' : calls.nextData = s.calls.nextData)
    (hdev : calls.dev = s.calls.dev) : Kept ⟨calls, s.items, s.datas.erase d⟩ := by
  have hother : ∀ t', (calls.pc t').data = if t' = t then none else (s.calls.pc t').data := by
    intro t'
    rw [hpc]
    by_cases ht : t' = t
    · simp [ht, CallPc.data]
    · simp [ht]
  refine ⟨h.items.congr fun o => ?_, h.datas.take fun d' => ?_,
    ⟨hpending ▸ h.apart.pending_nodup, ?_, fun t' d' hd => ?_, fun t₁ t₂ d' h₁ h₂ => ?_⟩,
    hdev ▸ h.full⟩
  · cases o with
    | linked item => simp only [Calls.HoldsItem, hpending]
    | inHand t' =>
      simp only [Calls.HoldsItem]
      rw [Calls.hasItem_update hpc t']
      split
      next ht => rw [ht, hitem]; exact Iff.rfl
      next => rfl
  · simp only [Calls.HoldsData, hother]
    have hone := h.apart.one_data t
    grind
  · rw [hpending, hnext]
    exact h.apart.addr_lt
  · have := h.apart.data_lt t' d'
    rw [hother] at hd
    grind
  · have := h.apart.one_data t₁ t₂ d'
    rw [hother] at h₁ h₂
    grind

/-- `kgpu_write` frees the item that it has completed. -/
theorem Kept.complete (h : s.Kept) {item : RequestItem} {calls : Calls T}
    (hpending : s.calls.pending.Perm (item :: calls.pending)) (hpc : calls.pc = s.calls.pc)
    (hnext : calls.nextItem = s.calls.nextItem) (hnext' : calls.nextData = s.calls.nextData)
    (hdev : calls.dev = .idle) : Kept ⟨calls, s.items.erase (.linked item), s.datas⟩ := by
  obtain ⟨hout, hnodup⟩ := List.nodup_cons.mp (hpending.nodup_iff.mp h.apart.pending_nodup)
  refine ⟨h.items.take fun o => ?_, h.datas.congr fun d => ?_,
    h.apart.queues (fun t => by rw [hpc]) hnext' hnodup fun i hi => ?_, fun i kureq c hread => ?_⟩
  · cases o with
    | linked i =>
      simp only [Calls.HoldsItem, hpending.mem_iff, List.mem_cons, ne_eq, ItemObject.linked.injEq]
      constructor
      · intro hi
        refine ⟨?_, .inr hi⟩
        rintro rfl
        exact hout hi
      · rintro ⟨hne, rfl | hi⟩
        · exact absurd rfl hne
        · exact hi
    | inHand t => simp [Calls.HoldsItem, hpc]
  · simp only [Calls.HoldsData, hpc]
  · rw [hnext]
    exact h.apart.addr_lt i (hpending.mem_iff.mpr (.tail _ hi))
  · rw [hdev] at hread
    cases hread

/-! ## The sections of `kgpu_read` and `kgpu_write` -/

omit [DecidableEq T] in
theorem Kept.readTake (h : s.Kept) {item : RequestItem} {rest : List RequestItem} {c : UL}
    (hfull : c = kuRequestSize) (hdev : s.calls.dev = .idle)
    (hreqs : s.calls.kernel.reqs = item :: rest) {kureq : KuRequest} :
    Kept ⟨{ s.calls with
      kernel := { s.calls.kernel with reqs := rest }
      dev := .reading item kureq c
      handed := s.calls.handed ++ [item] }, s.items, s.datas⟩ := by
  refine h.same ⟨?_, fun _ => rfl, fun _ => rfl, rfl, rfl⟩ fun i kureq c' hread => ?_
  · simp [Calls.pending, hdev, hreqs, DevPc.held]
  · cases hread
    exact hfull

omit [DecidableEq T] in
theorem Kept.readRetire (h : s.Kept) {item : RequestItem} {kureq : KuRequest} {c : UL}
    (hdev : s.calls.dev = .reading item kureq c) :
    Kept ⟨{ s.calls with kernel := (s.calls.kernel.readRetire c item).2, dev := .idle },
      s.items, s.datas⟩ := by
  have hpos : 0 < kuRequestSize.toInt := by decide
  obtain rfl := h.full item kureq c hdev
  refine h.same ⟨?_, fun _ => rfl, fun _ => rfl, rfl, rfl⟩ fun i kureq c' hread => by cases hread
  simp only [Calls.pending, hdev, DevPc.held, Kernel.readRetire, hpos, if_true, List.nil_append]
  exact List.perm_append_comm.append_left _

omit [DecidableEq T] in
theorem Kept.found (h : s.Kept) {item : RequestItem} {count : UL} {resp : KuResponse}
    (hdev : s.calls.dev = .idle) (hmem : item ∈ s.calls.kernel.rtdreqs) :
    Kept ⟨{ s.calls with
      kernel := { s.calls.kernel with rtdreqs := s.calls.kernel.rtdreqs.erase item }
      dev := .writing item count resp }, s.items, s.datas⟩ := by
  refine h.same ⟨?_, fun _ => rfl, fun _ => rfl, rfl, rfl⟩ fun i kureq c hread => by cases hread
  simp only [Calls.pending, hdev, DevPc.held]
  exact (List.perm_cons_erase hmem).symm.append_left _

theorem Kept.step (h : s.Kept) {l : CallStep T} (hok : s.Provided l) (hs : s.step l = some s') :
    s'.Kept := by
  obtain ⟨calls, hcalls, rfl⟩ := Option.map_eq_some_iff.mp hs
  cases Calls.step_case hcalls with
  | asyncEntered hs => exact h.enter rfl rfl hs
  | syncEntered hs => exact h.enter rfl rfl hs
  | gotData hpc => exact h.allocData hpc
  | noData hpc | asyncNoItem hpc | swapped hpc | woken hpc | signalled hpc =>
    exact h.goto hpc rfl rfl rfl rfl rfl rfl rfl
  | asyncGotItem hpc | syncGotItem hpc =>
    exact h.allocItem (by rw [hpc]; rfl) rfl (by rw [hpc]; rfl)
  | syncNoItem hpc => exact absurd hpc (hok _ _)
  | @asyncAppended t r hpc | @syncAppended t r _ hpc =>
    have hreq : (s.calls.pc t).req = some r := by rw [hpc]; rfl
    simp only [itemsAfter, hreq]
    exact h.append (by rw [hpc]; rfl) rfl (by rw [hpc]; rfl) rfl
      (Calls.SyncInv.pending_push s.calls r) rfl rfl rfl
  | @finished t r d _ hpc =>
    have hdata : (s.calls.pc t).data = some d := by rw [hpc]; rfl
    simp only [datasAfter, hdata]
    exact h.finish hdata (by rw [hpc]; rfl) rfl rfl rfl rfl rfl
  | taken hdev hreqs => exact h.readTake hok hdev hreqs
  | retired hdev => exact h.readRetire hdev
  | tooShort | unknown | stopped | edited =>
    exact h.same ⟨.refl _, fun _ => rfl, fun _ => rfl, rfl, rfl⟩ h.full
  | found hdev _ hmem => exact h.found hdev hmem
  | completed hdev =>
    simp only [itemsAfter, hdev]
    exact h.complete (Calls.SyncInv.pending_writing hdev) rfl rfl rfl rfl

/-! ## Runs -/

omit [DecidableEq T] in
theorem init_kept (sync : DataPtr → SyncCallData) (pool : Mempool) :
    (init sync pool : Slabs T).Kept := by
  refine ⟨⟨List.nodup_nil, fun o => ?_⟩, ⟨List.nodup_nil, fun d => ?_⟩, ⟨List.nodup_nil, ?_, ?_, ?_⟩, ?_⟩
  · cases o <;> simp [init, Calls.init, Calls.HoldsItem, CallPc.hasItem, Calls.pending, DevPc.held]
  · simp [init, Calls.init, Calls.HoldsData, CallPc.data]
  · simp [init, Calls.init, Calls.pending, DevPc.held]
  · simp [init, Calls.init, CallPc.data]
  · simp [init, Calls.init, CallPc.data]
  · simp [init, Calls.init]

/-- No call is under way but the sync calls that wait, and the device is not in a read or a
    write. -/
def Settled (s : Slabs T) : Prop :=
  s.calls.dev = .idle ∧ ∀ t, s.calls.pc t = .idle ∨ ∃ r d item, s.calls.pc t = .waiting r d item

/-- The items that are out are those in the two queues, and the data that is out is that of
    the sync calls that wait, one for each. -/
structure OneEach (s : Slabs T) : Prop where
  items : Ledger s.items fun o =>
    ∃ item ∈ s.calls.kernel.reqs ++ s.calls.kernel.rtdreqs, o = .linked item
  datas : Ledger s.datas fun d => ∃ t r item, s.calls.pc t = .waiting r d item
  one : ∀ t t' r r' d item item', s.calls.pc t = .waiting r d item →
    s.calls.pc t' = .waiting r' d item' → t = t'

omit [DecidableEq T] in
theorem Kept.oneEach (h : s.Kept) (hs : s.Settled) : s.OneEach := by
  obtain ⟨hdev, hpc⟩ := hs
  refine ⟨h.items.congr fun o => ?_, h.datas.congr fun d => ?_, fun t t' r r' d item item' ht ht' => ?_⟩
  · cases o with
    | inHand t =>
      have hnone : (s.calls.pc t).hasItem = false := by
        rcases hpc t with hidle | ⟨r, d, item, hwait⟩
        · rw [hidle]; rfl
        · rw [hwait]; rfl
      simp [Calls.HoldsItem, hnone]
    | linked item =>
      simp [Calls.HoldsItem, Calls.pending, hdev, DevPc.held]
  · constructor
    · rintro ⟨t, r, item, hwait⟩
      exact ⟨t, by rw [hwait]; rfl⟩
    · rintro ⟨t, hdata⟩
      rcases hpc t with hidle | ⟨r, d', item, hwait⟩
      · rw [hidle] at hdata
        cases hdata
      · rw [hwait] at hdata
        cases hdata
        exact ⟨t, r, item, hwait⟩
  · exact h.apart.one_data t t' d (by rw [ht]; rfl) (by rw [ht']; rfl)

/-- For every state and every request, a rejected call leaves queues, requests and caches
    as they were exactly when it is not a `kgpu_call_sync` that got its data and no item. In
    every run without such a call and with reads of the whole record, the objects that are
    out are the items on their way and in the hands of calls and the data of the sync calls;
    between the calls these are the items in the queues and one object for each sync call
    that waits. Such a call leaves data that is out and that no call has. -/
theorem rejected_submission_leaves_nothing (sync : DataPtr → SyncCallData) (pool : Mempool) :
    (∀ (s : Slabs T) t sub, s.calls.pc t = .idle → (s.RejectionClean t sub ↔
      s.calls.kernel.terminated = true ∨ ∀ r, sub ≠ .sync r true false)) ∧
    (∀ ls (s : Slabs T), Run step Provided (init sync pool) ls s →
      Ledger s.items s.calls.HoldsItem ∧ Ledger s.datas s.calls.HoldsData ∧
      (s.Settled → s.OneEach)) ∧
    ∀ ls (s : Slabs T) t r d s', Run step Provided (init sync pool) ls s →
      s.calls.pc t = .syncData r d → s.step (.allocItem t false) = some s' →
      d ∈ s'.datas ∧ ¬ s'.calls.HoldsData d := by
  have hkept : ∀ ls (s : Slabs T), Run step Provided (init sync pool) ls s → s.Kept :=
    fun ls s hrun => hrun.invariant (init_kept sync pool) fun s l s' h hok hs => h.step hok hs
  refine ⟨fun s t sub hidle => rejectionClean_iff hidle sub, fun ls s hrun => ?_,
    fun ls s t r d s' hrun hpc hs => ?_⟩
  · have h := hkept ls s hrun
    exact ⟨h.items, h.datas, h.oneEach⟩
  · have h := hkept ls s hrun
    have hdata : (s.calls.pc t).data = some d := by rw [hpc]; rfl
    simp only [step, Calls.step, hpc, Option.map_some, Option.some.injEq] at hs
    subst hs
    refine ⟨(h.datas.mem_iff d).mpr ⟨t, hdata⟩, ?_⟩
    rintro ⟨t', ht'⟩
    by_cases heq : t' = t
    · simp [Calls.ret, Calls.goto, heq, CallPc.data] at ht'
    · have hold : (s.calls.pc t').data = some d := by simpa [Calls.ret, Calls.goto, heq] using ht'
      exact heq (h.apart.one_data t' t d hold hdata)

/-- A sync call that waits and an async call that got no item. -/
theorem rejected_submission_leaves_nothing_two_calls :
    ∃ s : Slabs Bool, Run step Provided
        (init (fun _ => ⟨.client 0, .client 0, false⟩) (.empty 0x100000 2))
        [.callSync true 0, .allocData true true, .allocItem true true, .swap true, .append true,
          .callAsync false 1, .allocItem false false, .readTake kuRequestSize, .readRetire] s ∧
      s.calls.returned = [(false, Kernel.eNOMEM)] ∧ s.items = [.linked ⟨0, 0⟩] ∧ s.datas = [0] ∧
      s.OneEach ∧ s.RejectionClean false (.async 1 false) := by
  have h := rejected_submission_leaves_nothing (T := Bool) (fun _ => ⟨.client 0, .client 0, false⟩)
    (.empty 0x100000 2)
  have hrun : Run step Provided
      (init (fun _ => ⟨.client 0, .client 0, false⟩) (.empty 0x100000 2) : Slabs Bool)
      [.callSync true 0, .allocData true true, .allocItem true true, .swap true, .append true,
        .callAsync false 1, .allocItem false false, .readTake kuRequestSize, .readRetire] _ :=
    Run.of_along rfl ⟨trivial, trivial, trivial, trivial, trivial, trivial, nofun, rfl, trivial,
      trivial⟩
  refine ⟨_, hrun, rfl, rfl, rfl, (h.2.1 _ _ hrun).2.2 ⟨rfl, fun t => ?_⟩, ?_⟩
  · cases t with
    | true => exact .inr ⟨0, 0, ⟨0, 0⟩, rfl⟩
    | false => exact .inl rfl
  · exact (h.1 _ false (.async 1 false) rfl).mpr (.inr nofun)

/-- A `kgpu_call_sync` that gets its data and no item returns `-ENOMEM` with the data still
    out, and no call waits. -/
theorem not_rejected_submission_leaves_nothing :
    ∃ s : Slabs Unit, Run step Free
        (init (fun _ => ⟨.client 0, .client 0, false⟩) (.empty 0x100000 2))
        [.callSync () 0, .allocData () true, .allocItem () false] s ∧
      s.calls.returned = [((), Kernel.eNOMEM)] ∧ s.calls.pc () = .idle ∧ s.datas = [0] ∧
      ¬ s.OneEach ∧
      ¬ (init (fun _ => ⟨.client 0, .client 0, false⟩) (.empty 0x100000 2) : Slabs Unit).RejectionClean
        () (.sync 0 true false) := by
  refine ⟨_, Run.of_exec rfl, rfl, rfl, rfl, fun h => ?_, fun h => ?_⟩
  · obtain ⟨t, r, item, hwait⟩ := (h.datas.mem_iff 0).mp (by decide)
    cases hwait
  · have hdatas := (h _ Kernel.eNOMEM rfl rfl (by decide)).2.2
    cases hdatas

end Slabs
end Kgpu
