-- SUMMARY: The slab cache of request objects: what `kgpu_alloc_request` returns after any use of the objects.
import Kgpu.Kernel.Routing
import Kgpu.Kernel.Submissions

/-!
# Request objects

`kgpu_alloc_request` and `kgpu_free_request` take objects from a slab cache and
give them back, and touch no field. The constructor runs when the cache creates
an object, so that an object that is handed out again is as its last owner left
it. The cache is kept here beside the threads of `Calls`, which are restricted
to requests that are allocated.
-/

namespace Kgpu

open Library

variable {T : Type}

/-! ## Which requests a step of a call touches -/

/-- The request that a label submits. -/
def CallStep.submits : CallStep T → Option ReqPtr
  | .callAsync _ r | .callSync _ r => some r
  | _ => none

namespace Calls

variable [DecidableEq T] {s s' : Calls T}

/-- Only clients change ids, and no step draws one. -/
theorem step_ids {l : CallStep T} (hl : l.kind ≠ .edit) (hs : s.step l = some s') :
    s.SameIds s' ∧ s'.kernel.ridSequence = s.kernel.ridSequence := by
  cases step_case hs with
  | edited => exact absurd rfl hl
  | asyncEntered hs | syncEntered hs =>
    exact ⟨(enter_same hs).2, by rw [enter_kernel hs]⟩
  | swapped => exact ⟨swapCallback_id _ _ _, rfl⟩
  | finished => exact ⟨restoreCallback_id _ _ _, rfl⟩
  | completed => exact ⟨fun _ => Kernel.writeComplete_id, rfl⟩
  | gotData | noData | asyncGotItem | asyncNoItem | syncGotItem | syncNoItem | asyncAppended
  | syncAppended | woken | signalled | taken | retired | tooShort | unknown | found | stopped =>
    exact ⟨fun _ => rfl, rfl⟩

/-- A thread that moves has its old request, or that of its new place. -/
theorem goto_req {t t' : T} {pc : CallPc} {r : ReqPtr} (hreq : ((s.goto t pc).pc t').req = some r) :
    pc.req = some r ∨ (s.pc t').req = some r := by
  by_cases ht : t' = t
  · subst ht
    simp only [goto, Function.update_self] at hreq
    exact .inl hreq
  · simp only [goto, Function.update_of_ne ht] at hreq
    exact .inr hreq

/-- A thread gets its request at the beginning of a call. -/
theorem step_req_of_thread {l : CallStep T} {t : T} {r : ReqPtr} (hs : s.step l = some s')
    (hreq : (s'.pc t).req = some r) : l.submits = some r ∨ ∃ t', (s.pc t').req = some r := by
  have henter {t₀ : T} {pc : CallPc} (hpc : pc.req = l.submits) (hs : s.enter t₀ pc = some s') :
      l.submits = some r ∨ ∃ t', (s.pc t').req = some r := by
    unfold enter at hs
    split at hs <;> cases hs
    split at hreq
    · exact .inr ⟨t, (goto_req hreq).resolve_left (by rintro ⟨⟩)⟩
    · rcases goto_req hreq with hnew | hold
      · exact .inl (hpc ▸ hnew)
      · exact .inr ⟨t, hold⟩
  have hkeep {t₀ : T} {pc pc' : CallPc} (hpc : s.pc t₀ = pc)
      (hreq : ((s.goto t₀ pc').pc t).req = some r) (hsame : pc'.req = pc.req) :
      ∃ t', (s.pc t').req = some r := by
    rcases goto_req hreq with hnew | hold
    · exact ⟨t₀, by rw [hpc, ← hsame, hnew]⟩
    · exact ⟨t, hold⟩
  cases step_case hs with
  | asyncEntered hs | syncEntered hs => exact henter rfl hs
  | gotData hpc | asyncGotItem hpc | syncGotItem hpc | swapped hpc | syncAppended hpc | woken hpc
  | signalled hpc => exact .inr (hkeep hpc hreq rfl)
  | noData | asyncNoItem | syncNoItem | asyncAppended | finished =>
    exact .inr ⟨t, (goto_req (s := s) hreq).resolve_left (by rintro ⟨⟩)⟩
  | taken | retired | tooShort | unknown | found | completed | stopped | edited =>
    exact .inr ⟨t, hreq⟩

/-- An item gets its request from the call that appends it. -/
theorem step_pending {l : CallStep T} {item : RequestItem} (hs : s.step l = some s')
    (hmem : item ∈ s'.pending) : item ∈ s.pending ∨ ∃ t, (s.pc t).req = some item.r := by
  have hpush {t : T} {pc : CallPc} {r : ReqPtr} (hpc : s.pc t = pc) (hreq : pc.req = some r)
      (hmem : item ∈ (s.push r).pending) :
      item ∈ s.pending ∨ ∃ t, (s.pc t).req = some item.r := by
    simp only [pending, push, List.mem_append, List.mem_singleton] at hmem
    rcases hmem with (hold | rfl) | hrest
    · exact .inl (List.mem_append_left _ hold)
    · exact .inr ⟨t, hpc ▸ hreq⟩
    · exact .inl (List.mem_append_right _ (List.mem_append.mpr hrest))
  cases step_case hs with
  | asyncEntered hs | syncEntered hs =>
    obtain ⟨hsame, -⟩ := enter_same hs
    rw [pending, hsame.reqs, hsame.dev, hsame.rtdreqs] at hmem
    exact .inl hmem
  | asyncAppended hpc | syncAppended hpc => exact hpush hpc rfl hmem
  | taken hdev hreqs =>
    simp only [pending, hdev, hreqs, DevPc.held, List.mem_append, List.mem_cons] at hmem ⊢
    tauto
  | retired hdev =>
    simp only [pending, hdev, DevPc.held, Kernel.readRetire, List.mem_append] at hmem ⊢
    split at hmem
    · rw [List.mem_append] at hmem
      tauto
    · tauto
  | found hdev _ hin =>
    simp only [pending, hdev, DevPc.held, List.mem_append, List.mem_singleton] at hmem ⊢
    rcases hmem with hreqs | rfl | hrtd
    · exact .inl (.inl hreqs)
    · exact .inl (.inr (.inr hin))
    · exact .inl (.inr (.inr (List.mem_of_mem_erase hrtd)))
  | completed hdev =>
    simp only [pending, DevPc.held, List.nil_append, List.mem_append] at hmem ⊢
    rcases hmem with hreqs | hrtd
    · exact .inl (.inl hreqs)
    · exact .inl (.inr (.inr hrtd))
  | gotData | noData | asyncGotItem | asyncNoItem | syncGotItem | syncNoItem | swapped | woken
  | signalled | finished | tooShort | unknown | stopped | edited => exact .inl hmem

/-- A request comes into use by being submitted. -/
theorem step_unused {l : CallStep T} {r : ReqPtr} (hl : l.submits ≠ some r) (hun : s.Unused r)
    (hs : s.step l = some s') : s'.Unused r := by
  constructor
  · intro t hreq
    rcases step_req_of_thread hs hreq with hsub | ⟨t', hold⟩
    · exact hl hsub
    · exact hun.1 t' hold
  · intro hmem
    obtain ⟨item, hin, rfl⟩ := List.mem_map.mp hmem
    rcases step_pending hs hin with hold | ⟨t, hreq⟩
    · exact hun.2 (List.mem_map_of_mem hold)
    · exact hun.1 t hreq

/-- A request that is not in use is written to by clients only. -/
theorem step_req_unused {l : CallStep T} {r : ReqPtr} (hl : ∀ q, l ≠ .edit r q)
    (hun : s.Unused r) (hs : s.step l = some s') : s'.kernel.req r = s.kernel.req r := by
  have hown {t : T} {pc : CallPc} {r' : ReqPtr} (hpc : s.pc t = pc) (hreq : pc.req = some r') :
      r ≠ r' := fun heq => hun.1 t (by rw [hpc, hreq, heq])
  cases step_case hs with
  | asyncEntered hs | syncEntered hs => rw [enter_kernel hs]
  | swapped hpc | finished hpc => exact Function.update_of_ne (hown hpc rfl) _ _
  | completed hdev =>
    apply Function.update_of_ne
    rintro rfl
    exact hun.2 (List.mem_map_of_mem (by simp [pending, hdev, DevPc.held]))
  | @edited r' q _ =>
    apply Function.update_of_ne
    rintro rfl
    exact hl q rfl
  | gotData | noData | asyncGotItem | asyncNoItem | syncGotItem | syncNoItem | asyncAppended
  | syncAppended | woken | signalled | taken | retired | tooShort | unknown | found | stopped => rfl

end Calls

/-- All fields but the id are zero, and the service name is empty. -/
def KgpuRequest.Blank (q : KgpuRequest) : Prop :=
  q.inp = 0 ∧ q.out = 0 ∧ q.udata = 0 ∧ q.kdata = .client 0 ∧
  q.insize = 0 ∧ q.outsize = 0 ∧ q.udatasize = 0 ∧ q.kdatasize = 0 ∧
  q.serviceName[0]? = some 0 ∧ q.callback = .client 0 ∧ q.errcode = 0

instance (q : KgpuRequest) : Decidable q.Blank := inferInstanceAs (Decidable (_ ∧ _))

/-- `kgpu_request_constructor`. -/
def Kernel.kgpuRequestConstructor (k : Kernel) (r : ReqPtr) : Kernel :=
  let (id, k) := k.kgpuNextRequestId
  { k with req := Function.update k.req r (.constructed id) }

/-- The threads and the cache: the objects that are allocated, those that wait in
    the cache, the ids that clients have drawn and not stored yet, and the number
    of draws so far. -/
structure RequestCache (T : Type) where
  calls : Calls T
  live : List ReqPtr
  free : List ReqPtr
  spare : List Int
  draws : Nat

inductive RequestStep (T : Type) where
  /-- The cache creates an object. -/
  | create (r : ReqPtr)
  /-- The cache gives the memory of an unused object back. -/
  | destroy (r : ReqPtr)
  /-- `kgpu_alloc_request` that returns `r`. When it returns `NULL` it has no effect. -/
  | kgpuAllocRequest (r : ReqPtr)
  | kgpuFreeRequest (r : ReqPtr)
  /-- A client calls `kgpu_next_request_id`. -/
  | draw
  /-- A client writes to a request or submits it, or the device answers. -/
  | call (l : CallStep T)

namespace RequestCache

/-- The object is part of the cache. -/
def Object (s : RequestCache T) (r : ReqPtr) : Prop := r ∈ s.live ∨ r ∈ s.free

instance (s : RequestCache T) (r : ReqPtr) : Decidable (s.Object r) :=
  inferInstanceAs (Decidable (r ∈ s.live ∨ r ∈ s.free))

/-- The object's contents. -/
def req (s : RequestCache T) (r : ReqPtr) : KgpuRequest := s.calls.kernel.req r

/-- Clients write to and submit requests that are allocated, and change an id only
    to one that they have drawn. -/
def Allowed (s : RequestCache T) : CallStep T → Prop
  | .edit r q => r ∈ s.live ∧ (q.id = (s.req r).id ∨ q.id ∈ s.spare)
  | .callAsync _ r | .callSync _ r => r ∈ s.live
  | _ => True

instance (s : RequestCache T) : DecidablePred s.Allowed
  | .edit _ _ => instDecidableAnd
  | .callAsync _ r | .callSync _ r => inferInstanceAs (Decidable (r ∈ s.live))
  | .allocData .. | .allocItem .. | .swap _ | .append _ | .wake _ | .signal _ | .finish _
  | .readTake _ | .readRetire | .writeFind .. | .writeComplete | .setStop => isTrue trivial

/-- An id that is stored in a request is not stored again. -/
def spareAfter (s : RequestCache T) : CallStep T → List Int
  | .edit r q => if q.id = (s.req r).id then s.spare else s.spare.erase q.id
  | _ => s.spare

def setKernel (s : RequestCache T) (k : Kernel) : RequestCache T :=
  { s with calls := { s.calls with kernel := k } }

section Steps

variable [DecidableEq T]

def step (s : RequestCache T) : RequestStep T → Option (RequestCache T)
  | .create r =>
    if s.Object r then none
    else some { s.setKernel (s.calls.kernel.kgpuRequestConstructor r) with
      free := r :: s.free
      draws := s.draws + 1 }
  | .destroy r => if r ∈ s.free then some { s with free := s.free.erase r } else none
  | .kgpuAllocRequest r =>
    if r ∈ s.free then some { s with live := r :: s.live, free := s.free.erase r } else none
  | .kgpuFreeRequest r =>
    if r ∈ s.live then some { s with live := s.live.erase r, free := r :: s.free } else none
  | .draw =>
    let (id, k) := s.calls.kernel.kgpuNextRequestId
    some { s.setKernel k with spare := id :: s.spare, draws := s.draws + 1 }
  | .call l =>
    if s.Allowed l then
      (s.calls.step l).map fun calls => { s with calls := calls, spare := s.spareAfter l }
    else none

/-- The state `kgpu_init` leaves: the cache has no object yet. -/
def init (sync : DataPtr → SyncCallData) (pool : Mempool) : RequestCache T :=
  ⟨.init sync pool, [], [], [], 0⟩

/-- A request is given back only as the constructor leaves it, and when no call and
    no queue has it any more. -/
def FreedBlank (s : RequestCache T) : RequestStep T → Prop
  | .kgpuFreeRequest r => (s.req r).Blank ∧ s.calls.Unused r
  | _ => True

/-! ## What a step can do -/

/-- The branches of `step`, with the state each of them leaves. -/
inductive StepCase (s : RequestCache T) : RequestStep T → RequestCache T → Prop where
  | created {r : ReqPtr} : ¬ s.Object r →
      StepCase s (.create r) { s.setKernel (s.calls.kernel.kgpuRequestConstructor r) with
        free := r :: s.free
        draws := s.draws + 1 }
  | destroyed {r : ReqPtr} : r ∈ s.free →
      StepCase s (.destroy r) { s with free := s.free.erase r }
  | allocated {r : ReqPtr} : r ∈ s.free →
      StepCase s (.kgpuAllocRequest r) { s with live := r :: s.live, free := s.free.erase r }
  | freed {r : ReqPtr} : r ∈ s.live →
      StepCase s (.kgpuFreeRequest r) { s with live := s.live.erase r, free := r :: s.free }
  | drawn : StepCase s .draw { s.setKernel s.calls.kernel.kgpuNextRequestId.2 with
      spare := s.calls.kernel.kgpuNextRequestId.1 :: s.spare
      draws := s.draws + 1 }
  | called {l : CallStep T} {calls : Calls T} : s.Allowed l → s.calls.step l = some calls →
      StepCase s (.call l) { s with calls := calls, spare := s.spareAfter l }

theorem step_case {s s' : RequestCache T} {l : RequestStep T} (hs : s.step l = some s') : StepCase s l s' := by
  cases l with
  | create r =>
    simp only [step] at hs
    split at hs <;> cases hs
    next hnew => exact .created hnew
  | destroy r =>
    simp only [step] at hs
    split at hs <;> cases hs
    next hmem => exact .destroyed hmem
  | kgpuAllocRequest r =>
    simp only [step] at hs
    split at hs <;> cases hs
    next hmem => exact .allocated hmem
  | kgpuFreeRequest r =>
    simp only [step] at hs
    split at hs <;> cases hs
    next hmem => exact .freed hmem
  | draw =>
    cases hs
    exact .drawn
  | call l =>
    simp only [step] at hs
    split at hs
    next hok =>
      obtain ⟨calls, hcalls, rfl⟩ := Option.map_eq_some_iff.mp hs
      exact .called hok hcalls
    next => cases hs

end Steps

variable {s s' : RequestCache T}

/-! ## Ids -/

/-- The objects of the cache and the ids kept for later are told apart by their ids,
    all of them drawn from the counter. -/
structure DistinctIds (s : RequestCache T) : Prop where
  seq : s.calls.kernel.ridSequence.toNat = s.draws % 2 ^ 31
  inj : ∀ r r', s.Object r → s.Object r' → (s.req r).id = (s.req r').id → r = r'
  le : ∀ r, s.Object r → (s.req r).id ≤ s.draws
  spare_nodup : s.spare.Nodup
  spare_apart : ∀ r, s.Object r → (s.req r).id ∉ s.spare
  spare_le : ∀ id ∈ s.spare, id ≤ s.draws

namespace DistinctIds

/-- Objects that go, or that are allocated or freed, leave the ids as they are. -/
theorem congr (h : s.DistinctIds) (hobj : ∀ r, s'.Object r → s.Object r)
    (hid : ∀ r, (s'.req r).id = (s.req r).id)
    (hseq : s'.calls.kernel.ridSequence = s.calls.kernel.ridSequence)
    (hspare : s'.spare = s.spare) (hdraws : s'.draws = s.draws) : s'.DistinctIds where
  seq := by
    rw [hseq, hdraws]
    exact h.seq
  inj r r' hr hr' heq := by
    rw [hid, hid] at heq
    exact h.inj r r' (hobj r hr) (hobj r' hr') heq
  le r hr := by
    rw [hid, hdraws]
    exact h.le r (hobj r hr)
  spare_nodup := hspare ▸ h.spare_nodup
  spare_apart r hr := by
    rw [hid, hspare]
    exact h.spare_apart r (hobj r hr)
  spare_le := by
    rw [hspare, hdraws]
    exact h.spare_le

/-- The next draw, while there are fewer than 2^31 of them. -/
theorem next (h : s.DistinctIds) (hdraws : s.draws + 1 < 2 ^ 31) :
    s.calls.kernel.kgpuNextRequestId.1 = (s.draws + 1 : Nat) ∧
      s.calls.kernel.kgpuNextRequestId.2.ridSequence.toNat = (s.draws + 1) % 2 ^ 31 := by
  obtain ⟨hid, hseq⟩ := Routing.kgpuNextRequestId_spec h.seq
  rw [Nat.mod_eq_of_lt hdraws] at hid
  exact ⟨hid, hseq⟩

/-- The object `r` is new or gets a new id, which nothing else has. -/
theorem relabel (h : s.DistinctIds) {r : ReqPtr} (hobj : ∀ r', r' ≠ r → s'.Object r' → s.Object r')
    (hother : ∀ r', r' ≠ r → (s'.req r').id = (s.req r').id)
    (hnew : ∀ r', r' ≠ r → s.Object r' → (s.req r').id ≠ (s'.req r).id)
    (hle : (s'.req r).id ≤ s'.draws) (hdraws : s.draws ≤ s'.draws)
    (hseq : s'.calls.kernel.ridSequence.toNat = s'.draws % 2 ^ 31)
    (hspare : s'.spare.Sublist s.spare) (hout : (s'.req r).id ∉ s'.spare) : s'.DistinctIds where
  seq := hseq
  inj r₁ r₂ h₁ h₂ heq := by
    by_cases hr₁ : r₁ = r <;> by_cases hr₂ : r₂ = r
    · rw [hr₁, hr₂]
    · rw [hr₁, hother r₂ hr₂] at heq
      exact absurd heq.symm (hnew r₂ hr₂ (hobj r₂ hr₂ h₂))
    · rw [hr₂, hother r₁ hr₁] at heq
      exact absurd heq (hnew r₁ hr₁ (hobj r₁ hr₁ h₁))
    · rw [hother r₁ hr₁, hother r₂ hr₂] at heq
      exact h.inj r₁ r₂ (hobj r₁ hr₁ h₁) (hobj r₂ hr₂ h₂) heq
  le r' hr' := by
    by_cases heq : r' = r
    · rw [heq]
      exact hle
    · rw [hother r' heq]
      exact (h.le r' (hobj r' heq hr')).trans (Int.ofNat_le.mpr hdraws)
  spare_nodup := h.spare_nodup.sublist hspare
  spare_apart r' hr' := by
    by_cases heq : r' = r
    · rw [heq]
      exact hout
    · rw [hother r' heq]
      exact fun hmem => h.spare_apart r' (hobj r' heq hr') (hspare.subset hmem)
  spare_le id hmem := (h.spare_le id (hspare.subset hmem)).trans (Int.ofNat_le.mpr hdraws)

theorem create (h : s.DistinctIds) (r : ReqPtr) (hdraws : s.draws + 1 < 2 ^ 31) :
    DistinctIds { s.setKernel (s.calls.kernel.kgpuRequestConstructor r) with
      free := r :: s.free
      draws := s.draws + 1 } := by
  obtain ⟨hid, hseq⟩ := h.next hdraws
  generalize hs' : ({ s.setKernel (s.calls.kernel.kgpuRequestConstructor r) with
      free := r :: s.free
      draws := s.draws + 1 } : RequestCache T) = s'
  have hself : (s'.req r).id = (s.draws + 1 : Nat) := by
    subst hs'
    simpa [req, setKernel, Kernel.kgpuRequestConstructor, KgpuRequest.constructed] using hid
  subst hs'
  apply h.relabel (r := r)
  · intro r' hne hr'
    simpa [Object, setKernel, hne] using hr'
  · intro r' hne
    simp [req, setKernel, Kernel.kgpuRequestConstructor, Kernel.kgpuNextRequestId, hne]
  · intro r' _ hr'
    have := h.le r' hr'
    omega
  · exact hself.le
  · exact Nat.le_succ _
  · exact hseq
  · exact List.Sublist.refl _
  · intro hmem
    have := h.spare_le _ hmem
    omega

theorem draw (h : s.DistinctIds) (hdraws : s.draws + 1 < 2 ^ 31) :
    DistinctIds { s.setKernel s.calls.kernel.kgpuNextRequestId.2 with
      spare := s.calls.kernel.kgpuNextRequestId.1 :: s.spare
      draws := s.draws + 1 } := by
  obtain ⟨hid, hseq⟩ := h.next hdraws
  refine ⟨hseq, h.inj, ?_, ?_, ?_, ?_⟩
  · intro r hr
    have hle : (s.req r).id ≤ s.draws := h.le r hr
    change (s.req r).id ≤ (s.draws + 1 : Nat)
    omega
  · refine List.nodup_cons.mpr ⟨fun hmem => ?_, h.spare_nodup⟩
    have := h.spare_le _ hmem
    omega
  · intro r hr hmem
    have hle : (s.req r).id ≤ s.draws := h.le r hr
    rcases List.mem_cons.mp hmem with heq | hold
    · change (s.req r).id = _ at heq
      omega
    · exact h.spare_apart r hr hold
  · intro id hmem
    change id ≤ (s.draws + 1 : Nat)
    rcases List.mem_cons.mp hmem with rfl | hold
    · omega
    · have := h.spare_le id hold
      omega

end DistinctIds

/-! ## Blank objects -/

/-- The objects that wait in the cache are as the constructor leaves them, and only
    objects that are allocated are in use. -/
structure Kept (s : RequestCache T) : Prop where
  blank : ∀ r ∈ s.free, (s.req r).Blank
  unused : ∀ r, r ∉ s.live → s.calls.Unused r
  apart : ∀ r ∈ s.free, r ∉ s.live
  live_nodup : s.live.Nodup
  free_nodup : s.free.Nodup

theorem blank_constructed (id : Int) : (KgpuRequest.constructed id).Blank :=
  ⟨rfl, rfl, rfl, rfl, rfl, rfl, rfl, rfl, rfl, rfl, rfl⟩

namespace Kept

theorem create (h : s.Kept) {r : ReqPtr} (hnew : ¬ s.Object r) :
    Kept { s.setKernel (s.calls.kernel.kgpuRequestConstructor r) with
      free := r :: s.free
      draws := s.draws + 1 } where
  blank r' hr' := by
    by_cases heq : r' = r
    · subst heq
      simp only [req, setKernel, Kernel.kgpuRequestConstructor, Function.update_self]
      exact blank_constructed _
    · have hold : r' ∈ s.free := (List.mem_cons.mp hr').resolve_left heq
      simp only [req, setKernel, Kernel.kgpuRequestConstructor, Function.update_of_ne heq]
      exact h.blank r' hold
  unused := h.unused
  apart r' hr' := by
    rcases List.mem_cons.mp hr' with rfl | hold
    · exact fun hlive => hnew (.inl hlive)
    · exact h.apart r' hold
  live_nodup := h.live_nodup
  free_nodup := List.nodup_cons.mpr ⟨fun hfree => hnew (.inr hfree), h.free_nodup⟩

theorem destroy (h : s.Kept) (r : ReqPtr) : Kept { s with free := s.free.erase r } where
  blank r' hr' := h.blank r' (List.mem_of_mem_erase hr')
  unused := h.unused
  apart r' hr' := h.apart r' (List.mem_of_mem_erase hr')
  live_nodup := h.live_nodup
  free_nodup := h.free_nodup.erase r

theorem alloc (h : s.Kept) {r : ReqPtr} (hmem : r ∈ s.free) :
    Kept { s with live := r :: s.live, free := s.free.erase r } where
  blank r' hr' := h.blank r' (List.mem_of_mem_erase hr')
  unused r' hr' := h.unused r' fun hlive => hr' (List.mem_cons_of_mem r hlive)
  apart r' hr' hlive := by
    obtain ⟨hne, hfree⟩ := h.free_nodup.mem_erase_iff.mp hr'
    exact h.apart r' hfree ((List.mem_cons.mp hlive).resolve_left hne)
  live_nodup := List.nodup_cons.mpr ⟨h.apart r hmem, h.live_nodup⟩
  free_nodup := h.free_nodup.erase r

theorem free (h : s.Kept) {r : ReqPtr} (hmem : r ∈ s.live) (hblank : (s.req r).Blank)
    (hun : s.calls.Unused r) : Kept { s with live := s.live.erase r, free := r :: s.free } where
  blank r' hr' := by
    rcases List.mem_cons.mp hr' with rfl | hold
    · exact hblank
    · exact h.blank r' hold
  unused r' hr' := by
    by_cases heq : r' = r
    · exact heq ▸ hun
    · exact h.unused r' fun hlive => hr' ((List.mem_erase_of_ne heq).mpr hlive)
  apart r' hr' hlive := by
    obtain ⟨hne, hold⟩ := h.live_nodup.mem_erase_iff.mp hlive
    exact h.apart r' ((List.mem_cons.mp hr').resolve_left hne) hold
  live_nodup := h.live_nodup.erase r
  free_nodup := List.nodup_cons.mpr ⟨fun hfree => h.apart r hfree hmem, h.free_nodup⟩

end Kept

/-! ## Runs -/

variable [DecidableEq T]

namespace DistinctIds

theorem edit (h : s.DistinctIds) {r : ReqPtr} {q : KgpuRequest} {calls : Calls T}
    (hok : s.Allowed (.edit r q)) (hs : s.calls.step (.edit r q) = some calls) :
    DistinctIds { s with calls := calls, spare := s.spareAfter (.edit r q) } := by
  obtain ⟨-, hdrawn⟩ := hok
  obtain ⟨-, hreq⟩ := Calls.step_edit hs
  have hseq : calls.kernel.ridSequence = s.calls.kernel.ridSequence := by
    cases Calls.step_case hs with
    | edited => rfl
  by_cases hsame : q.id = (s.req r).id
  · refine h.congr (fun _ hr => hr) (fun r' => ?_) hseq (if_pos hsame) rfl
    change (calls.kernel.req r').id = (s.req r').id
    rw [hreq]
    by_cases heq : r' = r
    · rw [heq, Function.update_self, hsame]
    · rw [Function.update_of_ne heq]
      rfl
  · have hspare : q.id ∈ s.spare := hdrawn.resolve_left hsame
    have hself : calls.kernel.req r = q := by rw [hreq, Function.update_self]
    apply h.relabel (r := r)
    · exact fun r' _ hr' => hr'
    · intro r' hne
      change (calls.kernel.req r').id = (s.calls.kernel.req r').id
      rw [hreq, Function.update_of_ne hne]
    · intro r' _ hr' heq
      apply h.spare_apart r' hr'
      rw [heq]
      change (calls.kernel.req r).id ∈ s.spare
      rw [hself]
      exact hspare
    · change (calls.kernel.req r).id ≤ s.draws
      rw [hself]
      exact h.spare_le _ hspare
    · exact Nat.le_refl _
    · change calls.kernel.ridSequence.toNat = s.draws % 2 ^ 31
      rw [hseq]
      exact h.seq
    · change (s.spareAfter (.edit r q)).Sublist s.spare
      rw [spareAfter, if_neg hsame]
      exact List.erase_sublist
    · change (calls.kernel.req r).id ∉ s.spareAfter (.edit r q)
      rw [hself, spareAfter, if_neg hsame]
      exact h.spare_nodup.not_mem_erase

/-- A step of a call that is not a client's write. -/
theorem call (h : s.DistinctIds) {l : CallStep T} {calls : Calls T} (hl : l.kind ≠ .edit)
    (hs : s.calls.step l = some calls) :
    DistinctIds { s with calls := calls, spare := s.spareAfter l } := by
  obtain ⟨hids, hseq⟩ := Calls.step_ids hl hs
  have hspare : s.spareAfter l = s.spare := by
    cases l with
    | edit r q => exact absurd rfl hl
    | _ => rfl
  exact h.congr (fun _ hr => hr) hids hseq hspare rfl

theorem step (h : s.DistinctIds) {l : RequestStep T} (hs : s.step l = some s')
    (hdraws : s'.draws < 2 ^ 31) : s'.DistinctIds := by
  cases step_case hs with
  | @created r _ => exact h.create r hdraws
  | destroyed =>
    exact h.congr (fun _ hr => hr.imp_right List.mem_of_mem_erase) (fun _ => rfl) rfl rfl rfl
  | @allocated r hmem =>
    refine h.congr (fun r' hr' => ?_) (fun _ => rfl) rfl rfl rfl
    rcases hr' with hlive | hfree
    · rcases List.mem_cons.mp hlive with rfl | hlive
      · exact .inr hmem
      · exact .inl hlive
    · exact .inr (List.mem_of_mem_erase hfree)
  | @freed r hmem =>
    refine h.congr (fun r' hr' => ?_) (fun _ => rfl) rfl rfl rfl
    rcases hr' with hlive | hfree
    · exact .inl (List.mem_of_mem_erase hlive)
    · rcases List.mem_cons.mp hfree with rfl | hfree
      · exact .inl hmem
      · exact .inr hfree
  | drawn => exact h.draw hdraws
  | @called l _ hok hcalls =>
    by_cases hl : l.kind = .edit
    · cases l with
      | edit r q => exact h.edit hok hcalls
      | _ => cases hl
    · exact h.call hl hcalls

end DistinctIds

namespace Kept

/-- A call submits and edits requests that are allocated, and the others are not in use. -/
theorem call (h : s.Kept) {l : CallStep T} {calls : Calls T} (hok : s.Allowed l)
    (hs : s.calls.step l = some calls) :
    Kept { s with calls := calls, spare := s.spareAfter l } where
  blank r hr := by
    have hout : r ∉ s.live := h.apart r hr
    have hedit : ∀ q, l ≠ .edit r q := by
      rintro q rfl
      exact hout hok.1
    change (calls.kernel.req r).Blank
    rw [Calls.step_req_unused hedit (h.unused r hout) hs]
    exact h.blank r hr
  unused r hr := by
    refine Calls.step_unused (fun hsub => hr ?_) (h.unused r hr) hs
    cases l with
    | callAsync t r' | callSync t r' => exact Option.some.inj hsub ▸ hok
    | _ => cases hsub
  apart := h.apart
  live_nodup := h.live_nodup
  free_nodup := h.free_nodup

theorem step (h : s.Kept) {l : RequestStep T} (hok : s.FreedBlank l) (hs : s.step l = some s') :
    s'.Kept := by
  cases step_case hs with
  | created hnew => exact h.create hnew
  | destroyed => exact h.destroy _
  | allocated hmem => exact h.alloc hmem
  | freed hmem => exact h.free hmem hok.1 hok.2
  | drawn => exact ⟨h.blank, h.unused, h.apart, h.live_nodup, h.free_nodup⟩
  | called hallowed hcalls => exact h.call hallowed hcalls

end Kept

/-- Draws are never taken back. -/
theorem step_draws {l : RequestStep T} (hs : s.step l = some s') : s.draws ≤ s'.draws := by
  cases step_case hs with
  | created | drawn => exact Nat.le_succ _
  | destroyed | allocated | freed | called => exact Nat.le_refl _

variable {sync : DataPtr → SyncCallData} {pool : Mempool} {ls : List (RequestStep T)}

theorem distinctIds_of_run (hrun : Run step Free (init sync pool) ls s) (hdraws : s.draws < 2 ^ 31) :
    s.DistinctIds := by
  revert hdraws
  apply hrun.invariant (I := fun s => s.draws < 2 ^ 31 → s.DistinctIds)
  · intro _
    exact ⟨rfl, by simp [Object, init], by simp [Object, init], List.nodup_nil,
      by simp [Object, init], by simp [init]⟩
  · intro s l s' h _ hs hdraws
    exact (h (Nat.lt_of_le_of_lt (step_draws hs) hdraws)).step hs hdraws

theorem kept_of_run (hrun : Run step FreedBlank (init sync pool) ls s) : s.Kept := by
  apply hrun.invariant (I := Kept)
  · refine ⟨by simp [init], fun r _ => ?_, by simp [init], List.nodup_nil, List.nodup_nil⟩
    simp [init, Calls.Unused, Calls.init, CallPc.req, Calls.pending, DevPc.held]
  · intro s l s' h hok hs
    exact h.step hok hs

/-! ## What `kgpu_alloc_request` returns -/

/-- In every run with fewer than 2^31 draws, a request that `kgpu_alloc_request`
    returns has an id that no other allocated request has. In every run in which
    requests are freed only when they are blank and out of use, it is blank. After a
    free the same object can be allocated, and is blank only if it was so when freed. -/
theorem allocated_request_blank (sync : DataPtr → SyncCallData) (pool : Mempool) :
    (∀ ls (s s' : RequestCache T) r, Run step Free (init sync pool) ls s → s.draws < 2 ^ 31 →
      s.step (.kgpuAllocRequest r) = some s' →
      ∀ r' ∈ s'.live, r' ≠ r → (s'.req r').id ≠ (s'.req r).id) ∧
    (∀ ls (s s' : RequestCache T) r, Run step FreedBlank (init sync pool) ls s →
      s.step (.kgpuAllocRequest r) = some s' → (s'.req r).Blank) ∧
    ∀ (s s' : RequestCache T) r, s.step (.kgpuFreeRequest r) = some s' →
      ∃ s'', s'.step (.kgpuAllocRequest r) = some s'' ∧ ((s''.req r).Blank ↔ (s.req r).Blank) := by
  refine ⟨?_, ?_, ?_⟩
  · intro ls s s' r hrun hdraws hs r' hlive hne heq
    have h : s'.DistinctIds := by
      refine (distinctIds_of_run hrun hdraws).step hs ?_
      cases step_case hs with
      | allocated => exact hdraws
    have hr : s'.Object r := by
      cases step_case hs with
      | allocated => exact .inl List.mem_cons_self
    exact hne (h.inj r' r (.inl hlive) hr heq)
  · intro ls s s' r hrun hs
    cases step_case hs with
    | allocated hmem => exact (kept_of_run hrun).blank r hmem
  · intro s s' r hs
    cases step_case hs with
    | freed => exact ⟨_, if_pos List.mem_cons_self, Iff.rfl⟩

/-- Two objects, one of them used by a call, cleared, freed and allocated again. -/
theorem allocated_request_blank_recycled :
    ∃ s s' : RequestCache Unit, Run step FreedBlank
        (init (fun _ => ⟨.client 0, .client 0, false⟩) (.empty 0x100000 2))
        [.create 0, .create 1, .kgpuAllocRequest 1, .kgpuAllocRequest 0,
          .call (.edit 0 { KgpuRequest.constructed 1 with udata := 0x1000 }),
          .call (.callAsync () 0), .call (.allocItem () true), .call (.append ()),
          .call (.readTake kuRequestSize), .call .readRetire,
          .call (.writeFind kuResponseSize ⟨1, 5⟩), .call .writeComplete,
          .call (.edit 0 (KgpuRequest.constructed 1)), .kgpuFreeRequest 0] s ∧
      s.step (.kgpuAllocRequest 0) = some s' ∧ s'.live = [0, 1] ∧
      (s'.req 0).Blank ∧ (s'.req 1).id ≠ (s'.req 0).id := by
  have h := allocated_request_blank (T := Unit) (fun _ => ⟨.client 0, .client 0, false⟩)
    (.empty 0x100000 2)
  have hrun : Run step FreedBlank
      (init (fun _ => ⟨.client 0, .client 0, false⟩) (.empty 0x100000 2) : RequestCache Unit)
      [.create 0, .create 1, .kgpuAllocRequest 1, .kgpuAllocRequest 0,
        .call (.edit 0 { KgpuRequest.constructed 1 with udata := 0x1000 }),
        .call (.callAsync () 0), .call (.allocItem () true), .call (.append ()),
        .call (.readTake kuRequestSize), .call .readRetire,
        .call (.writeFind kuResponseSize ⟨1, 5⟩), .call .writeComplete,
        .call (.edit 0 (KgpuRequest.constructed 1)), .kgpuFreeRequest 0] _ :=
    Run.of_along rfl ⟨trivial, trivial, trivial, trivial, trivial, trivial, trivial, trivial, trivial,
      trivial, trivial, trivial, trivial, ⟨blank_constructed 1, by rintro ⟨⟩ ⟨⟩, by decide⟩, trivial⟩
  refine ⟨_, _, hrun, rfl, rfl, h.2.1 _ _ _ 0 hrun rfl, ?_⟩
  exact h.1 _ _ _ 0 hrun.free (by decide) rfl 1 (by decide) (by decide)

/-- An object that its last owner freed with `udata` set is allocated with it, and a
    client that does not set `udata` hands the stale pointer to the helper. -/
theorem not_allocated_request_blank :
    ∃ s s' s'' : RequestCache Unit, Run step Free
        (init (fun _ => ⟨.client 0, .client 0, false⟩) (.empty 0x100000 2))
        [.create 0, .kgpuAllocRequest 0,
          .call (.edit 0 { KgpuRequest.constructed 1 with udata := 0x1000, udatasize := 8 }),
          .kgpuFreeRequest 0] s ∧
      s.draws < 2 ^ 31 ∧ s.step (.kgpuAllocRequest 0) = some s' ∧
      ¬ (s'.req 0).Blank ∧ (s'.req 0).udata = 0x1000 ∧
      Run step Free s' [.call (.callAsync () 0), .call (.allocItem () true), .call (.append ()),
        .call (.readTake kuRequestSize)] s'' ∧
      ∃ item kureq c, s''.calls.dev = .reading item kureq c ∧ kureq.data = 0x1000 := by
  refine ⟨_, _, _, Run.of_exec rfl, by decide, rfl, by decide, rfl, Run.of_exec rfl, _, _, _, rfl, ?_⟩
  rfl

end RequestCache
end Kgpu
