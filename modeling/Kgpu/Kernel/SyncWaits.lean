-- SUMMARY: The wait of `kgpu_call_sync` beside the two statements of `sync_callback`: no lost wake-up, and when the wake-up is too late.
import Kgpu.Kernel.SyncCall
import Kgpu.Library.WaitQueue

/-!
# The wait of a synchronous call

`sync_callback` sets `done` and then wakes the queue in the same sync-call data. The caller
tests `done` without a lock, so that it may see the first statement before the second is
run; it then returns and frees the data. Here the wait is made in its own steps, and the
callback is cut between its two statements.
-/

namespace Kgpu

open Library

variable {T : Type}

/-- The calls with the phases of their waits, the data that `sync_callback` is about to wake,
    the data freed so far, and a record: of the data freed while its wake-up was to come,
    and of the wake-ups that were made on data already freed. -/
structure SyncWaits (T : Type) where
  calls : Calls T
  phase : T → WaitPhase
  waking : Option DataPtr
  freed : List DataPtr
  early : List DataPtr
  touched : List DataPtr

inductive SyncWaitStep (T : Type) where
  /-- A step of `Calls` that is none of a wait. -/
  | call (l : CallStep T)
  /-- The next statement of the wait of a thread, with whether it has a signal pending. -/
  | wait (t : T) (signal : Bool)
  /-- `wake_up_interruptible(&data->queue)`, and the return of the callback. -/
  | wakeUp

namespace SyncWaits

variable [DecidableEq T]

/-- The data whose queue the callback of the item being completed wakes. -/
def syncData (k : Calls T) : Option DataPtr :=
  match k.dev with
  | .writing item _ _ =>
    match (k.kernel.req item.r).callback, (k.kernel.req item.r).kdata with
    | .sync, .sync d => some d
    | _, _ => none
  | _ => none

/-- What a step of the calls changes beside them. The device goes on once the callback has
    returned. -/
def callStep (s : SyncWaits T) (l : CallStep T) (k : Calls T) : Option (SyncWaits T) :=
  match l with
  | .wake _ | .signal _ => none
  | .append t => some { s with calls := k, phase := Function.update s.phase t .first }
  | .finish t =>
    some { s with
      calls := k
      freed := s.freed ++ (s.calls.pc t).data.toList
      early := if (s.calls.pc t).data = s.waking then s.early ++ s.waking.toList else s.early }
  | .readTake _ | .readRetire | .writeFind .. =>
    if s.waking.isSome then none else some { s with calls := k }
  | .writeComplete =>
    if s.waking.isSome then none else some { s with calls := k, waking := syncData s.calls }
  | .callAsync .. | .callSync .. | .allocData .. | .allocItem .. | .swap _ | .setStop | .edit .. =>
    some { s with calls := k }

def step (s : SyncWaits T) : SyncWaitStep T → Option (SyncWaits T)
  | .call l => (s.calls.step l).bind (s.callStep l)
  | .wait t signal =>
    match s.calls.pc t with
    | .waiting _ d _ =>
      match (s.phase t).next (s.calls.kernel.sync d).done signal with
      | none => none
      | some (.go p) => some { s with phase := Function.update s.phase t p }
      | some .fulfilled => (s.calls.step (.wake t)).map fun k => { s with calls := k }
      | some .interrupted => (s.calls.step (.signal t)).map fun k => { s with calls := k }
    | _ => none
  | .wakeUp =>
    match s.waking with
    | none => none
    | some d =>
      if d ∈ s.freed then some { s with waking := none, touched := s.touched ++ [d] }
      else
        some { s with
          waking := none
          phase := fun t => if (s.calls.pc t).data = some d then (s.phase t).wake else s.phase t }

def init (sync : DataPtr → SyncCallData) (pool : Mempool) : SyncWaits T where
  calls := Calls.init sync pool
  phase := fun _ => .first
  waking := none
  freed := []
  early := []
  touched := []

/-- No signal comes, and no request is submitted or rewritten while it is in a call or
    queued. -/
def Undisturbed (s : SyncWaits T) : SyncWaitStep T → Prop
  | .call l => s.calls.Undisturbed l
  | .wait _ signal => signal = false
  | .wakeUp => True

/-! ## What a step does -/

/-- The steps of the calls that are no part of a wait or of a callback and free no data. -/
def plain : CallStep T → Bool
  | .wake _ | .signal _ | .append _ | .finish _ | .writeComplete => false
  | _ => true

/-- What a step can do when nobody disturbs the calls. -/
inductive StepCase (s : SyncWaits T) : SyncWaits T → Prop where
  | call {l : CallStep T} {k : Calls T} (hl : plain l = true) (hok : s.calls.Undisturbed l)
      (hk : s.calls.step l = some k) : StepCase s { s with calls := k }
  | append {t : T} {k : Calls T} (hk : s.calls.step (.append t) = some k) :
      StepCase s { s with calls := k, phase := Function.update s.phase t .first }
  | finish {t : T} {k : Calls T} (hk : s.calls.step (.finish t) = some k) :
      StepCase s { s with
        calls := k
        freed := s.freed ++ (s.calls.pc t).data.toList
        early := if (s.calls.pc t).data = s.waking then s.early ++ s.waking.toList else s.early }
  | complete {k : Calls T} (hw : s.waking = none) (hk : s.calls.step .writeComplete = some k) :
      StepCase s { s with calls := k, waking := syncData s.calls }
  | waited {t : T} {r : ReqPtr} {d : DataPtr} {item : RequestItem} {p : WaitPhase}
      (hpc : s.calls.pc t = .waiting r d item)
      (hnext : (s.phase t).next (s.calls.kernel.sync d).done false = some (.go p)) :
      StepCase s { s with phase := Function.update s.phase t p }
  | fulfilled {t : T} {k : Calls T} (hk : s.calls.step (.wake t) = some k) :
      StepCase s { s with calls := k }
  | woke {d : DataPtr} (hw : s.waking = some d) (hd : d ∉ s.freed) :
      StepCase s { s with
        waking := none
        phase := fun t => if (s.calls.pc t).data = some d then (s.phase t).wake else s.phase t }
  | tooLate {d : DataPtr} (hw : s.waking = some d) (hd : d ∈ s.freed) :
      StepCase s { s with waking := none, touched := s.touched ++ [d] }

variable {s s' : SyncWaits T} {t : T}

theorem step_case {l : SyncWaitStep T} (hok : s.Undisturbed l) (h : s.step l = some s') :
    StepCase s s' := by
  cases l with
  | call l =>
    obtain ⟨k, hk, hs⟩ := Option.bind_eq_some_iff.mp h
    have hcalls : s.calls.Undisturbed l := hok
    cases l <;> simp only [callStep] at hs
    case wake | signal => cases hs
    case append =>
      cases hs
      exact .append hk
    case finish =>
      cases hs
      exact .finish hk
    case readTake | readRetire | writeFind =>
      split at hs <;> cases hs
      exact .call rfl hcalls hk
    case writeComplete =>
      split at hs <;> cases hs
      next hw => exact .complete (by simpa using hw) hk
    all_goals
      cases hs
      exact .call rfl hcalls hk
  | wait t signal =>
    cases hok
    simp only [step] at h
    split at h
    next r d item hpc =>
      split at h
      next => cases h
      next p hnext =>
        cases h
        exact .waited hpc hnext
      next =>
        obtain ⟨k, hk, rfl⟩ := Option.map_eq_some_iff.mp h
        exact .fulfilled hk
      next hnext => exact absurd hnext WaitPhase.next_ne_interrupted
    next => cases h
  | wakeUp =>
    simp only [step] at h
    split at h
    next => cases h
    next d hw =>
      split at h <;> cases h
      next hd => exact .tooLate hw hd
      next hd => exact .woke hw hd

/-- The calls make steps of their own, undisturbed. -/
theorem StepCase.calls (h : StepCase s s') : s'.calls = s.calls ∨
    ∃ l, s.calls.Undisturbed l ∧ s.calls.step l = some s'.calls := by
  cases h with
  | call _ hok hk => exact .inr ⟨_, hok, hk⟩
  | append hk => exact .inr ⟨.append _, trivial, hk⟩
  | finish hk => exact .inr ⟨.finish _, trivial, hk⟩
  | complete _ hk => exact .inr ⟨.writeComplete, trivial, hk⟩
  | fulfilled hk => exact .inr ⟨.wake _, trivial, hk⟩
  | waited | woke | tooLate => exact .inl rfl

theorem syncInv_of_run {sync : DataPtr → SyncCallData} {pool : Mempool}
    {ls : List (SyncWaitStep T)} (hrun : Run step Undisturbed (init sync pool) ls s) :
    s.calls.SyncInv := by
  refine hrun.invariant (I := fun s => s.calls.SyncInv) (Calls.SyncInv.start sync pool) ?_
  intro s l s' h hok hs
  rcases (step_case hok hs).calls with heq | ⟨k, hk, hs⟩
  · rw [heq]
    exact h
  · exact h.step hk hs

/-- What a step of the calls leaves alone: nobody is put into a wait, those that wait have
    their data as it was, and data that a call has got is new. -/
structure Frame (c k : Calls T) : Prop where
  waiting : ∀ t r d item, k.pc t = .waiting r d item →
    c.pc t = .waiting r d item ∧ (k.kernel.sync d).done = (c.kernel.sync d).done
  data : ∀ t d, (k.pc t).data = some d →
    (c.pc t).data = some d ∨ (c.nextData ≤ d ∧ d < k.nextData)
  next : c.nextData ≤ k.nextData

/-- A thread goes on, outside of a wait. -/
theorem Frame.goto {c k : Calls T} {pc : CallPc} (hpc : k.pc = Function.update c.pc t pc)
    (hwait : ∀ r d item, pc ≠ .waiting r d item)
    (hsync : ∀ u r d item, c.pc u = .waiting r d item → k.kernel.sync d = c.kernel.sync d)
    (hdata : ∀ d, pc.data = some d → (c.pc t).data = some d ∨ (c.nextData ≤ d ∧ d < k.nextData))
    (hnext : c.nextData ≤ k.nextData) : Frame c k := by
  refine ⟨fun u r d item hu => ?_, fun u d hu => ?_, hnext⟩
  · by_cases hut : u = t
    · rw [hut, hpc, Function.update_self] at hu
      exact absurd hu (hwait r d item)
    · rw [hpc, Function.update_of_ne hut] at hu
      exact ⟨hu, by rw [hsync u r d item hu]⟩
  · by_cases hut : u = t
    · rw [hut, hpc, Function.update_self] at hu
      exact hut ▸ hdata d hu
    · rw [hpc, Function.update_of_ne hut] at hu
      exact .inl hu

omit [DecidableEq T] in
/-- No thread goes on. -/
theorem Frame.same {c k : Calls T} (hpc : k.pc = c.pc) (hsync : k.kernel.sync = c.kernel.sync)
    (hnext : k.nextData = c.nextData) : Frame c k := by
  refine ⟨fun u r d item hu => ?_, fun u d hu => .inl (hpc ▸ hu), hnext.ge⟩
  exact ⟨hpc ▸ hu, by rw [hsync]⟩

theorem Frame.enter {c k : Calls T} {pc : CallPc} (hk : c.enter t pc = some k)
    (hwait : ∀ r d item, pc ≠ .waiting r d item) (hdata : pc.data = none) : Frame c k := by
  simp only [Calls.enter] at hk
  split at hk
  next =>
    cases hk
    split
    · exact .goto rfl (by simp) (fun _ _ _ _ _ => rfl) (by simp [CallPc.data]) (Nat.le_refl _)
    · exact .goto rfl hwait (fun _ _ _ _ _ => rfl) (by simp [hdata]) (Nat.le_refl _)
  next => cases hk

theorem frame_of_plain {c k : Calls T} (h : c.SyncInv) {l : CallStep T} (hl : plain l = true)
    (hk : c.step l = some k) : Frame c k := by
  cases Calls.step_case hk with
  | asyncEntered hs | syncEntered hs => exact .enter hs (by simp) rfl
  | gotData =>
    refine .goto rfl (by simp) (fun _ _ _ _ _ => rfl) (fun d hd => .inr ?_) (Nat.le_succ _)
    cases hd
    exact ⟨Nat.le_refl _, Nat.lt_succ_self _⟩
  | noData | asyncNoItem | syncNoItem =>
    exact .goto rfl (by simp) (fun _ _ _ _ _ => rfl) (by simp [CallPc.data]) (Nat.le_refl _)
  | asyncGotItem =>
    exact .goto rfl (by simp) (fun _ _ _ _ _ => rfl) (by simp [CallPc.data]) (Nat.le_refl _)
  | syncGotItem hpc =>
    exact .goto rfl (by simp) (fun _ _ _ _ _ => rfl) (by simp [hpc, CallPc.data]) (Nat.le_refl _)
  | @swapped t r d hpc =>
    refine .goto rfl (by simp) (fun u r' d' item hu => ?_) (by simp [hpc, CallPc.data])
      (Nat.le_refl _)
    -- The swap fills in the data of its own call, which does not wait yet.
    have hne : d' ≠ d := by
      rintro rfl
      have hut := h.one_data u t d' (by rw [hu]; rfl) (by rw [hpc]; rfl)
      rw [hut, hpc] at hu
      cases hu
    simp [Calls.swapCallback, hne]
  | taken | retired | tooShort | unknown | found | stopped | edited => exact .same rfl rfl rfl
  | asyncAppended | syncAppended | woken | signalled | finished | completed => cases hl

/-! ## The invariant -/

/-- The wake-up to come, if it comes too late. -/
def late (s : SyncWaits T) : List DataPtr := s.waking.toList.filter (· ∈ s.freed)

/-- What the undisturbed runs keep: a caller that sleeps although its data is done is the
    one about to be woken, no call has data that was freed, and the wake-ups that come too
    late are those whose data was freed before them. -/
structure Waited (s : SyncWaits T) : Prop where
  told : ∀ t r d item, s.calls.pc t = .waiting r d item → s.phase t = .asleep false →
    (s.calls.kernel.sync d).done = true → s.waking = some d
  live : ∀ t d, (s.calls.pc t).data = some d → d ∉ s.freed
  old : ∀ d ∈ s.freed, d < s.calls.nextData
  record : s.early = s.touched ++ s.late

namespace Waited

omit [DecidableEq T] in
/-- The rest of the state stays as it is. -/
theorem frame (h : s.Waited) {k : Calls T} (hf : Frame s.calls k) :
    Waited { s with calls := k } := by
  refine ⟨fun t r d item hpc hsleep hd => ?_, fun t d hd => ?_, fun d hd => ?_, h.record⟩
  · obtain ⟨hpc', hdone⟩ := hf.waiting t r d item hpc
    exact h.told t r d item hpc' hsleep (hdone ▸ hd)
  · rcases hf.data t d hd with hold | ⟨hnew, -⟩
    · exact h.live t d hold
    · exact fun hm => Nat.not_lt.mpr hnew (h.old d hm)
  · exact Nat.lt_of_lt_of_le (h.old d hd) hf.next

/-- A sync call is appended and begins its wait; an async call returns. -/
theorem append (h : s.Waited) {k : Calls T} (hk : s.calls.step (.append t) = some k) :
    Waited { s with calls := k, phase := Function.update s.phase t .first } := by
  have hpcs : ∀ u, u ≠ t → k.pc u = s.calls.pc u := by
    intro u hu
    cases Calls.step_case hk <;> simp [Calls.push, Calls.ret, Calls.goto, hu]
  have hsync : k.kernel.sync = s.calls.kernel.sync := by
    cases Calls.step_case hk <;> rfl
  have hnext : k.nextData = s.calls.nextData := by
    cases Calls.step_case hk <;> rfl
  have hdata : ∀ d, (k.pc t).data = some d → (s.calls.pc t).data = some d := by
    intro d hd
    cases Calls.step_case hk with
    | asyncAppended => simp [Calls.ret, Calls.goto, CallPc.data] at hd
    | syncAppended hpc => simpa [Calls.goto, hpc, CallPc.data] using hd
  refine ⟨fun u r d item hpc hsleep hd => ?_, fun u d hd => ?_, fun d hd => ?_, h.record⟩
  · by_cases hut : u = t
    · subst hut
      simp at hsleep
    · simp only [Function.update_of_ne hut] at hsleep
      exact h.told u r d item (hpcs u hut ▸ hpc) hsleep (hsync ▸ hd)
  · by_cases hut : u = t
    · subst hut
      exact h.live u d (hdata d hd)
    · exact h.live u d (hpcs u hut ▸ hd)
  · change d < k.nextData
    rw [hnext]
    exact h.old d hd

/-- A sync call returns and frees its data. -/
theorem finish (h : s.Waited) (hinv : s.calls.SyncInv) {k : Calls T}
    (hk : s.calls.step (.finish t) = some k) : Waited { s with
      calls := k
      freed := s.freed ++ (s.calls.pc t).data.toList
      early := if (s.calls.pc t).data = s.waking then s.early ++ s.waking.toList
        else s.early } := by
  cases Calls.step_case hk with
  | @finished t r d item hpc =>
    have hdata : (s.calls.pc t).data = some d := by rw [hpc]; rfl
    have hlive := h.live t d hdata
    refine ⟨fun u r' d' item' hu hsleep hd => ?_, fun u d' hu => ?_, fun d' hd => ?_, ?_⟩
    · by_cases hut : u = t
      · subst hut
        simp [Calls.ret, Calls.goto] at hu
      · refine h.told u r' d' item' ?_ hsleep hd
        simpa [Calls.ret, Calls.goto, hut] using hu
    · by_cases hut : u = t
      · subst hut
        simp [Calls.ret, Calls.goto, CallPc.data] at hu
      · have hold : (s.calls.pc u).data = some d' := by simpa [Calls.ret, Calls.goto, hut] using hu
        simp only [hdata, Option.toList_some, List.mem_append, List.mem_singleton, not_or]
        refine ⟨h.live u d' hold, ?_⟩
        rintro rfl
        exact hut (hinv.one_data u t d' hold hdata)
    · simp only [hdata, Option.toList_some, List.mem_append, List.mem_singleton] at hd
      rcases hd with hd | rfl
      · exact h.old d' hd
      · exact hinv.data_lt t d' hdata
    · -- The wake-up of this data is now too late, if it is still to come.
      simp only [hdata, late, Option.toList_some, List.mem_append, List.mem_singleton]
      have hrecord := h.record
      unfold late at hrecord
      cases hw : s.waking with
      | none => simpa [hw] using hrecord
      | some d' =>
        simp only [hw, Option.toList_some] at hrecord
        by_cases hdd : d = d'
        · subst hdd
          simpa [hlive] using hrecord
        · have hother : ∀ x ∈ [d'], decide (x ∈ s.freed ∨ x = d) = decide (x ∈ s.freed) := by
            simp [Ne.symm hdd]
          simpa only [Option.some.injEq, hdd, if_false, Option.toList_some,
            List.filter_congr hother] using hrecord

/-- `sync_callback` sets `done`, for a call that has not returned. -/
theorem complete (h : s.Waited) (hinv : s.calls.SyncInv) (hw : s.waking = none) {k : Calls T}
    (hk : s.calls.step .writeComplete = some k) :
    Waited { s with calls := k, waking := syncData s.calls } := by
  cases Calls.step_case hk with
  | @completed item count resp hdev =>
    have hp : item ∈ s.calls.pending :=
      (Calls.SyncInv.pending_writing hdev).mem_iff.mpr List.mem_cons_self
    have hnone : ∀ t r d item, s.calls.pc t = .waiting r d item → s.phase t = .asleep false →
        (s.calls.kernel.sync d).done = false := by
      intro t r d item hpc hsleep
      refine Bool.eq_false_iff.mpr fun hd => ?_
      have htold := h.told t r d item hpc hsleep hd
      rw [hw] at htold
      cases htold
    by_cases hcb : (s.calls.kernel.req item.r).callback = .sync
    · obtain ⟨t, d, hpc, hkdata⟩ := hinv.waiting_of_sync hp hcb
      have hsync : syncData s.calls = some d := by simp [syncData, hdev, hcb, hkdata]
      have hlive := h.live t d (by rw [hpc]; rfl)
      refine ⟨fun u r d' item' hu hsleep hd => ?_, h.live, h.old, ?_⟩
      · change ((s.calls.kernel.writeComplete count item resp).2.sync d').done = true at hd
        rw [Kernel.writeComplete_sync hcb hkdata] at hd
        by_cases hdd : d' = d
        · rw [hsync, hdd]
        · rw [Function.update_of_ne hdd, hnone u r d' item' hu hsleep] at hd
          cases hd
      · have hrecord := h.record
        simp only [late, hw, Option.toList_none, List.filter_nil] at hrecord
        simpa [late, hsync, hlive] using hrecord
    · have hsync : syncData s.calls = none := by
        simp only [syncData, hdev]
        split
        next hsome _ => exact absurd hsome hcb
        next => rfl
      refine ⟨fun u r d' item' hu hsleep hd => ?_, h.live, h.old, ?_⟩
      · change ((s.calls.kernel.writeComplete count item resp).2.sync d').done = true at hd
        rw [Kernel.writeComplete_sync_client hcb, hnone u r d' item' hu hsleep] at hd
        cases hd
      · have hrecord := h.record
        simp only [late, hw] at hrecord
        simpa [late, hsync] using hrecord

/-- The next statement of a wait. -/
theorem waited (h : s.Waited) {r : ReqPtr} {d : DataPtr} {item : RequestItem} {p : WaitPhase}
    (hpc : s.calls.pc t = .waiting r d item)
    (hnext : (s.phase t).next (s.calls.kernel.sync d).done false = some (.go p)) :
    Waited { s with phase := Function.update s.phase t p } := by
  refine ⟨fun u r' d' item' hu hsleep hd => ?_, h.live, h.old, h.record⟩
  by_cases hut : u = t
  · subst hut
    simp only [Function.update_self] at hsleep
    rw [hsleep] at hnext
    cases hpc.symm.trans hu
    rw [WaitPhase.cond_of_go_asleep hnext] at hd
    cases hd
  · simp only [Function.update_of_ne hut] at hsleep
    exact h.told u r' d' item' hu hsleep hd

theorem fulfilled (h : s.Waited) {k : Calls T} (hk : s.calls.step (.wake t) = some k) :
    Waited { s with calls := k } := by
  refine h.frame ?_
  cases Calls.step_case hk with
  | woken hpc =>
    exact .goto rfl (by simp) (fun _ _ _ _ _ => rfl) (by simp [hpc, CallPc.data]) (Nat.le_refl _)

omit [DecidableEq T] in
theorem woke (h : s.Waited) {d : DataPtr} (hw : s.waking = some d) (hd : d ∉ s.freed) :
    Waited { s with
      waking := none
      phase := fun t => if (s.calls.pc t).data = some d then (s.phase t).wake else s.phase t } := by
  refine ⟨fun u r d' item hu hsleep hdone => ?_, h.live, h.old, ?_⟩
  · simp only at hsleep
    split at hsleep
    next => exact absurd hsleep WaitPhase.wake_ne_asleep
    next hne =>
      have htold := h.told u r d' item hu hsleep hdone
      rw [hw] at htold
      cases htold
      exact absurd (by rw [hu]; rfl) hne
  · have hrecord := h.record
    simp only [late, hw, Option.toList_some] at hrecord
    simpa [late, hd] using hrecord

omit [DecidableEq T] in
/-- The wake-up that comes too late is for a call that has returned. -/
theorem tooLate (h : s.Waited) {d : DataPtr} (hw : s.waking = some d) (hd : d ∈ s.freed) :
    Waited { s with waking := none, touched := s.touched ++ [d] } := by
  refine ⟨fun u r d' item hu hsleep hdone => ?_, h.live, h.old, ?_⟩
  · have htold := h.told u r d' item hu hsleep hdone
    rw [hw] at htold
    cases htold
    exact absurd hd (h.live u d (by rw [hu]; rfl))
  · have hrecord := h.record
    simp only [late, hw, Option.toList_some] at hrecord
    simpa [late, hd] using hrecord

theorem of_case (h : s.Waited) (hinv : s.calls.SyncInv) (hs : StepCase s s') : s'.Waited := by
  cases hs with
  | call hl _ hk => exact h.frame (frame_of_plain hinv hl hk)
  | append hk => exact h.append hk
  | finish hk => exact h.finish hinv hk
  | complete hw hk => exact h.complete hinv hw hk
  | waited hpc hnext => exact h.waited hpc hnext
  | fulfilled hk => exact h.fulfilled hk
  | woke hw hd => exact h.woke hw hd
  | tooLate hw hd => exact h.tooLate hw hd

end Waited

theorem waited_of_run {sync : DataPtr → SyncCallData} {pool : Mempool}
    {ls : List (SyncWaitStep T)} (hrun : Run step Undisturbed (init sync pool) ls s) : s.Waited := by
  refine hrun.invariant_reached (I := Waited) ?_ fun ls s l s' hreach h hok hs => ?_
  · constructor <;> simp [init, Calls.init, CallPc.data, late]
  · exact h.of_case (syncInv_of_run hreach) (step_case hok hs)

/-! ## Runs -/

/-- The statements of its wait take a caller whose data is done, and who does not sleep, to
    the end of the wait. -/
theorem wait_over {d : DataPtr} {r : ReqPtr} {item : RequestItem}
    (hpc : s.calls.pc t = .waiting r d item) (hd : (s.calls.kernel.sync d).done = true)
    (hawake : s.phase t ≠ .asleep false) :
    ∃ n s', n ≤ 3 ∧ Run step Undisturbed s (List.replicate n (.wait t false)) s' ∧
      s'.calls.pc t = .woken r d item := by
  -- The last statement is the test that finds the data done.
  have htest : ∀ {s : SyncWaits T}, s.calls.pc t = .waiting r d item →
      (s.calls.kernel.sync d).done = true → (s.phase t = .first ∨ ∃ w, s.phase t = .queued w) →
      ∃ s', Run step Undisturbed s [.wait t false] s' ∧ s'.calls.pc t = .woken r d item := by
    intro s hpc hd hphase
    have hnext : (s.phase t).next (s.calls.kernel.sync d).done false = some .fulfilled := by
      rcases hphase with hp | ⟨w, hp⟩ <;> simp [hp, hd, WaitPhase.next]
    have hwake : s.calls.step (.wake t) = some (s.calls.goto t (.woken r d item)) := by
      simp [Calls.step, hpc, hd]
    refine ⟨{ s with calls := s.calls.goto t (.woken r d item) }, ?_, by simp [Calls.goto]⟩
    exact Run.nil.snoc rfl (by simp only [step, hpc, hnext, hwake, Option.map_some])
  have hprepare : ∀ {s : SyncWaits T}, s.calls.pc t = .waiting r d item →
      (s.calls.kernel.sync d).done = true → s.phase t = .prepare →
      ∃ s', Run step Undisturbed s (List.replicate 2 (.wait t false)) s' ∧
        s'.calls.pc t = .woken r d item := by
    intro s hpc hd hp
    have hone : Run step Undisturbed s [.wait t false]
        { s with phase := Function.update s.phase t (.queued false) } :=
      Run.nil.snoc rfl (by simp [step, hpc, hp, WaitPhase.next])
    obtain ⟨s', hrun, hs'⟩ := htest (s := { s with phase := Function.update s.phase t (.queued false) })
      hpc hd (.inr ⟨false, by simp⟩)
    exact ⟨s', hone.trans hrun, hs'⟩
  cases hp : s.phase t with
  | first =>
    obtain ⟨s', hrun, hs'⟩ := htest hpc hd (.inl hp)
    exact ⟨1, s', by decide, hrun, hs'⟩
  | prepare =>
    obtain ⟨s', hrun, hs'⟩ := hprepare hpc hd hp
    exact ⟨2, s', by decide, hrun, hs'⟩
  | queued woken =>
    obtain ⟨s', hrun, hs'⟩ := htest hpc hd (.inr ⟨woken, hp⟩)
    exact ⟨1, s', by decide, hrun, hs'⟩
  | asleep woken =>
    cases woken with
    | false => exact absurd hp hawake
    | true =>
      have hone : Run step Undisturbed s [.wait t false]
          { s with phase := Function.update s.phase t .prepare } :=
        Run.nil.snoc rfl (by simp [step, hpc, hp, WaitPhase.next])
      obtain ⟨s', hrun, hs'⟩ := hprepare (s := { s with phase := Function.update s.phase t .prepare })
        hpc hd (by simp)
      exact ⟨3, s', by decide, hone.trans hrun, hs'⟩

/-- In every interleaving of callers and `kgpu_write` without signals and without a request
    submitted or rewritten while it is in a call or queued: a caller whose data is done has
    been woken when `sync_callback` has returned, so that at most three statements of its
    own end its wait; no call has data that is freed; and the wake-ups made on freed data
    are those whose call returned between the two statements of the callback. -/
theorem sync_callback_wakes {sync : DataPtr → SyncCallData} {pool : Mempool}
    {ls : List (SyncWaitStep T)} (hrun : Run step Undisturbed (init sync pool) ls s) :
    (∀ t r d item, s.calls.pc t = .waiting r d item → (s.calls.kernel.sync d).done = true →
      s.waking ≠ some d → ∃ n s', n ≤ 3 ∧
        Run step Undisturbed s (List.replicate n (.wait t false)) s' ∧
        s'.calls.pc t = .woken r d item) ∧
    (∀ t d, (s.calls.pc t).data = some d → d ∉ s.freed) ∧
    s.early = s.touched ++ s.late ∧ (s.waking = none → s.touched = s.early) := by
  have h := waited_of_run hrun
  refine ⟨fun t r d item hpc hd hw => wait_over hpc hd fun hp => hw (h.told t r d item hpc hp hd),
    h.live, h.record, fun hw => ?_⟩
  have hrecord := h.record
  rw [late, hw] at hrecord
  simpa using hrecord.symm

def started : SyncWaits Bool :=
  init (fun _ => ⟨.client 0, .client 0, false⟩) (.empty 0x100000 2)

/-- A sync call past its test of the state, up to the `done = 1` of its callback, which
    comes after `n` statements of the wait. -/
def served (t : Bool) (n : Nat) : List (SyncWaitStep Bool) :=
  [.call (.allocData t true), .call (.allocItem t true), .call (.swap t), .call (.append t)] ++
    List.replicate n (.wait t false) ++ [.call (.readTake kuRequestSize), .call .readRetire,
      .call (.writeFind kuResponseSize ⟨0, 5⟩), .call .writeComplete]

theorem undisturbed_served (t : Bool) (n : Nat) : ∀ l ∈ served t n, ∀ s, Undisturbed s l := by
  intro l hl s
  simp only [served, List.mem_append, List.mem_cons, List.mem_replicate, List.not_mem_nil,
    or_false] at hl
  rcases hl with ((rfl | rfl | rfl | rfl) | ⟨-, rfl⟩) | rfl | rfl | rfl | rfl
  case inl.inr => rfl
  all_goals trivial

/-- The first caller was at its second test, and has returned before the wake-up. -/
def oneReturned : SyncWaits Bool :=
  (exec step (.call (.callSync false 0) :: served false 2 ++
    [.wait false false, .call (.finish false), .wakeUp]) started).get rfl

/-- The second one has gone to sleep, and was woken. -/
def oneWoken : SyncWaits Bool :=
  (exec step (.call (.callSync true 1) :: served true 3 ++ [.wakeUp]) oneReturned).get rfl

/-- A call on a request that is in no other call and not queued. -/
theorem Undisturbed.callSync {s : SyncWaits Bool} {t : Bool} {r : ReqPtr}
    (hcalls : (s.calls.pc false).req ≠ some r ∧ (s.calls.pc true).req ≠ some r)
    (hqueued : r ∉ s.calls.pending.map (·.r)) : Undisturbed s (.call (.callSync t r)) := by
  refine ⟨fun u => ?_, hqueued⟩
  cases u
  · exact hcalls.1
  · exact hcalls.2

theorem oneReturned_reached : ∃ ls, Run step Undisturbed started ls oneReturned := by
  have hcalled : Run step Undisturbed started [.call (.callSync false 0)] _ :=
    Run.nil.snoc (.callSync (by decide) (by decide)) rfl
  have hserved := hcalled.trans (Run.of_forall
    (show exec step (served false 2 ++ [.wait false false, .call (.finish false), .wakeUp]) _ =
      some oneReturned from rfl) fun l hl s => ?_)
  · exact ⟨_, hserved⟩
  · rcases List.mem_append.mp hl with hl | hl
    · exact undisturbed_served false 2 l hl s
    · simp only [List.mem_cons, List.not_mem_nil, or_false] at hl
      rcases hl with rfl | rfl | rfl
      · rfl
      · trivial
      · trivial

/-- One call returns before its wake-up, another one sleeps and is woken. -/
theorem sync_callback_wakes_two_calls :
    ∃ ls s', Run step Undisturbed started ls oneWoken ∧ oneWoken.touched = [0] ∧
      oneWoken.early = [0] ∧ oneWoken.phase true = .asleep true ∧
      ∃ n, n ≤ 3 ∧ Run step Undisturbed oneWoken (List.replicate n (.wait true false)) s' ∧
        s'.calls.pc true = .woken 1 1 ⟨1, 1⟩ := by
  obtain ⟨ls, hfirst⟩ := oneReturned_reached
  have hcalled : Run step Undisturbed started (ls ++ [.call (.callSync true 1)]) _ :=
    hfirst.snoc (.callSync (by decide) (by decide)) rfl
  have hserved := hcalled.trans (Run.of_forall
    (show exec step (served true 3 ++ [.wakeUp]) _ = some oneWoken from rfl) fun l hl s => ?_)
  · obtain ⟨n, s', hn, hrun, hpc⟩ :=
      (sync_callback_wakes hserved).1 true 1 1 ⟨1, 1⟩ rfl rfl (by decide)
    exact ⟨_, s', hserved, rfl, rfl, rfl, n, hn, hrun, hpc⟩
  · rcases List.mem_append.mp hl with hl | hl
    · exact undisturbed_served true 3 l hl s
    · cases List.mem_singleton.mp hl
      trivial

end SyncWaits
end Kgpu
