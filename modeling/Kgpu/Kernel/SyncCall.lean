-- SUMMARY: When a synchronous call has its response before it returns.
import Kgpu.Kernel.Submissions

/-!
# Synchronous calls

`kgpu_call_sync` puts `sync_callback` in place of the client's callback, submits
the request and waits until the callback has run. The wait is interruptible and
its result is not looked at, so a signal ends the call with the request still
queued. This file shows that nothing else does.
-/

namespace Kgpu

open Library

variable {T : Type} [DecidableEq T]

namespace Calls

/-- No request is submitted or rewritten while it is in a call or queued, and no
    signal ends a wait before the callback has run. -/
def Undisturbed (s : Calls T) : CallStep T → Prop
  | .callAsync _ r | .callSync _ r | .edit r _ => s.Unused r
  | .signal t => ∀ r d item, s.pc t = .waiting r d item → (s.kernel.sync d).done = true
  | _ => True

/-- When `kgpu_call_sync` returns 0, its submission has been answered: the request
    is on no queue and has the error code of its response. And no submission of a
    sync call has had another callback than `sync_callback` invoked. -/
def SyncComplete (s : Calls T) : Prop :=
  (∀ t s', s.step (.finish t) = some s' → ∃ r d item, s.pc t = .woken r d item ∧ item.r = r ∧
    item ∈ s.syncItems ∧ r ∉ s'.pending.map (·.r) ∧
    s.answered item = some (s'.kernel.req r).errcode) ∧
  ∀ item ∈ s.syncItems, ∀ cb, (item, cb) ∈ s.kernel.callbacks → cb = .sync

/-- The submitted item of a sync call is the only one of its request, or it has
    been answered. -/
def Served (s : Calls T) (r : ReqPtr) (d : DataPtr) (item : RequestItem) : Prop :=
  item.r = r ∧ item ∈ s.syncItems ∧
  ((s.kernel.sync d).done = false → ∀ item' ∈ s.pending, item'.r = r → item' = item) ∧
  ((s.kernel.sync d).done = true →
    r ∉ s.pending.map (·.r) ∧ s.answered item = some (s.kernel.req r).errcode)

omit [DecidableEq T] in
/-- A sync call is served as before when no item of its request comes into flight. -/
theorem Served.of_same {s s' : Calls T} {r : ReqPtr} {d : DataPtr} {item : RequestItem}
    (h : s.Served r d item) (hitem : item ∈ s'.syncItems)
    (hpend : ∀ i ∈ s'.pending, i.r = r → i ∈ s.pending)
    (hsync : s'.kernel.sync d = s.kernel.sync d) (hreq : s'.kernel.req r = s.kernel.req r)
    (hans : s'.answered item = s.answered item) : s'.Served r d item := by
  obtain ⟨hr, -, hwait, hdone⟩ := h
  rw [← hsync] at hwait hdone
  refine ⟨hr, hitem, fun hd i hi hir => hwait hd i (hpend i hi hir) hir, fun hd => ?_⟩
  obtain ⟨hnot, he⟩ := hdone hd
  refine ⟨fun hmem => hnot ?_, by rw [hans, hreq, he]⟩
  obtain ⟨i, hi, hir⟩ := List.mem_map.mp hmem
  exact List.mem_map.mpr ⟨i, hpend i hi hir, hir⟩

/-- What a thread at `pc` relies on: a request it has not submitted is on no queue, the
    callback it has swapped is in place, and the item it waits for is served. -/
structure Relies (s : Calls T) (pc : CallPc) : Prop where
  not_queued : ∀ r, pc.req = some r → pc.submitted = none → r ∉ s.pending.map (·.r)
  owns : ∀ r d, pc.owns = some (r, d) →
    (s.kernel.req r).callback = .sync ∧ (s.kernel.req r).kdata = .sync d
  old : ∀ r d, pc.owns = some (r, d) → (s.kernel.sync d).oldcallback ≠ .sync
  fresh : ∀ r d, pc = .swapped r d → (s.kernel.sync d).done = false
  waiting : ∀ r d item, pc = .waiting r d item → s.Served r d item
  woken : ∀ r d item, pc = .woken r d item → s.Served r d item ∧ (s.kernel.sync d).done = true

omit [DecidableEq T] in
/-- A thread is not disturbed by a step that leaves its request and its data alone. -/
theorem Relies.of_same {s s' : Calls T} {pc : CallPc} (h : s.Relies pc)
    (hpend : ∀ i ∈ s'.pending, pc.req = some i.r → i ∈ s.pending)
    (hitems : ∀ i ∈ s.syncItems, i ∈ s'.syncItems)
    (hsame : ∀ r d, pc.owns = some (r, d) → s'.kernel.req r = s.kernel.req r ∧
      s'.kernel.sync d = s.kernel.sync d ∧ ∀ i, i.r = r → s'.answered i = s.answered i) :
    s'.Relies pc := by
  have hserved : ∀ r d item, pc.owns = some (r, d) → pc.req = some r → s.Served r d item →
      s'.Served r d item := by
    intro r d item ho hr hs
    obtain ⟨hreq, hsync, hans⟩ := hsame r d ho
    exact hs.of_same (hitems item hs.2.1) (fun i hi hir => hpend i hi (hir ▸ hr)) hsync hreq
      (hans item hs.1)
  refine ⟨?_, ?_, ?_, ?_, ?_, ?_⟩
  · intro r hr hsub hmem
    obtain ⟨i, hi, rfl⟩ := List.mem_map.mp hmem
    exact h.not_queued i.r hr hsub (List.mem_map.mpr ⟨i, hpend i hi hr, rfl⟩)
  · intro r d ho
    rw [(hsame r d ho).1]
    exact h.owns r d ho
  · intro r d ho
    rw [(hsame r d ho).2.1]
    exact h.old r d ho
  · intro r d hp
    rw [(hsame r d (by rw [hp]; rfl)).2.1]
    exact h.fresh r d hp
  · intro r d item hp
    exact hserved r d item (by rw [hp]; rfl) (by rw [hp]; rfl) (h.waiting r d item hp)
  · intro r d item hp
    obtain ⟨hs, hd⟩ := h.woken r d item hp
    refine ⟨hserved r d item (by rw [hp]; rfl) (by rw [hp]; rfl) hs, ?_⟩
    rw [(hsame r d (by rw [hp]; rfl)).2.1]
    exact hd

omit [DecidableEq T] in
/-- Before the swap a thread relies on its request not being queued only. -/
theorem Relies.early {s : Calls T} {pc : CallPc} (hown : pc.owns = none)
    (hnot : ∀ r, pc.req = some r → r ∉ s.pending.map (·.r)) : s.Relies pc := by
  refine ⟨fun r hr _ => hnot r hr, ?_, ?_, ?_, ?_, ?_⟩ <;> intros <;> simp_all [CallPc.owns]

/-- `s'` differs from `s` in what completing an item of a sync call changes: the item
    has left, its request has the error code and the data of the call is done. -/
structure Answers (s s' : Calls T) (item : RequestItem) (d : DataPtr) (code : Int) : Prop where
  threads : s'.pc = s.pc ∧ s'.syncItems = s.syncItems ∧ s'.nextItem = s.nextItem ∧
    s'.nextData = s.nextData
  pending : s.pending.Perm (item :: s'.pending)
  sync : s'.kernel.sync = Function.update s.kernel.sync d { s.kernel.sync d with done := true }
  req : s'.kernel.req =
    Function.update s.kernel.req item.r { s.kernel.req item.r with errcode := code }
  callbacks : s'.kernel.callbacks = s.kernel.callbacks ++ [(item, .sync)]
  answered : s'.answered = Function.update s.answered item (some code)

namespace Answers

variable {s s' : Calls T} {item : RequestItem} {d : DataPtr} {code : Int}

omit [DecidableEq T] in
theorem mem (h : s.Answers s' item d code) {i : RequestItem} (hi : i ∈ s'.pending) : i ∈ s.pending :=
  h.pending.mem_iff.mpr (List.mem_cons_of_mem _ hi)

omit [DecidableEq T] in
theorem nodup (h : s.Answers s' item d code) (hnd : (s.pending.map (·.r)).Nodup) :
    item.r ∉ s'.pending.map (·.r) ∧ (s'.pending.map (·.r)).Nodup := by
  rwa [(h.pending.map _).nodup_iff, List.map_cons, List.nodup_cons] at hnd

omit [DecidableEq T] in
theorem callback (h : s.Answers s' item d code) (r : ReqPtr) :
    (s'.kernel.req r).callback = (s.kernel.req r).callback ∧
    (s'.kernel.req r).kdata = (s.kernel.req r).kdata := by
  rw [h.req]
  by_cases hr : r = item.r
  · subst hr
    simp
  · simp [hr]

omit [DecidableEq T] in
theorem oldcallback (h : s.Answers s' item d code) (d' : DataPtr) :
    (s'.kernel.sync d').oldcallback = (s.kernel.sync d').oldcallback := by
  rw [h.sync]
  by_cases hd : d' = d
  · subst hd
    simp
  · simp [hd]

omit [DecidableEq T] in
/-- A thread with another request and other data is not disturbed. -/
theorem relies_of_ne (h : s.Answers s' item d code) {pc : CallPc}
    (hne : ∀ r' d', pc.owns = some (r', d') → r' ≠ item.r ∧ d' ≠ d) (hs : s.Relies pc) :
    s'.Relies pc := by
  refine hs.of_same (fun i hi _ => h.mem hi) (fun i hi => h.threads.2.1 ▸ hi) fun r' d' ho => ?_
  obtain ⟨hr, hd⟩ := hne r' d' ho
  refine ⟨?_, ?_, fun i hi => ?_⟩
  · simp [h.req, hr]
  · simp [h.sync, hd]
  · have hitem : i ≠ item := fun e => hr (by rw [← hi, e])
    simp [h.answered, hitem]

omit [DecidableEq T] in
/-- The call that waited for the item has its answer. -/
theorem served (h : s.Answers s' item d code) (hnd : (s.pending.map (·.r)).Nodup)
    (hi : item ∈ s.syncItems) : s'.Served item.r d item := by
  refine ⟨rfl, h.threads.2.1 ▸ hi, fun hd => ?_, fun _ => ⟨(h.nodup hnd).1, ?_⟩⟩
  · simp [h.sync] at hd
  · simp [h.answered, h.req]

end Answers

/-- What undisturbed runs keep. -/
structure SyncInv (s : Calls T) : Prop where
  once : (s.pending.map (·.r)).Nodup
  addr_lt : ∀ item, item ∈ s.pending ∨ item ∈ s.syncItems → item.addr < s.nextItem
  one_call : ∀ t t' r, (s.pc t).req = some r → (s.pc t').req = some r → t = t'
  not_queued : ∀ t r, (s.pc t).req = some r → (s.pc t).submitted = none → r ∉ s.pending.map (·.r)
  data_lt : ∀ t d, (s.pc t).data = some d → d < s.nextData
  one_data : ∀ t t' d, (s.pc t).data = some d → (s.pc t').data = some d → t = t'
  owned : ∀ r, (s.kernel.req r).callback = .sync → ∃ t d, (s.pc t).owns = some (r, d)
  owns : ∀ t r d, (s.pc t).owns = some (r, d) →
    (s.kernel.req r).callback = .sync ∧ (s.kernel.req r).kdata = .sync d
  old : ∀ t r d, (s.pc t).owns = some (r, d) → (s.kernel.sync d).oldcallback ≠ .sync
  fresh : ∀ t r d, s.pc t = .swapped r d → (s.kernel.sync d).done = false
  waiting : ∀ t r d item, s.pc t = .waiting r d item → s.Served r d item
  woken : ∀ t r d item, s.pc t = .woken r d item →
    s.Served r d item ∧ (s.kernel.sync d).done = true
  queued : ∀ item ∈ s.pending, item ∈ s.syncItems → ∃ t d, s.pc t = .waiting item.r d item
  told : ∀ item cb, (item, cb) ∈ s.kernel.callbacks →
    item.addr < s.nextItem ∧ (item ∈ s.syncItems → cb = .sync)

namespace SyncInv

variable {s : Calls T} {t : T}

omit [DecidableEq T] in
theorem relies (h : s.SyncInv) (t : T) : s.Relies (s.pc t) :=
  ⟨h.not_queued t, h.owns t, h.old t, h.fresh t, h.waiting t, h.woken t⟩

omit [DecidableEq T] in
/-- The invariant, thread by thread. -/
theorem of_relies (once : (s.pending.map (·.r)).Nodup)
    (addr_lt : ∀ item, item ∈ s.pending ∨ item ∈ s.syncItems → item.addr < s.nextItem)
    (threads : (∀ t t' r, (s.pc t).req = some r → (s.pc t').req = some r → t = t') ∧
      (∀ t d, (s.pc t).data = some d → d < s.nextData) ∧
      ∀ t t' d, (s.pc t).data = some d → (s.pc t').data = some d → t = t')
    (owned : ∀ r, (s.kernel.req r).callback = .sync → ∃ t d, (s.pc t).owns = some (r, d))
    (relies : ∀ t, s.Relies (s.pc t))
    (queued : ∀ item ∈ s.pending, item ∈ s.syncItems → ∃ t d, s.pc t = .waiting item.r d item)
    (told : ∀ item cb, (item, cb) ∈ s.kernel.callbacks →
      item.addr < s.nextItem ∧ (item ∈ s.syncItems → cb = .sync)) : s.SyncInv :=
  ⟨once, addr_lt, threads.1, fun t => (relies t).not_queued, threads.2.1, threads.2.2, owned,
    fun t => (relies t).owns, fun t => (relies t).old, fun t => (relies t).fresh,
    fun t => (relies t).waiting, fun t => (relies t).woken, queued, told⟩

/-! ## A thread moves on -/

theorem goto_pc (s : Calls T) (t : T) (pc : CallPc) (t' : T) :
    (t' = t ∧ (s.goto t pc).pc t' = pc) ∨ (t' ≠ t ∧ (s.goto t pc).pc t' = s.pc t') := by
  by_cases h : t' = t
  · exact .inl ⟨h, by simp [goto, h]⟩
  · exact .inr ⟨h, by simp [goto, h]⟩

theorem relies_goto {s' : Calls T} {pc : CallPc} (hme : s'.Relies pc)
    (hothers : ∀ t', t' ≠ t → s'.Relies (s.pc t')) (t' : T) : s'.Relies ((s.goto t pc).pc t') := by
  rcases goto_pc s t pc t' with ⟨-, hp⟩ | ⟨hne, hp⟩
  · rw [hp]
    exact hme
  · rw [hp]
    exact hothers t' hne

/-- Every swapped callback has its call, when the thread keeps the one that it has. -/
theorem owned_goto (h : s.SyncInv) {s' : Calls T} {pc : CallPc} (hpc : s'.pc = (s.goto t pc).pc)
    (hcb : ∀ r, (s'.kernel.req r).callback = .sync →
      (s.kernel.req r).callback = .sync ∨ ∃ d, pc.owns = some (r, d))
    (hkeep : ∀ r d, (s.pc t).owns = some (r, d) → (s'.kernel.req r).callback = .sync →
      pc.owns = some (r, d)) :
    ∀ r, (s'.kernel.req r).callback = .sync → ∃ t' d, (s'.pc t').owns = some (r, d) := by
  intro r hr
  rw [hpc]
  rcases hcb r hr with hs | ⟨d, ho⟩
  · obtain ⟨t', d, ho⟩ := h.owned r hs
    refine ⟨t', d, ?_⟩
    rcases goto_pc s t pc t' with ⟨rfl, hp⟩ | ⟨-, hp⟩
    · rw [hp]
      exact hkeep r d ho hr
    · rw [hp]
      exact ho
  · exact ⟨t, d, by simp [goto, ho]⟩

/-- Every item of a sync call has the call that waits for it, when it is not the one that
    the thread stops waiting for. -/
theorem queued_goto (h : s.SyncInv) {s' : Calls T} {pc : CallPc} (hpc : s'.pc = (s.goto t pc).pc)
    (hwait : ∀ item ∈ s'.pending, item ∈ s'.syncItems → (∃ d, pc = .waiting item.r d item) ∨
      (item ∈ s.pending ∧ item ∈ s.syncItems ∧ ∀ d, s.pc t ≠ .waiting item.r d item)) :
    ∀ item ∈ s'.pending, item ∈ s'.syncItems → ∃ t' d, s'.pc t' = .waiting item.r d item := by
  intro item hp hi
  rw [hpc]
  rcases hwait item hp hi with ⟨d, rfl⟩ | ⟨hp, hi, hnot⟩
  · exact ⟨t, d, by simp [goto]⟩
  · obtain ⟨t', d, hw⟩ := h.queued item hp hi
    refine ⟨t', d, ?_⟩
    rcases goto_pc s t pc t' with ⟨rfl, -⟩ | ⟨-, hp⟩
    · exact absurd hw (hnot d)
    · rw [hp]
      exact hw

/-- Requests and data stay with one call each when a thread moves on with its own, or
    takes up a request that is unused or data that is new. -/
theorem goto_threads (h : s.SyncInv) {pc : CallPc} {n : Nat}
    (hreq : ∀ r, pc.req = some r → (s.pc t).req = some r ∨ ∀ t', (s.pc t').req ≠ some r)
    (hdata : ∀ d, pc.data = some d → ((s.pc t).data = some d ∨ d = s.nextData) ∧ d < n)
    (hn : s.nextData ≤ n) :
    (∀ t₁ t₂ r, ((s.goto t pc).pc t₁).req = some r → ((s.goto t pc).pc t₂).req = some r → t₁ = t₂) ∧
    (∀ t' d, ((s.goto t pc).pc t').data = some d → d < n) ∧
    ∀ t₁ t₂ d, ((s.goto t pc).pc t₁).data = some d → ((s.goto t pc).pc t₂).data = some d → t₁ = t₂ := by
  have hpc : ∀ t', (t' = t ∧ (s.goto t pc).pc t' = pc) ∨ (t' ≠ t ∧ (s.goto t pc).pc t' = s.pc t') :=
    goto_pc s t pc
  refine ⟨fun t₁ t₂ r h₁ h₂ => ?_, fun t' d h₁ => ?_, fun t₁ t₂ d h₁ h₂ => ?_⟩
  · have := h.one_call t₁ t₂ r
    grind
  · have := h.data_lt t' d
    grind
  · have := h.one_data t₁ t₂ d
    have := h.data_lt t₁ d
    have := h.data_lt t₂ d
    grind

theorem goto_own (h : s.SyncInv) (pc : CallPc)
    (hreq : ∀ r, pc.req = some r → (s.pc t).req = some r)
    (hdata : ∀ d, pc.data = some d → (s.pc t).data = some d) :
    (∀ t₁ t₂ r, ((s.goto t pc).pc t₁).req = some r → ((s.goto t pc).pc t₂).req = some r → t₁ = t₂) ∧
    (∀ t' d, ((s.goto t pc).pc t').data = some d → d < s.nextData) ∧
    ∀ t₁ t₂ d, ((s.goto t pc).pc t₁).data = some d → ((s.goto t pc).pc t₂).data = some d → t₁ = t₂ :=
  h.goto_threads (fun r hr => .inl (hreq r hr))
    (fun d hd => ⟨.inl (hdata d hd), h.data_lt t d (hdata d hd)⟩) (Nat.le_refl _)

/-! ## Steps of a call -/

/-- Moving a thread among the program points without a swapped callback. -/
theorem goto_early (h : s.SyncInv) {pc : CallPc} {n : Nat} {rets : List (T × Int)}
    (hold : (s.pc t).owns = none) (hnew : pc.owns = none)
    (hreq : ∀ r, pc.req = some r → (s.pc t).req = some r ∨ s.Unused r)
    (hdata : ∀ d, pc.data = some d →
      ((s.pc t).data = some d ∨ d = s.nextData) ∧ d < n) (hn : s.nextData ≤ n) :
    SyncInv { s.goto t pc with nextData := n, returned := rets } := by
  have hwait : ∀ r d i, s.pc t ≠ .waiting r d i := by
    intro r d i hp
    rw [hp] at hold
    cases hold
  have hsub : (s.pc t).submitted = none := by
    cases hp : s.pc t <;> simp_all [CallPc.owns, CallPc.submitted]
  refine of_relies h.once h.addr_lt
    (h.goto_threads (fun r hr => (hreq r hr).imp_right And.left) hdata hn)
    (h.owned_goto rfl (fun r hr => .inl hr) (by simp [hold])) (relies_goto ?_ fun t' _ => ?_)
    (h.queued_goto rfl fun item hp hi => .inr ⟨hp, hi, fun d => hwait _ d item⟩) h.told
  · refine Relies.early hnew fun r hr => ?_
    rcases hreq r hr with hr | hfree
    · exact h.not_queued t r hr hsub
    · exact hfree.2
  · exact (h.relies t').of_same (fun _ hi _ => hi) (fun _ hi => hi)
      fun _ _ _ => ⟨rfl, rfl, fun _ _ => rfl⟩

omit [DecidableEq T] in
/-- The other sync calls are on other requests and have other data. -/
theorem others (h : s.SyncInv) {t' : T} {r r' : ReqPtr} {d d' : DataPtr}
    (hreq : (s.pc t).req = some r) (hdata : (s.pc t).data = some d) (hne : t' ≠ t)
    (ho : (s.pc t').owns = some (r', d')) : r' ≠ r ∧ d' ≠ d := by
  have hr : (s.pc t').req = some r' := by
    cases hp : s.pc t' <;> simp_all [CallPc.owns, CallPc.req]
  have hd : (s.pc t').data = some d' := by
    cases hp : s.pc t' <;> simp_all [CallPc.owns, CallPc.data]
  exact ⟨fun e => hne (h.one_call t' t r (e ▸ hr) hreq),
    fun e => hne (h.one_data t' t d (e ▸ hd) hdata)⟩

omit [DecidableEq T] in
/-- A request that no call has swapped the callback of has its client's. -/
theorem client_of_unowned (h : s.SyncInv) {r : ReqPtr} (hreq : (s.pc t).req = some r)
    (hown : (s.pc t).owns = none) : (s.kernel.req r).callback ≠ .sync := by
  intro hsync
  obtain ⟨t', d', ho⟩ := h.owned r hsync
  have hr : (s.pc t').req = some r := by
    cases hp : s.pc t' <;> simp_all [CallPc.owns, CallPc.req]
  rw [h.one_call t' t r hr hreq, hown] at ho
  cases ho

theorem swap (h : s.SyncInv) {r : ReqPtr} {d : DataPtr} (hpc : s.pc t = .syncItem r d) :
    SyncInv { s.goto t (.swapped r d) with kernel := swapCallback s.kernel r d } := by
  have hreq : (s.pc t).req = some r := by rw [hpc]; rfl
  have hdata : (s.pc t).data = some d := by rw [hpc]; rfl
  have hown : (s.pc t).owns = none := by rw [hpc]; rfl
  have hnq := h.not_queued t r hreq (by rw [hpc]; rfl)
  have hclient := h.client_of_unowned hreq hown
  refine of_relies h.once h.addr_lt
    (h.goto_own (.swapped r d) (fun r' hr => hreq.trans hr) (fun d' hd => hdata.trans hd))
    (h.owned_goto rfl (fun r' hr => ?_) (by simp [hown])) (relies_goto ?_ fun t' hne => ?_)
    (h.queued_goto rfl fun item hp hi => .inr ⟨hp, hi, fun d' => by simp [hpc]⟩) h.told
  · by_cases hrr : r' = r
    · exact .inr ⟨d, by simp [hrr, CallPc.owns]⟩
    · exact .inl (by simpa [swapCallback, hrr] using hr)
  · refine ⟨fun r' hr _ => ?_, fun r' d' ho => ?_, fun r' d' ho => ?_, fun r' d' hp => ?_, ?_, ?_⟩
    · cases hr
      exact hnq
    · cases ho
      simp [swapCallback]
    · cases ho
      simpa [swapCallback] using hclient
    · cases hp
      simp [swapCallback]
    · simp
    · simp
  · refine (h.relies t').of_same (fun _ hi _ => hi) (fun _ hi => hi) fun r' d' ho => ?_
    obtain ⟨hr, hd⟩ := h.others hreq hdata hne ho
    exact ⟨by simp [swapCallback, hr], by simp [swapCallback, hd], fun _ _ => rfl⟩

omit [DecidableEq T] in
theorem pending_push (s : Calls T) (r : ReqPtr) :
    (s.push r).pending.Perm (⟨s.nextItem, r⟩ :: s.pending) := by
  simp [pending, push]

omit [DecidableEq T] in
theorem mem_pending_push {r : ReqPtr} {item : RequestItem} :
    item ∈ (s.push r).pending ↔ item = ⟨s.nextItem, r⟩ ∨ item ∈ s.pending := by
  rw [(pending_push s r).mem_iff, List.mem_cons]

/-- A thread with another request is not disturbed by an append. -/
theorem relies_push {r : ReqPtr} {pc pc' : CallPc} {items : List RequestItem}
    {rets : List (T × Int)} (hne : pc.req ≠ some r) (hitems : ∀ i ∈ s.syncItems, i ∈ items)
    (h : s.Relies pc) :
    Relies { (s.push r).goto t pc' with syncItems := items, returned := rets } pc := by
  refine h.of_same (fun i hi hr => ?_) hitems fun _ _ _ => ⟨rfl, rfl, fun _ _ => rfl⟩
  rcases mem_pending_push.mp hi with rfl | hi
  · exact absurd hr hne
  · exact hi

omit [DecidableEq T] in
/-- What both kinds of append keep, whatever the thread does next. -/
theorem push_common (h : s.SyncInv) {r : ReqPtr} (hreq : (s.pc t).req = some r)
    (hsub : (s.pc t).submitted = none) :
    ((s.push r).pending.map (·.r)).Nodup ∧
    (∀ item, item ∈ (s.push r).pending ∨ item ∈ s.syncItems → item.addr < (s.push r).nextItem) ∧
    (⟨s.nextItem, r⟩ : RequestItem) ∉ s.syncItems ∧
    ∀ t', t' ≠ t → (s.pc t').req ≠ some r := by
  refine ⟨?_, fun item hi => ?_, fun hmem => ?_, fun t' hne hr => ?_⟩
  · rw [((pending_push s r).map _).nodup_iff, List.map_cons, List.nodup_cons]
    exact ⟨h.not_queued t r hreq hsub, h.once⟩
  · have hlt := h.addr_lt item
    rw [mem_pending_push] at hi
    change item.addr < s.nextItem + 1
    rcases hi with (rfl | hi) | hi
    · exact Nat.lt_succ_self _
    · exact Nat.lt_succ_of_lt (hlt (.inl hi))
    · exact Nat.lt_succ_of_lt (hlt (.inr hi))
  · exact absurd (h.addr_lt _ (.inr hmem)) (Nat.lt_irrefl _)
  · exact hne (h.one_call t' t r hr hreq)

theorem append_async (h : s.SyncInv) {r : ReqPtr} (hpc : s.pc t = .asyncItem r) :
    SyncInv ((s.push r).ret t 0) := by
  have hown : (s.pc t).owns = none := by rw [hpc]; rfl
  obtain ⟨hnd, hlt, hnew, hother⟩ := h.push_common (t := t) (r := r) (by rw [hpc]; rfl) (by rw [hpc]; rfl)
  refine of_relies hnd hlt (h.goto_own .idle (by simp [CallPc.req]) (by simp [CallPc.data]))
    (h.owned_goto rfl (fun r' hr => .inl hr) (by simp [hown])) (relies_goto ?_ fun t' hne => ?_)
    (h.queued_goto rfl fun item hp hi => .inr ?_) fun item cb hmem => ?_
  · exact Relies.early rfl (by simp [CallPc.req])
  · exact relies_push (hother t' hne) (fun _ hi => hi) (h.relies t')
  · rcases mem_pending_push.mp hp with rfl | hp
    · exact absurd hi hnew
    · exact ⟨hp, hi, fun d => by simp [hpc]⟩
  · obtain ⟨hlt, hcb⟩ := h.told item cb hmem
    exact ⟨Nat.lt_succ_of_lt hlt, hcb⟩

/-- The new item is the only one of its request, and nothing is done yet. -/
theorem served_append (h : s.SyncInv) {r : ReqPtr} {d : DataPtr} {pc : CallPc}
    (hpc : s.pc t = .swapped r d) :
    Served { (s.push r).goto t pc with syncItems := s.syncItems ++ [⟨s.nextItem, r⟩] } r d
      ⟨s.nextItem, r⟩ := by
  refine ⟨rfl, by simp, fun _ item hp hr => ?_, fun hd => ?_⟩
  · rcases mem_pending_push.mp hp with rfl | hp
    · rfl
    · have hnot := h.not_queued t r (by rw [hpc]; rfl) (by rw [hpc]; rfl)
      exact absurd (List.mem_map.mpr ⟨item, hp, hr⟩) hnot
  · have hfresh := h.fresh t r d hpc
    exact absurd (hfresh.symm.trans hd) (by simp)

theorem append_sync (h : s.SyncInv) {r : ReqPtr} {d : DataPtr} (hpc : s.pc t = .swapped r d) :
    SyncInv { (s.push r).goto t (.waiting r d ⟨s.nextItem, r⟩) with
      syncItems := s.syncItems ++ [⟨s.nextItem, r⟩] } := by
  have hreq : (s.pc t).req = some r := by rw [hpc]; rfl
  have hdata : (s.pc t).data = some d := by rw [hpc]; rfl
  have hown : (s.pc t).owns = some (r, d) := by rw [hpc]; rfl
  obtain ⟨hnd, hlt, -, hother⟩ := h.push_common hreq (by rw [hpc]; rfl)
  -- The new item is the last of `syncItems`, and no item before it has its address.
  have hold : ∀ item ∈ s.syncItems ++ [⟨s.nextItem, r⟩], item.addr < s.nextItem →
      item ∈ s.syncItems := by
    intro item hi hlt
    rcases List.mem_append.mp hi with hi | hi
    · exact hi
    · rw [List.mem_singleton.mp hi] at hlt
      exact absurd hlt (Nat.lt_irrefl _)
  refine of_relies hnd ?_
    (h.goto_own (.waiting r d ⟨s.nextItem, r⟩) (fun r' hr => hreq.trans hr)
      (fun d' hd => hdata.trans hd))
    (h.owned_goto rfl (fun r' hr => .inl hr) (fun r' d' ho _ => hown.symm.trans ho))
    (relies_goto ?_ fun t' hne => ?_) (h.queued_goto rfl fun item hp hi => ?_) fun item cb hmem => ?_
  · rintro item (hi | hi)
    · exact hlt item (.inl hi)
    · rcases List.mem_append.mp hi with hi | hi
      · exact hlt item (.inr hi)
      · rw [List.mem_singleton.mp hi]
        exact Nat.lt_succ_self s.nextItem
  · refine ⟨by simp [CallPc.submitted], fun r' d' ho => ?_, fun r' d' ho => ?_, by simp,
      fun r' d' item hw => ?_, by simp⟩
    · cases ho
      exact h.owns t r d hown
    · cases ho
      exact h.old t r d hown
    · cases hw
      exact h.served_append hpc
  · exact relies_push (hother t' hne) (fun _ hi => List.mem_append_left _ hi) (h.relies t')
  · rcases mem_pending_push.mp hp with rfl | hp
    · exact .inl ⟨d, rfl⟩
    · exact .inr ⟨hp, hold item hi (h.addr_lt item (.inl hp)), fun d' => by simp [hpc]⟩
  · obtain ⟨hlt, hcb⟩ := h.told item cb hmem
    exact ⟨Nat.lt_succ_of_lt hlt, fun hi => hcb (hold item hi hlt)⟩

/-- The wait ends with the callback done. -/
theorem wake (h : s.SyncInv) {r : ReqPtr} {d : DataPtr} {item : RequestItem}
    (hpc : s.pc t = .waiting r d item) (hdone : (s.kernel.sync d).done = true) :
    SyncInv (s.goto t (.woken r d item)) := by
  have hown : (s.pc t).owns = some (r, d) := by rw [hpc]; rfl
  have hserved := h.waiting t r d item hpc
  refine of_relies h.once h.addr_lt
    (h.goto_own (.woken r d item) (fun r' hr => by rw [hpc]; exact hr)
      (fun d' hd => by rw [hpc]; exact hd))
    (h.owned_goto rfl (fun r' hr => .inl hr) (fun r' d' ho _ => hown.symm.trans ho))
    (relies_goto ?_ fun t' _ => ?_) (h.queued_goto rfl fun item' hp hi => .inr ⟨hp, hi, ?_⟩) h.told
  · refine ⟨by simp [CallPc.submitted], fun r' d' ho => ?_, fun r' d' ho => ?_, by simp, by simp,
      fun r' d' item' hw => ?_⟩
    · cases ho
      exact h.owns t r d hown
    · cases ho
      exact h.old t r d hown
    · cases hw
      exact ⟨hserved, hdone⟩
  · exact (h.relies t').of_same (fun _ hi _ => hi) (fun _ hi => hi)
      fun _ _ _ => ⟨rfl, rfl, fun _ _ => rfl⟩
  · -- A call that is done has no item in the queues.
    intro d' hw
    rw [hpc] at hw
    cases hw
    exact (hserved.2.2.2 hdone).1 (List.mem_map.mpr ⟨item, hp, rfl⟩)

/-- `kgpu_call_sync` gives the request its callback back and returns. -/
theorem finish (h : s.SyncInv) {r : ReqPtr} {d : DataPtr} {item : RequestItem}
    (hpc : s.pc t = .woken r d item) :
    SyncInv { s.ret t 0 with kernel := restoreCallback s.kernel r d } := by
  have hreq : (s.pc t).req = some r := by rw [hpc]; rfl
  have hdata : (s.pc t).data = some d := by rw [hpc]; rfl
  have hown : (s.pc t).owns = some (r, d) := by rw [hpc]; rfl
  have hold : ((restoreCallback s.kernel r d).req r).callback ≠ .sync := by
    simpa [restoreCallback] using h.old t r d hown
  refine of_relies h.once h.addr_lt
    (h.goto_own .idle (by simp [CallPc.req]) (by simp [CallPc.data]))
    (h.owned_goto rfl (fun r' hr => .inl ?_) fun r' d' ho hr => ?_)
    (relies_goto ?_ fun t' hne => ?_)
    (h.queued_goto rfl fun item' hp hi => .inr ⟨hp, hi, fun d' => by simp [hpc]⟩) h.told
  · have hrr : r' ≠ r := fun e => hold (e ▸ hr)
    simpa [restoreCallback, hrr] using hr
  · cases hown.symm.trans ho
    exact absurd hr hold
  · exact Relies.early rfl (by simp [CallPc.req])
  · refine (h.relies t').of_same (fun _ hi _ => hi) (fun _ hi => hi) fun r' d' ho => ?_
    exact ⟨by simp [restoreCallback, (h.others hreq hdata hne ho).1], rfl, fun _ _ => rfl⟩

/-! ## Steps of the device and of the clients -/

omit [DecidableEq T] in
/-- Items may leave the queues, and requests of no sync call may be written to. -/
theorem frame (h : s.SyncInv) {s' : Calls T} (hpc : s'.pc = s.pc)
    (hitems : s'.syncItems = s.syncItems) (hitem : s'.nextItem = s.nextItem)
    (hdata : s'.nextData = s.nextData) (hpend : s'.pending.Subperm s.pending)
    (hsync : s'.kernel.sync = s.kernel.sync)
    (hreq : ∀ r, s'.kernel.req r = s.kernel.req r ∨
      ((∀ t d, (s.pc t).owns ≠ some (r, d)) ∧ (s'.kernel.req r).callback ≠ .sync))
    (hans : ∀ item, s'.answered item = s.answered item ∨
      ∀ t d, (s.pc t).owns ≠ some (item.r, d))
    (hcb : ∀ item cb, (item, cb) ∈ s'.kernel.callbacks → (item, cb) ∈ s.kernel.callbacks ∨
      (item ∈ s.pending ∧ item ∉ s.syncItems)) : SyncInv s' := by
  have hmem : ∀ item, item ∈ s'.pending → item ∈ s.pending := fun item hi => hpend.subset hi
  have hsame : ∀ t r d, (s.pc t).owns = some (r, d) → s'.kernel.req r = s.kernel.req r :=
    fun t r d ho => (hreq r).resolve_right fun hn => hn.1 t d ho
  obtain ⟨kept, hperm, hsub⟩ := hpend
  refine of_relies ?_ ?_ ?_ (fun r hr => ?_) (fun t => ?_) ?_ (fun item cb hm => ?_)
  · exact (hperm.map _).nodup_iff.mp ((hsub.map _).nodup h.once)
  · rw [hitem, hitems]
    exact fun item hi => h.addr_lt item (hi.imp_left (hmem item))
  · rw [hpc, hdata]
    exact ⟨h.one_call, h.data_lt, h.one_data⟩
  · rw [hpc]
    rcases hreq r with he | ⟨-, hne⟩
    · exact h.owned r (he ▸ hr)
    · exact absurd hr hne
  · rw [hpc]
    refine (h.relies t).of_same (fun i hi _ => hmem i hi) (fun i hi => hitems ▸ hi) fun r d ho => ?_
    refine ⟨hsame t r d ho, congrFun hsync d, fun i hi => ?_⟩
    exact (hans i).resolve_right fun hn => hn t d (hi ▸ ho)
  · rw [hpc, hitems]
    exact fun item hp hi => h.queued item (hmem item hp) hi
  · rw [hitem, hitems]
    rcases hcb item cb hm with hm | ⟨hp, hn⟩
    · exact h.told item cb hm
    · exact ⟨h.addr_lt item (.inl hp), fun hi => absurd hi hn⟩

omit [DecidableEq T] in
theorem pending_writing {item : RequestItem} {count : UL} {resp : KuResponse}
    (hdev : s.dev = .writing item count resp) :
    s.pending.Perm (item :: (s.kernel.reqs ++ s.kernel.rtdreqs)) := by
  simp [pending, hdev, DevPc.held]

omit [DecidableEq T] in
/-- The item of a request that has `sync_callback` is the one its caller waits for. -/
theorem waiting_of_sync (h : s.SyncInv) {item : RequestItem} (hp : item ∈ s.pending)
    (hcb : (s.kernel.req item.r).callback = .sync) :
    ∃ t d, s.pc t = .waiting item.r d item ∧ (s.kernel.req item.r).kdata = .sync d := by
  obtain ⟨t, d, ho⟩ := h.owned item.r hcb
  have hkdata := (h.owns t item.r d ho).2
  have hin : item.r ∈ s.pending.map (·.r) := List.mem_map.mpr ⟨item, hp, rfl⟩
  refine ⟨t, d, ?_, hkdata⟩
  cases hpc : s.pc t with
  | swapped r d' =>
    rw [hpc] at ho
    cases ho
    exact absurd hin (h.not_queued t item.r (by rw [hpc]; rfl) (by rw [hpc]; rfl))
  | waiting r d' item' =>
    rw [hpc] at ho
    cases ho
    obtain ⟨-, -, hwait, hdone⟩ := h.waiting t _ _ _ hpc
    cases hd : (s.kernel.sync d).done with
    | true => exact absurd hin (hdone hd).1
    | false => rw [hwait hd item hp rfl]
  | woken r d' item' =>
    rw [hpc] at ho
    cases ho
    obtain ⟨⟨-, -, -, hdone⟩, hd⟩ := h.woken t _ _ _ hpc
    exact absurd hin (hdone hd).1
  | idle | asyncTested | asyncItem | syncTested | syncData | syncItem =>
    rw [hpc] at ho
    cases ho

omit [DecidableEq T] in
/-- Completing an item whose callback is the client's own. -/
theorem complete_client (h : s.SyncInv) {item : RequestItem} {count : UL} {resp : KuResponse}
    {rets : List Int} (hdev : s.dev = .writing item count resp)
    (hcb : (s.kernel.req item.r).callback ≠ .sync) :
    SyncInv { s with
      kernel := (s.kernel.writeComplete count item resp).2
      dev := .idle
      answered := Function.update s.answered item (some resp.errcode)
      written := rets } := by
  have hpend := pending_writing hdev
  have hp : item ∈ s.pending := hpend.mem_iff.mpr List.mem_cons_self
  have hfree : ∀ t d, (s.pc t).owns ≠ some (item.r, d) :=
    fun t d ho => hcb (h.owns t item.r d ho).1
  refine h.frame rfl rfl rfl rfl ?_ ?_ (fun r => ?_) (fun item' => ?_) ?_
  · refine List.Subperm.trans ?_ hpend.symm.subperm
    exact (List.Perm.refl _).subperm.cons_right item
  · exact Kernel.writeComplete_sync_client hcb
  · by_cases hr : r = item.r
    · subst hr
      exact .inr ⟨hfree, Kernel.writeComplete_callback.trans_ne hcb⟩
    · left
      rw [Kernel.writeComplete_req, Function.update_of_ne hr]
  · by_cases hi : item' = item
    · subst hi
      exact .inr hfree
    · exact .inl (by simp [hi])
  · intro item' cb hm
    rw [Kernel.writeComplete_callbacks, List.mem_append, List.mem_singleton, Prod.mk.injEq] at hm
    rcases hm with hm | ⟨rfl, -⟩
    · exact .inl hm
    · refine .inr ⟨hp, fun hi => ?_⟩
      obtain ⟨t, d, hw⟩ := h.queued item' hp hi
      exact hfree t d (by rw [hw]; rfl)

omit [DecidableEq T] in
/-- The completion of the item that a sync call waits for. -/
theorem writeComplete_answers {item : RequestItem} {d : DataPtr} {count : UL} {resp : KuResponse}
    {rets : List Int} (hdev : s.dev = .writing item count resp)
    (hcb : (s.kernel.req item.r).callback = .sync)
    (hkdata : (s.kernel.req item.r).kdata = .sync d) :
    s.Answers { s with
      kernel := (s.kernel.writeComplete count item resp).2
      dev := .idle
      answered := Function.update s.answered item (some resp.errcode)
      written := rets } item d resp.errcode := by
  refine ⟨⟨rfl, rfl, rfl, rfl⟩, ?_, Kernel.writeComplete_sync hcb hkdata,
    Kernel.writeComplete_req, ?_, rfl⟩
  · exact pending_writing hdev
  · rw [Kernel.writeComplete_callbacks, hcb]

omit [DecidableEq T] in
/-- Of the sync calls, only the one on the answered item has its data changed. -/
theorem answers (h : s.SyncInv) {s' : Calls T} {item : RequestItem} {d : DataPtr} {code : Int}
    (hpc : s.pc t = .waiting item.r d item) (ha : s.Answers s' item d code) : s'.SyncInv := by
  have hp : item ∈ s.pending := ha.pending.mem_iff.mpr List.mem_cons_self
  have hother : ∀ t' r' d', t' ≠ t → (s.pc t').owns = some (r', d') → r' ≠ item.r ∧ d' ≠ d :=
    fun t' r' d' hne ho => h.others (by rw [hpc]; rfl) (by rw [hpc]; rfl) hne ho
  have hown : (s.pc t).owns = some (item.r, d) := by rw [hpc]; rfl
  have hmine : s'.Relies (.waiting item.r d item) := by
    refine ⟨by simp [CallPc.submitted], fun r' d' ho => ?_, fun r' d' ho => ?_, by simp,
      fun r' d' item' hw => ?_, by simp⟩
    · cases ho
      rw [(ha.callback item.r).1, (ha.callback item.r).2]
      exact h.owns t item.r d hown
    · cases ho
      rw [ha.oldcallback]
      exact h.old t item.r d hown
    · cases hw
      exact ha.served h.once (h.waiting t _ _ _ hpc).2.1
  obtain ⟨hpcs, hitems, hitem, hdata⟩ := ha.threads
  refine of_relies (ha.nodup h.once).2 ?_ ?_ ?_ (fun t' => ?_) ?_ (fun item' cb hm => ?_)
  · rw [hitem, hitems]
    exact fun item' hi => h.addr_lt item' (hi.imp_left ha.mem)
  · rw [hpcs, hdata]
    exact ⟨h.one_call, h.data_lt, h.one_data⟩
  · rw [hpcs]
    exact fun r' hr => h.owned r' ((ha.callback r').1 ▸ hr)
  · rw [hpcs]
    by_cases ht : t' = t
    · rw [ht, hpc]
      exact hmine
    · exact ha.relies_of_ne (fun r' d' ho => hother t' r' d' ht ho) (h.relies t')
  · rw [hpcs, hitems]
    exact fun item' hi hsi => h.queued item' (ha.mem hi) hsi
  · rw [ha.callbacks, List.mem_append, List.mem_singleton] at hm
    rw [hitem, hitems]
    rcases hm with hm | hm
    · exact h.told item' cb hm
    · cases hm
      exact ⟨h.addr_lt item (.inl hp), fun _ => rfl⟩

omit [DecidableEq T] in
/-- Completing an item whose callback is `sync_callback`: its caller's data is done. -/
theorem complete_sync (h : s.SyncInv) {item : RequestItem} {count : UL} {resp : KuResponse}
    {rets : List Int} (hdev : s.dev = .writing item count resp)
    (hcb : (s.kernel.req item.r).callback = .sync) :
    SyncInv { s with
      kernel := (s.kernel.writeComplete count item resp).2
      dev := .idle
      answered := Function.update s.answered item (some resp.errcode)
      written := rets } := by
  have hp : item ∈ s.pending := (pending_writing hdev).mem_iff.mpr List.mem_cons_self
  obtain ⟨t, d, hpc, hkdata⟩ := h.waiting_of_sync hp hcb
  exact h.answers hpc (writeComplete_answers hdev hcb hkdata)

/-! ## Runs -/

theorem enter (h : s.SyncInv) {pc : CallPc} {r : ReqPtr} {s' : Calls T}
    (hs : s.enter t pc = some s') (hreq : pc.req = some r) (hdata : pc.data = none)
    (hnew : pc.owns = none) (hfree : s.Unused r) : s'.SyncInv := by
  unfold Calls.enter at hs
  cases hpc : s.pc t with
  | idle =>
    simp only [hpc, Option.some.injEq] at hs
    subst hs
    split
    · exact h.goto_early (by rw [hpc]; rfl) rfl (by simp [CallPc.req]) (by simp [CallPc.data])
        (Nat.le_refl _)
    · refine h.goto_early (by rw [hpc]; rfl) hnew (fun r' hr => ?_) (by simp [hdata]) (Nat.le_refl _)
      cases hreq.symm.trans hr
      exact .inr hfree
  | asyncTested | asyncItem | syncTested | syncData | syncItem | swapped | waiting | woken =>
    simp [hpc] at hs

/-- A call that fails an allocation returns. -/
theorem give_up (h : s.SyncInv) {code : Int} (hown : (s.pc t).owns = none) :
    SyncInv (s.ret t code) :=
  h.goto_early hown rfl (by simp [CallPc.req]) (by simp [CallPc.data]) (Nat.le_refl _)

theorem allocData (h : s.SyncInv) {r : ReqPtr} (hpc : s.pc t = .syncTested r) :
    SyncInv { s.goto t (.syncData r s.nextData) with nextData := s.nextData + 1 } := by
  refine h.goto_early (by rw [hpc]; rfl) rfl (fun r' hr => .inl ?_) (fun d hd => ?_)
    (Nat.le_succ _)
  · rw [hpc]
    exact hr
  · cases hd
    exact ⟨.inr rfl, Nat.lt_succ_self _⟩

/-- A call gets an item and keeps the data it has. -/
theorem allocItem (h : s.SyncInv) {pc : CallPc} (hown : (s.pc t).owns = none)
    (hown' : pc.owns = none) (hreq : pc.req = (s.pc t).req) (hdata : pc.data = (s.pc t).data) :
    SyncInv (s.goto t pc) := by
  refine h.goto_early hown hown' (fun r hr => .inl (hreq ▸ hr)) (fun d hd => ?_) (Nat.le_refl _)
  rw [hdata] at hd
  exact ⟨.inl hd, h.data_lt t d hd⟩

omit [DecidableEq T] in
/-- Reading and looking up move items between the queues and the device, or lose one. -/
theorem moved (h : s.SyncInv) {s' : Calls T} (hpend : s'.pending.Subperm s.pending)
    (hthreads : s'.pc = s.pc ∧ s'.syncItems = s.syncItems ∧ s'.nextItem = s.nextItem ∧
      s'.nextData = s.nextData ∧ s'.answered = s.answered)
    (hkernel : s'.kernel.req = s.kernel.req ∧ s'.kernel.sync = s.kernel.sync ∧
      s'.kernel.callbacks = s.kernel.callbacks) : s'.SyncInv := by
  obtain ⟨hpc, hitems, hitem, hdata, hans⟩ := hthreads
  obtain ⟨hreq, hsync, hcbs⟩ := hkernel
  exact h.frame hpc hitems hitem hdata hpend hsync (fun r => .inl (by rw [hreq]))
    (fun item => .inl (by rw [hans])) (fun item cb hm => .inl (hcbs ▸ hm))

omit [DecidableEq T] in
theorem readTake (h : s.SyncInv) {item : RequestItem} {rest : List RequestItem} {c : UL}
    {kureq : KuRequest} (hdev : s.dev = .idle) (hreqs : s.kernel.reqs = item :: rest) :
    SyncInv { s with
      kernel := { s.kernel with reqs := rest }
      dev := .reading item kureq c
      handed := s.handed ++ [item] } := by
  refine h.moved (List.Perm.subperm ?_) ⟨rfl, rfl, rfl, rfl, rfl⟩ ⟨rfl, rfl, rfl⟩
  simp [pending, hdev, hreqs, DevPc.held]

omit [DecidableEq T] in
theorem readRetire (h : s.SyncInv) {item : RequestItem} {kureq : KuRequest} {c : UL}
    (hdev : s.dev = .reading item kureq c) :
    SyncInv { s with kernel := (s.kernel.readRetire c item).2, dev := .idle } := by
  refine h.moved ?_ ⟨rfl, rfl, rfl, rfl, rfl⟩ ⟨rfl, rfl, rfl⟩
  by_cases hc : 0 < c.toInt
  · refine List.Perm.subperm ?_
    simp only [pending, hdev, DevPc.held, Kernel.readRetire, hc, if_true, List.nil_append]
    exact (List.perm_append_comm).append_left _
  · -- A count that is not positive loses the item.
    simp only [pending, hdev, DevPc.held, Kernel.readRetire, hc, if_false, List.nil_append]
    exact ((List.sublist_cons_self item _).append_left _).subperm

omit [DecidableEq T] in
/-- The look-up takes an item off `rtdreqs`. -/
theorem found (h : s.SyncInv) {item : RequestItem} {count : UL} {resp : KuResponse}
    (hdev : s.dev = .idle) (hmem : item ∈ s.kernel.rtdreqs) :
    SyncInv { s with
      kernel := { s.kernel with rtdreqs := s.kernel.rtdreqs.erase item }
      dev := .writing item count resp } := by
  refine h.moved (List.Perm.subperm ?_) ⟨rfl, rfl, rfl, rfl, rfl⟩ ⟨rfl, rfl, rfl⟩
  simp only [pending, hdev, DevPc.held]
  exact (List.perm_cons_erase hmem).symm.append_left _

omit [DecidableEq T] in
/-- A client writes to a request that is in no call. -/
theorem edit (h : s.SyncInv) {r : ReqPtr} {q : KgpuRequest} (hfree : s.Unused r)
    (hq : q.callback ≠ .sync) :
    SyncInv { s with kernel := { s.kernel with req := Function.update s.kernel.req r q } } := by
  refine h.frame rfl rfl rfl rfl (List.Perm.refl _).subperm rfl (fun r' => ?_)
    (fun _ => .inl rfl) (fun _ _ hm => .inl hm)
  by_cases hr : r' = r
  · subst hr
    refine .inr ⟨fun t d ho => hfree.1 t ?_, by simpa using hq⟩
    cases hpc : s.pc t <;> simp_all [CallPc.owns, CallPc.req]
  · exact .inl (by simp [hr])

theorem step (h : s.SyncInv) {l : CallStep T} {s' : Calls T} (hok : s.Undisturbed l)
    (hs : s.step l = some s') : s'.SyncInv := by
  cases step_case hs with
  | asyncEntered hs => exact h.enter hs rfl rfl rfl hok
  | syncEntered hs => exact h.enter hs rfl rfl rfl hok
  | gotData hpc => exact h.allocData hpc
  | noData hpc | asyncNoItem hpc | syncNoItem hpc => exact h.give_up (by rw [hpc]; rfl)
  | asyncGotItem hpc | syncGotItem hpc =>
    exact h.allocItem (by rw [hpc]; rfl) rfl (by rw [hpc]; rfl) (by rw [hpc]; rfl)
  | swapped hpc => exact h.swap hpc
  | asyncAppended hpc => exact h.append_async hpc
  | syncAppended hpc => exact h.append_sync hpc
  | woken hpc hd => exact h.wake hpc hd
  | signalled hpc => exact h.wake hpc (hok _ _ _ hpc)
  | finished hpc => exact h.finish hpc
  | taken hdev hreqs => exact h.readTake hdev hreqs
  | retired hdev => exact h.readRetire hdev
  | tooShort | unknown | stopped =>
    exact h.moved (List.Perm.refl _).subperm ⟨rfl, rfl, rfl, rfl, rfl⟩ ⟨rfl, rfl, rfl⟩
  | found hdev _ hmem => exact h.found hdev hmem
  | @completed item _ _ hdev =>
    by_cases hcb : (s.kernel.req item.r).callback = .sync
    · exact h.complete_sync hdev hcb
    · exact h.complete_client hdev hcb
  | edited hq => exact h.edit hok hq

omit [DecidableEq T] in
theorem start (sync : DataPtr → SyncCallData) (pool : Mempool) :
    (init sync pool : Calls T).SyncInv := by
  constructor <;> simp [init, pending, DevPc.held, CallPc.req, CallPc.data, CallPc.owns,
    KgpuRequest.constructed]

theorem syncComplete (h : s.SyncInv) : s.SyncComplete := by
  refine ⟨fun t s' hs => ?_, fun item hi cb hm => (h.told item cb hm).2 hi⟩
  cases step_case hs with
  | @finished t r d item hpc =>
    obtain ⟨⟨hr, hi, -, hdone⟩, hd⟩ := h.woken t r d item hpc
    obtain ⟨hnot, hans⟩ := hdone hd
    refine ⟨r, d, item, hpc, hr, hi, hnot, ?_⟩
    simpa [restoreCallback] using hans

end SyncInv

/-- In every run without an early signal and without a request used twice at a
    time, in every state reached, synchronous calls return with their response. -/
theorem sync_complete_of_undisturbed {sync : DataPtr → SyncCallData} {pool : Mempool}
    {ls : List (CallStep T)} {s : Calls T} (hrun : Run step Undisturbed (init sync pool) ls s) :
    s.SyncComplete := by
  have hinv : s.SyncInv :=
    hrun.invariant (SyncInv.start sync pool) fun _ _ _ h hok hs => h.step hok hs
  exact hinv.syncComplete

/-- A call that is read, answered with error code 5 and woken. -/
theorem sync_complete_of_undisturbed_one_call :
    ∃ s : Calls Unit, Run step Undisturbed
        (init (fun _ => ⟨.client 0, .client 0, false⟩) (.empty 0x100000 2))
        [.callSync () 0, .allocData () true, .allocItem () true, .swap (), .append (),
          .readTake kuRequestSize, .readRetire, .writeFind kuResponseSize ⟨0, 5⟩, .writeComplete,
          .wake ()] s ∧
      s.answered ⟨0, 0⟩ = some 5 ∧ (s.step (.finish ())).isSome ∧ s.SyncComplete := by
  have hrun : Run step Undisturbed
      (init (fun _ => ⟨.client 0, .client 0, false⟩) (.empty 0x100000 2) : Calls Unit)
      [.callSync () 0, .allocData () true, .allocItem () true, .swap (), .append (),
        .readTake kuRequestSize, .readRetire, .writeFind kuResponseSize ⟨0, 5⟩, .writeComplete,
        .wake ()] _ :=
    .snoc (.snoc (.snoc (.snoc (.snoc (.snoc (.snoc (.snoc (.snoc (.snoc .nil
      (by simp [Undisturbed, Unused, init, CallPc.req, pending, DevPc.held]) rfl) trivial rfl)
      trivial rfl) trivial rfl) trivial rfl) trivial rfl) trivial rfl) trivial rfl) trivial rfl)
      trivial rfl
  exact ⟨_, hrun, rfl, rfl, sync_complete_of_undisturbed hrun⟩

/-- A signal ends the wait. The call returns 0 with the request still in `reqs`,
    and the response that comes later invokes the client's own callback. -/
theorem not_sync_complete :
    (∃ s : Calls Unit, Run step Free
      (init (fun _ => ⟨.client 0, .client 0, false⟩) (.empty 0x100000 2))
      [.callSync () 0, .allocData () true, .allocItem () true, .swap (), .append (), .signal ()] s ∧
      ¬ s.SyncComplete) ∧
    (∃ s : Calls Unit, Run step Free
      (init (fun _ => ⟨.client 0, .client 0, false⟩) (.empty 0x100000 2))
      [.callSync () 0, .allocData () true, .allocItem () true, .swap (), .append (), .signal (),
        .finish (), .readTake kuRequestSize, .readRetire, .writeFind kuResponseSize ⟨0, 5⟩,
        .writeComplete] s ∧
      s.returned = [((), 0)] ∧ s.kernel.callbacks = [(⟨0, 0⟩, .client 0)] ∧ ¬ s.SyncComplete) := by
  refine ⟨⟨_, Run.of_exec rfl, fun h => ?_⟩, ⟨_, Run.of_exec rfl, rfl, rfl, fun h => ?_⟩⟩
  · obtain ⟨r, d, item, hpc, -, -, hnot, -⟩ := h.1 () _ rfl
    cases hpc
    exact hnot (by decide)
  · have hsync := h.2 ⟨0, 0⟩ (by decide) (.client 0) (by decide)
    cases hsync

end Calls
end Kgpu
