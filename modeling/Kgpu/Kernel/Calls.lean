-- SUMMARY: `kgpu_call_async` and `kgpu_call_sync` as threads that interleave with the device's reader and writer.
import Kgpu.Kernel.Queue
import Mathlib.Data.List.Nodup

/-!
# Calls of kernel clients

Any number of threads call `kgpu_call_async` and `kgpu_call_sync`, while the
process that has the device open reads requests and writes responses. A call is
cut where another thread can come between two of its statements and tell the
difference: at the test of `kgpudev.state`, at each slab allocation, at the swap
of the request's callback, at the locked append, and at both ends of the wait.
`kgpu_read` and `kgpu_write` are cut between their locked sections.
-/

namespace Kgpu

open Library

variable {T : Type} [DecidableEq T]

/-- Where a client thread stands, with the request and the objects it has got. -/
inductive CallPc where
  | idle
  /-- `kgpu_call_async`, past the test of the state. -/
  | asyncTested (r : ReqPtr)
  /-- `kgpu_call_async`, with an item. -/
  | asyncItem (r : ReqPtr)
  | syncTested (r : ReqPtr)
  | syncData (r : ReqPtr) (d : DataPtr)
  | syncItem (r : ReqPtr) (d : DataPtr)
  /-- The request's callback and private data are those of the sync call. -/
  | swapped (r : ReqPtr) (d : DataPtr)
  /-- In `wait_event_interruptible`, with the item submitted. -/
  | waiting (r : ReqPtr) (d : DataPtr) (item : RequestItem)
  /-- The wait is over. -/
  | woken (r : ReqPtr) (d : DataPtr) (item : RequestItem)

namespace CallPc

/-- The request of the call. -/
def req : CallPc → Option ReqPtr
  | idle => none
  | asyncTested r | asyncItem r | syncTested r | syncData r _ | syncItem r _ | swapped r _
  | waiting r _ _ | woken r _ _ => some r

/-- The sync-call data of the call. -/
def data : CallPc → Option DataPtr
  | syncData _ d | syncItem _ d | swapped _ d | waiting _ d _ | woken _ d _ => some d
  | _ => none

/-- The request and data of a sync call that has swapped the callback. -/
def owns : CallPc → Option (ReqPtr × DataPtr)
  | swapped r d | waiting r d _ | woken r d _ => some (r, d)
  | _ => none

/-- The item of a sync call that has been submitted. -/
def submitted : CallPc → Option RequestItem
  | waiting _ _ item | woken _ _ item => some item
  | _ => none

end CallPc

/-- Where the reader and writer of the device stands. -/
inductive DevPc where
  | idle
  /-- In `kgpu_read` of `c` bytes, with the item off `reqs` and copied out. -/
  | reading (item : RequestItem) (kureq : KuRequest) (c : UL)
  /-- In `kgpu_write`, with the item off `rtdreqs`. -/
  | writing (item : RequestItem) (count : UL) (resp : KuResponse)

/-- The item that is on neither queue. -/
def DevPc.held : DevPc → List RequestItem
  | idle => []
  | reading item _ _ | writing item _ _ => [item]

/-- The kernel, the threads and the addresses not used yet, with a record of the
    run: the items in the order they were appended to `reqs`, those of them that
    sync calls appended, the items in the order they were read, the error code
    each completed item was answered with, and what the calls of the clients and
    the writes of the device returned. -/
structure Calls (T : Type) where
  kernel : Kernel
  dev : DevPc
  pc : T → CallPc
  nextItem : Nat
  nextData : Nat
  accepted : List RequestItem
  syncItems : List RequestItem
  handed : List RequestItem
  answered : RequestItem → Option Int
  returned : List (T × Int)
  written : List Int

inductive CallStep (T : Type) where
  | callAsync (t : T) (r : ReqPtr)
  | callSync (t : T) (r : ReqPtr)
  | allocData (t : T) (ok : Bool)
  | allocItem (t : T) (ok : Bool)
  | swap (t : T)
  | append (t : T)
  /-- The wait ends because `done` is 1. -/
  | wake (t : T)
  /-- The wait ends because of a signal. -/
  | signal (t : T)
  /-- The callback and private data are restored and 0 is returned. -/
  | finish (t : T)
  | readTake (c : UL)
  | readRetire
  | writeFind (count : UL) (resp : KuResponse)
  | writeComplete
  /-- The ioctl `KGPU_IOC_SET_STOP`. -/
  | setStop
  /-- A client writes to a request object. -/
  | edit (r : ReqPtr) (q : KgpuRequest)

namespace Calls

def goto (s : Calls T) (t : T) (pc : CallPc) : Calls T :=
  { s with pc := Function.update s.pc t pc }

/-- Return `code` to the caller. -/
def ret (s : Calls T) (t : T) (code : Int) : Calls T :=
  { s.goto t .idle with returned := s.returned ++ [(t, code)] }

/-- Both calls begin with the test of the state. -/
def enter (s : Calls T) (t : T) (pc : CallPc) : Option (Calls T) :=
  match s.pc t with
  | .idle => some (if s.kernel.terminated then s.ret t kgpuTerminated else s.goto t pc)
  | _ => none

/-- `list_add_tail` of a new item for `r` to `kgpudev.reqs`. -/
def push (s : Calls T) (r : ReqPtr) : Calls T :=
  { s with
    kernel := { s.kernel with reqs := s.kernel.reqs ++ [⟨s.nextItem, r⟩] }
    nextItem := s.nextItem + 1
    accepted := s.accepted ++ [⟨s.nextItem, r⟩] }

/-- The assignments of `kgpu_call_sync` between the allocations and the append. -/
def swapCallback (k : Kernel) (r : ReqPtr) (d : DataPtr) : Kernel :=
  { k with
    sync := Function.update k.sync d
      { oldkdata := (k.req r).kdata, oldcallback := (k.req r).callback, done := false }
    req := Function.update k.req r { k.req r with kdata := .sync d, callback := .sync } }

/-- The assignments of `kgpu_call_sync` after the wait. -/
def restoreCallback (k : Kernel) (r : ReqPtr) (d : DataPtr) : Kernel :=
  { k with
    req := Function.update k.req r
      { k.req r with kdata := (k.sync d).oldkdata, callback := (k.sync d).oldcallback } }

/-- One step of a thread or of the device. A client never stores `sync_callback`
    itself, which is static in the module. -/
def step (s : Calls T) : CallStep T → Option (Calls T)
  | .callAsync t r => s.enter t (.asyncTested r)
  | .callSync t r => s.enter t (.syncTested r)
  | .allocData t ok =>
    match s.pc t with
    | .syncTested r =>
      some (if ok then { s.goto t (.syncData r s.nextData) with nextData := s.nextData + 1 }
        else s.ret t Kernel.eNOMEM)
    | _ => none
  | .allocItem t ok =>
    match s.pc t with
    | .asyncTested r => some (if ok then s.goto t (.asyncItem r) else s.ret t Kernel.eNOMEM)
    | .syncData r d => some (if ok then s.goto t (.syncItem r d) else s.ret t Kernel.eNOMEM)
    | _ => none
  | .swap t =>
    match s.pc t with
    | .syncItem r d => some { s.goto t (.swapped r d) with kernel := swapCallback s.kernel r d }
    | _ => none
  | .append t =>
    match s.pc t with
    | .asyncItem r => some ((s.push r).ret t 0)
    | .swapped r d =>
      some { (s.push r).goto t (.waiting r d ⟨s.nextItem, r⟩) with
        syncItems := s.syncItems ++ [⟨s.nextItem, r⟩] }
    | _ => none
  | .wake t =>
    match s.pc t with
    | .waiting r d item => if (s.kernel.sync d).done then some (s.goto t (.woken r d item)) else none
    | _ => none
  | .signal t =>
    match s.pc t with
    | .waiting r d item => some (s.goto t (.woken r d item))
    | _ => none
  | .finish t =>
    match s.pc t with
    | .woken r d _ => some { s.ret t 0 with kernel := restoreCallback s.kernel r d }
    | _ => none
  | .readTake c =>
    match s.dev, s.kernel.readTake with
    | .idle, some (item, kureq, k) =>
      some { s with kernel := k, dev := .reading item kureq c, handed := s.handed ++ [item] }
    | _, _ => none
  | .readRetire =>
    match s.dev with
    | .reading item _ c => some { s with kernel := (s.kernel.readRetire c item).2, dev := .idle }
    | _ => none
  | .writeFind count resp =>
    match s.dev with
    | .idle =>
      if count < kuResponseSize then some { s with written := s.written ++ [Kernel.eINVAL] }
      else
        match s.kernel.findRequest resp.id true with
        | (none, _) => some { s with written := s.written ++ [Kernel.eFAULT] }
        | (some item, k) => some { s with kernel := k, dev := .writing item count resp }
    | _ => none
  | .writeComplete =>
    match s.dev with
    | .writing item count resp =>
      some { s with
        kernel := (s.kernel.writeComplete count item resp).2
        dev := .idle
        answered := Function.update s.answered item (some resp.errcode)
        written := s.written ++ [(s.kernel.writeComplete count item resp).1] }
    | _ => none
  | .setStop => some { s with kernel := { s.kernel with terminated := true } }
  | .edit r q =>
    if q.callback = .sync then none
    else some { s with kernel := { s.kernel with req := Function.update s.kernel.req r q } }

/-- The state `kgpu_init` leaves, with request objects fresh from the slab. -/
def init (sync : DataPtr → SyncCallData) (pool : Mempool) : Calls T where
  kernel :=
    { terminated := false, ridSequence := 0, reqs := [], rtdreqs := [], gmpool := pool, fpos := 0
      req := fun _ => .constructed 0, sync := sync, callbacks := [] }
  dev := .idle
  pc := fun _ => .idle
  nextItem := 0
  nextData := 0
  accepted := []
  syncItems := []
  handed := []
  answered := fun _ => none
  returned := []
  written := []

/-- The items submitted and not yet completed. -/
def pending (s : Calls T) : List RequestItem :=
  s.kernel.reqs ++ (s.dev.held ++ s.kernel.rtdreqs)

/-- The request is in no call and in flight in no queue. -/
def Unused (s : Calls T) (r : ReqPtr) : Prop :=
  (∀ t, (s.pc t).req ≠ some r) ∧ r ∉ s.pending.map (·.r)

/-! ## What a step can do -/

/-- The branches of `step`, with the state each of them leaves. -/
inductive StepCase (s : Calls T) : CallStep T → Calls T → Prop where
  | asyncEntered {t : T} {r : ReqPtr} {s' : Calls T} :
      s.enter t (.asyncTested r) = some s' → StepCase s (.callAsync t r) s'
  | syncEntered {t : T} {r : ReqPtr} {s' : Calls T} :
      s.enter t (.syncTested r) = some s' → StepCase s (.callSync t r) s'
  | gotData {t : T} {r : ReqPtr} : s.pc t = .syncTested r →
      StepCase s (.allocData t true)
        { s.goto t (.syncData r s.nextData) with nextData := s.nextData + 1 }
  | noData {t : T} {r : ReqPtr} : s.pc t = .syncTested r →
      StepCase s (.allocData t false) (s.ret t Kernel.eNOMEM)
  | asyncGotItem {t : T} {r : ReqPtr} : s.pc t = .asyncTested r →
      StepCase s (.allocItem t true) (s.goto t (.asyncItem r))
  | asyncNoItem {t : T} {r : ReqPtr} : s.pc t = .asyncTested r →
      StepCase s (.allocItem t false) (s.ret t Kernel.eNOMEM)
  | syncGotItem {t : T} {r : ReqPtr} {d : DataPtr} : s.pc t = .syncData r d →
      StepCase s (.allocItem t true) (s.goto t (.syncItem r d))
  | syncNoItem {t : T} {r : ReqPtr} {d : DataPtr} : s.pc t = .syncData r d →
      StepCase s (.allocItem t false) (s.ret t Kernel.eNOMEM)
  | swapped {t : T} {r : ReqPtr} {d : DataPtr} : s.pc t = .syncItem r d →
      StepCase s (.swap t)
        { s.goto t (.swapped r d) with kernel := swapCallback s.kernel r d }
  | asyncAppended {t : T} {r : ReqPtr} : s.pc t = .asyncItem r →
      StepCase s (.append t) ((s.push r).ret t 0)
  | syncAppended {t : T} {r : ReqPtr} {d : DataPtr} : s.pc t = .swapped r d →
      StepCase s (.append t) { (s.push r).goto t (.waiting r d ⟨s.nextItem, r⟩) with
        syncItems := s.syncItems ++ [⟨s.nextItem, r⟩] }
  | woken {t : T} {r : ReqPtr} {d : DataPtr} {item : RequestItem} :
      s.pc t = .waiting r d item → (s.kernel.sync d).done = true →
      StepCase s (.wake t) (s.goto t (.woken r d item))
  | signalled {t : T} {r : ReqPtr} {d : DataPtr} {item : RequestItem} :
      s.pc t = .waiting r d item → StepCase s (.signal t) (s.goto t (.woken r d item))
  | finished {t : T} {r : ReqPtr} {d : DataPtr} {item : RequestItem} :
      s.pc t = .woken r d item →
      StepCase s (.finish t) { s.ret t 0 with kernel := restoreCallback s.kernel r d }
  | taken {item : RequestItem} {rest : List RequestItem} {c : UL} :
      s.dev = .idle → s.kernel.reqs = item :: rest →
      StepCase s (.readTake c) { s with
        kernel := { s.kernel with reqs := rest }
        dev := .reading item (s.kernel.gmpool.fillKuRequest (s.kernel.req item.r)) c
        handed := s.handed ++ [item] }
  | retired {item : RequestItem} {kureq : KuRequest} {c : UL} : s.dev = .reading item kureq c →
      StepCase s .readRetire
        { s with kernel := (s.kernel.readRetire c item).2, dev := .idle }
  | tooShort {count : UL} {resp : KuResponse} : s.dev = .idle → count < kuResponseSize →
      StepCase s (.writeFind count resp) { s with written := s.written ++ [Kernel.eINVAL] }
  | unknown {count : UL} {resp : KuResponse} : s.dev = .idle → ¬ count < kuResponseSize →
      (∀ item ∈ s.kernel.rtdreqs, (s.kernel.req item.r).id ≠ resp.id) →
      StepCase s (.writeFind count resp) { s with written := s.written ++ [Kernel.eFAULT] }
  | found {count : UL} {resp : KuResponse} {item : RequestItem} :
      s.dev = .idle → ¬ count < kuResponseSize → item ∈ s.kernel.rtdreqs →
      (s.kernel.req item.r).id = resp.id →
      StepCase s (.writeFind count resp) { s with
        kernel := { s.kernel with rtdreqs := s.kernel.rtdreqs.erase item }
        dev := .writing item count resp }
  | completed {item : RequestItem} {count : UL} {resp : KuResponse} :
      s.dev = .writing item count resp →
      StepCase s .writeComplete { s with
        kernel := (s.kernel.writeComplete count item resp).2
        dev := .idle
        answered := Function.update s.answered item (some resp.errcode)
        written := s.written ++ [(s.kernel.writeComplete count item resp).1] }
  | stopped : StepCase s .setStop { s with kernel := { s.kernel with terminated := true } }
  | edited {r : ReqPtr} {q : KgpuRequest} : q.callback ≠ .sync →
      StepCase s (.edit r q)
        { s with kernel := { s.kernel with req := Function.update s.kernel.req r q } }

theorem step_case {s s' : Calls T} {l : CallStep T} (hs : s.step l = some s') :
    StepCase s l s' := by
  cases l with
  | callAsync t r => exact .asyncEntered hs
  | callSync t r => exact .syncEntered hs
  | allocData t ok =>
    simp only [step] at hs
    split at hs <;> cases hs
    next r hpc =>
      cases ok with
      | true => exact .gotData hpc
      | false => exact .noData hpc
  | allocItem t ok =>
    simp only [step] at hs
    split at hs <;> cases hs
    next r hpc =>
      cases ok with
      | true => exact .asyncGotItem hpc
      | false => exact .asyncNoItem hpc
    next r d hpc =>
      cases ok with
      | true => exact .syncGotItem hpc
      | false => exact .syncNoItem hpc
  | swap t =>
    simp only [step] at hs
    split at hs <;> cases hs
    next r d hpc => exact .swapped hpc
  | append t =>
    simp only [step] at hs
    split at hs <;> cases hs
    next r hpc => exact .asyncAppended hpc
    next r d hpc => exact .syncAppended hpc
  | wake t =>
    simp only [step] at hs
    split at hs
    next r d item hpc =>
      split at hs <;> cases hs
      next hd => exact .woken hpc hd
    next => cases hs
  | signal t =>
    simp only [step] at hs
    split at hs <;> cases hs
    next r d item hpc => exact .signalled hpc
  | finish t =>
    simp only [step] at hs
    split at hs <;> cases hs
    next r d item hpc => exact .finished hpc
  | readTake c =>
    simp only [step] at hs
    split at hs <;> cases hs
    next item kureq k hdev htake =>
      obtain ⟨rest, hreqs, rfl, rfl⟩ := Kernel.readTake_eq_some htake
      exact .taken hdev hreqs
  | readRetire =>
    simp only [step] at hs
    split at hs <;> cases hs
    next item kureq c hdev => exact .retired hdev
  | writeFind count resp =>
    simp only [step] at hs
    split at hs
    next hdev =>
      split at hs
      next hshort =>
        cases hs
        exact .tooShort hdev hshort
      next hlong =>
        rcases s.kernel.findRequest_cases resp.id with ⟨hnone, hf⟩ | ⟨item, hmem, hid, hf⟩
        · rw [hf] at hs
          cases hs
          exact .unknown hdev hlong hnone
        · rw [hf] at hs
          cases hs
          exact .found hdev hlong hmem hid
    next => cases hs
  | writeComplete =>
    simp only [step] at hs
    split at hs <;> cases hs
    next item count resp hdev => exact .completed hdev
  | setStop =>
    cases hs
    exact .stopped
  | edit r q =>
    simp only [step] at hs
    split at hs <;> cases hs
    next hq => exact .edited hq

end Calls
end Kgpu
