-- SUMMARY: The request queues of the kernel module: ids, `fill_ku_request`, `kgpu_read`, `find_request` and `kgpu_write`.
import Kgpu.Kernel.Pool
import Kgpu.Messages
import Mathlib.Data.List.Perm.Basic

/-!
# The request queues

A submitted request waits in `kgpudev.reqs` until the helper reads it, and then
in `kgpudev.rtdreqs` until the helper writes its response. `kgpu_read` and
`kgpu_write` are embedded in the pieces that run under one lock, so that other
threads can be put between them, and as whole calls.

Request objects and sync-call data are named by their addresses. Addresses of
queue items are never used again, so that an item stands for one submission.
-/

namespace Kgpu

open Library

/-- Address of a `struct kgpu_request`. -/
abbrev ReqPtr := Nat

/-- Address of a `struct _kgpu_sync_call_data`. -/
abbrev DataPtr := Nat

/-- What `callback` of a request points to: a function of the client, or
    `sync_callback`. -/
inductive Callback where
  | client (f : Nat)
  | sync
  deriving DecidableEq

/-- What `kdata` of a request points to: data of the client, or the sync-call
    data of a `kgpu_call_sync`. -/
inductive Kdata where
  | client (v : UL)
  | sync (d : DataPtr)
  deriving DecidableEq

/-- `struct kgpu_request`. -/
structure KgpuRequest where
  id : Int
  inp : UL
  out : UL
  udata : UL
  kdata : Kdata
  insize : UL
  outsize : UL
  udatasize : UL
  kdatasize : UL
  serviceName : ServiceName
  callback : Callback
  errcode : Int

/-- The object `kgpu_request_constructor` leaves: all zero but for the drawn id. -/
def KgpuRequest.constructed (id : Int) : KgpuRequest :=
  { id := id, inp := 0, out := 0, udata := 0, kdata := .client 0, insize := 0, outsize := 0
    udatasize := 0, kdatasize := 0, serviceName := Vector.replicate 32 0, callback := .client 0
    errcode := 0 }

/-- `struct _kgpu_request_item`, named by its address. -/
structure RequestItem where
  addr : Nat
  r : ReqPtr
  deriving DecidableEq

/-- `struct _kgpu_sync_call_data`, without the wait queue. -/
structure SyncCallData where
  oldkdata : Kdata
  oldcallback : Callback
  done : Bool

/-- The parts of `kgpudev` and of kernel memory that the queue functions read and
    write, the position of the open file, and the callbacks invoked so far, each
    with the item it was invoked for. -/
structure Kernel where
  terminated : Bool
  ridSequence : BitVec 32
  reqs : List RequestItem
  rtdreqs : List RequestItem
  gmpool : Mempool
  fpos : Int
  req : ReqPtr → KgpuRequest
  sync : DataPtr → SyncCallData
  callbacks : List (RequestItem × Callback)

/-! ## Ids -/

/-- `kgpu_next_request_id`: the counter wraps to a negative `int` and is then
    set to 0. -/
def Kernel.kgpuNextRequestId (k : Kernel) : Int × Kernel :=
  let seq := k.ridSequence + 1
  let seq := if seq.toInt < 0 then 0 else seq
  (seq.toInt, { k with ridSequence := seq })

/-! ## Reading a request -/

namespace Mempool

/-- `npages << PAGE_SHIFT`, a shift of a `u32`. -/
def byteSize (p : Mempool) : UL := (p.npages <<< (12 : Nat)).setWidth 64

theorem byteSize_toNat (p : Mempool) : p.byteSize.toNat = p.npages.toNat * 4096 % 2 ^ 32 := by
  have hn : p.npages.toNat < 2 ^ 32 := p.npages.isLt
  rw [byteSize, BitVec.toNat_setWidth, BitVec.toNat_shiftLeft, Nat.shiftLeft_eq]
  omega

/-- What `fill_ku_request` does with each of the three addresses. -/
def toUser (p : Mempool) (a : UL) : UL :=
  if addrWithin a p.kva p.byteSize then addrRebase p.uva p.kva a else a

/-- `fill_ku_request`. -/
def fillKuRequest (p : Mempool) (r : KgpuRequest) : KuRequest :=
  { id := r.id
    serviceName := r.serviceName
    inp := p.toUser r.inp
    out := p.toUser r.out
    data := p.toUser r.udata
    insize := r.insize
    outsize := r.outsize
    datasize := r.udatasize }

end Mempool

namespace Kernel

/-- The section of `kgpu_read` under `reqlock`: the oldest request leaves `reqs`
    and is copied out. With `reqs` empty the call waits, or returns `-EAGAIN` or
    `-ERESTARTSYS`, and in each case has no effect. -/
def readTake (k : Kernel) : Option (RequestItem × KuRequest × Kernel) :=
  match k.reqs with
  | [] => none
  | item :: rest =>
    some (item, k.gmpool.fillKuRequest (k.req item.r), { k with reqs := rest })

/-- The rest of `kgpu_read`: it returns the count it was called with, and keeps
    the item only if that is positive as `ssize_t`. -/
def readRetire (k : Kernel) (c : UL) (item : RequestItem) : Int × Kernel :=
  (c.toInt,
    { k with
      rtdreqs := if 0 < c.toInt then k.rtdreqs ++ [item] else k.rtdreqs
      fpos := k.fpos + c.toInt })

/-- `kgpu_read` of `c` bytes, as one step. -/
def kgpuRead (k : Kernel) (c : UL) : Option (Int × RequestItem × KuRequest × Kernel) :=
  match k.readTake with
  | none => none
  | some (item, kureq, k) =>
    let (ret, k) := k.readRetire c item
    some (ret, item, kureq, k)

/-! ## Writing a response -/

/-- `find_request`: the first read request with the given id, taken off the list
    if `offlist`. -/
def findRequest (k : Kernel) (id : Int) (offlist : Bool) : Option RequestItem × Kernel :=
  match k.rtdreqs.find? fun item => (k.req item.r).id = id with
  | none => (none, k)
  | some item => (some item, if offlist then { k with rtdreqs := k.rtdreqs.erase item } else k)

/-- `item->r->errcode = errcode`. -/
def storeErrcode (k : Kernel) (item : RequestItem) (errcode : Int) : Kernel :=
  { k with req := Function.update k.req item.r { k.req item.r with errcode := errcode } }

/-- `item->r->callback(item->r)`. `sync_callback` marks the data that `kdata`
    points to as done; what a client's function does is left to later steps. -/
def invokeCallback (k : Kernel) (item : RequestItem) : Kernel :=
  { k with
    callbacks := k.callbacks ++ [(item, (k.req item.r).callback)]
    sync := match (k.req item.r).callback, (k.req item.r).kdata with
      | .sync, .sync d => Function.update k.sync d { k.sync d with done := true }
      | _, _ => k.sync }

/-- The part of `kgpu_write` after the item was found, up to the return. -/
def writeComplete (k : Kernel) (count : UL) (item : RequestItem) (resp : KuResponse) :
    Int × Kernel :=
  let k := (k.storeErrcode item resp.errcode).invokeCallback item
  (count.toInt, { k with fpos := k.fpos + count.toInt })

def eINVAL : Int := -22
def eFAULT : Int := -14
def eNOMEM : Int := -12

/-- `kgpu_write` of `count` bytes that begin with the response, as one step. -/
def kgpuWrite (k : Kernel) (count : UL) (resp : KuResponse) : Int × Kernel :=
  if count < kuResponseSize then
    (eINVAL, k)
  else
    match k.findRequest resp.id true with
    | (none, k) => (eFAULT, k)
    | (some item, k) => k.writeComplete count item resp

/-! ## What the calls do -/

variable {k : Kernel} {count : UL} {resp : KuResponse}

@[simp] theorem storeErrcode_reqs {item : RequestItem} {e : Int} :
    (k.storeErrcode item e).reqs = k.reqs := rfl

@[simp] theorem storeErrcode_rtdreqs {item : RequestItem} {e : Int} :
    (k.storeErrcode item e).rtdreqs = k.rtdreqs := rfl

/-- Storing an error code leaves every other field of every request alone. -/
@[simp] theorem storeErrcode_id {item : RequestItem} {e : Int} {r : ReqPtr} :
    ((k.storeErrcode item e).req r).id = (k.req r).id := by
  by_cases h : r = item.r
  · subst h; simp [storeErrcode]
  · simp [storeErrcode, h]

@[simp] theorem storeErrcode_callback {item : RequestItem} {e : Int} {r : ReqPtr} :
    ((k.storeErrcode item e).req r).callback = (k.req r).callback := by
  by_cases h : r = item.r
  · subst h; simp [storeErrcode]
  · simp [storeErrcode, h]

@[simp] theorem storeErrcode_kdata {item : RequestItem} {e : Int} {r : ReqPtr} :
    ((k.storeErrcode item e).req r).kdata = (k.req r).kdata := by
  by_cases h : r = item.r
  · subst h; simp [storeErrcode]
  · simp [storeErrcode, h]

section Complete

variable {item : RequestItem}

/-- `kgpu_write` stores the error code in the request it completes and in no other. -/
theorem writeComplete_req : (k.writeComplete count item resp).2.req =
    Function.update k.req item.r { k.req item.r with errcode := resp.errcode } := rfl

theorem writeComplete_id {r : ReqPtr} :
    ((k.writeComplete count item resp).2.req r).id = (k.req r).id :=
  storeErrcode_id

theorem writeComplete_callback {r : ReqPtr} :
    ((k.writeComplete count item resp).2.req r).callback = (k.req r).callback :=
  storeErrcode_callback

/-- It invokes the callback of that request once. -/
theorem writeComplete_callbacks : (k.writeComplete count item resp).2.callbacks =
    k.callbacks ++ [(item, (k.req item.r).callback)] := by
  simp [writeComplete, invokeCallback, storeErrcode]

theorem writeComplete_sync {d : DataPtr} (hcb : (k.req item.r).callback = .sync)
    (hkdata : (k.req item.r).kdata = .sync d) :
    (k.writeComplete count item resp).2.sync =
      Function.update k.sync d { k.sync d with done := true } := by
  simp [writeComplete, invokeCallback, hcb, hkdata]
  rfl

theorem writeComplete_sync_client (hcb : (k.req item.r).callback ≠ .sync) :
    (k.writeComplete count item resp).2.sync = k.sync := by
  simp only [writeComplete, invokeCallback, storeErrcode_callback]
  split
  next heq _ => exact absurd heq hcb
  next => rfl

end Complete

theorem readTake_eq_some {item : RequestItem} {kureq : KuRequest} {k' : Kernel}
    (h : k.readTake = some (item, kureq, k')) :
    ∃ rest, k.reqs = item :: rest ∧ kureq = k.gmpool.fillKuRequest (k.req item.r) ∧
      k' = { k with reqs := rest } := by
  unfold readTake at h
  cases hreqs : k.reqs with
  | nil => simp [hreqs] at h
  | cons item' rest =>
    simp only [hreqs, Option.some.injEq, Prod.mk.injEq] at h
    obtain ⟨rfl, rfl, rfl⟩ := h
    exact ⟨rest, rfl, rfl, rfl⟩

theorem kgpuRead_eq_some {c : UL} {ret : Int} {item : RequestItem} {kureq : KuRequest}
    {k' : Kernel} (h : k.kgpuRead c = some (ret, item, kureq, k')) :
    ∃ rest, k.reqs = item :: rest ∧ kureq = k.gmpool.fillKuRequest (k.req item.r) ∧
      ret = c.toInt ∧ k' = ((Kernel.readRetire { k with reqs := rest } c item).2) := by
  unfold kgpuRead at h
  cases htake : k.readTake with
  | none => simp [htake] at h
  | some taken =>
    obtain ⟨item', kureq', k₁⟩ := taken
    obtain ⟨rest, hreqs, rfl, rfl⟩ := readTake_eq_some htake
    simp only [htake, Option.some.injEq, Prod.mk.injEq] at h
    obtain ⟨rfl, rfl, rfl, rfl⟩ := h
    exact ⟨rest, hreqs, rfl, rfl, rfl⟩

/-- The two outcomes of looking a response's id up and taking the item off. -/
theorem findRequest_cases (k : Kernel) (id : Int) :
    ((∀ item ∈ k.rtdreqs, (k.req item.r).id ≠ id) ∧ k.findRequest id true = (none, k)) ∨
      ∃ item ∈ k.rtdreqs, (k.req item.r).id = id ∧
        k.findRequest id true = (some item, { k with rtdreqs := k.rtdreqs.erase item }) := by
  cases hf : k.rtdreqs.find? fun item => (k.req item.r).id = id with
  | none =>
    refine .inl ⟨fun item hmem heq => ?_, by simp [findRequest, hf]⟩
    simpa [heq] using List.find?_eq_none.mp hf item hmem
  | some item =>
    refine .inr ⟨item, List.mem_of_find?_eq_some hf, ?_, by simp [findRequest, hf]⟩
    simpa using List.find?_some hf

/-- The outcomes of a `kgpu_write` that is long enough. -/
theorem kgpuWrite_cases (hcount : ¬ count < kuResponseSize) :
    ((∀ item ∈ k.rtdreqs, (k.req item.r).id ≠ resp.id) ∧ k.kgpuWrite count resp = (eFAULT, k)) ∨
      ∃ item ∈ k.rtdreqs, (k.req item.r).id = resp.id ∧
        k.kgpuWrite count resp =
          Kernel.writeComplete { k with rtdreqs := k.rtdreqs.erase item } count item resp := by
  rcases findRequest_cases k resp.id with ⟨hnone, hf⟩ | ⟨item, hmem, hid, hf⟩
  · exact .inl ⟨hnone, by simp [kgpuWrite, hcount, hf]⟩
  · exact .inr ⟨item, hmem, hid, by simp [kgpuWrite, hcount, hf]⟩

theorem kgpuWrite_short (hcount : count < kuResponseSize) :
    k.kgpuWrite count resp = (eINVAL, k) := by
  simp [kgpuWrite, hcount]

end Kernel
end Kgpu
