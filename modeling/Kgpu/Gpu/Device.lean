-- SUMMARY: The helper together with the GPU: host and device memory and the CUDA streams as queues of operations.
import Kgpu.Helper.Streams

/-!
# The helper and the GPU

A stream is a queue of copies and kernels. The operation at the head of any stream
may execute at any time, and a query of a stream succeeds exactly when it is empty.
Every service here uses `default_prepare` and `default_post`, and its `launch`
enqueues one kernel that reads the input of the request on the device and
overwrites its output with a function of what it read.
-/

namespace Kgpu

open Library

/-- A byte for every address. -/
abbrev Memory := Nat → UInt8

/-- What the kernel of a service computes: the byte at each offset of an output of the
    given size, from the bytes of the input. -/
abbrev Kernels := ServicePtr → UL → List UInt8 → Nat → UInt8

/-- The bytes of a range. -/
def Memory.bytes (m : Memory) (a n : Nat) : List UInt8 := (List.range n).map fun i => m (a + i)

/-- `dst` after `n` bytes of `src` from `b` on have been copied to `a`. -/
def Memory.copy (dst src : Memory) (a b n : Nat) : Memory :=
  fun x => if a ≤ x ∧ x < a + n then src (b + (x - a)) else dst x

/-- Operations on a stream. -/
inductive GpuOp where
  /-- `ah2dcpy`. -/
  | h2d (dst src n : UL)
  | kernel (din insize dout outsize : UL) (f : List UInt8 → Nat → UInt8)
  /-- `ad2hcpy`. -/
  | d2h (dst src n : UL)

/-- The effect of an operation on the host and the device memory. -/
def GpuOp.exec : GpuOp → Memory × Memory → Memory × Memory
  | h2d dst src n, (host, dev) => (host, dev.copy host dst.toNat src.toNat n.toNat)
  | kernel din insize dout outsize f, (host, dev) =>
    (host, fun x => if dout.toNat ≤ x ∧ x < dout.toNat + outsize.toNat then
      f (dev.bytes din.toNat insize.toNat) (x - dout.toNat) else dev x)
  | d2h dst src n, (host, dev) => (host.copy dev dst.toNat src.toNat n.toNat, dev)

/-- `default_prepare`. -/
def defaultPrepare (sr : ServiceRequest) : GpuOp := .h2d sr.din sr.hin sr.insize

/-- What a `launch` enqueues. -/
def launchKernel (k : Kernels) (p : ServicePtr) (sr : ServiceRequest) : GpuOp :=
  .kernel sr.din sr.insize sr.dout sr.outsize (k p sr.outsize)

/-- `default_post`. -/
def defaultPost (sr : ServiceRequest) : GpuOp := .d2h sr.hout sr.dout sr.outsize

/-- The helper, the memories and the streams, with what each request was read as and
    the host memory at that time. -/
structure Gpu where
  helper : Helper
  host : Memory
  dev : Memory
  fifo : Fin maxStreamNr → List GpuOp
  seen : Token → KuRequest × Memory

inductive GpuStep where
  /-- The helper's operation on the next request of its walk. -/
  | op
  | advance
  | get (kureq : Option KuRequest)
  /-- The operation at the head of a stream executes. -/
  | exec (i : Fin maxStreamNr)
  /-- Somebody else writes to host memory. -/
  | hostWrite (x : Nat) (v : UInt8)

namespace Gpu

/-- The queue of a `stream_id`. -/
def queue (s : Gpu) (id : Int) : List GpuOp :=
  if h : 0 ≤ id ∧ id.toNat < maxStreamNr then s.fifo ⟨id.toNat, h.2⟩ else []

/-- Put an operation on the queue of a `stream_id`. -/
def enqueue (s : Gpu) (id : Int) (op : GpuOp) : Gpu :=
  { s with fifo := fun i => if id = i.val then s.fifo i ++ [op] else s.fifo i }

/-- What the GPU and the services answer to an operation on `t`. -/
def answers (s : Gpu) (t : Token) : Answers :=
  { alloc := 0
    prepare := 0
    launch := 0
    post := 0
    execFinished := (s.queue (s.helper.sr t).streamId).isEmpty
    postFinished := (s.queue (s.helper.sr t).streamId).isEmpty }

/-- What the service function called by an operation has put on the stream, told by
    the state the request was in and the one it is in now. -/
def callService (k : Kernels) (s : Gpu) (x : ReqState) (t : Token) : Gpu :=
  let sr := s.helper.sr t
  match x, sr.state, sr.s with
  | .memDone, .prepared, some _ => s.enqueue sr.streamId (defaultPrepare sr)
  | .prepared, .running, some p => s.enqueue sr.streamId (launchKernel k p sr)
  | .running, .postExec, some _ => s.enqueue sr.streamId (defaultPost sr)
  | _, _, _ => s

def step (c : Config) (k : Kernels) (s : Gpu) : GpuStep → Option Gpu
  | .op =>
    match s.helper.pc with
    | .process x (t :: _) =>
      match s.helper.step c (.op (s.answers t)) with
      | some h => some (callService k { s with helper := h } x t)
      | none => none
    | _ => none
  | .advance =>
    match s.helper.step c .advance with
    | some h => some { s with helper := h }
    | none => none
  | .get none =>
    match s.helper.step c (.get none) with
    | some h => some { s with helper := h }
    | none => none
  | .get (some kureq) =>
    match s.helper.step c (.get (some kureq)) with
    | some h =>
      some { s with
        helper := h
        seen := Function.update s.seen s.helper.next (kureq, s.host) }
    | none => none
  | .exec i =>
    match s.fifo i with
    | op :: rest =>
      some { s with
        host := (op.exec (s.host, s.dev)).1
        dev := (op.exec (s.host, s.dev)).2
        fifo := Function.update s.fifo i rest }
    | [] => none
  | .hostWrite x v => some { s with host := Function.update s.host x v }

/-- The state after `gpu_init`. -/
def init (sr : Token → ServiceRequest) (host dev : Memory) (seen : Token → KuRequest × Memory) :
    Gpu where
  helper := Helper.init sr
  host := host
  dev := dev
  fifo := fun _ => []
  seen := seen

end Gpu

/-- The host memory after a request has been run alone: nothing happens without a
    service; else the input is copied to the device, the kernel runs and the output is
    copied back. -/
def runAlone (c : Config) (k : Kernels) (kureq : KuRequest) (host dev : Memory) : Memory :=
  let sr := (c.gpuAllocDeviceMem (c.ofKuRequest kureq)).1
  match sr.s with
  | none => host
  | some p =>
    ((defaultPost sr).exec ((launchKernel k p sr).exec ((defaultPrepare sr).exec (host, dev)))).1

/-! ## What a request may be -/

/-- The addresses of a region. -/
def MemInfo.Has (m : MemInfo) (x : Nat) : Prop :=
  m.uva.toNat ≤ x ∧ x < m.uva.toNat + m.size.toNat

namespace ServiceRequest

def In (sr : ServiceRequest) (x : Nat) : Prop :=
  sr.hin.toNat ≤ x ∧ x < sr.hin.toNat + sr.insize.toNat

def Out (sr : ServiceRequest) (x : Nat) : Prop :=
  sr.hout.toNat ≤ x ∧ x < sr.hout.toNat + sr.outsize.toNat

/-- The host bytes of a request. -/
def Own (sr : ServiceRequest) (x : Nat) : Prop := sr.In x ∨ sr.Out x

end ServiceRequest

/-- The regions do not wrap, the two on the host do not overlap and neither do the two
    on the device, which are as large as those on the host. -/
structure Config.Regions (c : Config) : Prop where
  hostbuf : c.hostbuf.uva.toNat + c.hostbuf.size.toNat < 2 ^ 64
  hostvma : c.hostvma.uva.toNat + c.hostvma.size.toNat < 2 ^ 64
  devbuf : c.devbuf.uva.toNat + c.hostbuf.size.toNat < 2 ^ 64
  devbuf4vma : c.devbuf4vma.uva.toNat + c.hostvma.size.toNat < 2 ^ 64
  host : ∀ x, ¬ (c.hostbuf.Has x ∧ c.hostvma.Has x)
  dev : c.devbuf.uva.toNat + c.hostbuf.size.toNat ≤ c.devbuf4vma.uva.toNat ∨
    c.devbuf4vma.uva.toNat + c.hostvma.size.toNat ≤ c.devbuf.uva.toNat

theorem Config.small_regions : Config.small.Regions where
  hostbuf := by decide
  hostvma := by decide
  devbuf := by decide
  devbuf4vma := by decide
  host := by
    rintro x ⟨hb, hv⟩
    have hb := hb.2
    have hv := hv.1
    change x < 0x1000000 + 0x200000 at hb
    change 0x2000000 ≤ x at hv
    omega
  dev := .inl (by decide)

/-- Input and output are each contained in one of the host regions. -/
structure Config.Contained (c : Config) (sr : ServiceRequest) : Prop where
  inp : (∀ x, sr.In x → c.hostbuf.Has x) ∨ ∀ x, sr.In x → c.hostvma.Has x
  out : (∀ x, sr.Out x → c.hostbuf.Has x) ∨ ∀ x, sr.Out x → c.hostvma.Has x

/-- A request that is read is contained in the host regions and has no byte in common
    with a request held, and nobody else writes the bytes of a request held. -/
def Gpu.Isolated (c : Config) (s : Gpu) : GpuStep → Prop
  | .get (some kureq) => c.Contained (c.ofKuRequest kureq) ∧
      ∀ t ∈ s.helper.allReqs, ∀ x, ¬ ((c.ofKuRequest kureq).Own x ∧ (s.helper.sr t).Own x)
  | .hostWrite x _ => ∀ t ∈ s.helper.allReqs, ¬ (s.helper.sr t).Own x
  | .op | .advance | .get none | .exec _ => True

end Kgpu
