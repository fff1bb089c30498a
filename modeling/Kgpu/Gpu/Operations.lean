-- SUMMARY: The CUDA side of the helper: device addresses, pinned ranges and streams of a request.
import Kgpu.Helper.Request

/-!
# GPU operations

The functions of `cudaOperations.cu` that the helper calls for a request.
`gpu_alloc_device_mem` allocates nothing: it translates host addresses to device
addresses by their offset in the region they lie in, and pins the pages of those
that lie in the mapped area of the device.
-/

namespace Kgpu

/-- `round_down(x, PAGE_SIZE)`. -/
def roundDown (x : UL) : UL := x &&& ~~~(pageSize - 1)

/-- `round_up(x, PAGE_SIZE)`: 0 is rounded to 0 through a wrap. -/
def roundUp (x : UL) : UL := ((x - 1) ||| (pageSize - 1)) + 1

/-- Whether an address lies in a region. -/
def MemInfo.within (m : MemInfo) (a : UL) : Bool := addrWithin a m.uva m.size

/-! ## Pinned ranges -/

/-- A start address and a size. -/
abbrev Extent := UL × UL

/-- The macro `max`. -/
def maxUL (a b : UL) : UL := if b < a then a else b

/-- `__merge_2ranges`: the merged range, if the two overlap or touch. -/
def merge2ranges (a b : Extent) : Option Extent :=
  if a.1 < b.1 then
    if b.1 ≤ a.1 + a.2 then some (a.1, maxUL (a.1 + a.2) (b.1 + b.2) - a.1) else none
  else if a.1 = b.1 then
    some (a.1, maxUL a.2 b.2)
  else
    if a.1 ≤ b.1 + b.2 then some (b.1, maxUL (a.1 + a.2) (b.1 + b.2) - b.1) else none

/-- `__merge_ranges`: the ranges that are left, in the order of the arrays. -/
def mergeRanges (rs : List Extent) : List Extent :=
  match rs.map fun r => (roundDown r.1, roundUp r.2) with
  | [] => []
  | [r0] => [r0]
  | [r0, r1] =>
    match merge2ranges r0 r1 with
    | some r0 => [r0]
    | none => [r0, r1]
  | [r0, r1, r2] =>
    match merge2ranges r0 r1 with
    | some r0 =>
      match merge2ranges r0 r2 with
      | some r0 => [r0]
      | none => [r0, r2]
    | none =>
      match merge2ranges r0 r2 with
      | some r0 =>
        match merge2ranges r0 r1 with
        | some r0 => [r0]
        | none => [r0, r1]
      | none =>
        match merge2ranges r2 r1 with
        | some r1 =>
          match merge2ranges r0 r1 with
          | some r0 => [r0]
          | none => [r0, r1]
        | none => [r0, r1, r2]
  | _ => []

/-- A call of `gpu_pin_mem` or `gpu_unpin_mem`. -/
inductive PinCall where
  | pin (p : UL) (sz : UL)
  | unpin (p : UL)
  deriving DecidableEq

namespace Config

variable (c : Config)

/-- The device address of a host address that is in `hostbuf` or else in `hostvma`. -/
def deviceAddr (a : UL) : UL :=
  if c.hostbuf.within a then addrRebase c.devbuf.uva c.hostbuf.uva a
  else addrRebase c.devbuf4vma.uva c.hostvma.uva a

/-- The ranges `gpu_alloc_device_mem` collects: input and output when they are
    not in `hostbuf`, the data only when it is in `hostvma`. -/
def pinRanges (sr : ServiceRequest) : List Extent :=
  (if c.hostbuf.within sr.hin then [] else [(sr.hin, sr.insize)]) ++
  (if c.hostbuf.within sr.hout then [] else [(sr.hout, sr.outsize)]) ++
  (if c.hostbuf.within sr.hdata then []
    else if c.hostvma.within sr.hdata then [(sr.hdata, sr.datasize)] else [])

/-- The ranges `gpu_free_device_mem` collects: all that are in `hostvma`. -/
def unpinRanges (sr : ServiceRequest) : List Extent :=
  (if c.hostvma.within sr.hin then [(sr.hin, sr.insize)] else []) ++
  (if c.hostvma.within sr.hout then [(sr.hout, sr.outsize)] else []) ++
  (if c.hostvma.within sr.hdata then [(sr.hdata, sr.datasize)] else [])

/-- `gpu_alloc_device_mem`. It always returns 0. -/
def gpuAllocDeviceMem (sr : ServiceRequest) : ServiceRequest × List PinCall :=
  ({ sr with
      din := c.deviceAddr sr.hin
      dout := c.deviceAddr sr.hout
      ddata :=
        if c.hostbuf.within sr.hdata || c.hostvma.within sr.hdata then c.deviceAddr sr.hdata
        else sr.ddata },
    (mergeRanges (c.pinRanges sr)).map fun r => .pin r.1 r.2)

/-- `gpu_free_device_mem`. -/
def gpuFreeDeviceMem (sr : ServiceRequest) : ServiceRequest × List PinCall :=
  ({ sr with din := 0, dout := 0, ddata := 0 },
    (mergeRanges (c.unpinRanges sr)).map fun r => .unpin r.1)

/-! ## Streams -/

/-- `gpu_alloc_stream`: the first unused stream, or `none` for the return of 1. -/
def gpuAllocStream (uses : Fin maxStreamNr → Bool) (sr : ServiceRequest) :
    Option ((Fin maxStreamNr → Bool) × ServiceRequest) :=
  match (List.finRange maxStreamNr).find? fun i => !uses i with
  | some i => some (Function.update uses i true, { sr with streamId := i.val, stream := c.streams i })
  | none => none

end Config

/-- What `gpu_alloc_stream` does, in the two cases. -/
theorem Config.gpuAllocStream_cases (c : Config) (uses : Fin maxStreamNr → Bool)
    (sr : ServiceRequest) :
    ((∀ i, uses i = true) ∧ c.gpuAllocStream uses sr = none) ∨
      ∃ i, uses i = false ∧ c.gpuAllocStream uses sr =
        some (Function.update uses i true, { sr with streamId := i.val, stream := c.streams i }) := by
  unfold gpuAllocStream
  cases hf : (List.finRange maxStreamNr).find? fun i => !uses i with
  | none =>
    refine .inl ⟨fun i => ?_, rfl⟩
    simpa using List.find?_eq_none.mp hf i (List.mem_finRange i)
  | some i =>
    refine .inr ⟨i, ?_, rfl⟩
    simpa using List.find?_some hf

/-- `gpu_free_stream`. -/
def gpuFreeStream (uses : Fin maxStreamNr → Bool) (sr : ServiceRequest) : Fin maxStreamNr → Bool :=
  fun i => if sr.streamId = i.val then false else uses i

end Kgpu
