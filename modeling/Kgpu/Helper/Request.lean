-- SUMMARY: The helper's service requests, the registered services and the memory regions.
import Kgpu.Messages

/-!
# Service requests

The helper keeps a `struct kgpu_service_request` for every request it has read
and not yet answered. Services are named by the address of their `struct
kgpu_service`; what their `prepare`, `launch` and `post` return is decided by
the environment of a run, so only `compute_size` is a field here.
-/

namespace Kgpu

/-- The values of `state`: `KGPU_REQ_INIT` to `KGPU_REQ_DONE`. -/
inductive ReqState where
  | init
  | memDone
  | prepared
  | running
  | postExec
  | done
  deriving DecidableEq, Inhabited

/-- Address of a `struct kgpu_service`. -/
abbrev ServicePtr := Nat

/-- `block_x`, `block_y`, `grid_x` and `grid_y` of a request. -/
structure Geometry where
  blockX : Int
  blockY : Int
  gridX : Int
  gridY : Int
  deriving Inhabited

/-- `struct kgpu_service_request`. -/
structure ServiceRequest where
  id : Int
  hin : UL
  hout : UL
  hdata : UL
  din : UL
  dout : UL
  ddata : UL
  insize : UL
  outsize : UL
  datasize : UL
  errcode : Int
  s : Option ServicePtr
  geometry : Geometry
  state : ReqState
  streamId : Int
  stream : UL
  deriving Inhabited

/-- `struct kgpu_service`, without the functions whose results a run decides. -/
structure Service where
  name : ServiceName
  sid : Int
  computeSize : ServiceRequest → Geometry

/-- `MAX_STREAM_NR`. -/
def maxStreamNr : Nat := 8

/-- What `kh_init`, `gpu_init` and `kh_load_all_services` set up: the list of
    services, the four regions and the handles of the CUDA streams. -/
structure Config where
  services : List ServicePtr
  service : ServicePtr → Service
  hostbuf : MemInfo
  hostvma : MemInfo
  devbuf : MemInfo
  devbuf4vma : MemInfo
  streams : Fin maxStreamNr → UL

/-- `!strncmp(a, b, n)` of two buffers of `n` bytes. -/
def strncmpEq : List UInt8 → List UInt8 → Bool
  | a :: as, b :: bs => a == b && (a == 0 || strncmpEq as bs)
  | _, _ => true

/-- `kh_lookup_service`. -/
def Config.khLookupService (c : Config) (name : ServiceName) : Option ServicePtr :=
  c.services.find? fun s => strncmpEq name.toList (c.service s).name.toList

/-- The request as `kh_init_service_request` fills it in before it looks at `s`.
    The state, zero here in the source, is set in both branches that follow. -/
def Config.ofKuRequest (c : Config) (kureq : KuRequest) : ServiceRequest :=
  { id := kureq.id
    hin := kureq.inp
    hout := kureq.out
    hdata := kureq.data
    din := 0
    dout := 0
    ddata := 0
    insize := kureq.insize
    outsize := kureq.outsize
    datasize := kureq.datasize
    errcode := 0
    s := c.khLookupService kureq.serviceName
    geometry := ⟨0, 0, 0, 0⟩
    state := .init
    streamId := -1
    stream := 0 }

/-- A setting with one service, whose name is all `A`, and four regions of
    `KGPU_BUF_SIZE` bytes, for runs on concrete requests. -/
def Config.small : Config :=
  { services := [0]
    service := fun _ => ⟨Vector.replicate 32 65, 1, fun _ => ⟨32, 1, 512, 1⟩⟩
    hostbuf := ⟨0x1000000, 0x200000⟩
    hostvma := ⟨0x2000000, 0x200000⟩
    devbuf := ⟨0x3000000, 0x200000⟩
    devbuf4vma := ⟨0x4000000, 0x200000⟩
    streams := fun i => i.val }

end Kgpu
