-- SUMMARY: The records that the kernel module and the helper exchange through the device.
import Kgpu.Words
import Mathlib.Data.Vector.Basic

/-!
# Messages

A read of the device returns a `struct kgpu_ku_request` and a write passes a
`struct kgpu_ku_response`. A response names its request by the id. The ioctl that
sets up the buffer pool passes a `struct kgpu_gpu_mem_info`.
-/

namespace Kgpu

/-- `char service_name[KGPU_SERVICE_NAME_SIZE]`. -/
abbrev ServiceName := Vector UInt8 32

/-- `struct kgpu_ku_request`. -/
structure KuRequest where
  id : Int
  serviceName : ServiceName
  inp : UL
  out : UL
  data : UL
  insize : UL
  outsize : UL
  datasize : UL

/-- `struct kgpu_ku_response`. -/
structure KuResponse where
  id : Int
  errcode : Int
  deriving DecidableEq

/-- `struct kgpu_gpu_mem_info`. -/
structure MemInfo where
  uva : UL
  size : UL

/-- `sizeof(struct kgpu_ku_request)` and `sizeof(struct kgpu_ku_response)`. -/
def kuRequestSize : UL := 88

def kuResponseSize : UL := 8

/-- `KGPU_NO_SERVICE` and `KGPU_TERMINATED`. -/
def kgpuNoService : Int := 2

def kgpuTerminated : Int := 3

end Kgpu
