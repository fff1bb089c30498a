import Kgpu.Gpu.Isolation
import Kgpu.Gpu.OpenCLData
import Kgpu.Gpu.Pending
import Kgpu.Gpu.PinnedPages
import Kgpu.Helper.Protocol
import Kgpu.Helper.Refinement
import Kgpu.Helper.UnloadAll
import Kgpu.Kernel.Blocking
import Kgpu.Kernel.Frees
import Kgpu.Kernel.MapFailure
import Kgpu.Kernel.ModuleMemory
import Kgpu.Kernel.Open
import Kgpu.Kernel.PoolThreads
import Kgpu.Kernel.Reads
import Kgpu.Kernel.Requests
import Kgpu.Kernel.SetupFailure
import Kgpu.Kernel.SharedBytes
import Kgpu.Kernel.Slabs
import Kgpu.Kernel.Stop
import Kgpu.Kernel.SyncWaits
import Kgpu.Kernel.Translation
import Kgpu.System.Agreement
import Kgpu.System.Placement
import Kgpu.System.EndToEnd
import Kgpu.Helper.Waiting
import Kgpu.Helper.OpenCLStall
import Kgpu.System.Delivery
import Kgpu.System.Sessions
import Kgpu.System.Wire
import Kgpu.System.Submitted
import Kgpu.System.Buffered
