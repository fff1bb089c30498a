-- SUMMARY: From the two allocators of the kernel to device addresses: disjoint allocations get disjoint device ranges.
import Kgpu.Gpu.Ranges
import Kgpu.Gpu.Work
import Kgpu.Kernel.Areas
import Kgpu.Kernel.Setup

/-!
# Placement on the device

The device has no allocator. A range of a live buffer, or of a live mmap area, is
translated twice: `fill_ku_request` moves an address of the pool from the kernel's
mapping to the helper's, and `gpu_alloc_device_mem` moves an address of a host region
to the device. Both keep the offset, so what the two allocators of the kernel keep
apart stays apart on the device.
-/

namespace Kgpu

open Library

/-! ## The two allocators -/

/-- The buffer pool and the mmap area, with what is live of each. -/
structure Allocators where
  clients : Clients
  areas : AreaClients

inductive AllocatorOp where
  | pool (op : ClientOp)
  | area (op : AreaOp)

/-- An allocation that is not given back yet. -/
inductive Allocation where
  | buffer (b : Buffer)
  | area (b : Buffer)

namespace Allocation

/-- The address that was returned and the size that was asked for. -/
def block : Allocation → Buffer
  | buffer b | area b => b

/-- The range `e` is not empty and lies in the allocation. -/
def Holds (x : Allocation) (e : Extent) : Prop :=
  0 < e.2.toNat ∧ x.block.addr.toNat ≤ e.lo ∧ e.hi ≤ x.block.addr.toNat + x.block.nbytes.toNat

end Allocation

namespace Allocators

def step (K : ZeroAreaSearch) (s : Allocators) : AllocatorOp → Option Allocators
  | .pool op => (s.clients.step K op).map fun clients => { s with clients }
  | .area op => (s.areas.step K op).map fun areas => { s with areas }

/-- What is asked for is between 1 and `KGPU_BUF_SIZE` bytes. -/
def Sized (_ : Allocators) : AllocatorOp → Prop
  | .pool (.vmalloc size) | .area (.alloc size) =>
    0 < size.toNat ∧ size.toNat ≤ bufSize.toNat
  | .pool (.vfree _) | .area (.free _) => True

def Live (s : Allocators) : Allocation → Prop
  | .buffer b => b ∈ s.clients.live
  | .area b => b ∈ s.areas.live

/-- The allocators when the helper has set up the pool `p` and mapped the device to its
    region `vma`. The memory that `set_vm` gets from `kmalloc` holds anything. -/
def start (p : Mempool) (vma : MemInfo) (allocSzMem : Nat → U32) (bitmapMem : Bitmap) :
    Allocators where
  clients := ⟨p, []⟩
  areas := ⟨.setVm vma.uva (vma.uva + vma.size) allocSzMem bitmapMem, []⟩

end Allocators

/-! ## The fields of a request -/

/-- The two fields of a request whose device addresses are always assigned. -/
inductive ReqField where
  | inp
  | out

namespace ReqField

/-- The range in a field of a request. -/
def range (r : KgpuRequest) : ReqField → Extent
  | inp => (r.inp, r.insize)
  | out => (r.out, r.outsize)

/-- The request as the helper has it after `gpu_alloc_device_mem`. -/
def served (c : Config) (p : Mempool) (r : KgpuRequest) : ServiceRequest :=
  (c.gpuAllocDeviceMem (c.ofKuRequest (p.fillKuRequest r))).1

/-- The helper's address for a field. -/
def hostAddr (c : Config) (p : Mempool) (r : KgpuRequest) : ReqField → UL
  | inp => (served c p r).hin
  | out => (served c p r).hout

/-- The range on the device for a field. -/
def deviceRange (c : Config) (p : Mempool) (r : KgpuRequest) : ReqField → Extent
  | inp => ((served c p r).din, (served c p r).insize)
  | out => ((served c p r).dout, (served c p r).outsize)

variable {c : Config} {p : Mempool} {r : KgpuRequest}

theorem hostAddr_eq (f : ReqField) : f.hostAddr c p r = p.toUser (f.range r).1 := by
  cases f <;> rfl

theorem deviceRange_eq (f : ReqField) :
    f.deviceRange c p r = (c.deviceAddr (p.toUser (f.range r).1), (f.range r).2) := by
  cases f <;> rfl

end ReqField

/-! ## The regions -/

/-- The regions of the helper have `KGPU_BUF_SIZE` bytes, as do those on the device, and
    the addresses at which `vmap` has mapped the pool neither wrap nor are in use for a
    region of the helper. -/
structure Layout (c : Config) (kva : UL) : Prop where
  regions : c.Regions
  hostbuf : c.hostbuf.size = bufSize
  hostvma : c.hostvma.size = bufSize
  no_wrap : kva.toNat + bufSize.toNat < 2 ^ 64
  apart : ∀ x, kva.toNat ≤ x → x < kva.toNat + bufSize.toNat →
    ¬ c.hostbuf.Has x ∧ ¬ c.hostvma.Has x

namespace Allocation

/-- The address at which the region of an allocation begins for the client. -/
def base (c : Config) (kva : UL) : Allocation → UL
  | buffer _ => kva
  | area _ => c.hostvma.uva

/-- The same for the helper. -/
def hostBase (c : Config) : Allocation → UL
  | buffer _ => c.hostbuf.uva
  | area _ => c.hostvma.uva

/-- The same on the device. -/
def devBase (c : Config) : Allocation → UL
  | buffer _ => c.devbuf.uva
  | area _ => c.devbuf4vma.uva

end Allocation

/-- A byte is in both ranges. -/
def Extent.Overlaps (e e' : Extent) : Prop := ∃ n, e.Contains n ∧ e'.Contains n

/-- The range in field `f` of `r`, which lies in `x`, is at the same offset for the client,
    for the helper and on the device, where it is as long and inside the region for `x`. -/
structure OnDevice (c : Config) (p : Mempool) (x : Allocation) (f : ReqField) (r : KgpuRequest) :
    Prop where
  base_le : (x.base c p.kva).toNat ≤ (f.range r).lo
  host : (f.hostAddr c p r).toNat =
    (x.hostBase c).toNat + ((f.range r).lo - (x.base c p.kva).toNat)
  offset : (f.deviceRange c p r).lo =
    (x.devBase c).toNat + ((f.range r).lo - (x.base c p.kva).toNat)
  length : (f.deviceRange c p r).2 = (f.range r).2
  inside : (f.deviceRange c p r).hi ≤ (x.devBase c).toNat + bufSize.toNat

/-! ## What the allocators keep -/

namespace Allocators

variable {K : ZeroAreaSearch} {c : Config} {kva : UL} {s s' : Allocators} {x x' : Allocation}

structure Kept (c : Config) (kva : UL) (s : Allocators) : Prop where
  clients : s.clients.clean.Owned
  areas : s.areas.Owned
  uva : s.clients.pool.uva = c.hostbuf.uva
  kva : s.clients.pool.kva = kva
  npages : s.clients.pool.npages = 512
  nunits : s.clients.pool.nunits = 2
  start : s.areas.vma.start = c.hostvma.uva
  end_ : s.areas.vma.end_ = c.hostvma.uva + c.hostvma.size

/-- The pool may have been set up in any state and with any memory from `kmalloc`: what
    the sizes of free units are recorded as does not matter. -/
theorem kept_start {e : SetupEnv} {g : GmPool} {allocSzMem : Nat → U32} {bitmapMem : Bitmap}
    (hl : Layout c e.vmap) (hset : (g.setGpuMempool e c.hostbuf).1 = 0) :
    Kept c e.vmap (start (g.setGpuMempool e c.hostbuf).2.toMempool c.hostvma allocSzMem bitmapMem) := by
  have hset' : GmPool.SetUp e c.hostbuf g (g.setGpuMempool e c.hostbuf).2 ∧ e.vmap ≠ 0 := by
    rcases GmPool.setGpuMempool_outcome e c.hostbuf g with ⟨ho, -, hset⟩ | ⟨-, hne, -⟩
    · exact ⟨hset, ho.vmap⟩
    · exact absurd hset hne
  obtain ⟨hup, hkva⟩ := hset'
  have hnpages : c.hostbuf.npages = 512 := by
    rw [MemInfo.npages, hl.hostbuf]
    rfl
  have hnunits : c.hostbuf.nunits = 2 := by
    rw [MemInfo.nunits, hnpages]
    rfl
  have hw := hl.no_wrap
  rw [bufSize_toNat] at hw
  have hmapped : (g.setGpuMempool e c.hostbuf).2.toMempool.Mapped := by
    refine ⟨hup.kva ▸ hkva, ?_⟩
    rw [hup.kva, hup.nunits, hnunits, show (2 : U32).toNat = 2 from rfl]
    omega
  have hend : (c.hostvma.uva + c.hostvma.size).toNat =
      c.hostvma.uva.toNat + c.hostvma.size.toNat := by
    have := hl.regions.hostvma
    rw [BitVec.toNat_add]
    omega
  refine ⟨Clients.clean_owned hmapped fun u hu => hup.bitmap u (hup.nunits ▸ hu), ?_, hup.uva,
    hup.kva, hup.npages.trans hnpages, hup.nunits.trans hnunits, rfl, rfl⟩
  exact ⟨Vma.setVm_tiled _ _ _ _, Vma.setVm_inside (by omega) _ _, nofun, .nil⟩

theorem Kept.step {op : AllocatorOp} (h : Kept c kva s) (hsized : s.Sized op)
    (hs : s.step K op = some s') : Kept c kva s' := by
  cases op with
  | pool op =>
    obtain ⟨clients, hclients, rfl⟩ := Option.map_eq_some_iff.mp hs
    obtain ⟨map, sz, hframe⟩ := Clients.step_frame hclients
    have hsound : s.clients.clean.Sound op := by
      cases op with
      | vmalloc nbytes =>
        have hmax : bufSize.toNat ≤ Mempool.maxBytes := by decide
        exact .inl ⟨hsized.1, hsized.2.trans hmax⟩
      | vfree b => trivial
    refine ⟨h.clients.step hsound (Clients.clean_step h.clients hclients), h.areas, ?_, ?_, ?_, ?_,
      h.start, h.end_⟩ <;> simp only [hframe]
    · exact h.uva
    · exact h.kva
    · exact h.npages
    · exact h.nunits
  | area op =>
    obtain ⟨areas, hareas, rfl⟩ := Option.map_eq_some_iff.mp hs
    have hsize : ∀ size, op = .alloc size → 0 < size.toNat ∧ size.toNat ≤ bufSize.toNat := by
      rintro size rfl
      exact hsized
    obtain ⟨howned, hstart, hend⟩ := h.areas.step hsize hareas
    exact ⟨h.clients, howned, h.uva, h.kva, h.npages, h.nunits, hstart.trans h.start,
      hend.trans h.end_⟩

/-- An allocation lies in its region. -/
theorem Kept.within (hl : Layout c kva) (h : Kept c kva s) (hx : s.Live x) :
    (x.base c kva).toNat ≤ x.block.addr.toNat ∧
      x.block.addr.toNat + x.block.nbytes.toNat ≤ (x.base c kva).toNat + 2097152 := by
  cases x with
  | buffer b =>
    have hin := h.clients.exclusive.inside b hx
    simp only [Clients.clean, h.kva, h.nunits, show (2 : U32).toNat = 2 from rfl] at hin
    exact hin
  | area b =>
    have hin := h.areas.within hx
    have hsize := congrArg BitVec.toNat hl.hostvma
    have hw := hl.regions.hostvma
    rw [bufSize_toNat] at hsize
    rw [h.start, h.end_, BitVec.toNat_add] at hin
    simp only [Allocation.base, Allocation.block]
    omega

/-- Two allocations with a byte in common are one. -/
theorem Kept.disjoint (hl : Layout c kva) (h : Kept c kva s) (hx : s.Live x) (hx' : s.Live x')
    {a : Nat} (ha : x.block.Byte a) (ha' : x'.block.Byte a) : x = x' := by
  have hin := h.within hl hx
  have hin' := h.within hl hx'
  have hsize : c.hostvma.size.toNat = 2097152 := by rw [hl.hostvma, bufSize_toNat]
  have hapart := hl.apart a
  rw [bufSize_toNat] at hapart
  unfold Buffer.Byte at ha ha'
  cases x with
  | buffer b =>
    cases x' with
    | buffer b' =>
      exact congrArg _ (h.clients.blocks.eq_of_common h.clients.tiled (by decide) hx hx' ha ha')
    | area b' =>
      simp only [Allocation.base, Allocation.block] at hin hin' ha ha'
      refine absurd ?_ (hapart (by omega) (by omega)).2
      exact ⟨by omega, by omega⟩
  | area b =>
    cases x' with
    | buffer b' =>
      simp only [Allocation.base, Allocation.block] at hin hin' ha ha'
      refine absurd ?_ (hapart (by omega) (by omega)).2
      exact ⟨by omega, by omega⟩
    | area b' => rw [h.areas.disjoint hx hx' ha ha']

/-! ## The translation -/

/-- `fill_ku_request` finds an address of the pool, and no address of an area, in the
    mapping of the kernel. -/
theorem Kept.toUser (hl : Layout c kva) (h : Kept c kva s) {a : UL}
    (hlo : (x.base c kva).toNat ≤ a.toNat) (hhi : a.toNat < (x.base c kva).toNat + 2097152) :
    (s.clients.pool.toUser a).toNat = (x.hostBase c).toNat + (a.toNat - (x.base c kva).toNat) := by
  have hsize : s.clients.pool.byteSize = bufSize := by
    rw [Mempool.byteSize, h.npages]
    rfl
  have hw := hl.no_wrap
  have hwithin : addrWithin a kva bufSize = true ↔
      kva.toNat ≤ a.toNat ∧ a.toNat < kva.toNat + bufSize.toNat := addrWithin_iff hw
  have hhost := congrArg BitVec.toNat hl.hostbuf
  have hvma := congrArg BitVec.toNat hl.hostvma
  have hbuf := hl.regions.hostbuf
  rw [Mempool.toUser, hsize, h.kva, h.uva]
  rw [bufSize_toNat] at hwithin hhost hvma
  cases x with
  | buffer b =>
    rw [if_pos (hwithin.mpr ⟨hlo, hhi⟩)]
    exact addrRebase_toNat hlo (by simp only [Allocation.base] at hlo hhi; omega)
  | area b =>
    have hvmaHas : c.hostvma.Has a.toNat := ⟨hlo, by rw [hvma]; exact hhi⟩
    have hout : ¬ addrWithin a kva bufSize = true := by
      intro hin
      obtain ⟨hl', hh'⟩ := hwithin.mp hin
      exact (hl.apart a.toNat hl' (by rw [bufSize_toNat]; exact hh')).2 hvmaHas
    rw [if_neg hout]
    simp only [Allocation.base, Allocation.hostBase] at hlo ⊢
    omega

/-- A range of an allocation keeps its length and its offset on the way to the device. -/
theorem Kept.onDevice (hl : Layout c kva) (h : Kept c kva s) (hx : s.Live x) {f : ReqField}
    {r : KgpuRequest} (hf : x.Holds (f.range r)) : OnDevice c s.clients.pool x f r := by
  have hin := h.within hl hx
  obtain ⟨hpos, hlo, hhi⟩ := hf
  have hlo' : (x.base c kva).toNat ≤ (f.range r).1.toNat := hin.1.trans hlo
  have hhi' : (f.range r).1.toNat + (f.range r).2.toNat ≤ (x.base c kva).toNat + 2097152 :=
    hhi.trans hin.2
  have huser := h.toUser hl hlo' (by omega)
  have hhost : c.hostbuf.size.toNat = 2097152 := by rw [hl.hostbuf, bufSize_toNat]
  have hvma : c.hostvma.size.toNat = 2097152 := by rw [hl.hostvma, bufSize_toNat]
  have hdevice : (c.deviceAddr (s.clients.pool.toUser (f.range r).1)).toNat =
      (x.devBase c).toNat + ((f.range r).1.toNat - (x.base c kva).toNat) := by
    cases x with
    | buffer b =>
      simp only [Allocation.base, Allocation.hostBase] at hlo' hhi' huser
      have hhas : c.hostbuf.Has (s.clients.pool.toUser (f.range r).1).toNat := by
        rw [huser]
        exact ⟨by omega, by omega⟩
      rw [Config.deviceAddr_hostbuf hl.regions hhas, huser, Nat.add_sub_cancel_left]
      rfl
    | area b =>
      simp only [Allocation.base, Allocation.hostBase] at hlo' hhi' huser
      have hhas : c.hostvma.Has (s.clients.pool.toUser (f.range r).1).toNat := by
        rw [huser]
        exact ⟨by omega, by omega⟩
      rw [Config.deviceAddr_hostvma hl.regions hhas, huser, Nat.add_sub_cancel_left]
      rfl
  have hkva : x.base c s.clients.pool.kva = x.base c kva := by rw [h.kva]
  refine ⟨?_, ?_, ?_, ?_, ?_⟩
  · rw [hkva]
    exact hlo'
  · rw [f.hostAddr_eq, hkva]
    exact huser
  · rw [f.deviceRange_eq, hkva]
    exact hdevice
  · rw [f.deviceRange_eq]
  · rw [f.deviceRange_eq]
    simp only [Extent.hi, hdevice, bufSize_toNat]
    omega

/-- Two allocations are of one region, or of two that are apart for the clients and on
    the device. -/
theorem region_cases (hl : Layout c kva) (x x' : Allocation) :
    (x.base c kva = x'.base c kva ∧ x.devBase c = x'.devBase c) ∨
      (∀ n, (x.base c kva).toNat ≤ n → n < (x.base c kva).toNat + 2097152 →
        (x'.base c kva).toNat ≤ n → ¬ n < (x'.base c kva).toNat + 2097152) ∧
      ((x.devBase c).toNat + 2097152 ≤ (x'.devBase c).toNat ∨
        (x'.devBase c).toNat + 2097152 ≤ (x.devBase c).toNat) := by
  have hdev := hl.regions.dev
  have hapart := hl.apart
  rw [hl.hostbuf, hl.hostvma, bufSize_toNat] at hdev
  simp only [MemInfo.Has, hl.hostvma, bufSize_toNat] at hapart
  cases x <;> cases x'
  case buffer.buffer => exact .inl ⟨rfl, rfl⟩
  case area.area => exact .inl ⟨rfl, rfl⟩
  case buffer.area =>
    exact .inr ⟨fun n h₁ h₂ h₃ h₄ => (hapart n h₁ h₂).2 ⟨h₃, h₄⟩, hdev⟩
  case area.buffer =>
    exact .inr ⟨fun n h₁ h₂ h₃ h₄ => (hapart n h₃ h₄).2 ⟨h₁, h₂⟩, hdev.symm⟩

/-- Ranges of one region are moved by one distance, and those of different regions are
    apart before and after. -/
theorem Kept.overlaps_iff (hl : Layout c kva) (h : Kept c kva s) (hx : s.Live x) (hx' : s.Live x')
    {f f' : ReqField} {r r' : KgpuRequest} (hf : x.Holds (f.range r)) (hf' : x'.Holds (f'.range r')) :
    (f.deviceRange c s.clients.pool r).Overlaps (f'.deviceRange c s.clients.pool r') ↔
      (f.range r).Overlaps (f'.range r') := by
  have hd := h.onDevice hl hx hf
  have hd' := h.onDevice hl hx' hf'
  have hlen := congrArg BitVec.toNat hd.length
  have hlen' := congrArg BitVec.toNat hd'.length
  obtain ⟨hbase, -, hoff, -, hin⟩ := hd
  obtain ⟨hbase', -, hoff', -, hin'⟩ := hd'
  simp only [h.kva, bufSize_toNat, Extent.lo, Extent.hi] at hbase hbase' hoff hoff' hin hin'
  simp only [Extent.Overlaps, Extent.Contains, Extent.lo, Extent.hi]
  rcases region_cases hl x x' with ⟨heq, hdeq⟩ | ⟨hapart, hdev⟩
  · rw [← heq] at hbase' hoff'
    rw [← hdeq] at hoff'
    constructor
    · rintro ⟨n, hn, hn'⟩
      exact ⟨n - (x.devBase c).toNat + (x.base c kva).toNat, by omega, by omega⟩
    · rintro ⟨n, hn, hn'⟩
      exact ⟨n - (x.base c kva).toNat + (x.devBase c).toNat, by omega, by omega⟩
  · constructor
    · rintro ⟨n, hn, hn'⟩
      omega
    · rintro ⟨n, hn, hn'⟩
      exact absurd (by omega) (hapart n (by omega) (by omega) (by omega))

/-- A byte in two ranges is a byte of the allocations that hold them. -/
theorem Kept.not_overlaps (hl : Layout c kva) (h : Kept c kva s) (hx : s.Live x)
    (hx' : s.Live x') (hne : x ≠ x') {e e' : Extent} (hf : x.Holds e) (hf' : x'.Holds e') :
    ¬ e.Overlaps e' := by
  rintro ⟨n, hn, hn'⟩
  obtain ⟨-, hlo, hhi⟩ := hf
  obtain ⟨-, hlo', hhi'⟩ := hf'
  exact hne (h.disjoint hl hx hx' ⟨hlo.trans hn.1, hn.2.trans_le hhi⟩
    ⟨hlo'.trans hn'.1, hn'.2.trans_le hhi'⟩)

/-- In every run of the two allocators from the state in which the helper has set up the
    pool and mapped the device, a range of a live allocation gets a device range of its
    length, at its offset, in the region for the allocation. Ranges of different
    allocations do not overlap on the device, and any two overlap there exactly when they
    overlap for the clients. -/
theorem device_ranges_apart (K : ZeroAreaSearch) {c : Config} {e : SetupEnv} {g : GmPool}
    {allocSzMem : Nat → U32} {bitmapMem : Bitmap} {ops : List AllocatorOp} {s : Allocators}
    (hl : Layout c e.vmap) (hset : (g.setGpuMempool e c.hostbuf).1 = 0)
    (hrun : Run (step K) Sized
      (start (g.setGpuMempool e c.hostbuf).2.toMempool c.hostvma allocSzMem bitmapMem) ops s) :
    (∀ x, s.Live x → ∀ (f : ReqField) r, x.Holds (f.range r) → OnDevice c s.clients.pool x f r) ∧
    ∀ x x', s.Live x → s.Live x' → ∀ (f f' : ReqField) r r',
      x.Holds (f.range r) → x'.Holds (f'.range r') →
      (x ≠ x' →
        ¬ (f.deviceRange c s.clients.pool r).Overlaps (f'.deviceRange c s.clients.pool r')) ∧
      ((f.deviceRange c s.clients.pool r).Overlaps (f'.deviceRange c s.clients.pool r') ↔
        (f.range r).Overlaps (f'.range r')) := by
  have h : Kept c e.vmap s :=
    hrun.invariant (kept_start hl hset) fun _ _ _ h hsized hs => h.step hsized hs
  refine ⟨fun x hx f r hf => h.onDevice hl hx hf, fun x x' hx hx' f f' r r' hf hf' => ?_⟩
  have hiff := h.overlaps_iff hl hx hx' hf hf'
  exact ⟨fun hne hover => h.not_overlaps hl hx hx' hne hf hf' (hiff.mp hover), hiff⟩

theorem small_layout : Layout Config.small 0x100000 := by
  refine ⟨Config.small_regions, rfl, rfl, by decide, fun x _ hlt => ?_⟩
  exact ⟨fun h => absurd (h.1.trans_lt hlt) (by decide),
    fun h => absurd (h.1.trans_lt hlt) (by decide)⟩

/-- With a record of sizes that `kmalloc` left full of garbage: two buffers, the first of
    which was given back, and one mmap area. -/
theorem device_ranges_apart_two_buffers :
    ∃ s, Run (step .firstFit) Sized
        (start (Setups.boot.pool.setGpuMempool { SetupEnv.plenty with
            allocSzMem := some fun _ => 7 } Config.small.hostbuf).2.toMempool
          Config.small.hostvma (fun _ => 7) fun _ => true)
        [.pool (.vmalloc 5), .area (.alloc 0x1001), .pool (.vmalloc 0x100000),
          .pool (.vfree ⟨0x100000, 5⟩)] s ∧
      s.Live (.buffer ⟨0x200000, 0x100000⟩) ∧ s.Live (.area ⟨0x2000000, 0x1001⟩) ∧
      OnDevice Config.small s.clients.pool (.buffer ⟨0x200000, 0x100000⟩) .inp
        { KgpuRequest.constructed 0 with
          inp := 0x200010, insize := 0x20, out := 0x2001000, outsize := 1 } ∧
      ¬ (ReqField.inp.deviceRange Config.small s.clients.pool
          { KgpuRequest.constructed 0 with
            inp := 0x200010, insize := 0x20, out := 0x2001000, outsize := 1 }).Overlaps
        (ReqField.out.deviceRange Config.small s.clients.pool
          { KgpuRequest.constructed 0 with
            inp := 0x200010, insize := 0x20, out := 0x2001000, outsize := 1 }) := by
  have hrun : Run (step .firstFit) Sized
      (start (Setups.boot.pool.setGpuMempool { SetupEnv.plenty with
          allocSzMem := some fun _ => 7 } Config.small.hostbuf).2.toMempool
        Config.small.hostvma (fun _ => 7) fun _ => true)
      [.pool (.vmalloc 5), .area (.alloc 0x1001), .pool (.vmalloc 0x100000),
        .pool (.vfree ⟨0x100000, 5⟩)] _ :=
    Run.of_along rfl ⟨⟨by decide, by decide⟩, ⟨by decide, by decide⟩, ⟨by decide, by decide⟩,
      trivial, trivial⟩
  have hbuffer : Allocation.Holds (.buffer ⟨0x200000, 0x100000⟩) (0x200010, 0x20) :=
    ⟨by decide, by decide, by decide⟩
  have harea : Allocation.Holds (.area ⟨0x2000000, 0x1001⟩) (0x2001000, 1) :=
    ⟨by decide, by decide, by decide⟩
  have hres := device_ranges_apart .firstFit small_layout rfl hrun
  refine ⟨_, hrun, List.mem_cons_self, List.mem_cons_self, ?_, ?_⟩
  · exact hres.1 _ List.mem_cons_self .inp _ hbuffer
  · exact (hres.2 _ _ List.mem_cons_self List.mem_cons_self .inp .out _ _ hbuffer harea).1 nofun

end Allocators

end Kgpu
