-- SUMMARY: The GPU buffer pool of the kernel module: `kgpu_vmalloc`, `kgpu_vfree`, and the extent allocator they implement.
import Kgpu.Words
import Kgpu.Library.Run
import Kgpu.Library.Bitmap

/-!
# The GPU buffer pool

`kgpudev.gmpool` hands out the pinned host buffer in units of
`KGPU_BUF_UNIT_SIZE` bytes. It keeps a bitmap of the units in use and, in
`alloc_sz`, the number of units of the buffer that begins at a unit. The pool
module embeds the two allocation functions and shows that they implement an
allocator of disjoint extents of units.
-/

namespace Kgpu

open Library

/-- `struct _kgpu_mempool`, the fields the allocator and the address
    translation read. `bitmap` and `alloc_sz` are read at unit numbers. -/
structure Mempool where
  uva : UL
  kva : UL
  npages : U32
  nunits : U32
  bitmap : Bitmap
  allocSz : Nat → U32

namespace Mempool

/-! ## The two functions -/

/-- The unit count `kgpu_vmalloc` asks for. The rounded quotient has up to 44
    bits and is stored in an `unsigned int`. -/
def reqNunits (nbytes : UL) : U32 := (divRoundUp nbytes bufUnitSize).setWidth 32

/-- `kgpu_vmalloc`: the returned pointer (`NULL` is 0) and the pool after. -/
def kgpuVmalloc (K : ZeroAreaSearch) (p : Mempool) (nbytes : UL) : UL × Mempool :=
  let req := reqNunits nbytes
  let idx := K.find p.bitmap p.nunits.toNat 0 req.toNat 0
  if idx < p.nunits.toNat then
    (p.kva + BitVec.ofNat 64 idx * bufUnitSize,
      { p with
        bitmap := p.bitmap.set idx req.toNat
        allocSz := Function.update p.allocSz idx req })
  else
    (0, p)

/-- The four ways through `kgpu_vfree`. -/
inductive VfreeExit where
  | incorrectPointer
  | noAllocation
  | incorrectAllocationInfo
  | released
  deriving DecidableEq, Repr

/-- The unit `kgpu_vfree` computes from a pointer, in 64-bit arithmetic. -/
def unitOf (p : Mempool) (ptr : UL) : Nat := ((ptr - p.kva) / bufUnitSize).toNat

/-- `kgpu_vfree`. The test `idx < 0` of the source is never true of an unsigned
    value. -/
def kgpuVfree (p : Mempool) (ptr : UL) : VfreeExit × Mempool :=
  let idx := p.unitOf ptr
  if idx ≥ p.nunits.toNat then
    (.incorrectPointer, p)
  else
    let nunits := p.allocSz idx
    if nunits = 0 then
      -- Freeing any of the in, out and data fields of one request is allowed.
      (.noAllocation, p)
    else if nunits.toNat > p.nunits.toNat - idx then
      (.incorrectAllocationInfo, p)
    else
      (.released,
        { p with
          bitmap := p.bitmap.clear idx nunits.toNat
          allocSz := Function.update p.allocSz idx 0 })

/-! ## What the pool represents -/

/-- The recorded size of the buffer that begins at a unit. -/
def size (p : Mempool) (i : Nat) : Nat := (p.allocSz i).toNat

/-- The set bits are the disjoint union of the recorded buffers. -/
def Tiled (p : Mempool) : Prop := Tiling p.nunits.toNat p.bitmap p.size

/-- The buffers in use, as first unit and number of units. -/
def buffers (p : Mempool) : Set (Nat × Nat) := extents p.nunits.toNat p.size

/-- `nr` consecutive units from `i` on are free. -/
def FreeRun (p : Mempool) (i nr : Nat) : Prop :=
  i + nr ≤ p.nunits.toNat ∧ p.bitmap.ZeroArea i nr

/-- The pool after a successful `set_gpu_mempool`: no unit in use. -/
structure Blank (p : Mempool) : Prop where
  bitmap : ∀ u < p.nunits.toNat, p.bitmap u = false
  allocSz : ∀ i < p.nunits.toNat, p.allocSz i = 0

/-- The address range of the pool: it begins at a non-null address and does not
    wrap. -/
structure Mapped (p : Mempool) : Prop where
  kva_ne : p.kva ≠ 0
  no_wrap : p.kva.toNat + p.nunits.toNat * 2 ^ 20 ≤ 2 ^ 64

theorem Blank.tiled {p : Mempool} (h : p.Blank) : p.Tiled :=
  .empty h.bitmap fun i hi => by simp [size, h.allocSz i hi]

theorem size_update {p : Mempool} {i : Nat} {k : U32} {map : Bitmap} :
    size { p with bitmap := map, allocSz := Function.update p.allocSz i k } =
      Function.update p.size i k.toNat := by
  funext j
  by_cases hj : j = i
  · subst hj; simp [size]
  · simp [size, hj]

/-- The address of unit `i`, which the source computes without wrapping. -/
theorem Mapped.unit_toNat {p : Mempool} (hm : p.Mapped) {i : Nat} (hi : i < p.nunits.toNat) :
    (p.kva + BitVec.ofNat 64 i * bufUnitSize).toNat = p.kva.toNat + i * 2 ^ 20 := by
  have hw := hm.no_wrap
  have hn : p.nunits.toNat < 2 ^ 32 := p.nunits.isLt
  have hmul : i * 2 ^ 20 < p.nunits.toNat * 2 ^ 20 := by omega
  rw [BitVec.toNat_add, BitVec.toNat_mul, BitVec.toNat_ofNat, bufUnitSize_toNat,
    Nat.mod_eq_of_lt (a := i) (by omega), Nat.mod_eq_of_lt (a := i * 2 ^ 20) (by omega),
    Nat.mod_eq_of_lt (by omega)]

/-- A pointer below the pool wraps to a unit number past its end, so the unit
    computed from a pointer is in range exactly when the pointer lies in it. -/
theorem Mapped.unitOf_eq_iff {p : Mempool} (hm : p.Mapped) {ptr : UL} {i : Nat}
    (hi : i < p.nunits.toNat) :
    p.unitOf ptr = i ↔
      p.kva.toNat + i * 2 ^ 20 ≤ ptr.toNat ∧ ptr.toNat < p.kva.toNat + (i + 1) * 2 ^ 20 := by
  have hw := hm.no_wrap
  have hp : ptr.toNat < 2 ^ 64 := ptr.isLt
  have hk : p.kva.toNat < 2 ^ 64 := p.kva.isLt
  have hunit : p.unitOf ptr = (2 ^ 64 - p.kva.toNat + ptr.toNat) % 2 ^ 64 / 2 ^ 20 := by
    rw [unitOf, BitVec.toNat_udiv, BitVec.toNat_sub, bufUnitSize_toNat]
  rw [hunit]
  by_cases hlt : ptr.toNat < p.kva.toNat
  · rw [Nat.mod_eq_of_lt (by omega)]
    omega
  · rw [show 2 ^ 64 - p.kva.toNat + ptr.toNat = ptr.toNat - p.kva.toNat + 2 ^ 64 by omega,
      Nat.add_mod_right, Nat.mod_eq_of_lt (by omega)]
    omega

/-! ## What one call does -/

/-- The two outcomes of `kgpu_vmalloc`: a new buffer of the requested units,
    all of which were free, or `NULL` and the same pool. -/
inductive VmallocOutcome (p : Mempool) (nbytes : UL) : UL → Mempool → Prop where
  | fresh (i : Nat) (hfree : p.bitmap i = false) (hi : i < p.nunits.toNat)
      (hrun : p.FreeRun i (reqNunits nbytes).toNat) :
      VmallocOutcome p nbytes (p.kva + BitVec.ofNat 64 i * bufUnitSize)
        { p with
          bitmap := p.bitmap.set i (reqNunits nbytes).toNat
          allocSz := Function.update p.allocSz i (reqNunits nbytes) }
  | null (hfull : 0 < (reqNunits nbytes).toNat → ∀ i, ¬ p.FreeRun i (reqNunits nbytes).toNat) :
      VmallocOutcome p nbytes 0 p

theorem kgpuVmalloc_outcome (K : ZeroAreaSearch) (p : Mempool) (nbytes : UL) :
    VmallocOutcome p nbytes (p.kgpuVmalloc K nbytes).1 (p.kgpuVmalloc K nbytes).2 := by
  by_cases h : K.find p.bitmap p.nunits.toNat 0 (reqNunits nbytes).toNat 0 < p.nunits.toNat
  · obtain ⟨hfree, hin, hzero⟩ := K.found h
    simp only [kgpuVmalloc, h, if_true]
    exact .fresh _ hfree h ⟨hin, hzero⟩
  · simp only [kgpuVmalloc, h, if_false]
    refine .null fun hreq i hrun => h ?_
    exact K.complete hreq (Nat.zero_le i) hrun.1 hrun.2

/-- The outcomes of `kgpu_vfree` on a pool whose records agree: the buffer whose
    first unit contains the pointer is released, or nothing changes. -/
inductive VfreeOutcome (p : Mempool) (ptr : UL) : VfreeExit → Mempool → Prop where
  | released (hi : p.unitOf ptr < p.nunits.toNat) (hsize : 0 < p.size (p.unitOf ptr)) :
      VfreeOutcome p ptr .released
        { p with
          bitmap := p.bitmap.clear (p.unitOf ptr) (p.size (p.unitOf ptr))
          allocSz := Function.update p.allocSz (p.unitOf ptr) 0 }
  | ignored (e : VfreeExit) (he : e = .incorrectPointer ∨ e = .noAllocation)
      (hnone : p.unitOf ptr < p.nunits.toNat → p.size (p.unitOf ptr) = 0) :
      VfreeOutcome p ptr e p

theorem Tiled.kgpuVfree_outcome {p : Mempool} (h : p.Tiled) (ptr : UL) :
    VfreeOutcome p ptr (p.kgpuVfree ptr).1 (p.kgpuVfree ptr).2 := by
  by_cases hi : p.unitOf ptr < p.nunits.toNat
  · have hge : ¬ p.unitOf ptr ≥ p.nunits.toNat := by omega
    by_cases hz : p.allocSz (p.unitOf ptr) = 0
    · simp only [kgpuVfree, hge, hz, if_true, if_false]
      exact .ignored _ (.inr rfl) fun _ => by simp [size, hz]
    · -- The recorded buffer lies inside the pool, so the size check passes.
      have hin := h.inside _ hi
      have hok : ¬ (p.allocSz (p.unitOf ptr)).toNat > p.nunits.toNat - p.unitOf ptr := by
        simp only [size] at hin
        omega
      simp only [kgpuVfree, hge, hz, hok, if_false]
      refine .released hi ?_
      have hne : (p.allocSz (p.unitOf ptr)).toNat ≠ 0 :=
        fun h0 => hz (BitVec.eq_of_toNat_eq (by simpa using h0))
      simp only [size]
      omega
  · simp only [kgpuVfree, ge_iff_le, Nat.le_of_not_lt hi, if_true]
    exact .ignored _ (.inl rfl) fun hlt => absurd hlt hi

theorem VmallocOutcome.tiled {p p' : Mempool} {nbytes ret : UL}
    (ho : VmallocOutcome p nbytes ret p') (h : p.Tiled) : p'.Tiled := by
  cases ho with
  | fresh i hfree hi hrun =>
    simp only [Tiled, size_update]
    exact Tiling.add h hfree hi hrun.1 hrun.2
  | null => exact h

theorem VfreeOutcome.tiled {p p' : Mempool} {ptr : UL} {e : VfreeExit}
    (ho : VfreeOutcome p ptr e p') (h : p.Tiled) : p'.Tiled := by
  cases ho with
  | released hi =>
    simp only [Tiled, size_update]
    exact Tiling.remove h hi
  | ignored => exact h

/-! ## Runs -/

/-- A call on the pool, with any argument. -/
inductive Call where
  | vmalloc (nbytes : UL)
  | vfree (ptr : UL)

def step (K : ZeroAreaSearch) (p : Mempool) : Call → Option Mempool
  | .vmalloc nbytes => some (p.kgpuVmalloc K nbytes).2
  | .vfree ptr => some (p.kgpuVfree ptr).2

/-- A call changes only the two records of what is in use. -/
theorem step_frame {K : ZeroAreaSearch} {p p' : Mempool} {c : Call} (h : step K p c = some p') :
    ∃ map sz, p' = { p with bitmap := map, allocSz := sz } := by
  cases c with
  | vmalloc nbytes =>
    simp only [step, Option.some.injEq] at h
    subst h
    simp only [kgpuVmalloc]
    split <;> exact ⟨_, _, rfl⟩
  | vfree ptr =>
    simp only [step, Option.some.injEq] at h
    subst h
    simp only [kgpuVfree]
    split
    · exact ⟨_, _, rfl⟩
    · split
      · exact ⟨_, _, rfl⟩
      · split <;> exact ⟨_, _, rfl⟩

/-- No call moves or resizes the pool. -/
theorem step_fixed {K : ZeroAreaSearch} {p p' : Mempool} {c : Call} (h : step K p c = some p') :
    p'.kva = p.kva ∧ p'.nunits = p.nunits := by
  obtain ⟨map, sz, rfl⟩ := step_frame h
  exact ⟨rfl, rfl⟩

theorem step_tiled {K : ZeroAreaSearch} {p p' : Mempool} {c : Call} (h : p.Tiled)
    (hs : step K p c = some p') : p'.Tiled := by
  cases c with
  | vmalloc nbytes =>
    simp only [step, Option.some.injEq] at hs
    subst hs
    exact (kgpuVmalloc_outcome K p nbytes).tiled h
  | vfree ptr =>
    simp only [step, Option.some.injEq] at hs
    subst hs
    exact (h.kgpuVfree_outcome ptr).tiled h

theorem Mapped.step {K : ZeroAreaSearch} {p p' : Mempool} {c : Call} (hm : p.Mapped)
    (hs : step K p c = some p') : p'.Mapped := by
  obtain ⟨hkva, hn⟩ := step_fixed hs
  exact ⟨hkva ▸ hm.kva_ne, hkva ▸ hn ▸ hm.no_wrap⟩

theorem run_invariant {K : ZeroAreaSearch} {p₀ p : Mempool} {cs : List Call} (hblank : p₀.Blank)
    (hm : p₀.Mapped) (hrun : Run (step K) Free p₀ cs p) : p.Tiled ∧ p.Mapped :=
  hrun.invariant (I := fun p => p.Tiled ∧ p.Mapped) ⟨hblank.tiled, hm⟩
    fun _ _ _ ih _ hs => ⟨step_tiled ih.1 hs, ih.2.step hs⟩

/-! ## The extent allocator -/

/-- `p'` has one more buffer than `p`: `nr` units from `i` on, all of them free
    in `p`. For `nr = 0` there is no such unit and the buffers stay the same. -/
def AddsBuffer (p p' : Mempool) (i nr : Nat) : Prop :=
  p.FreeRun i nr ∧ p'.bitmap = p.bitmap.set i nr ∧
    p'.buffers = p.buffers ∪ {e | e = (i, nr) ∧ 0 < nr}

/-- `p'` has lost exactly the buffer of `len` units at `i`. -/
def RemovesBuffer (p p' : Mempool) (i len : Nat) : Prop :=
  (i, len) ∈ p.buffers ∧ p'.bitmap = p.bitmap.clear i len ∧
    p'.buffers = p.buffers \ {(i, len)}

/-- The address `ptr` lies in unit `i`. -/
def InUnit (p : Mempool) (i : Nat) (ptr : UL) : Prop :=
  p.kva.toNat + i * 2 ^ 20 ≤ ptr.toNat ∧ ptr.toNat < p.kva.toNat + (i + 1) * 2 ^ 20

theorem Mapped.unit_ne_null {p : Mempool} (hm : p.Mapped) {i : Nat} (hi : i < p.nunits.toNat) :
    p.kva + BitVec.ofNat 64 i * bufUnitSize ≠ 0 := by
  intro h0
  have hu := hm.unit_toNat hi
  rw [h0] at hu
  have hk : p.kva.toNat = 0 := by
    rw [show (0 : UL).toNat = 0 from rfl] at hu
    omega
  exact hm.kva_ne (BitVec.eq_of_toNat_eq (by simpa using hk))

theorem VmallocOutcome.adds {p p' : Mempool} {nbytes ret : UL}
    (ho : VmallocOutcome p nbytes ret p') (h : p.Tiled) (hm : p.Mapped) :
    (ret ≠ 0 ∧ ∃ i, ret.toNat = p.kva.toNat + i * 2 ^ 20 ∧
        AddsBuffer p p' i (reqNunits nbytes).toNat) ∨
      (ret = 0 ∧ p' = p) := by
  cases ho with
  | fresh i hfree hi hrun =>
    refine .inl ⟨hm.unit_ne_null hi, i, hm.unit_toNat hi, hrun, rfl, ?_⟩
    simp only [buffers, size_update]
    exact extents_add hi (Tiling.size_eq_zero h hi hfree)
  | null => exact .inr ⟨rfl, rfl⟩

theorem VmallocOutcome.null_iff {p p' : Mempool} {nbytes ret : UL}
    (ho : VmallocOutcome p nbytes ret p') (hm : p.Mapped) (hreq : 0 < (reqNunits nbytes).toNat) :
    ret = 0 ↔ ∀ i, ¬ p.FreeRun i (reqNunits nbytes).toNat := by
  cases ho with
  | fresh i _ hi hrun =>
    constructor
    · intro h0
      exact absurd h0 (hm.unit_ne_null hi)
    · intro hall
      exact absurd hrun (hall i)
  | null hfull => exact ⟨fun _ => hfull hreq, fun _ => rfl⟩

theorem VfreeOutcome.removes {p p' : Mempool} {ptr : UL} {e : VfreeExit}
    (ho : VfreeOutcome p ptr e p') (hm : p.Mapped) :
    (∃ i len, p.InUnit i ptr ∧ RemovesBuffer p p' i len) ∨
      ((∀ i len, (i, len) ∈ p.buffers → ¬ p.InUnit i ptr) ∧ p' = p) := by
  cases ho with
  | released hi hsize =>
    refine .inl ⟨p.unitOf ptr, p.size (p.unitOf ptr), (hm.unitOf_eq_iff hi).mp rfl,
      ⟨hi, hsize, rfl⟩, rfl, ?_⟩
    simp only [buffers, size_update]
    exact extents_remove_mem ⟨hi, hsize, rfl⟩
  | ignored _ _ hnone =>
    refine .inr ⟨?_, rfl⟩
    rintro i len ⟨hi, hlen, hsize⟩ hin
    have hu : p.unitOf ptr = i := (hm.unitOf_eq_iff hi).mpr hin
    have := hnone (hu ▸ hi)
    rw [hu] at this
    simp only at hsize hlen hi
    omega

theorem VfreeOutcome.exit_ne {p p' : Mempool} {ptr : UL} {e : VfreeExit}
    (ho : VfreeOutcome p ptr e p') : e ≠ .incorrectAllocationInfo := by
  cases ho with
  | released => decide
  | ignored _ he => rcases he with rfl | rfl <;> decide

/-- The pool implements an allocator of extents of units. After every run of
    allocations and frees with any arguments whatsoever, the two records agree;
    `kgpu_vmalloc` adds one buffer of the units it computed or returns `NULL`
    and changes nothing, and for a non-zero count it returns `NULL` exactly when
    no run of free units is long enough; `kgpu_vfree` removes the buffer whose
    first unit contains the pointer, or changes nothing when there is none, and
    never finds the two records in disagreement. -/
theorem pool_refines_extent_allocator (K : ZeroAreaSearch) {p₀ p : Mempool} {cs : List Call}
    (hblank : p₀.Blank) (hm : p₀.Mapped) (hrun : Run (step K) Free p₀ cs p) :
    Tiling p.nunits.toNat p.bitmap p.size ∧
    (∀ nbytes,
      (((p.kgpuVmalloc K nbytes).1 ≠ 0 ∧
          ∃ i, (p.kgpuVmalloc K nbytes).1.toNat = p.kva.toNat + i * 2 ^ 20 ∧
            AddsBuffer p (p.kgpuVmalloc K nbytes).2 i (reqNunits nbytes).toNat) ∨
        ((p.kgpuVmalloc K nbytes).1 = 0 ∧ (p.kgpuVmalloc K nbytes).2 = p)) ∧
      (0 < (reqNunits nbytes).toNat →
        ((p.kgpuVmalloc K nbytes).1 = 0 ↔ ∀ i, ¬ p.FreeRun i (reqNunits nbytes).toNat))) ∧
    (∀ ptr,
      ((∃ i len, p.InUnit i ptr ∧ RemovesBuffer p (p.kgpuVfree ptr).2 i len) ∨
        ((∀ i len, (i, len) ∈ p.buffers → ¬ p.InUnit i ptr) ∧ (p.kgpuVfree ptr).2 = p)) ∧
      (p.kgpuVfree ptr).1 ≠ .incorrectAllocationInfo) := by
  obtain ⟨ht, hmp⟩ := run_invariant hblank hm hrun
  refine ⟨ht, fun nbytes => ?_, fun ptr => ?_⟩
  · have ho := kgpuVmalloc_outcome K p nbytes
    exact ⟨ho.adds ht hmp, ho.null_iff hmp⟩
  · have ho := ht.kgpuVfree_outcome ptr
    exact ⟨ho.removes hmp, ho.exit_ne⟩

/-- An empty pool of `nunits` units at `kva`. -/
def empty (kva : UL) (nunits : U32) : Mempool :=
  { uva := 0, kva := kva, npages := nunits * 256, nunits := nunits
    bitmap := fun _ => false, allocSz := fun _ => 0 }

theorem empty_blank (kva : UL) (nunits : U32) : (empty kva nunits).Blank :=
  ⟨fun _ _ => rfl, fun _ _ => rfl⟩

/-- A pool of two units after an allocation of one and the free of a pointer
    below the pool: the next allocation gets the second unit. -/
theorem pool_refines_extent_allocator_two_units :
    ∃ p, Run (step .firstFit) Free (empty 0x100000 2) [.vmalloc 5, .vfree 0xfffff] p ∧
      (p.kgpuVmalloc .firstFit 1).1 = 0x200000 ∧ Tiling p.nunits.toNat p.bitmap p.size := by
  have hrun : Run (step .firstFit) Free (empty 0x100000 2) [.vmalloc 5, .vfree 0xfffff]
      (((empty 0x100000 2).kgpuVmalloc .firstFit 5).2.kgpuVfree 0xfffff).2 := Run.of_exec rfl
  exact ⟨_, hrun, by decide, (pool_refines_extent_allocator .firstFit
    (empty_blank 0x100000 2) ⟨by decide, by decide⟩ hrun).1⟩

end Mempool
end Kgpu
