-- SUMMARY: The mmap area of the kernel module: its page allocator, its two release paths and the mapping of pages into it.
import Kgpu.Words
import Kgpu.Library.Run
import Kgpu.Library.Bitmap

/-!
# The mmap area

The helper maps the device, and `kgpudev.vm` hands out the pages of that area. It has
the same two records as the buffer pool: a bitmap of the pages in use and, in
`alloc_sz`, the number of pages of the area that begins at a page. An area is given
back by `kgpu_free_mmap_area` or by `kgpu_unmap_area`, which also removes the page-table
entries.
-/

namespace Kgpu

open Library

/-- `struct _kgpu_vma`. `bitmap` and `alloc_sz` are read at page numbers. -/
structure Vma where
  start : UL
  end_ : UL
  npages : U32
  bitmap : Bitmap
  allocSz : Nat → U32

namespace Vma

/-! ## The functions -/

/-- `set_vm` with the memory its two `kmalloc` return. -/
def setVm (vmStart vmEnd : UL) (allocSzMem : Nat → U32) (bitmapMem : Bitmap) : Vma :=
  let npages : U32 := ((vmEnd - vmStart) >>> (12 : Nat)).setWidth 32
  { start := vmStart
    end_ := vmEnd
    npages := npages
    bitmap := bitmapMem.clear 0 (bitsToLongs npages.toNat)
    allocSz := memsetZero allocSzMem (4 * npages.toNat) }

/-- The page count `kgpu_alloc_mmap_area` asks for, cut to an `unsigned int`. -/
def reqPages (size : UL) : U32 := (divRoundUp size pageSize).setWidth 32

/-- `kgpu_alloc_mmap_area`: the returned address (0 when there is none) and the area
    after. -/
def kgpuAllocMmapArea (K : ZeroAreaSearch) (v : Vma) (size : UL) : UL × Vma :=
  let n := reqPages size
  let idx := K.find v.bitmap v.npages.toNat 0 n.toNat 0
  if idx < v.npages.toNat then
    (v.start + pageSize * BitVec.ofNat 64 idx,
      { v with
        bitmap := v.bitmap.set idx n.toNat
        allocSz := Function.update v.allocSz idx n })
  else
    (0, v)

/-- The ways through the two release functions. -/
inductive Release where
  | incorrectPointer
  | incorrectAllocationInfo
  | noAllocation
  | released
  deriving DecidableEq, Repr

/-- The page the release functions compute from an address. -/
def pageOf (v : Vma) (addr : UL) : Nat := ((addr - v.start) >>> (12 : Nat)).toNat

/-- `kgpu_free_mmap_area`. -/
def kgpuFreeMmapArea (v : Vma) (start : UL) : Release × Vma :=
  let idx := v.pageOf start
  if idx ≥ v.npages.toNat then
    (.incorrectPointer, v)
  else
    let n := v.allocSz idx
    if n.toNat > v.npages.toNat - idx then
      (.incorrectAllocationInfo, v)
    else if n.toNat > 0 then
      (.released,
        { v with
          bitmap := v.bitmap.clear idx n.toNat
          allocSz := Function.update v.allocSz idx 0 })
    else
      (.noAllocation, v)

/-- `kgpu_unmap_area`, with the page-table entries it hands to `zap_vma_ptes`. -/
def kgpuUnmapArea {σ : Type} (zap : UL → U32 → σ → σ) (v : Vma) (s : σ) (addr : UL) :
    Release × Vma × σ :=
  let idx := v.pageOf addr
  if idx ≥ v.npages.toNat then
    (.incorrectPointer, v, s)
  else
    let n := v.allocSz idx
    if n.toNat > v.npages.toNat - idx then
      (.incorrectAllocationInfo, v, s)
    else if n.toNat > 0 then
      (.released,
        { v with
          bitmap := v.bitmap.clear idx n.toNat
          allocSz := Function.update v.allocSz idx 0 },
        zap addr (n <<< (12 : Nat)) s)
    else
      (.noAllocation, v, s)

/-- The loop of `map_page_units` from index `i` on, with `k` pages to go: whether every
    `vm_insert_page` succeeded. -/
def insertPages {σ : Type} (insert : UL → Nat → σ → Int × σ) (addr : UL) :
    (k i : Nat) → σ → Bool × σ
  | 0, _, s => (true, s)
  | k + 1, i, s =>
    let (ret, s) := insert (addr + BitVec.ofNat 64 i * pageSize) i s
    if ret < 0 then (false, s) else insertPages insert addr k (i + 1) s

/-- `map_page_units`: the returned address, the area and the page-table entries after.
    A failure leaves the pages marked. -/
def mapPageUnits {σ : Type} (K : ZeroAreaSearch) (insert : UL → Nat → σ → Int × σ) (v : Vma)
    (s : σ) (n : BitVec 32) : UL × Vma × σ :=
  let (addr, v) := v.kgpuAllocMmapArea K ((n <<< (12 : Nat)).signExtend 64)
  if addr = 0 then (0, v, s)
  else
    let (ok, s) := insertPages insert addr n.toInt.toNat 0 s
    (if ok then addr else 0, v, s)

/-! ## What the area represents -/

/-- The recorded size of the area that begins at a page. -/
def size (v : Vma) (i : Nat) : Nat := (v.allocSz i).toNat

/-- The set bits are the disjoint union of the recorded areas. -/
def Tiled (v : Vma) : Prop := Tiling v.npages.toNat v.bitmap v.size

/-- `nr` consecutive pages from `i` on are not marked. -/
def FreeRun (v : Vma) (i nr : Nat) : Prop := i + nr ≤ v.npages.toNat ∧ v.bitmap.ZeroArea i nr

/-- The pages lie between `start` and `end`. -/
def Inside (v : Vma) : Prop := v.start.toNat + v.npages.toNat * 4096 ≤ v.end_.toNat

variable {v v' : Vma} {K : ZeroAreaSearch}

theorem size_update {i : Nat} {k : U32} {map : Bitmap} :
    size { v with bitmap := map, allocSz := Function.update v.allocSz i k } =
      Function.update v.size i k.toNat := by
  funext j
  by_cases hj : j = i
  · subst hj
    simp [size]
  · simp [size, hj]

/-- The area `set_vm` leaves. -/
theorem setVm_tiled (vmStart vmEnd : UL) (allocSzMem : Nat → U32) (bitmapMem : Bitmap) :
    (setVm vmStart vmEnd allocSzMem bitmapMem).Tiled := by
  refine Tiling.empty (fun u hu => ?_) fun i hi => ?_
  · refine Bool.eq_false_iff.mpr fun htrue => ?_
    refine (Bitmap.clear_eq_true.mp htrue).1 ⟨Nat.zero_le u, ?_⟩
    rw [Nat.zero_add]
    exact Nat.lt_of_lt_of_le hu (le_bitsToLongs _)
  · have hzero : (setVm vmStart vmEnd allocSzMem bitmapMem).allocSz i = 0 := by
      refine memsetZero_eq_zero.mpr fun j hj hle => ?_
      simp only [setVm] at hi
      omega
    rw [size, hzero]
    rfl

theorem setVm_inside {vmStart vmEnd : UL} (h : vmStart.toNat ≤ vmEnd.toNat)
    (allocSzMem : Nat → U32) (bitmapMem : Bitmap) :
    (setVm vmStart vmEnd allocSzMem bitmapMem).Inside := by
  have hsub : (vmEnd - vmStart).toNat = vmEnd.toNat - vmStart.toNat :=
    BitVec.toNat_sub_of_le (by simpa [BitVec.le_def] using h)
  have hle : (setVm vmStart vmEnd allocSzMem bitmapMem).npages.toNat ≤
      (vmEnd.toNat - vmStart.toNat) / 4096 := by
    simp only [setVm]
    rw [BitVec.toNat_setWidth, BitVec.toNat_ushiftRight, hsub, Nat.shiftRight_eq_div_pow]
    exact Nat.mod_le _ _
  simp only [Inside]
  simp only [setVm] at hle ⊢
  omega

/-! ## What one call does -/

/-- The two outcomes of `kgpu_alloc_mmap_area` for a count of `n` pages. -/
inductive AllocOutcome (v : Vma) (n : U32) : UL → Vma → Prop where
  | fresh (i : Nat) (hfree : v.bitmap i = false) (hi : i < v.npages.toNat)
      (hrun : v.FreeRun i n.toNat) :
      AllocOutcome v n (v.start + pageSize * BitVec.ofNat 64 i)
        { v with
          bitmap := v.bitmap.set i n.toNat
          allocSz := Function.update v.allocSz i n }
  | null (hfull : 0 < n.toNat → ∀ i, ¬ v.FreeRun i n.toNat) : AllocOutcome v n 0 v

theorem kgpuAllocMmapArea_outcome (K : ZeroAreaSearch) (v : Vma) (size : UL) :
    AllocOutcome v (reqPages size) (v.kgpuAllocMmapArea K size).1
      (v.kgpuAllocMmapArea K size).2 := by
  by_cases h : K.find v.bitmap v.npages.toNat 0 (reqPages size).toNat 0 < v.npages.toNat
  · obtain ⟨hfree, hin, hzero⟩ := K.found h
    simp only [kgpuAllocMmapArea, h, if_true]
    exact .fresh _ hfree h ⟨hin, hzero⟩
  · simp only [kgpuAllocMmapArea, h, if_false]
    refine .null fun hreq i hrun => h ?_
    exact K.complete hreq (Nat.zero_le i) hrun.1 hrun.2

/-- The outcomes of `kgpu_free_mmap_area` on an area whose records agree. -/
inductive FreeOutcome (v : Vma) (addr : UL) : Release → Vma → Prop where
  | released (hi : v.pageOf addr < v.npages.toNat) (hsize : 0 < v.size (v.pageOf addr)) :
      FreeOutcome v addr .released
        { v with
          bitmap := v.bitmap.clear (v.pageOf addr) (v.size (v.pageOf addr))
          allocSz := Function.update v.allocSz (v.pageOf addr) 0 }
  | ignored (e : Release) (he : e = .incorrectPointer ∨ e = .noAllocation)
      (hnone : v.pageOf addr < v.npages.toNat → v.size (v.pageOf addr) = 0) :
      FreeOutcome v addr e v

theorem Tiled.kgpuFreeMmapArea_outcome (h : v.Tiled) (addr : UL) :
    FreeOutcome v addr (v.kgpuFreeMmapArea addr).1 (v.kgpuFreeMmapArea addr).2 := by
  by_cases hi : v.pageOf addr < v.npages.toNat
  · have hge : ¬ v.pageOf addr ≥ v.npages.toNat := by omega
    have hin := h.inside _ hi
    have hinfo : ¬ (v.allocSz (v.pageOf addr)).toNat > v.npages.toNat - v.pageOf addr := by
      simp only [size] at hin
      omega
    by_cases hpos : (v.allocSz (v.pageOf addr)).toNat > 0
    · simp only [kgpuFreeMmapArea, hge, hinfo, hpos, if_true, if_false]
      exact .released hi hpos
    · simp only [kgpuFreeMmapArea, hge, hinfo, hpos, if_false]
      exact .ignored _ (.inr rfl) fun _ => Nat.eq_zero_of_not_pos hpos
  · simp only [kgpuFreeMmapArea, ge_iff_le, Nat.le_of_not_lt hi, if_true]
    exact .ignored _ (.inl rfl) fun hlt => absurd hlt hi

/-- The two release paths keep the same records. -/
theorem kgpuUnmapArea_eq {σ : Type} (zap : UL → U32 → σ → σ) (v : Vma) (s : σ) (addr : UL) :
    (v.kgpuUnmapArea zap s addr).1 = (v.kgpuFreeMmapArea addr).1 ∧
      (v.kgpuUnmapArea zap s addr).2.1 = (v.kgpuFreeMmapArea addr).2 := by
  simp only [kgpuUnmapArea, kgpuFreeMmapArea]
  split
  · exact ⟨rfl, rfl⟩
  · split
    · exact ⟨rfl, rfl⟩
    · split <;> exact ⟨rfl, rfl⟩

/-- The entries are removed exactly when an area is given back. -/
theorem kgpuUnmapArea_zap {σ : Type} (zap : UL → U32 → σ → σ) (v : Vma) (s : σ) (addr : UL) :
    (v.kgpuUnmapArea zap s addr).2.2 = if (v.kgpuFreeMmapArea addr).1 = .released then
      zap addr (v.allocSz (v.pageOf addr) <<< (12 : Nat)) s else s := by
  simp only [kgpuUnmapArea, kgpuFreeMmapArea]
  split
  · rfl
  · split
    · rfl
    · split <;> rfl

/-- However many pages are inserted, the records are those of the allocation. -/
theorem mapPageUnits_vma {σ : Type} (insert : UL → Nat → σ → Int × σ) (v : Vma) (s : σ)
    (n : BitVec 32) :
    (v.mapPageUnits K insert s n).2.1 =
      (v.kgpuAllocMmapArea K ((n <<< (12 : Nat)).signExtend 64)).2 := by
  simp only [mapPageUnits]
  split <;> rfl

theorem mapPageUnits_addr {σ : Type} {insert : UL → Nat → σ → Int × σ} {s : σ} {n : BitVec 32}
    (hne : (v.mapPageUnits K insert s n).1 ≠ 0) :
    (v.kgpuAllocMmapArea K ((n <<< (12 : Nat)).signExtend 64)).1 ≠ 0 ∧
      (v.mapPageUnits K insert s n).1 =
        (v.kgpuAllocMmapArea K ((n <<< (12 : Nat)).signExtend 64)).1 := by
  simp only [mapPageUnits] at hne ⊢
  split at hne
  next => exact absurd rfl hne
  next hz =>
    refine ⟨hz, ?_⟩
    simp only [hz, if_false]
    split
    next => rfl
    next hfail =>
      simp only [hfail] at hne
      exact absurd rfl hne

theorem AllocOutcome.tiled {n : U32} {ret : UL} (ho : AllocOutcome v n ret v') (h : v.Tiled) :
    v'.Tiled := by
  cases ho with
  | fresh i hfree hi hrun =>
    simp only [Tiled, size_update]
    exact Tiling.add h hfree hi hrun.1 hrun.2
  | null => exact h

theorem FreeOutcome.tiled {addr : UL} {e : Release} (ho : FreeOutcome v addr e v') (h : v.Tiled) :
    v'.Tiled := by
  cases ho with
  | released hi =>
    simp only [Tiled, size_update]
    exact Tiling.remove h hi
  | ignored => exact h

theorem FreeOutcome.exit_ne {addr : UL} {e : Release} (ho : FreeOutcome v addr e v') :
    e ≠ .incorrectAllocationInfo := by
  cases ho with
  | released => nofun
  | ignored _ he => rcases he with rfl | rfl <;> nofun

/-- The address of page `i`. -/
theorem Inside.page_toNat (h : v.Inside) {i : Nat} (hi : i < v.npages.toNat) :
    (v.start + pageSize * BitVec.ofNat 64 i).toNat = v.start.toNat + i * 4096 := by
  unfold Inside at h
  have hend : v.end_.toNat < 2 ^ 64 := v.end_.isLt
  have hn : v.npages.toNat < 2 ^ 32 := v.npages.isLt
  rw [BitVec.toNat_add, BitVec.toNat_mul, BitVec.toNat_ofNat, show pageSize.toNat = 4096 from rfl]
  omega

/-- The page of the address of page `i`. -/
theorem pageOf_eq {a : UL} {i : Nat} (ha : a.toNat = v.start.toNat + i * 4096) :
    v.pageOf a = i := by
  have hsub : (a - v.start).toNat = a.toNat - v.start.toNat :=
    BitVec.toNat_sub_of_le (by rw [BitVec.le_def]; omega)
  rw [pageOf, BitVec.toNat_ushiftRight, hsub, Nat.shiftRight_eq_div_pow]
  omega

theorem AllocOutcome.within {n : U32} {ret : UL} (ho : AllocOutcome v n ret v') (h : v.Inside)
    (hne : ret ≠ 0) : v.start.toNat ≤ ret.toNat ∧ ret.toNat < v.end_.toNat := by
  cases ho with
  | fresh i hfree hi hrun =>
    rw [h.page_toNat hi]
    unfold Inside at h
    omega
  | null => exact absurd rfl hne

/-! ## Runs -/

/-- A call on the area, with any argument. The mapping calls carry what each
    `vm_insert_page` returns. -/
inductive Call where
  | alloc (size : UL)
  /-- `kgpu_map_pages` or `kgpu_map_pfns`, which differ in where the frames come from. -/
  | map (n : BitVec 32) (rets : Nat → Int)
  | free (addr : UL)
  | unmap (addr : UL)

def step (K : ZeroAreaSearch) (v : Vma) : Call → Option Vma
  | .alloc size => some (v.kgpuAllocMmapArea K size).2
  | .map n rets => some (v.mapPageUnits K (fun _ i s => (rets i, s)) () n).2.1
  | .free addr => some (v.kgpuFreeMmapArea addr).2
  | .unmap addr => some (v.kgpuUnmapArea (fun _ _ s => s) () addr).2.1

/-- Every call is an allocation or a release, as far as the records go. -/
theorem step_outcome {c : Call} (h : v.Tiled) (hs : v.step K c = some v') :
    (∃ n ret, AllocOutcome v n ret v') ∨ ∃ addr e, FreeOutcome v addr e v' := by
  cases c with
  | alloc size =>
    cases hs
    exact .inl ⟨_, _, kgpuAllocMmapArea_outcome K v size⟩
  | map n rets =>
    cases hs
    rw [mapPageUnits_vma]
    exact .inl ⟨_, _, kgpuAllocMmapArea_outcome K v _⟩
  | free addr =>
    cases hs
    exact .inr ⟨_, _, h.kgpuFreeMmapArea_outcome addr⟩
  | unmap addr =>
    cases hs
    rw [(kgpuUnmapArea_eq _ v () addr).2]
    exact .inr ⟨_, _, h.kgpuFreeMmapArea_outcome addr⟩

theorem AllocOutcome.inside {n : U32} {ret : UL} (ho : AllocOutcome v n ret v') (h : v.Inside) :
    v'.Inside := by
  cases ho <;> exact h

theorem FreeOutcome.inside {addr : UL} {e : Release} (ho : FreeOutcome v addr e v')
    (h : v.Inside) : v'.Inside := by
  cases ho <;> exact h

theorem run_invariant {v₀ : Vma} {cs : List Call} (htiled : v₀.Tiled) (hinside : v₀.Inside)
    (hrun : Run (step K) Free v₀ cs v) : v.Tiled ∧ v.Inside := by
  refine hrun.invariant (I := fun v => v.Tiled ∧ v.Inside) ⟨htiled, hinside⟩ ?_
  rintro v c v' ⟨ht, hi⟩ - hs
  rcases step_outcome ht hs with ⟨n, ret, ho⟩ | ⟨addr, e, ho⟩
  · exact ⟨ho.tiled ht, ho.inside hi⟩
  · exact ⟨ho.tiled ht, ho.inside hi⟩

/-- In every state that calls with any arguments lead to from the one `set_vm` leaves, the
    set bits are the disjoint union of the recorded areas, no release finds its record
    wrong, an address that is returned lies in the area, and the two release paths leave
    the same records. -/
theorem mmap_area_invariant (K : ZeroAreaSearch) {vmStart vmEnd : UL}
    (hvma : vmStart.toNat ≤ vmEnd.toNat) (allocSzMem : Nat → U32) (bitmapMem : Bitmap)
    {cs : List Call} (hrun : Run (step K) Free (setVm vmStart vmEnd allocSzMem bitmapMem) cs v)
    {σ : Type} (zap : UL → U32 → σ → σ) (insert : UL → Nat → σ → Int × σ) (s : σ) :
    v.Tiled ∧
    (∀ addr, (v.kgpuFreeMmapArea addr).1 ≠ .incorrectAllocationInfo ∧
      (v.kgpuUnmapArea zap s addr).1 ≠ .incorrectAllocationInfo) ∧
    (∀ size, (v.kgpuAllocMmapArea K size).1 ≠ 0 →
      v.start.toNat ≤ (v.kgpuAllocMmapArea K size).1.toNat ∧
      (v.kgpuAllocMmapArea K size).1.toNat < v.end_.toNat) ∧
    (∀ n, (v.mapPageUnits K insert s n).1 ≠ 0 →
      v.start.toNat ≤ (v.mapPageUnits K insert s n).1.toNat ∧
      (v.mapPageUnits K insert s n).1.toNat < v.end_.toNat) ∧
    ∀ addr, (v.kgpuUnmapArea zap s addr).2.1.bitmap = (v.kgpuFreeMmapArea addr).2.bitmap ∧
      (v.kgpuUnmapArea zap s addr).2.1.allocSz = (v.kgpuFreeMmapArea addr).2.allocSz := by
  obtain ⟨ht, hi⟩ := run_invariant (setVm_tiled _ _ _ _) (setVm_inside hvma _ _) hrun
  refine ⟨ht, fun addr => ?_, fun size hne => ?_, fun n hne => ?_, fun addr => ?_⟩
  · have hexit := (ht.kgpuFreeMmapArea_outcome addr).exit_ne
    rw [(kgpuUnmapArea_eq zap v s addr).1]
    exact ⟨hexit, hexit⟩
  · exact (kgpuAllocMmapArea_outcome K v size).within hi hne
  · obtain ⟨haddr, heq⟩ := mapPageUnits_addr hne
    rw [heq]
    exact (kgpuAllocMmapArea_outcome K v _).within hi haddr
  · rw [(kgpuUnmapArea_eq zap v s addr).2]
    exact ⟨rfl, rfl⟩

/-- A failed mapping of two pages in an area of three, and one page released by each of
    the two functions. -/
theorem mmap_area_invariant_three_pages :
    ∃ v, Run (step .firstFit) Free (setVm 0x10000 0x13000 (fun _ => 7) fun _ => true)
        [.map 2 (fun i => if i = 1 then -16 else 0), .alloc 1, .unmap 0x12000, .alloc 4096,
          .free 0x12fff] v ∧
      v.bitmap 1 = true ∧ v.bitmap 2 = false ∧ v.allocSz 0 = 2 ∧ v.Tiled := by
  have hrun : Run (step .firstFit) Free (setVm 0x10000 0x13000 (fun _ => 7) fun _ => true)
      [.map 2 (fun i => if i = 1 then -16 else 0), .alloc 1, .unmap 0x12000, .alloc 4096,
        .free 0x12fff] _ := Run.of_exec rfl
  exact ⟨_, hrun, rfl, rfl, rfl, (mmap_area_invariant .firstFit (by decide) _ _ hrun
    (fun _ _ s => s) (fun _ _ s => (0, s)) ()).1⟩

end Vma
end Kgpu
