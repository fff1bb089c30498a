-- SUMMARY: The set-up of the buffer pool: `set_gpu_mempool`, what it leaves in the pool and when.
import Kgpu.Kernel.Queue

/-!
# Setting up the buffer pool

The helper passes the address and the size of its pinned buffer with an ioctl.
`set_gpu_mempool` looks up the page frames behind the buffer, allocates the records
of the pool unless an earlier call has done so, clears them and maps the frames into
the kernel. What the page table holds and what `kmalloc` and `vmap` return is decided
outside.
-/

namespace Kgpu

open Library

/-- `KGPU_BUF_NR_FRAMES_PER_UNIT`. -/
def bufNrFramesPerUnit : U32 := 256

/-- The value of the `int` that has counted to `i`. It wraps past 2^31 - 1. -/
def cInt (i : Nat) : Int := (BitVec.ofNat 32 i).toInt

/-! ## The function -/

/-- `struct _kgpu_mempool` with its three arrays: how many entries each was allocated
    for (`none` for `NULL`), and what `pages` holds. An `int` index can be negative. -/
structure GmPool extends Mempool where
  pages : Int → Option Frame
  pagesCap : Option Nat
  bitmapCap : Option Nat
  allocSzCap : Option Nat

/-- What a call of `set_gpu_mempool` finds outside: the page table of the caller, by page
    number, the memory each `kmalloc` returns (`none` for `NULL`), whatever it holds, and
    the address `vmap` returns (0 for `NULL`). -/
structure SetupEnv where
  pageTable : Nat → Option Frame
  pagesMem : Option (Int → Option Frame)
  bitmapMem : Option Bitmap
  allocSzMem : Option (Nat → U32)
  vmap : UL

/-- `kgpu_v2page`. -/
def SetupEnv.kgpuV2page (e : SetupEnv) (v : UL) : Option Frame := e.pageTable (v.toNat / 4096)

namespace GmPool

/-- The page loop. -/
def setPages (g : GmPool) (e : SetupEnv) (uva : UL) : GmPool :=
  { g with
    pages := (List.range g.npages.toNat).foldl
      (fun pages i =>
        Function.update pages (cInt i) (e.kgpuV2page (uva + BitVec.ofInt 64 (cInt i) * pageSize)))
      g.pages }

/-- The array `pages`, allocated unless an earlier call has done it. -/
def allocPages (g : GmPool) (e : SetupEnv) : Option GmPool :=
  match g.pagesCap with
  | some _ => some g
  | none => e.pagesMem.map fun mem => { g with pages := mem, pagesCap := some g.npages.toNat }

def allocBitmap (g : GmPool) (e : SetupEnv) : Option GmPool :=
  match g.bitmapCap with
  | some _ => some g
  | none => e.bitmapMem.map fun mem =>
      { g with bitmap := mem, bitmapCap := some (bitsToLongs g.nunits.toNat) }

def allocAllocSz (g : GmPool) (e : SetupEnv) : Option GmPool :=
  match g.allocSzCap with
  | some _ => some g
  | none => e.allocSzMem.map fun mem =>
      { g with allocSz := mem, allocSzCap := some g.nunits.toNat }

/-- `set_gpu_mempool`: the returned value and the pool after. What was done before a
    failure stays. -/
def setGpuMempool (e : SetupEnv) (gb : MemInfo) (g : GmPool) : Int × GmPool :=
  let g := { g with uva := gb.uva, npages := (gb.size / pageSize).setWidth 32 }
  match g.allocPages e with
  | none => (Kernel.eNOMEM, g)
  | some g =>
    let g := g.setPages e gb.uva
    let g := { g with nunits := g.npages / bufNrFramesPerUnit }
    match g.allocBitmap e with
    | none => (Kernel.eNOMEM, g)
    | some g =>
      -- `bitmap_zero` clears whole words.
      let g := { g with bitmap := g.bitmap.clear 0 (bitsToLongs g.nunits.toNat) }
      match g.allocAllocSz e with
      | none => (Kernel.eNOMEM, g)
      | some g =>
        let g := { g with allocSz := memsetZero g.allocSz g.nunits.toNat }
        let g := { g with kva := e.vmap }
        if g.kva = 0 then (Kernel.eFAULT, g) else (0, g)

end GmPool

/-- The counts that `set_gpu_mempool` takes from the size. -/
def MemInfo.npages (gb : MemInfo) : U32 := (gb.size / pageSize).setWidth 32

def MemInfo.nunits (gb : MemInfo) : U32 := gb.npages / bufNrFramesPerUnit

namespace GmPool

variable {e : SetupEnv} {gb : MemInfo} {g : GmPool}

/-! ## What a successful call leaves -/

/-- Every array is there or can be allocated, and the frames can be mapped. -/
structure Obtained (e : SetupEnv) (g : GmPool) : Prop where
  pages : g.pagesCap.isSome ∨ e.pagesMem.isSome
  bitmap : g.bitmapCap.isSome ∨ e.bitmapMem.isSome
  allocSz : g.allocSzCap.isSome ∨ e.allocSzMem.isSome
  vmap : e.vmap ≠ 0

/-- The array `pages` before the page loop, old or as `kmalloc` returned it. -/
def oldPages (g : GmPool) (e : SetupEnv) : Int → Option Frame :=
  if g.pagesCap.isSome then g.pages else e.pagesMem.getD g.pages

/-- The array `alloc_sz` before it is cleared, old or as `kmalloc` returned it. -/
def oldAllocSz (g : GmPool) (e : SetupEnv) : Nat → U32 :=
  if g.allocSzCap.isSome then g.allocSz else e.allocSzMem.getD g.allocSz

/-- The pool after a call that returned 0. -/
structure SetUp (e : SetupEnv) (gb : MemInfo) (g g' : GmPool) : Prop where
  uva : g'.uva = gb.uva
  kva : g'.kva = e.vmap
  npages : g'.npages = gb.npages
  nunits : g'.nunits = gb.nunits
  pages : g'.pages = (List.range gb.npages.toNat).foldl
    (fun pages i => Function.update pages (cInt i)
      (e.kgpuV2page (gb.uva + BitVec.ofInt 64 (cInt i) * pageSize))) (g.oldPages e)
  bitmap : ∀ u < gb.nunits.toNat, g'.bitmap u = false
  allocSz : g'.allocSz = memsetZero (g.oldAllocSz e) gb.nunits.toNat
  pagesCap : g'.pagesCap = some (g.pagesCap.getD gb.npages.toNat)
  bitmapCap : g'.bitmapCap = some (g.bitmapCap.getD (bitsToLongs gb.nunits.toNat))
  allocSzCap : g'.allocSzCap = some (g.allocSzCap.getD gb.nunits.toNat)

/-- Bit `u` of the bitmap, if there is one. -/
def bitmapAt (g : GmPool) (u : Nat) : Option Bool := g.bitmapCap.map fun _ => g.bitmap u

/-- Entry `i` of `alloc_sz`, if there is one. -/
def allocSzAt (g : GmPool) (i : Nat) : Option U32 := g.allocSzCap.map fun _ => g.allocSz i

/-- The two fields that are overwritten before anything can fail. -/
structure Begun (gb : MemInfo) (g' : GmPool) : Prop where
  uva : g'.uva = gb.uva
  npages : g'.npages = gb.npages

/-- What a call leaves at each exit with an error. -/
inductive FailedAt (e : SetupEnv) (gb : MemInfo) (g g' : GmPool) : Prop where
  | pages (hno : ¬ (g.pagesCap.isSome ∨ e.pagesMem.isSome)) (hbegun : Begun gb g')
      (hkva : g'.kva = g.kva) (hnunits : g'.nunits = g.nunits) (hbits : g'.bitmapAt = g.bitmapAt)
      (hsizes : g'.allocSzAt = g.allocSzAt)
  | bitmap (hpages : g.pagesCap.isSome ∨ e.pagesMem.isSome)
      (hno : ¬ (g.bitmapCap.isSome ∨ e.bitmapMem.isSome)) (hbegun : Begun gb g')
      (hkva : g'.kva = g.kva) (hnunits : g'.nunits = gb.nunits) (hbits : g'.bitmapAt = g.bitmapAt)
      (hsizes : g'.allocSzAt = g.allocSzAt)
  | allocSz (hpages : g.pagesCap.isSome ∨ e.pagesMem.isSome)
      (hbitmap : g.bitmapCap.isSome ∨ e.bitmapMem.isSome)
      (hno : ¬ (g.allocSzCap.isSome ∨ e.allocSzMem.isSome)) (hbegun : Begun gb g')
      (hkva : g'.kva = g.kva) (hnunits : g'.nunits = gb.nunits)
      (hbits : ∀ u < gb.nunits.toNat, g'.bitmapAt u = some false)
      (hsizes : g'.allocSzAt = g.allocSzAt)
  | vmap (hpages : g.pagesCap.isSome ∨ e.pagesMem.isSome)
      (hbitmap : g.bitmapCap.isSome ∨ e.bitmapMem.isSome)
      (hallocSz : g.allocSzCap.isSome ∨ e.allocSzMem.isSome) (hzero : e.vmap = 0)
      (hbegun : Begun gb g') (hkva : g'.kva = 0) (hnunits : g'.nunits = gb.nunits)
      (hbits : ∀ u < gb.nunits.toNat, g'.bitmapAt u = some false)
      (hsizes : ∀ i, g'.allocSzAt i = some (memsetZero (g.oldAllocSz e) gb.nunits.toNat i))

theorem allocPages_cases (g : GmPool) (e : SetupEnv) :
    ((g.pagesCap.isSome ∨ e.pagesMem.isSome) ∧ g.allocPages e = some { g with
      pages := g.oldPages e, pagesCap := some (g.pagesCap.getD g.npages.toNat) }) ∨
    (¬ (g.pagesCap.isSome ∨ e.pagesMem.isSome) ∧ g.allocPages e = none) := by
  unfold allocPages oldPages
  cases hc : g.pagesCap with
  | some cap => exact .inl ⟨.inl rfl, by cases g; cases hc; rfl⟩
  | none =>
    cases hm : e.pagesMem with
    | some mem => exact .inl ⟨.inr rfl, rfl⟩
    | none => exact .inr ⟨by simp, rfl⟩

theorem allocBitmap_cases (g : GmPool) (e : SetupEnv) :
    ((g.bitmapCap.isSome ∨ e.bitmapMem.isSome) ∧ ∃ map, g.allocBitmap e = some { g with
      bitmap := map, bitmapCap := some (g.bitmapCap.getD (bitsToLongs g.nunits.toNat)) }) ∨
    (¬ (g.bitmapCap.isSome ∨ e.bitmapMem.isSome) ∧ g.allocBitmap e = none) := by
  unfold allocBitmap
  cases hc : g.bitmapCap with
  | some cap => exact .inl ⟨.inl rfl, g.bitmap, by cases g; cases hc; rfl⟩
  | none =>
    cases hm : e.bitmapMem with
    | some mem => exact .inl ⟨.inr rfl, mem, rfl⟩
    | none => exact .inr ⟨by simp, rfl⟩

theorem allocAllocSz_cases (g : GmPool) (e : SetupEnv) :
    ((g.allocSzCap.isSome ∨ e.allocSzMem.isSome) ∧ g.allocAllocSz e = some { g with
      allocSz := g.oldAllocSz e, allocSzCap := some (g.allocSzCap.getD g.nunits.toNat) }) ∨
    (¬ (g.allocSzCap.isSome ∨ e.allocSzMem.isSome) ∧ g.allocAllocSz e = none) := by
  unfold allocAllocSz oldAllocSz
  cases hc : g.allocSzCap with
  | some cap => exact .inl ⟨.inl rfl, by cases g; cases hc; rfl⟩
  | none =>
    cases hm : e.allocSzMem with
    | some mem => exact .inl ⟨.inr rfl, rfl⟩
    | none => exact .inr ⟨by simp, rfl⟩

/-- `bitmap_zero` clears every bit of a unit. -/
theorem bitmapZero_unit (map : Bitmap) {n u : Nat} (hu : u < n) :
    map.clear 0 (bitsToLongs n) u = false := by
  have hle := le_bitsToLongs n
  exact if_pos ⟨Nat.zero_le u, by omega⟩

/-- A call returns 0 exactly when everything is obtained, and then has set the pool up;
    else it has left at one of the four exits. -/
theorem setGpuMempool_outcome (e : SetupEnv) (gb : MemInfo) (g : GmPool) :
    (Obtained e g ∧ (g.setGpuMempool e gb).1 = 0 ∧ SetUp e gb g (g.setGpuMempool e gb).2) ∨
      (¬ Obtained e g ∧ (g.setGpuMempool e gb).1 ≠ 0 ∧ FailedAt e gb g (g.setGpuMempool e gb).2) := by
  have hnomem : Kernel.eNOMEM ≠ 0 := by decide
  have hfault : Kernel.eFAULT ≠ 0 := by decide
  simp only [setGpuMempool]
  split
  next hnone =>
    rcases allocPages_cases _ e with ⟨-, h⟩ | ⟨hno, -⟩
    · rw [h] at hnone
      cases hnone
    · exact .inr ⟨fun ho => hno ho.pages, hnomem, .pages hno ⟨rfl, rfl⟩ rfl rfl rfl rfl⟩
  next g₁ hsome =>
    rcases allocPages_cases _ e with ⟨hpages, h⟩ | ⟨-, h⟩ <;> rw [h] at hsome <;> cases hsome
    split
    next hnone =>
      rcases allocBitmap_cases _ e with ⟨-, map, h⟩ | ⟨hno, -⟩
      · rw [h] at hnone
        cases hnone
      · exact .inr ⟨fun ho => hno ho.bitmap, hnomem,
          .bitmap hpages hno ⟨rfl, rfl⟩ rfl rfl rfl rfl⟩
    next g₂ hsome =>
      rcases allocBitmap_cases _ e with ⟨hbitmap, map, h⟩ | ⟨-, h⟩ <;> rw [h] at hsome <;> cases hsome
      split
      next hnone =>
        rcases allocAllocSz_cases _ e with ⟨-, h⟩ | ⟨hno, -⟩
        · rw [h] at hnone
          cases hnone
        · exact .inr ⟨fun ho => hno ho.allocSz, hnomem, .allocSz hpages hbitmap hno ⟨rfl, rfl⟩ rfl rfl
            (fun u hu => congrArg some (bitmapZero_unit _ hu)) rfl⟩
      next g₃ hsome =>
        rcases allocAllocSz_cases _ e with ⟨hallocSz, h⟩ | ⟨-, h⟩ <;> rw [h] at hsome <;> cases hsome
        split
        next hzero =>
          exact .inr ⟨fun ho => ho.vmap hzero, hfault, .vmap hpages hbitmap hallocSz hzero ⟨rfl, rfl⟩
            hzero rfl (fun u hu => congrArg some (bitmapZero_unit _ hu)) fun i => rfl⟩
        next hne =>
          exact .inl ⟨⟨hpages, hbitmap, hallocSz, hne⟩, rfl, rfl, rfl, rfl, rfl, rfl,
            fun u hu => bitmapZero_unit _ hu, rfl, rfl, rfl, rfl⟩

end GmPool

/-! ## The records of the pool after the set-up -/

theorem Mempool.Blank.kgpuVfree {p : Mempool} (h : p.Blank) (ptr : UL) :
    (p.kgpuVfree ptr).2 = p := by
  unfold Mempool.kgpuVfree
  by_cases hi : p.unitOf ptr ≥ p.nunits.toNat
  · simp only [hi, if_true]
  · simp only [hi, if_false, h.allocSz _ (Nat.lt_of_not_le hi), if_true]

namespace GmPool

variable {e : SetupEnv} {gb : MemInfo} {g g' : GmPool}

theorem SetUp.blank_iff (h : SetUp e gb g g') :
    g'.toMempool.Blank ↔ ∀ i < gb.nunits.toNat, ∀ j < 4, gb.nunits.toNat ≤ 4 * i + j →
      byteOf (g.oldAllocSz e i) j = 0 := by
  constructor
  · intro hb i hi
    rw [← memsetZero_eq_zero, ← h.allocSz]
    exact hb.allocSz i (h.nunits ▸ hi)
  · intro hz
    refine ⟨fun u hu => h.bitmap u (h.nunits ▸ hu), fun i hi => ?_⟩
    rw [h.allocSz, memsetZero_eq_zero]
    exact hz i (h.nunits ▸ hi)

/-- `set_gpu_mempool` leaves an empty pool exactly when the three quarters of `alloc_sz`
    that its `memset` does not reach were zero already: `nunits` is a number of entries
    and is passed as a number of bytes. -/
theorem set_up_pool_is_empty (e : SetupEnv) (gb : MemInfo) (g : GmPool) :
    ((g.setGpuMempool e gb).1 = 0 →
      (g.setGpuMempool e gb).2.Blank ∧ (g.setGpuMempool e gb).2.Tiled ∧
      ∀ ptr, ((g.setGpuMempool e gb).2.kgpuVfree ptr).2 = (g.setGpuMempool e gb).2.toMempool) ↔
    (¬ Obtained e g ∨ ∀ i < gb.nunits.toNat, ∀ j < 4, gb.nunits.toNat ≤ 4 * i + j →
      byteOf (g.oldAllocSz e i) j = 0) := by
  rcases setGpuMempool_outcome e gb g with ⟨ho, hret, hset⟩ | ⟨hno, hret, -⟩
  · rw [← hset.blank_iff]
    constructor
    · intro h
      exact .inr (h hret).1
    · rintro (hno | hblank) _
      · exact absurd ho hno
      · exact ⟨hblank, hblank.tiled, hblank.kgpuVfree⟩
  · exact ⟨fun _ => .inl hno, fun _ h => absurd h hret⟩

end GmPool

/-! ## Runs -/

/-- The pool and what the last `set_gpu_mempool` returned. -/
structure Setups where
  pool : GmPool
  ret : Option Int

inductive SetupStep where
  /-- The ioctl `KGPU_IOC_SET_GPU_BUFS`. -/
  | set (e : SetupEnv) (gb : MemInfo)
  | vmalloc (nbytes : UL)
  | vfree (ptr : UL)

namespace Setups

def step (K : ZeroAreaSearch) (s : Setups) : SetupStep → Option Setups
  | .set e gb =>
    let (ret, pool) := s.pool.setGpuMempool e gb
    some ⟨pool, some ret⟩
  | .vmalloc nbytes =>
    some { s with pool := { s.pool with toMempool := (s.pool.kgpuVmalloc K nbytes).2 } }
  | .vfree ptr => some { s with pool := { s.pool with toMempool := (s.pool.kgpuVfree ptr).2 } }

/-- The state in which the module is loaded. -/
def boot : Setups where
  pool :=
    { uva := 0, kva := 0, npages := 0, nunits := 0, bitmap := fun _ => false
      allocSz := fun _ => 0, pages := fun _ => none, pagesCap := none, bitmapCap := none
      allocSzCap := none }
  ret := none

end Setups

/-- A call for which every page is mapped, `kmalloc` returns zeroed memory and `vmap`
    succeeds. -/
def SetupEnv.plenty : SetupEnv where
  pageTable := some
  pagesMem := some fun _ => none
  bitmapMem := some fun _ => false
  allocSzMem := some fun _ => 0
  vmap := 0x100000

/-- With two buffers in use a second call leaves the size of the one at unit 1 recorded,
    so that `kgpu_vfree` releases a buffer in a pool that has none. -/
theorem GmPool.not_set_up_pool_is_empty :
    ∃ s, Run (Setups.step .firstFit) Free .boot
        [.set .plenty ⟨0x1000000, 0x200000⟩, .vmalloc 1, .vmalloc 1,
          .set .plenty ⟨0x1000000, 0x200000⟩] s ∧
      s.ret = some 0 ∧ s.pool.bitmap 1 = false ∧ s.pool.allocSz 1 = 1 ∧ ¬ s.pool.Tiled ∧
      (s.pool.kgpuVfree 0x200000).1 = .released := by
  refine ⟨_, Run.of_exec rfl, rfl, rfl, rfl, fun h => ?_, rfl⟩
  have hmarked := (h.marked 1 (by decide)).mpr ⟨1, by decide, Nat.le_refl 1, by decide⟩
  cases hmarked

/-! ## The sizes of the arrays -/

inductive PoolArray where
  | pages
  | bitmap
  | allocSz

namespace GmPool

/-- The number of entries an array was allocated for. -/
def cap (g : GmPool) : PoolArray → Option Nat
  | .pages => g.pagesCap
  | .bitmap => g.bitmapCap
  | .allocSz => g.allocSzCap

/-- The number of entries of an array that the pool uses. -/
def used (g : GmPool) : PoolArray → Nat
  | .pages => g.npages.toNat
  | .bitmap => g.nunits.toNat
  | .allocSz => g.nunits.toNat

/-- The indices at which `set_gpu_mempool`, `kgpu_vmalloc` and `kgpu_vfree` use the
    arrays, for any argument. -/
inductive Indexed (K : ZeroAreaSearch) (g : GmPool) : PoolArray → Int → Prop where
  /-- The page loop. -/
  | page {i : Nat} (hi : i < g.npages.toNat) : Indexed K g .pages (cInt i)
  /-- The search of `kgpu_vmalloc`. -/
  | search {u : Nat} (hu : u < g.nunits.toNat) : Indexed K g .bitmap u
  /-- The units that `kgpu_vmalloc` marks. -/
  | mark {nbytes : UL} {u : Nat}
      (hidx : K.find g.bitmap g.nunits.toNat 0 (Mempool.reqNunits nbytes).toNat 0 < g.nunits.toNat)
      (hle : K.find g.bitmap g.nunits.toNat 0 (Mempool.reqNunits nbytes).toNat 0 ≤ u)
      (hlt : u < K.find g.bitmap g.nunits.toNat 0 (Mempool.reqNunits nbytes).toNat 0 +
        (Mempool.reqNunits nbytes).toNat) : Indexed K g .bitmap u
  /-- The entry that `kgpu_vmalloc` sets. -/
  | record {nbytes : UL}
      (hidx : K.find g.bitmap g.nunits.toNat 0 (Mempool.reqNunits nbytes).toNat 0 < g.nunits.toNat) :
      Indexed K g .allocSz (K.find g.bitmap g.nunits.toNat 0 (Mempool.reqNunits nbytes).toNat 0)
  /-- The entry that `kgpu_vfree` reads and clears. -/
  | entry {ptr : UL} (hidx : g.unitOf ptr < g.nunits.toNat) :
      Indexed K g .allocSz (g.unitOf ptr)
  /-- The units that `kgpu_vfree` clears. -/
  | unmark {ptr : UL} {u : Nat} (hidx : g.unitOf ptr < g.nunits.toNat)
      (hsz : (g.allocSz (g.unitOf ptr)).toNat ≤ g.nunits.toNat - g.unitOf ptr)
      (hle : g.unitOf ptr ≤ u) (hlt : u < g.unitOf ptr + (g.allocSz (g.unitOf ptr)).toNat) :
      Indexed K g .bitmap u

/-- The arrays are as large as the pool needs them, so that every index is in bounds. -/
structure Covers (K : ZeroAreaSearch) (g : GmPool) : Prop where
  large : ∀ a, ∃ n, g.cap a = some n ∧ g.used a ≤ n
  inside : ∀ a j, Indexed K g a j → 0 ≤ j ∧ ∃ n : Nat, g.cap a = some n ∧ j < n

theorem cInt_of_lt {i : Nat} (hi : i < 2 ^ 31) : cInt i = i := by
  have hlt : (BitVec.ofNat 32 i).toNat = i := by
    rw [BitVec.toNat_ofNat]
    omega
  rw [cInt, BitVec.toInt_eq_toNat_of_lt (by rw [hlt]; omega), hlt]

/-- An index that is not one of the page loop is below the number of entries in use. -/
theorem Indexed.lt_used {K : ZeroAreaSearch} {g : GmPool} {a : PoolArray} {j : Int}
    (h : Indexed K g a j) (hint : g.npages.toNat ≤ 2 ^ 31) : 0 ≤ j ∧ j < g.used a := by
  cases h with
  | page hi =>
    rw [cInt_of_lt (by omega)]
    exact ⟨Int.natCast_nonneg _, Int.ofNat_lt.mpr hi⟩
  | search hu => exact ⟨Int.natCast_nonneg _, Int.ofNat_lt.mpr hu⟩
  | mark hidx hle hlt =>
    have hin := (K.found hidx).2.1
    simp only [used]
    omega
  | record hidx => exact ⟨Int.natCast_nonneg _, Int.ofNat_lt.mpr hidx⟩
  | entry hidx => exact ⟨Int.natCast_nonneg _, Int.ofNat_lt.mpr hidx⟩
  | unmark hidx hsz hle hlt =>
    simp only [used]
    omega

theorem covers_iff {K : ZeroAreaSearch} {g : GmPool} :
    Covers K g ↔ g.npages.toNat ≤ 2 ^ 31 ∧ ∀ a, ∃ n, g.cap a = some n ∧ g.used a ≤ n := by
  constructor
  · intro h
    refine ⟨?_, h.large⟩
    by_contra hlt
    -- Past 2^31 - 1 the index of the page loop is negative.
    have hneg := (h.inside _ _ (.page (i := 2 ^ 31) (by omega))).1
    exact absurd hneg (by decide)
  · rintro ⟨hint, hlarge⟩
    refine ⟨hlarge, fun a j hj => ?_⟩
    obtain ⟨n, hn, hle⟩ := hlarge a
    obtain ⟨hpos, hlt⟩ := hj.lt_used hint
    exact ⟨hpos, n, hn, by omega⟩

end GmPool

namespace Setups

variable {K : ZeroAreaSearch} {s s' : Setups}

/-- The pool can be used. -/
def Usable (s : Setups) : Prop := s.pool.kva ≠ 0 ∧ s.ret = some 0

/-- A set-up asks for at most 2^31 pages, and for no more pages and units than the
    arrays that are there already were allocated for. -/
def Fits (s : Setups) : SetupStep → Prop
  | .set _ gb => gb.npages.toNat ≤ 2 ^ 31 ∧
      (∀ n, s.pool.pagesCap = some n → gb.npages.toNat ≤ n) ∧
      (∀ n, s.pool.bitmapCap = some n → gb.nunits.toNat ≤ n) ∧
      ∀ n, s.pool.allocSzCap = some n → gb.nunits.toNat ≤ n
  | .vmalloc _ | .vfree _ => True

/-- An array that is allocated for what is needed, or was for at least that. -/
theorem getD_large {cap : Option Nat} {need default : Nat} (hdefault : need ≤ default) :
    (∃ n, some (cap.getD default) = some n ∧ need ≤ n) ↔ ∀ n, cap = some n → need ≤ n := by
  cases cap with
  | none => simp [hdefault]
  | some m => simp

/-- After a set-up that returned 0 the arrays are large enough exactly when it fitted. -/
theorem covers_set_iff {e : SetupEnv} {gb : MemInfo} {g' : GmPool}
    (h : GmPool.SetUp e gb s.pool g') : g'.Covers K ↔ s.Fits (.set e gb) := by
  rw [GmPool.covers_iff, h.npages]
  refine and_congr_right fun _ => ?_
  have hpages : (∃ n, g'.cap .pages = some n ∧ g'.used .pages ≤ n) ↔
      ∀ n, s.pool.pagesCap = some n → gb.npages.toNat ≤ n := by
    simp only [GmPool.cap, GmPool.used, h.pagesCap, h.npages]
    exact getD_large (Nat.le_refl _)
  have hbitmap : (∃ n, g'.cap .bitmap = some n ∧ g'.used .bitmap ≤ n) ↔
      ∀ n, s.pool.bitmapCap = some n → gb.nunits.toNat ≤ n := by
    simp only [GmPool.cap, GmPool.used, h.bitmapCap, h.nunits]
    exact getD_large (le_bitsToLongs _)
  have hallocSz : (∃ n, g'.cap .allocSz = some n ∧ g'.used .allocSz ≤ n) ↔
      ∀ n, s.pool.allocSzCap = some n → gb.nunits.toNat ≤ n := by
    simp only [GmPool.cap, GmPool.used, h.allocSzCap, h.nunits]
    exact getD_large (Nat.le_refl _)
  rw [← hpages, ← hbitmap, ← hallocSz]
  constructor
  · intro hall
    exact ⟨hall .pages, hall .bitmap, hall .allocSz⟩
  · rintro ⟨hp, hb, ha⟩ a
    cases a with
    | pages => exact hp
    | bitmap => exact hb
    | allocSz => exact ha

/-- A call of the allocator changes nothing the sizes of the arrays depend on. -/
theorem covers_call {c : Mempool.Call} {p : Mempool} (hp : s.pool.toMempool.step K c = some p)
    (h : s.Usable → s.pool.Covers K) :
    Usable { s with pool := { s.pool with toMempool := p } } →
      GmPool.Covers K { s.pool with toMempool := p } := by
  obtain ⟨map, sz, rfl⟩ := Mempool.step_frame hp
  rintro ⟨hkva, hret⟩
  have hold := GmPool.covers_iff.mp (h ⟨hkva, hret⟩)
  refine GmPool.covers_iff.mpr ⟨hold.1, fun a => ?_⟩
  obtain ⟨n, hcap, hused⟩ := hold.2 a
  cases a <;> exact ⟨n, hcap, hused⟩

theorem covers_step {l : SetupStep} (h : s.Usable → s.pool.Covers K) (hfits : s.Fits l)
    (hs : s.step K l = some s') : s'.Usable → s'.pool.Covers K := by
  cases l with
  | set e gb =>
    cases hs
    rintro ⟨-, hret⟩
    rcases GmPool.setGpuMempool_outcome e gb s.pool with ⟨-, -, hset⟩ | ⟨-, hne, -⟩
    · exact (covers_set_iff hset).mpr hfits
    · exact absurd (Option.some.inj hret) hne
  | vmalloc nbytes =>
    cases hs
    exact covers_call (c := .vmalloc nbytes) rfl h
  | vfree ptr =>
    cases hs
    exact covers_call (c := .vfree ptr) rfl h

/-- In every run of set-ups that fit, with allocations and frees in between, the arrays
    cover the pool in every state in which it can be used. A set-up that does not fit and
    leaves the pool usable leaves arrays that do not cover it. -/
theorem arrays_cover_pool (K : ZeroAreaSearch) :
    (∀ ls s, Run (step K) Fits boot ls s → s.Usable → s.pool.Covers K) ∧
    ∀ (s : Setups) e gb s', s.step K (.set e gb) = some s' → s'.Usable → ¬ s.Fits (.set e gb) →
      ¬ s'.pool.Covers K := by
  refine ⟨fun ls s hrun => ?_, fun s e gb s' hs huse hnot hcov => ?_⟩
  · refine hrun.invariant (I := fun s => s.Usable → s.pool.Covers K) ?_ ?_
    · rintro ⟨hkva, -⟩
      exact absurd rfl hkva
    · exact fun s l s' h hfits hs => covers_step h hfits hs
  · cases hs
    rcases GmPool.setGpuMempool_outcome e gb s.pool with ⟨-, -, hset⟩ | ⟨-, hne, -⟩
    · exact hnot ((covers_set_iff hset).mp hcov)
    · exact absurd (Option.some.inj huse.2) hne

/-- A pool of two units, set up again for one unit after a buffer was taken, and a
    pool of one unit that is set up for two. -/
theorem arrays_cover_pool_two_set_ups :
    (∃ s, Run (step .firstFit) Fits boot
        [.set .plenty ⟨0x1000000, 0x200000⟩, .vmalloc 1, .set .plenty ⟨0x1000000, 0x100000⟩] s ∧
      s.pool.nunits = 1 ∧ s.pool.Covers .firstFit) ∧
    ∃ s, step .firstFit ⟨(boot.pool.setGpuMempool .plenty ⟨0x1000000, 0x100000⟩).2, some 0⟩
        (.set .plenty ⟨0x1000000, 0x200000⟩) = some s ∧ ¬ s.pool.Covers .firstFit := by
  refine ⟨?_, ?_⟩
  · have hrun : Run (step .firstFit) Fits boot
        [.set .plenty ⟨0x1000000, 0x200000⟩, .vmalloc 1, .set .plenty ⟨0x1000000, 0x100000⟩] _ :=
      Run.of_along rfl ⟨⟨by decide, nofun, nofun, nofun⟩, trivial,
        ⟨by decide, fun n hn => by cases hn; decide, fun n hn => by cases hn; decide,
          fun n hn => by cases hn; decide⟩, trivial⟩
    exact ⟨_, hrun, rfl, (arrays_cover_pool .firstFit).1 _ _ hrun ⟨by decide, rfl⟩⟩
  · refine ⟨_, rfl, (arrays_cover_pool .firstFit).2
      ⟨(boot.pool.setGpuMempool .plenty ⟨0x1000000, 0x100000⟩).2, some 0⟩ .plenty
      ⟨0x1000000, 0x200000⟩ _ rfl ⟨by decide, rfl⟩ fun hfits => ?_⟩
    exact absurd (hfits.2.1 256 rfl) (by decide)

/-- After a set-up for one unit and one for two, the pool is usable with 512 pages in an
    array of 256, and an allocation of both units records its size past the end. -/
theorem not_arrays_cover_pool :
    ∃ s, Run (step .firstFit) Free boot
        [.set .plenty ⟨0x1000000, 0x100000⟩, .set .plenty ⟨0x1000000, 0x200000⟩] s ∧
      s.Usable ∧ s.pool.npages = 512 ∧ s.pool.pagesCap = some 256 ∧ s.pool.nunits = 2 ∧
      s.pool.allocSzCap = some 1 ∧ GmPool.Indexed .firstFit s.pool .pages 511 ∧
      GmPool.Indexed .firstFit s.pool .allocSz 1 :=
  ⟨_, Run.of_exec rfl, ⟨by decide, rfl⟩, rfl, rfl, rfl, rfl, .page (i := 511) (by decide),
    @GmPool.Indexed.entry _ _ 0x200000 (by decide)⟩

end Setups
end Kgpu
