-- SUMMARY: Concurrent allocations and frees on the buffer pool are those of a sequential execution, ordered by their locked sections.
import Kgpu.Kernel.Pool
import Mathlib.Data.List.Nodup

/-!
# Threads on the buffer pool

`kgpu_vmalloc` does its work in one locked section. `kgpu_vfree` checks the pointer and
reads the size of the buffer without the lock and takes the lock only to clear the
units, so that other threads may allocate and free in between. The size it read stays
right because nobody else frees the same buffer.
-/

namespace Kgpu

open Library

/-- A `kgpu_vfree` between its read of `alloc_sz` and its locked section. -/
structure Freeing where
  ptr : UL
  idx : Nat
  nunits : U32

/-- The pool, the buffers that are live, what each thread is freeing, and the calls whose
    locked sections are over, in that order, with the pointers they returned. -/
structure PoolThreads (T : Type) where
  pool : Mempool
  live : List UL
  freeing : T → Option Freeing
  log : List (Mempool.Call × UL)

inductive PoolStep (T : Type) where
  /-- The locked section of `kgpu_vmalloc`. -/
  | vmalloc (t : T) (nbytes : UL)
  /-- `kgpu_vfree` up to the lock. -/
  | vfreeRead (t : T) (ptr : UL)
  /-- The locked section of `kgpu_vfree`. -/
  | vfreeClear (t : T)

namespace Mempool

/-- A call from start to end, with the pointer it returns (0 for none). -/
def call (K : ZeroAreaSearch) (p : Mempool) : Call → UL × Mempool
  | .vmalloc nbytes => p.kgpuVmalloc K nbytes
  | .vfree ptr => (0, (p.kgpuVfree ptr).2)

/-- One step of a sequential execution that returns what is recorded. -/
def sequential (K : ZeroAreaSearch) (p : Mempool) (e : Call × UL) : Option Mempool :=
  if (p.call K e.1).1 = e.2 then some (p.call K e.1).2 else none

/-- The locked section of `kgpu_vfree`, with the size that was read before. -/
def clear (p : Mempool) (f : Freeing) : Mempool :=
  { p with
    bitmap := p.bitmap.clear f.idx f.nunits.toNat
    allocSz := Function.update p.allocSz f.idx 0 }

end Mempool

namespace PoolThreads

variable {T : Type}

/-- A thread that is not inside a call starts one. A pointer that is freed was returned for
    at least one unit and is not being freed already. -/
def step [DecidableEq T] (K : ZeroAreaSearch) (s : PoolThreads T) :
    PoolStep T → Option (PoolThreads T)
  | .vmalloc t nbytes =>
    if (s.freeing t).isNone then
      let (ret, pool) := s.pool.kgpuVmalloc K nbytes
      some { s with
        pool := pool
        live := if ret = 0 ∨ Mempool.reqNunits nbytes = 0 then s.live else ret :: s.live
        log := s.log ++ [(.vmalloc nbytes, ret)] }
    else none
  | .vfreeRead t ptr =>
    if (s.freeing t).isNone ∧ ptr ∈ s.live then
      let idx := s.pool.unitOf ptr
      let nunits := s.pool.allocSz idx
      if idx ≥ s.pool.nunits.toNat ∨ nunits = 0 ∨ nunits.toNat > s.pool.nunits.toNat - idx then
        -- The call returns without taking the lock.
        some { s with live := s.live.erase ptr, log := s.log ++ [(.vfree ptr, 0)] }
      else
        some { s with
          live := s.live.erase ptr
          freeing := Function.update s.freeing t (some ⟨ptr, idx, nunits⟩) }
    else none
  | .vfreeClear t =>
    match s.freeing t with
    | some f =>
      some { s with
        pool := s.pool.clear f
        freeing := Function.update s.freeing t none
        log := s.log ++ [(.vfree f.ptr, 0)] }
    | none => none

def init (p : Mempool) : PoolThreads T := ⟨p, [], fun _ => none, []⟩

/-- `ptr` is the pointer of a buffer of `n` units at `i`. -/
def BufferAt (p : Mempool) (ptr : UL) (i : Nat) (n : U32) : Prop :=
  i < p.nunits.toNat ∧ ptr = p.kva + BitVec.ofNat 64 i * bufUnitSize ∧ p.allocSz i = n ∧ n ≠ 0

/-- Live buffers and buffers that are being freed are recorded, each once, and a free has
    read the size that is recorded. -/
structure Tracked (s : PoolThreads T) : Prop where
  tiled : s.pool.Tiled
  live : ∀ ptr ∈ s.live, ∃ i n, BufferAt s.pool ptr i n
  nodup : s.live.Nodup
  freeing : ∀ t f, s.freeing t = some f → BufferAt s.pool f.ptr f.idx f.nunits
  apart : ∀ t f, s.freeing t = some f → f.ptr ∉ s.live
  once : ∀ t t' f f', s.freeing t = some f → s.freeing t' = some f' → f.ptr = f'.ptr → t = t'

/-! ## Buffers -/

/-- The unit of the pointer to a unit, wherever the pool lies. -/
theorem unitOf_unit {p : Mempool} {i : Nat} (hi : i < p.nunits.toNat) :
    p.unitOf (p.kva + BitVec.ofNat 64 i * bufUnitSize) = i := by
  have hn : p.nunits.toNat < 2 ^ 32 := p.nunits.isLt
  rw [Mempool.unitOf, BitVec.add_comm, BitVec.add_sub_cancel, BitVec.toNat_udiv, BitVec.toNat_mul,
    BitVec.toNat_ofNat, bufUnitSize_toNat]
  omega

theorem BufferAt.unitOf {p : Mempool} {ptr : UL} {i : Nat} {n : U32} (h : BufferAt p ptr i n) :
    p.unitOf ptr = i := by
  rw [h.2.1]
  exact unitOf_unit h.1

/-- A buffer keeps its record when another entry is written. -/
theorem BufferAt.update {p : Mempool} {ptr : UL} {i j : Nat} {n k : U32} (h : BufferAt p ptr i n)
    (hne : i ≠ j) (map : Bitmap) :
    BufferAt { p with bitmap := map, allocSz := Function.update p.allocSz j k } ptr i n := by
  obtain ⟨hi, hptr, hsize, hn⟩ := h
  exact ⟨hi, hptr, (Function.update_of_ne hne k p.allocSz).trans hsize, hn⟩

/-- Two pointers of one unit are the same pointer. -/
theorem BufferAt.ne {p : Mempool} {ptr ptr' : UL} {i j : Nat} {n k : U32} (h : BufferAt p ptr i n)
    (h' : BufferAt p ptr' j k) (hne : ptr ≠ ptr') : i ≠ j := by
  rintro rfl
  exact hne (h.2.1.trans h'.2.1.symm)

theorem size_ne_zero {n : U32} (h : n ≠ 0) : n.toNat ≠ 0 :=
  fun h0 => h (BitVec.eq_of_toNat_eq (by simpa using h0))

/-- The whole call finds what the read before has found. -/
theorem BufferAt.kgpuVfree {p : Mempool} (ht : p.Tiled) {f : Freeing}
    (h : BufferAt p f.ptr f.idx f.nunits) : (p.kgpuVfree f.ptr).2 = p.clear f := by
  have hin := ht.inside f.idx h.1
  rw [Mempool.size, h.2.2.1] at hin
  have hge : ¬ f.idx ≥ p.nunits.toNat := Nat.not_le.mpr h.1
  have hinfo : ¬ f.nunits.toNat > p.nunits.toNat - f.idx := by omega
  simp only [Mempool.kgpuVfree, h.unitOf, h.2.2.1, hge, h.2.2.2, hinfo, if_false, Mempool.clear]

/-! ## Steps -/

variable {s : PoolThreads T} {K : ZeroAreaSearch}

/-- A new buffer is at a unit that has no record, so it is none of those tracked. -/
theorem Tracked.vmalloc (h : s.Tracked) (nbytes : UL) (log : List (Mempool.Call × UL)) :
    Tracked { s with
      pool := (s.pool.kgpuVmalloc K nbytes).2
      live := if (s.pool.kgpuVmalloc K nbytes).1 = 0 ∨ Mempool.reqNunits nbytes = 0 then s.live
        else (s.pool.kgpuVmalloc K nbytes).1 :: s.live
      log := log } := by
  have ho := Mempool.kgpuVmalloc_outcome K s.pool nbytes
  have htiled := ho.tiled h.tiled
  generalize (s.pool.kgpuVmalloc K nbytes).1 = ret at ho htiled ⊢
  generalize (s.pool.kgpuVmalloc K nbytes).2 = pool at ho htiled ⊢
  cases ho with
  | null =>
    simp only [true_or, if_true]
    exact ⟨h.tiled, h.live, h.nodup, h.freeing, h.apart, h.once⟩
  | fresh i hfree hi hrun =>
    have hother : ∀ ptr j n, BufferAt s.pool ptr j n → j ≠ i := by
      rintro ptr j n ⟨hj, -, hsize, hn⟩ rfl
      have hzero := Tiling.size_eq_zero h.tiled hj hfree
      rw [Mempool.size, hsize] at hzero
      exact size_ne_zero hn hzero
    have hlive : ∀ ptr ∈ s.live, ∃ j n, BufferAt { s.pool with
        bitmap := s.pool.bitmap.set i (Mempool.reqNunits nbytes).toNat
        allocSz := Function.update s.pool.allocSz i (Mempool.reqNunits nbytes) } ptr j n := by
      intro ptr hptr
      obtain ⟨j, n, hb⟩ := h.live ptr hptr
      exact ⟨j, n, hb.update (hother ptr j n hb) _⟩
    -- The new pointer differs from every pointer of a recorded buffer.
    have hnew : ∀ ptr j n, BufferAt s.pool ptr j n →
        ptr ≠ s.pool.kva + BitVec.ofNat 64 i * bufUnitSize := by
      intro ptr j n hb heq
      have hj := hb.unitOf
      rw [heq, unitOf_unit hi] at hj
      exact hother ptr j n hb hj.symm
    refine ⟨htiled, ?_, ?_, fun t f hf => ?_, fun t f hf => ?_, h.once⟩
    · simp only
      split
      next => exact hlive
      next hne =>
        have hreq : Mempool.reqNunits nbytes ≠ 0 := fun h0 => hne (.inr h0)
        refine List.forall_mem_cons.mpr ⟨⟨i, _, hi, rfl, ?_, hreq⟩, hlive⟩
        exact Function.update_self i _ _
    · simp only
      split
      next => exact h.nodup
      next =>
        refine List.nodup_cons.mpr ⟨fun hmem => ?_, h.nodup⟩
        obtain ⟨j, n, hb⟩ := h.live _ hmem
        exact hnew _ j n hb rfl
    · have hb := h.freeing t f hf
      exact hb.update (hother _ _ _ hb) _
    · have hb := h.freeing t f hf
      simp only
      split
      next => exact h.apart t f hf
      next =>
        refine fun hmem => ?_
        rcases List.mem_cons.mp hmem with heq | hmem
        · exact hnew _ _ _ hb heq
        · exact h.apart t f hf hmem

/-- A live buffer passes every check of `kgpu_vfree`. -/
theorem Tracked.checks (h : s.Tracked) {ptr : UL} (hptr : ptr ∈ s.live) :
    ¬ (s.pool.unitOf ptr ≥ s.pool.nunits.toNat ∨ s.pool.allocSz (s.pool.unitOf ptr) = 0 ∨
        (s.pool.allocSz (s.pool.unitOf ptr)).toNat > s.pool.nunits.toNat - s.pool.unitOf ptr) ∧
      BufferAt s.pool ptr (s.pool.unitOf ptr) (s.pool.allocSz (s.pool.unitOf ptr)) := by
  obtain ⟨i, n, hb⟩ := h.live ptr hptr
  have hunit : s.pool.unitOf ptr = i := hb.unitOf
  obtain ⟨hi, hp, hsize, hn⟩ := hb
  have hin := h.tiled.inside i hi
  rw [Mempool.size, hsize] at hin
  rw [hunit, hsize]
  refine ⟨?_, hi, hp, hsize, hn⟩
  rintro (hge | hzero | hinfo)
  · omega
  · exact hn hzero
  · omega

theorem Tracked.vfreeRead [DecidableEq T] (h : s.Tracked) {t : T} {f : Freeing}
    (hmem : f.ptr ∈ s.live) (hb : BufferAt s.pool f.ptr f.idx f.nunits) :
    Tracked { s with
      live := s.live.erase f.ptr
      freeing := Function.update s.freeing t (some f) } := by
  have hcases : ∀ t' f', Function.update s.freeing t (some f) t' = some f' →
      (t' = t ∧ f' = f) ∨ (t' ≠ t ∧ s.freeing t' = some f') := by
    intro t' f' hf'
    by_cases htt : t' = t
    · subst htt
      rw [Function.update_self] at hf'
      exact .inl ⟨rfl, (Option.some.inj hf').symm⟩
    · rw [Function.update_of_ne htt] at hf'
      exact .inr ⟨htt, hf'⟩
  refine ⟨h.tiled, fun p hp => h.live p (List.mem_of_mem_erase hp), h.nodup.erase _, ?_, ?_, ?_⟩
  · intro t' f' hf'
    rcases hcases t' f' hf' with ⟨-, rfl⟩ | ⟨-, hold⟩
    · exact hb
    · exact h.freeing t' f' hold
  · intro t' f' hf' hlive
    rcases hcases t' f' hf' with ⟨-, rfl⟩ | ⟨-, hold⟩
    · exact (h.nodup.mem_erase_iff.mp hlive).1 rfl
    · exact h.apart t' f' hold (List.mem_of_mem_erase hlive)
  · intro t₁ t₂ f₁ f₂ h₁ h₂ heq
    rcases hcases t₁ f₁ h₁ with ⟨ht₁, rfl⟩ | ⟨-, hold₁⟩
    · rcases hcases t₂ f₂ h₂ with ⟨ht₂, -⟩ | ⟨-, hold₂⟩
      · rw [ht₁, ht₂]
      · exact absurd (heq ▸ hmem) (h.apart t₂ f₂ hold₂)
    · rcases hcases t₂ f₂ h₂ with ⟨-, rfl⟩ | ⟨-, hold₂⟩
      · exact absurd (heq ▸ hmem) (h.apart t₁ f₁ hold₁)
      · exact h.once t₁ t₂ f₁ f₂ hold₁ hold₂ heq

theorem Tracked.vfreeClear [DecidableEq T] (h : s.Tracked) {t : T} {f : Freeing}
    (hf : s.freeing t = some f) (log : List (Mempool.Call × UL)) :
    Tracked { s with
      pool := s.pool.clear f
      freeing := Function.update s.freeing t none
      log := log } := by
  have hb := h.freeing t f hf
  have hold : ∀ t' f', Function.update s.freeing t none t' = some f' →
      t' ≠ t ∧ s.freeing t' = some f' := by
    intro t' f' hf'
    by_cases htt : t' = t
    · subst htt
      rw [Function.update_self] at hf'
      cases hf'
    · rw [Function.update_of_ne htt] at hf'
      exact ⟨htt, hf'⟩
  refine ⟨?_, fun ptr hptr => ?_, h.nodup, fun t' f' hf' => ?_, fun t' f' hf' => ?_,
    fun t₁ t₂ f₁ f₂ h₁ h₂ => ?_⟩
  · simp only
    rw [← hb.kgpuVfree h.tiled]
    exact (h.tiled.kgpuVfree_outcome f.ptr).tiled h.tiled
  · obtain ⟨i, n, hp⟩ := h.live ptr hptr
    refine ⟨i, n, hp.update (hp.ne hb ?_) _⟩
    rintro rfl
    exact h.apart t f hf hptr
  · obtain ⟨hne, hf'⟩ := hold t' f' hf'
    have hp := h.freeing t' f' hf'
    refine hp.update (hp.ne hb fun heq => ?_) _
    exact hne (h.once t' t f' f hf' hf heq)
  · exact h.apart t' f' (hold t' f' hf').2
  · exact h.once t₁ t₂ f₁ f₂ (hold t₁ f₁ h₁).2 (hold t₂ f₂ h₂).2

variable [DecidableEq T]

/-- Every step keeps the buffers tracked and is, for the pool, a step of the sequential
    execution of the calls in the log or none. -/
theorem Tracked.step {s' : PoolThreads T} (h : s.Tracked) {l : PoolStep T}
    (hs : s.step K l = some s') :
    s'.Tracked ∧ ((s'.pool = s.pool ∧ s'.log = s.log) ∨
      ∃ e, s'.log = s.log ++ [e] ∧ s.pool.sequential K e = some s'.pool) := by
  cases l with
  | vmalloc t nbytes =>
    simp only [PoolThreads.step] at hs
    split at hs <;> cases hs
    refine ⟨h.vmalloc nbytes _, .inr ⟨_, rfl, ?_⟩⟩
    simp [Mempool.sequential, Mempool.call]
  | vfreeRead t ptr =>
    simp only [PoolThreads.step] at hs
    split at hs
    next hok =>
      obtain ⟨hpass, hb⟩ := h.checks hok.2
      rw [if_neg hpass] at hs
      cases hs
      exact ⟨h.vfreeRead (f := ⟨ptr, _, _⟩) hok.2 hb, .inl ⟨rfl, rfl⟩⟩
    next => cases hs
  | vfreeClear t =>
    simp only [PoolThreads.step] at hs
    split at hs
    next f hf =>
      cases hs
      refine ⟨h.vfreeClear hf _, .inr ⟨_, rfl, ?_⟩⟩
      simp [Mempool.sequential, Mempool.call, (h.freeing t f hf).kgpuVfree h.tiled]
    next => cases hs

theorem tracked_of_run {p₀ : Mempool} {ls : List (PoolStep T)} (hblank : p₀.Blank)
    (hrun : Run (step K) Free (init p₀) ls s) :
    s.Tracked ∧ Run (Mempool.sequential K) Free p₀ s.log s.pool := by
  refine hrun.invariant (I := fun s => s.Tracked ∧ Run (Mempool.sequential K) Free p₀ s.log s.pool)
    ⟨⟨hblank.tiled, nofun, .nil, nofun, nofun, nofun⟩, .nil⟩ ?_
  rintro s l s' ⟨h, hseq⟩ - hs
  obtain ⟨h', ⟨hpool, hlog⟩ | ⟨e, hlog, hstep⟩⟩ := h.step hs
  · exact ⟨h', by rwa [hpool, hlog]⟩
  · exact ⟨h', by rw [hlog]; exact hseq.snoc trivial hstep⟩

/-- In every state that any number of threads lead to from the empty pool, with any
    interleaving of their steps: the set bits are the disjoint union of the recorded
    buffers; the units that a pending free will clear are those of its own buffer and of
    no other; and the pool and all returned pointers are those of the sequential execution
    of the calls in the order of their locked sections. -/
theorem pool_linearizable (K : ZeroAreaSearch) {p₀ : Mempool} (hblank : p₀.Blank)
    {ls : List (PoolStep T)} (hrun : Run (step K) Free (init p₀) ls s) :
    s.pool.Tiled ∧
    (∀ t f, s.freeing t = some f → ∀ u, f.idx ≤ u → u < f.idx + f.nunits.toNat →
      Covers s.pool.size f.idx u ∧ ∀ j < s.pool.nunits.toNat, Covers s.pool.size j u → j = f.idx) ∧
    Run (Mempool.sequential K) Free p₀ s.log s.pool := by
  obtain ⟨h, hseq⟩ := tracked_of_run hblank hrun
  refine ⟨h.tiled, fun t f hf u hle hlt => ?_, hseq⟩
  obtain ⟨hi, -, hsize, -⟩ := h.freeing t f hf
  have hcov : Covers s.pool.size f.idx u := by
    refine ⟨hle, ?_⟩
    rw [Mempool.size, hsize]
    exact hlt
  exact ⟨hcov, fun j hj hju => h.tiled.disjoint j hj f.idx hi u hju hcov⟩

/-- Two threads in a pool of two units: one frees its buffer, and between its read and its
    clear the other frees and allocates the other unit. -/
theorem pool_linearizable_two_threads :
    ∃ s, Run (step .firstFit) Free (init (T := Bool) (.empty 0x100000 2))
        [.vmalloc true 1, .vmalloc false 1, .vfreeRead true 0x100000, .vfreeRead false 0x200000,
          .vfreeClear false, .vmalloc false 5, .vfreeClear true] s ∧
      s.live = [0x200000] ∧ s.pool.bitmap 0 = false ∧ s.pool.bitmap 1 = true ∧
      Run (Mempool.sequential .firstFit) Free (.empty 0x100000 2)
        [(.vmalloc 1, 0x100000), (.vmalloc 1, 0x200000), (.vfree 0x200000, 0),
          (.vmalloc 5, 0x200000), (.vfree 0x100000, 0)] s.pool := by
  have hrun : Run (step .firstFit) Free (init (T := Bool) (.empty 0x100000 2))
      [.vmalloc true 1, .vmalloc false 1, .vfreeRead true 0x100000, .vfreeRead false 0x200000,
        .vfreeClear false, .vmalloc false 5, .vfreeClear true] _ := Run.of_exec rfl
  exact ⟨_, hrun, rfl, rfl, rfl,
    (pool_linearizable .firstFit (Mempool.empty_blank 0x100000 2) hrun).2.2⟩

end PoolThreads
end Kgpu
