-- SUMMARY: Freeing several pointers of the pool: the order and the repetition of the calls of `kgpu_vfree` do not matter.
import Kgpu.Kernel.Pool

/-!
# Freeing several pointers

A client may pass any of the `in`, `out` and `data` addresses of a request to
`kgpu_vfree`, so that several calls concern one buffer. What a list of calls leaves
in the two records is decided by the set of units that the pointers lie in.
-/

namespace Kgpu

open Library

namespace Mempool

/-- `kgpu_vfree` of each pointer of a list in turn. -/
def freeAll (p : Mempool) (ptrs : List UL) : Mempool :=
  ptrs.foldl (fun p ptr => (p.kgpuVfree ptr).2) p

/-- The address `ptr` lies in the `len` units from `i` on. -/
def InBuffer (p : Mempool) (i len : Nat) (ptr : UL) : Prop :=
  p.kva.toNat + i * 2 ^ 20 ≤ ptr.toNat ∧ ptr.toNat < p.kva.toNat + (i + len) * 2 ^ 20

/-! ## What a list of calls leaves -/

/-- The buffers whose first unit is that of a pointer of the list are gone. -/
structure Freed (p : Mempool) (ptrs : List UL) (p' : Mempool) : Prop where
  frame : ∃ map sz, p' = { p with bitmap := map, allocSz := sz }
  removed : Removed p.nunits.toNat p.bitmap p.size {i | ∃ ptr ∈ ptrs, p.unitOf ptr = i}
    p'.bitmap p'.size

theorem allocSz_eq_of_size_eq {p p' : Mempool} (h : p.size = p'.size) : p.allocSz = p'.allocSz :=
  funext fun i => BitVec.eq_of_toNat_eq (congrFun h i)

theorem freeAll_snoc (p : Mempool) (ptrs : List UL) (ptr : UL) :
    p.freeAll (ptrs ++ [ptr]) = ((p.freeAll ptrs).kgpuVfree ptr).2 := by
  rw [freeAll, List.foldl_append]
  rfl

theorem Freed.kgpuVfree {p p' : Mempool} {ptrs : List UL} (h : Freed p ptrs p') (ht : p'.Tiled)
    (ptr : UL) : Freed p (ptrs ++ [ptr]) (p'.kgpuVfree ptr).2 := by
  obtain ⟨⟨map, sz, rfl⟩, hremoved⟩ := h
  have hunits : {i | ∃ q ∈ ptrs ++ [ptr], p.unitOf q = i} =
      insert (p.unitOf ptr) {i | ∃ q ∈ ptrs, p.unitOf q = i} := by
    ext i
    simp only [List.mem_append, List.mem_singleton, Set.mem_insert_iff, Set.mem_ofPred_eq]
    constructor
    · rintro ⟨q, hq | rfl, hi⟩
      · exact .inr ⟨q, hq, hi⟩
      · exact .inl hi.symm
    · rintro (hi | ⟨q, hq, hi⟩)
      · exact ⟨ptr, .inr rfl, hi.symm⟩
      · exact ⟨q, .inl hq, hi⟩
  have ho := ht.kgpuVfree_outcome ptr
  generalize Mempool.kgpuVfree _ ptr = r at ho ⊢
  obtain ⟨e, p''⟩ := r
  cases ho with
  | released hi hsize =>
    refine ⟨⟨_, _, rfl⟩, ?_⟩
    rw [hunits, size_update]
    exact hremoved.remove hi
  | ignored _ _ hnone =>
    refine ⟨⟨map, sz, rfl⟩, ?_⟩
    rw [hunits]
    exact hremoved.ignore hnone

theorem Tiled.freeAll {p : Mempool} (h : p.Tiled) (ptrs : List UL) :
    Freed p ptrs (p.freeAll ptrs) ∧ (p.freeAll ptrs).Tiled := by
  induction ptrs using List.reverseRecOn with
  | nil =>
    refine ⟨⟨⟨p.bitmap, p.allocSz, rfl⟩, ?_⟩, h⟩
    rw [show {i | ∃ ptr ∈ ([] : List UL), p.unitOf ptr = i} = ∅ by simp]
    exact .none
  | append_singleton ptrs ptr ih =>
    obtain ⟨hfreed, htiled⟩ := ih
    rw [freeAll_snoc]
    exact ⟨hfreed.kgpuVfree htiled ptr, (htiled.kgpuVfree_outcome ptr).tiled htiled⟩

/-- What is left depends only on which pointers were passed. -/
theorem Freed.unique {p p' p'' : Mempool} {ptrs ptrs' : List UL} (h : Freed p ptrs p')
    (h' : Freed p ptrs' p'') (hmem : ∀ ptr, ptr ∈ ptrs ↔ ptr ∈ ptrs') : p' = p'' := by
  have hremoved := h'.removed
  simp only [← hmem] at hremoved
  obtain ⟨hmap, hsize⟩ := h.removed.unique hremoved
  have halloc := allocSz_eq_of_size_eq hsize
  obtain ⟨map, sz, rfl⟩ := h.frame
  obtain ⟨map', sz', rfl⟩ := h'.frame
  simp only at hmap halloc
  rw [hmap, halloc]

/-! ## One buffer -/

theorem Mapped.unitOf_of_inBuffer {p : Mempool} (hm : p.Mapped) {i len : Nat} {ptr : UL}
    (hin : i + len ≤ p.nunits.toNat) (h : p.InBuffer i len ptr) :
    i ≤ p.unitOf ptr ∧ p.unitOf ptr < i + len := by
  obtain ⟨hle, hlt⟩ := h
  obtain ⟨q, hq⟩ : ∃ q, q * 2 ^ 20 ≤ ptr.toNat - p.kva.toNat ∧
      ptr.toNat - p.kva.toNat < (q + 1) * 2 ^ 20 :=
    ⟨_, Nat.div_mul_le_self _ _, Nat.lt_mul_of_div_lt (Nat.lt_succ_self _) (by decide)⟩
  have hbounds : i ≤ q ∧ q < i + len := by omega
  have hkva : p.kva.toNat ≤ ptr.toNat := Nat.le_trans (Nat.le_add_right _ _) hle
  have hunit : p.unitOf ptr = q := (hm.unitOf_eq_iff (by omega)).mpr
    ⟨(Nat.le_sub_iff_add_le' hkva).mp hq.1, (Nat.sub_lt_iff_lt_add' hkva).mp hq.2⟩
  rwa [hunit]

/-- Inside a buffer only its first unit records a size. -/
theorem Tiled.size_eq_zero_of_inside {p : Mempool} (h : p.Tiled) {i len j : Nat}
    (hbuf : (i, len) ∈ p.buffers) (hlt : i < j) (hj : j < i + len) : p.size j = 0 := by
  obtain ⟨hi, -, hsize⟩ := hbuf
  simp only at hi hsize
  have hin := h.inside i hi
  by_contra hne
  have hij : i = j := h.disjoint i hi j (by omega) j ⟨by omega, by omega⟩ ⟨by omega, by omega⟩
  omega

theorem Freed.removesBuffer {p p' : Mempool} {ptrs : List UL} {i len : Nat} (h : Freed p ptrs p')
    (ht : p.Tiled) (hm : p.Mapped) (hbuf : (i, len) ∈ p.buffers)
    (hall : ∀ ptr ∈ ptrs, p.InBuffer i len ptr) (hfirst : ∃ ptr ∈ ptrs, p.InUnit i ptr) :
    RemovesBuffer p p' i len := by
  obtain ⟨hi, hlen, hsize⟩ := id hbuf
  simp only at hi hlen hsize
  have hin := ht.inside i hi
  obtain ⟨ptr, hptr, hunit⟩ := hfirst
  have hmem : i ∈ {i | ∃ ptr ∈ ptrs, p.unitOf ptr = i} :=
    ⟨ptr, hptr, (hm.unitOf_eq_iff hi).mpr hunit⟩
  -- Every other pointer lies in a later unit of the buffer, where no size is recorded.
  have hother : ∀ j ∈ {i | ∃ ptr ∈ ptrs, p.unitOf ptr = i}, j ≠ i → p.size j = 0 := by
    rintro j ⟨ptr, hptr, rfl⟩ hne
    obtain ⟨hle, hlt⟩ := hm.unitOf_of_inBuffer (by omega) (hall ptr hptr)
    exact ht.size_eq_zero_of_inside hbuf (by omega) hlt
  have hone : Removed p.nunits.toNat p.bitmap p.size {i | ∃ ptr ∈ ptrs, p.unitOf ptr = i}
      (p.bitmap.clear i len) (Function.update p.size i 0) := by
    refine ⟨fun u => ?_, fun j hj _ => ?_, fun j hj => ?_⟩
    · rw [Bitmap.clear_eq_true, and_comm]
      refine and_congr_right fun _ => ⟨fun hout j hj _ => ?_, fun hnone => ?_⟩
      · by_cases hji : j = i
        · subst hji
          simpa only [Covers, hsize] using hout
        · simp only [Covers, hother j hj hji]
          omega
      · simpa only [Covers, hsize] using hnone i hmem hi
    · by_cases hji : j = i
      · subst hji
        exact Function.update_self ..
      · rw [Function.update_of_ne hji]
        exact hother j hj hji
    · have hji : j ≠ i := by
        rintro rfl
        exact absurd (hj hmem) (Nat.not_le_of_lt hi)
      exact Function.update_of_ne hji ..
  obtain ⟨hmap, hsz⟩ := h.removed.unique hone
  obtain ⟨map, sz, rfl⟩ := h.frame
  refine ⟨hbuf, hmap, ?_⟩
  simp only [buffers, hsz]
  exact extents_remove_mem hbuf

/-! ## Every buffer -/

/-- Past its units `p'` holds what `p` holds. -/
structure SameBeyond (p p' : Mempool) : Prop where
  frame : ∃ map sz, p' = { p with bitmap := map, allocSz := sz }
  bitmap : ∀ u, p.nunits.toNat ≤ u → p'.bitmap u = p.bitmap u
  allocSz : ∀ i, p.nunits.toNat ≤ i → p'.allocSz i = p.allocSz i

/-- A change of one record and of the units of one extent inside the pool. -/
theorem SameBeyond.update {p p' : Mempool} (h : SameBeyond p p') {i : Nat} {map : Bitmap} {k : U32}
    (hi : i < p'.nunits.toNat) (hmap : ∀ u, p'.nunits.toNat ≤ u → map u = p'.bitmap u) :
    SameBeyond p { p' with bitmap := map, allocSz := Function.update p'.allocSz i k } := by
  obtain ⟨⟨map', sz', rfl⟩, hbitmap, hallocSz⟩ := h
  refine ⟨⟨_, _, rfl⟩, fun u hu => ?_, fun j hj => ?_⟩
  · exact (hmap u hu).trans (hbitmap u hu)
  · have hji : j ≠ i := by
      rintro rfl
      exact absurd hj (Nat.not_le_of_lt hi)
    exact (Function.update_of_ne hji ..).trans (hallocSz j hj)

theorem SameBeyond.step {K : ZeroAreaSearch} {p₀ p p' : Mempool} {c : Call}
    (h : SameBeyond p₀ p) (ht : p.Tiled) (hs : step K p c = some p') : SameBeyond p₀ p' := by
  cases c with
  | vmalloc nbytes =>
    simp only [Mempool.step, Option.some.injEq] at hs
    subst hs
    have ho := kgpuVmalloc_outcome K p nbytes
    generalize p.kgpuVmalloc K nbytes = r at ho ⊢
    obtain ⟨ret, p'⟩ := r
    cases ho with
    | fresh i hfree hi hrun =>
      refine h.update hi fun u hu => if_neg ?_
      have hend := hrun.1
      omega
    | null => exact h
  | vfree ptr =>
    simp only [Mempool.step, Option.some.injEq] at hs
    subst hs
    have ho := ht.kgpuVfree_outcome ptr
    generalize p.kgpuVfree ptr = r at ho ⊢
    obtain ⟨e, p'⟩ := r
    cases ho with
    | released hi =>
      refine h.update hi fun u hu => if_neg ?_
      have hend := ht.inside _ hi
      omega
    | ignored => exact h

theorem run_sameBeyond {K : ZeroAreaSearch} {p₀ p : Mempool} {cs : List Call} (hblank : p₀.Blank)
    (hrun : Run (step K) Free p₀ cs p) : p.Tiled ∧ SameBeyond p₀ p :=
  hrun.invariant (I := fun p => p.Tiled ∧ SameBeyond p₀ p)
    ⟨hblank.tiled, ⟨p₀.bitmap, p₀.allocSz, rfl⟩, fun _ _ => rfl, fun _ _ => rfl⟩
    fun _ _ _ ih _ hs => ⟨step_tiled ih.1 hs, ih.2.step ih.1 hs⟩

/-- Two pools without a buffer that are the same beyond their units are one. -/
theorem SameBeyond.eq_of_blank {p p' : Mempool} (h : SameBeyond p p') (hp : p.Blank)
    (hp' : p'.Blank) : p' = p := by
  obtain ⟨⟨map, sz, rfl⟩, hbitmap, hallocSz⟩ := h
  have hmap : map = p.bitmap := by
    funext u
    by_cases hu : u < p.nunits.toNat
    · exact (hp'.bitmap u hu).trans (hp.bitmap u hu).symm
    · exact hbitmap u (Nat.le_of_not_lt hu)
  have hsz : sz = p.allocSz := by
    funext i
    by_cases hi : i < p.nunits.toNat
    · exact (hp'.allocSz i hi).trans (hp.allocSz i hi).symm
    · exact hallocSz i (Nat.le_of_not_lt hi)
  rw [hmap, hsz]

theorem Freed.blank {p p' : Mempool} {ptrs : List UL} (h : Freed p ptrs p') (ht : p.Tiled)
    (hm : p.Mapped) (hall : ∀ i len, (i, len) ∈ p.buffers → ∃ ptr ∈ ptrs, p.InUnit i ptr) :
    p'.Blank := by
  obtain ⟨hmap, hsize⟩ := h.removed.empty ht fun i hi hpos => by
    obtain ⟨ptr, hptr, hin⟩ := hall i (p.size i) ⟨hi, hpos, rfl⟩
    exact ⟨ptr, hptr, (hm.unitOf_eq_iff hi).mpr hin⟩
  obtain ⟨map, sz, rfl⟩ := h.frame
  exact ⟨hmap, fun i hi => BitVec.eq_of_toNat_eq (hsize i hi)⟩

theorem freeAll_run (K : ZeroAreaSearch) (p : Mempool) (ptrs : List UL) :
    Run (step K) Free p (ptrs.map .vfree) (p.freeAll ptrs) := by
  induction ptrs using List.reverseRecOn with
  | nil => exact .nil
  | append_singleton ptrs ptr ih =>
    rw [List.map_append, freeAll_snoc]
    exact ih.snoc trivial rfl

/-! ## Any order, any repetition -/

/-- After every run of allocations and frees from an empty pool, what a list of calls of
    `kgpu_vfree` leaves is decided by which pointers are in the list. Pointers into one
    buffer, with one of them in its first unit, release that buffer and no other. Pointers
    with one in the first unit of every buffer leave the pool that the run began with. -/
theorem frees_commute_and_repeat (K : ZeroAreaSearch) {p₀ p : Mempool} {cs : List Call}
    (hblank : p₀.Blank) (hm : p₀.Mapped) (hrun : Run (step K) Free p₀ cs p) :
    (∀ ptrs ptrs', (∀ ptr, ptr ∈ ptrs ↔ ptr ∈ ptrs') → p.freeAll ptrs = p.freeAll ptrs') ∧
    (∀ i len ptrs, (i, len) ∈ p.buffers → (∀ ptr ∈ ptrs, p.InBuffer i len ptr) →
      (∃ ptr ∈ ptrs, p.InUnit i ptr) → RemovesBuffer p (p.freeAll ptrs) i len) ∧
    ∀ ptrs, (∀ i len, (i, len) ∈ p.buffers → ∃ ptr ∈ ptrs, p.InUnit i ptr) →
      p.freeAll ptrs = p₀ := by
  obtain ⟨ht, hmp⟩ := run_invariant hblank hm hrun
  refine ⟨fun ptrs ptrs' hmem => ?_, fun i len ptrs hbuf hall hfirst => ?_, fun ptrs hall => ?_⟩
  · exact (ht.freeAll ptrs).1.unique (ht.freeAll ptrs').1 hmem
  · exact (ht.freeAll ptrs).1.removesBuffer ht hmp hbuf hall hfirst
  · have hsame := (run_sameBeyond hblank (hrun.trans (freeAll_run K p ptrs))).2
    exact hsame.eq_of_blank hblank ((ht.freeAll ptrs).1.blank ht hmp hall)

/-- Two buffers of two units and of one: the pointers of the first in either order and
    twice over leave the second, and the two first addresses leave an empty pool. -/
theorem frees_commute_and_repeat_two_buffers :
    ∃ p, Run (step .firstFit) Free (empty 0x100000 4) [.vmalloc 0x100001, .vmalloc 5] p ∧
      p.freeAll [0x200000, 0x100004] = p.freeAll [0x100004, 0x200000, 0x100004] ∧
      RemovesBuffer p (p.freeAll [0x200000, 0x100004]) 0 2 ∧
      p.freeAll [0x300000, 0x100000] = empty 0x100000 4 := by
  have hrun : Run (step .firstFit) Free (empty 0x100000 4) [.vmalloc 0x100001, .vmalloc 5]
      (((empty 0x100000 4).kgpuVmalloc .firstFit 0x100001).2.kgpuVmalloc .firstFit 5).2 :=
    Run.of_exec rfl
  obtain ⟨hsame, hone, hall⟩ := frees_commute_and_repeat .firstFit (empty_blank 0x100000 4)
    ⟨by decide, by decide⟩ hrun
  refine ⟨_, hrun, hsame _ _ fun ptr => ?_, hone 0 2 _ ⟨by decide, by decide, rfl⟩ ?_ ?_, hall _ ?_⟩
  · simp only [List.mem_cons, List.not_mem_nil, or_false]
    tauto
  · intro ptr hptr
    simp only [List.mem_cons, List.not_mem_nil, or_false] at hptr
    rcases hptr with rfl | rfl <;> exact ⟨by decide, by decide⟩
  · exact ⟨0x100004, by simp, by decide, by decide⟩
  · rintro i len ⟨hi, hlen, hsize⟩
    have hcases : i = 0 ∨ i = 1 ∨ i = 2 ∨ i = 3 := by
      have hlt : i < 4 := hi
      omega
    rcases hcases with rfl | rfl | rfl | rfl
    · exact ⟨0x100000, by simp, by decide, by decide⟩
    · have hzero : 0 = len := hsize
      exact absurd hzero (Nat.ne_of_lt hlen)
    · exact ⟨0x300000, by simp, by decide, by decide⟩
    · have hzero : 0 = len := hsize
      exact absurd hzero (Nat.ne_of_lt hlen)

end Mempool
end Kgpu
