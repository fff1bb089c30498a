-- SUMMARY: Which pool sizes `fill_ku_request` translates the addresses of buffers for.
import Kgpu.Kernel.Ownership
import Kgpu.Kernel.Setup

/-!
# Translating pool addresses

`fill_ku_request` rebases the three addresses of a request that lie in the pool and
passes the others on. The size it tests with is the 32-bit number of pages shifted by
`PAGE_SHIFT` in 32 bits, while `kgpu_vmalloc` gives out addresses of the whole pool.
-/

namespace Kgpu

open Library

namespace Mempool

variable {p p' : Mempool} {r : KgpuRequest} {a : UL}

/-! ## What a filled request should hold -/

/-- The address fields of a request, each with what `fill_ku_request` makes of it. -/
def addressFields (p : Mempool) (r : KgpuRequest) : List (UL × UL) :=
  [(r.inp, (p.fillKuRequest r).inp), (r.out, (p.fillKuRequest r).out),
    (r.udata, (p.fillKuRequest r).data)]

/-- The fields that are not addresses are copied. -/
structure CopiesRest (p : Mempool) (r : KgpuRequest) : Prop where
  id : (p.fillKuRequest r).id = r.id
  serviceName : (p.fillKuRequest r).serviceName = r.serviceName
  insize : (p.fillKuRequest r).insize = r.insize
  outsize : (p.fillKuRequest r).outsize = r.outsize
  datasize : (p.fillKuRequest r).datasize = r.udatasize

/-- An address outside the pages of the pool is passed on. -/
def PassesOutside (p : Mempool) (r : KgpuRequest) : Prop :=
  ∀ f ∈ p.addressFields r,
    ¬ (p.kva.toNat ≤ f.1.toNat ∧ f.1.toNat < p.kva.toNat + p.npages.toNat * 4096) → f.2 = f.1

/-- An address in the `units` units from `start` on is rebased. -/
def RebasesInside (p : Mempool) (start : UL) (units : Nat) (r : KgpuRequest) : Prop :=
  ∀ f ∈ p.addressFields r, start.toNat ≤ f.1.toNat → f.1.toNat < start.toNat + units * 2 ^ 20 →
    f.2 = p.uva + (f.1 - p.kva)

/-- After every run of allocations and frees each request is filled as it should, also
    with the addresses of a buffer that is then allocated. -/
def PointersTranslated (K : ZeroAreaSearch) (p₀ : Mempool) : Prop :=
  ∀ cs p, Run (step K) Free p₀ cs p → ∀ r, p.CopiesRest r ∧ p.PassesOutside r ∧
    ∀ nbytes, (p.kgpuVmalloc K nbytes).1 ≠ 0 →
      (p.kgpuVmalloc K nbytes).2.RebasesInside (p.kgpuVmalloc K nbytes).1
        (reqNunits nbytes).toNat r

/-! ## One address -/

theorem mem_addressFields {f : UL × UL} (hf : f ∈ p.addressFields r) : f.2 = p.toUser f.1 := by
  simp only [addressFields, List.mem_cons, List.not_mem_nil, or_false] at hf
  rcases hf with rfl | rfl | rfl <;> rfl

theorem toUser_outside
    (h : ¬ (p.kva.toNat ≤ a.toNat ∧ a.toNat < p.kva.toNat + p.npages.toNat * 4096)) :
    p.toUser a = a := by
  refine if_neg fun hwithin => h ?_
  simp only [addrWithin, Bool.and_eq_true, decide_eq_true_eq, BitVec.le_def, BitVec.lt_def,
    BitVec.toNat_add, byteSize_toNat] at hwithin
  omega

/-- An address past the end that is computed is passed on, also when it is one of the
    pool. -/
theorem toUser_beyond (h : (p.kva.toNat + p.npages.toNat * 4096 % 2 ^ 32) % 2 ^ 64 ≤ a.toNat) :
    p.toUser a = a := by
  refine if_neg fun hwithin => ?_
  simp only [addrWithin, Bool.and_eq_true, decide_eq_true_eq, BitVec.le_def, BitVec.lt_def,
    BitVec.toNat_add, byteSize_toNat] at hwithin
  omega

/-- In a pool of less than 4 GiB that ends below the last address every address of it is
    rebased. -/
theorem toUser_inside (hsmall : p.npages.toNat < 2 ^ 20)
    (hwrap : p.kva.toNat + p.npages.toNat * 4096 < 2 ^ 64) (hle : p.kva.toNat ≤ a.toNat)
    (hlt : a.toNat < p.kva.toNat + p.npages.toNat * 4096) : p.toUser a = p.uva + (a - p.kva) := by
  have hsize : p.byteSize.toNat = p.npages.toNat * 4096 := by
    rw [byteSize_toNat, Nat.mod_eq_of_lt (by omega)]
  refine if_pos ((addrWithin_iff (by omega)).mpr ⟨hle, ?_⟩)
  omega

theorem copiesRest (p : Mempool) (r : KgpuRequest) : p.CopiesRest r := ⟨rfl, rfl, rfl, rfl, rfl⟩

/-- The address that is rebased to itself. -/
theorem rebase_eq_self {u k a : UL} : u + (a - k) = a ↔ u = k := by
  constructor
  · intro h
    have hsub : u + (a - k) - (a - k) = a - (a - k) := congrArg (· - (a - k)) h
    rw [BitVec.add_sub_cancel] at hsub
    rw [hsub]
    apply BitVec.eq_of_toNat_eq
    have ha : a.toNat < 2 ^ 64 := a.isLt
    have hk : k.toNat < 2 ^ 64 := k.isLt
    simp only [BitVec.toNat_sub]
    omega
  · rintro rfl
    rw [BitVec.add_comm, BitVec.sub_add_cancel]

/-! ## The buffers of a pool -/

/-- The numbers that a set-up leaves: the units cover the whole of the pages but for less
    than a unit, and the pages do not wrap. -/
structure Extended (p : Mempool) : Prop where
  kva_ne : p.kva ≠ 0
  nunits : p.nunits.toNat = p.npages.toNat / 256
  no_wrap : p.kva.toNat + p.npages.toNat * 4096 ≤ 2 ^ 64

theorem Extended.units_le (h : p.Extended) : p.nunits.toNat * 2 ^ 20 ≤ p.npages.toNat * 4096 := by
  rw [h.nunits]
  have hunit : 2 ^ 20 = 256 * 4096 := by decide
  calc p.npages.toNat / 256 * 2 ^ 20 = p.npages.toNat / 256 * 256 * 4096 := by
        rw [hunit, Nat.mul_assoc]
    _ ≤ p.npages.toNat * 4096 := Nat.mul_le_mul_right 4096 (Nat.div_mul_le_self _ _)

theorem Extended.mapped (h : p.Extended) : p.Mapped :=
  ⟨h.kva_ne, Nat.le_trans (Nat.add_le_add_left h.units_le _) h.no_wrap⟩

theorem run_frame {K : ZeroAreaSearch} {p₀ : Mempool} {cs : List Call}
    (hrun : Run (step K) Free p₀ cs p) : ∃ map sz, p = { p₀ with bitmap := map, allocSz := sz } := by
  refine hrun.invariant (I := fun p => ∃ map sz, p = { p₀ with bitmap := map, allocSz := sz })
    ⟨p₀.bitmap, p₀.allocSz, rfl⟩ ?_
  rintro s c s' ⟨map, sz, rfl⟩ _ hs
  obtain ⟨map', sz', rfl⟩ := step_frame hs
  exact ⟨map', sz', rfl⟩

/-- A buffer that is returned lies in the pages of the pool. -/
theorem Extended.buffer_inside {K : ZeroAreaSearch} (h : p.Extended) {nbytes : UL}
    (hne : (p.kgpuVmalloc K nbytes).1 ≠ 0) :
    p.kva.toNat ≤ (p.kgpuVmalloc K nbytes).1.toNat ∧
      (p.kgpuVmalloc K nbytes).1.toNat + (reqNunits nbytes).toNat * 2 ^ 20 ≤
        p.kva.toNat + p.npages.toNat * 4096 ∧ 256 ≤ p.npages.toNat := by
  have ho := kgpuVmalloc_outcome K p nbytes
  generalize p.kgpuVmalloc K nbytes = ret at ho hne ⊢
  obtain ⟨ret, p'⟩ := ret
  cases ho with
  | fresh i hfree hi hrun =>
    have hunit := h.mapped.unit_toNat hi
    have hend : (i + (reqNunits nbytes).toNat) * 2 ^ 20 ≤ p.nunits.toNat * 2 ^ 20 :=
      Nat.mul_le_mul_right _ hrun.1
    have hle := h.units_le
    have hn := h.nunits
    change p.kva.toNat ≤ (p.kva + BitVec.ofNat 64 i * bufUnitSize).toNat ∧
      (p.kva + BitVec.ofNat 64 i * bufUnitSize).toNat + _ ≤ _ ∧ _
    rw [hunit]
    refine ⟨Nat.le_add_right _ _, ?_, by omega⟩
    rw [Nat.add_assoc, ← Nat.add_mul]
    exact Nat.add_le_add_left (Nat.le_trans hend hle) _
  | null => exact absurd rfl hne

/-- An empty pool gives all its units out as one buffer, from its first address on. -/
theorem kgpuVmalloc_all (K : ZeroAreaSearch) (hpos : 0 < p.nunits.toNat)
    (hclear : ∀ u < p.nunits.toNat, p.bitmap u = false) :
    (p.kgpuVmalloc K (BitVec.ofNat 64 (p.nunits.toNat * 2 ^ 20))).1 = p.kva ∧
      (reqNunits (BitVec.ofNat 64 (p.nunits.toNat * 2 ^ 20))).toNat = p.nunits.toNat := by
  have hn : p.nunits.toNat < 2 ^ 32 := p.nunits.isLt
  have hreq : (reqNunits (BitVec.ofNat 64 (p.nunits.toNat * 2 ^ 20))).toNat = p.nunits.toNat := by
    have hbytes : (BitVec.ofNat 64 (p.nunits.toNat * 2 ^ 20)).toNat = p.nunits.toNat * 2 ^ 20 := by
      rw [BitVec.toNat_ofNat]
      omega
    rw [reqNunits_toNat (by rw [hbytes, maxBytes]; omega), hbytes]
    omega
  refine ⟨?_, hreq⟩
  have ho := kgpuVmalloc_outcome K p (BitVec.ofNat 64 (p.nunits.toNat * 2 ^ 20))
  generalize p.kgpuVmalloc K _ = ret at ho ⊢
  obtain ⟨ret, p'⟩ := ret
  cases ho with
  | fresh i hfree hi hrun =>
    have hend := hrun.1
    rw [hreq] at hend
    obtain rfl : i = 0 := by omega
    change p.kva + BitVec.ofNat 64 0 * bufUnitSize = p.kva
    rw [BitVec.zero_mul, BitVec.add_zero]
  | null hfull =>
    rw [hreq] at hfull
    exact absurd ⟨by omega, fun u _ hu => hclear u (by omega)⟩ (hfull hpos 0)

/-- The pool has no unit, or is smaller than 4 GiB and ends below the last address, or is
    seen at the same addresses by the helper. -/
def Translatable (p : Mempool) : Prop :=
  p.uva = p.kva ∨ p.npages.toNat < 256 ∨
    p.npages.toNat < 2 ^ 20 ∧ p.kva.toNat + p.npages.toNat * 4096 < 2 ^ 64

theorem Translatable.toUser_eq (ht : p.Translatable)
    (hpos : 256 ≤ p.npages.toNat) (hle : p.kva.toNat ≤ a.toNat)
    (hlt : a.toNat < p.kva.toNat + p.npages.toNat * 4096) : p.toUser a = p.uva + (a - p.kva) := by
  rcases ht with heq | hnone | ⟨hsmall, hend⟩
  · have hself : p.uva + (a - p.kva) = a := rebase_eq_self.mpr heq
    rw [hself, toUser]
    split
    · exact hself
    · rfl
  · omega
  · exact toUser_inside hsmall hend hle hlt

/-- Some address of the units is passed on unless the pool can be translated. -/
theorem Extended.exists_passed (h : p.Extended) (ht : ¬ p.Translatable) :
    p.uva ≠ p.kva ∧ 0 < p.nunits.toNat ∧ ∃ a : UL, p.kva.toNat ≤ a.toNat ∧
      a.toNat < p.kva.toNat + p.nunits.toNat * 2 ^ 20 ∧ p.toUser a = a := by
  have hn := h.nunits
  have hw := h.no_wrap
  have hk : p.kva.toNat < 2 ^ 64 := p.kva.isLt
  simp only [Translatable, not_or, not_and] at ht
  obtain ⟨hne, hpos, hlarge⟩ := ht
  refine ⟨hne, by omega, ?_⟩
  by_cases hsmall : p.npages.toNat < 2 ^ 20
  · -- The computed end is 0, and no address lies below it.
    have hend := hlarge hsmall
    refine ⟨p.kva, Nat.le_refl _, by omega, toUser_beyond ?_⟩
    omega
  · have ha : (BitVec.ofNat 64 (p.kva.toNat + p.npages.toNat * 4096 % 2 ^ 32)).toNat =
        p.kva.toNat + p.npages.toNat * 4096 % 2 ^ 32 := by
      rw [BitVec.toNat_ofNat]
      omega
    refine ⟨BitVec.ofNat 64 (p.kva.toNat + p.npages.toNat * 4096 % 2 ^ 32), ?_, ?_, toUser_beyond ?_⟩
    · omega
    · omega
    · rw [ha]
      exact Nat.mod_le _ _

theorem Extended.pointersTranslated_iff {K : ZeroAreaSearch} (h : p.Extended)
    (hclear : ∀ u < p.nunits.toNat, p.bitmap u = false) :
    PointersTranslated K p ↔ p.Translatable := by
  constructor
  · intro htrans
    by_contra hnot
    obtain ⟨hne, hpos, a, hle, hlt, hraw⟩ := h.exists_passed hnot
    obtain ⟨hret, hreq⟩ := kgpuVmalloc_all K hpos hclear
    obtain ⟨map, sz, hframe⟩ := step_frame (K := K) (p := p)
      (c := .vmalloc (BitVec.ofNat 64 (p.nunits.toNat * 2 ^ 20))) rfl
    have hfield := (htrans [] p .nil { KgpuRequest.constructed 0 with inp := a }).2.2
      (BitVec.ofNat 64 (p.nunits.toNat * 2 ^ 20)) (hret ▸ h.kva_ne)
    rw [hframe, hret, hreq] at hfield
    have heq : p.toUser a = p.uva + (a - p.kva) :=
      hfield (a, p.toUser a) (List.mem_cons_self ..) hle hlt
    rw [hraw] at heq
    exact hne (rebase_eq_self.mp heq.symm)
  · rintro ht cs p' hrun r
    obtain ⟨map, sz, rfl⟩ := run_frame hrun
    refine ⟨copiesRest _ r, fun f hf hout => ?_, fun nbytes hne f hf hle hlt => ?_⟩
    · exact (mem_addressFields hf).trans (toUser_outside hout)
    · have hext : Extended { p with bitmap := map, allocSz := sz } := ⟨h.kva_ne, h.nunits, h.no_wrap⟩
      obtain ⟨hlo, hhi, hpos⟩ := hext.buffer_inside hne
      obtain ⟨map', sz', hframe⟩ := step_frame (K := K) (c := .vmalloc nbytes)
        (p := { p with bitmap := map, allocSz := sz }) rfl
      rw [hframe] at hf ⊢
      rw [mem_addressFields hf]
      exact Translatable.toUser_eq ht hpos (Nat.le_trans hlo hle) (Nat.lt_of_lt_of_le hlt hhi)

end Mempool

/-! ## After a set-up -/

namespace GmPool

variable {e : SetupEnv} {gb : MemInfo} {g g' : GmPool}

theorem SetUp.extended (h : SetUp e gb g g') (hvmap : e.vmap ≠ 0)
    (hwrap : e.vmap.toNat + gb.npages.toNat * 4096 ≤ 2 ^ 64) : g'.toMempool.Extended := by
  refine ⟨h.kva ▸ hvmap, ?_, by rwa [h.kva, h.npages]⟩
  rw [h.nunits, h.npages, MemInfo.nunits, BitVec.toNat_udiv]
  rfl

/-- After a set-up that returned 0 the addresses of every buffer are rebased, and those
    outside the pool passed on, exactly when the pool has no unit, or is smaller than
    4 GiB and ends below the last address, or has the same address for the helper. -/
theorem pool_pointers_translated (K : ZeroAreaSearch) (e : SetupEnv) (gb : MemInfo) (g : GmPool)
    (hret : (g.setGpuMempool e gb).1 = 0)
    (hwrap : e.vmap.toNat + gb.npages.toNat * 4096 ≤ 2 ^ 64) :
    Mempool.PointersTranslated K (g.setGpuMempool e gb).2.toMempool ↔
      gb.uva = e.vmap ∨ gb.npages.toNat < 256 ∨
        gb.npages.toNat < 2 ^ 20 ∧ e.vmap.toNat + gb.npages.toNat * 4096 < 2 ^ 64 := by
  rcases setGpuMempool_outcome e gb g with ⟨hobtained, -, hset⟩ | ⟨-, hne, -⟩
  · have hclear : ∀ u < (g.setGpuMempool e gb).2.nunits.toNat,
        (g.setGpuMempool e gb).2.bitmap u = false := fun u hu => hset.bitmap u (hset.nunits ▸ hu)
    rw [(hset.extended hobtained.vmap hwrap).pointersTranslated_iff hclear, Mempool.Translatable,
      hset.uva, hset.kva, hset.npages]
  · exact absurd hret hne

/-- The pool that the helper sets up: two units. -/
theorem pool_pointers_translated_two_units :
    (Setups.boot.pool.setGpuMempool .plenty ⟨0x1000000, bufSize⟩).1 = 0 ∧
      Mempool.PointersTranslated .firstFit
        (Setups.boot.pool.setGpuMempool .plenty ⟨0x1000000, bufSize⟩).2.toMempool :=
  ⟨rfl, (pool_pointers_translated .firstFit .plenty ⟨0x1000000, bufSize⟩ Setups.boot.pool rfl
    (by decide)).mpr (.inr (.inr ⟨by decide, by decide⟩))⟩

/-- In a pool of 4 GiB the shifted size is 0, and the address of the first buffer is passed
    on to the helper as it is. -/
theorem not_pool_pointers_translated :
    (Setups.boot.pool.setGpuMempool .plenty ⟨0x1000000, 0x100000000⟩).1 = 0 ∧
    ((Setups.boot.pool.setGpuMempool .plenty ⟨0x1000000, 0x100000000⟩).2.kgpuVmalloc
      .firstFit 1).1 = 0x100000 ∧
    (Setups.boot.pool.setGpuMempool .plenty ⟨0x1000000, 0x100000000⟩).2.toUser 0x100000 = 0x100000 ∧
    ¬ Mempool.PointersTranslated .firstFit
      (Setups.boot.pool.setGpuMempool .plenty ⟨0x1000000, 0x100000000⟩).2.toMempool := by
  have hvmalloc : ((Setups.boot.pool.setGpuMempool .plenty ⟨0x1000000, 0x100000000⟩).2.kgpuVmalloc
      .firstFit 1).1 = 0x100000 := by decide
  refine ⟨rfl, hvmalloc, by decide, fun htrans => ?_⟩
  have hfield := (htrans [] _ .nil { KgpuRequest.constructed 0 with inp := 0x100000 }).2.2 1
    (by rw [hvmalloc]; decide) _ (List.mem_cons_self ..)
  rw [hvmalloc] at hfield
  exact absurd (hfield (by decide) (by decide)) (by decide)

end GmPool
end Kgpu
