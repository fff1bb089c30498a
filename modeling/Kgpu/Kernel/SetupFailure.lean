-- SUMMARY: What a `set_gpu_mempool` that returns an error leaves in the pool, at each of its four exits.
import Kgpu.Kernel.Setup

/-!
# Failed set-ups

`set_gpu_mempool` overwrites the fields of the pool one after the other and jumps to
its end where an array cannot be allocated or the frames cannot be mapped. Nothing that
was written before is taken back, unlike in `set_vm`, which resets its records when one
of them cannot be allocated.
-/

namespace Kgpu

open Library

namespace GmPool

variable {e : SetupEnv} {gb : MemInfo} {g g' : GmPool}

/-! ## The pool as the other functions see it -/

/-- The four numbers and the contents of the two records are the same. -/
structure SameObserved (g g' : GmPool) : Prop where
  uva : g'.uva = g.uva
  kva : g'.kva = g.kva
  npages : g'.npages = g.npages
  nunits : g'.nunits = g.nunits
  bitmap : ∀ u < g.nunits.toNat, g'.bitmapAt u = g.bitmapAt u
  allocSz : ∀ i < g.nunits.toNat, g'.allocSzAt i = g.allocSzAt i

/-- The buffers in use, as first unit and number of units. -/
def live (g : GmPool) : Set (Nat × Nat) :=
  {b | b.1 < g.nunits.toNat ∧ 0 < b.2 ∧ (g.allocSzAt b.1).map BitVec.toNat = some b.2}

theorem SameObserved.live (h : SameObserved g g') : g'.live = g.live := by
  ext ⟨i, len⟩
  simp only [GmPool.live, Set.mem_ofPred_eq, h.nunits]
  refine and_congr_right fun hi => and_congr_right fun _ => ?_
  rw [h.allocSz i hi]

theorem SameObserved.fillKuRequest (h : SameObserved g g') (r : KgpuRequest) :
    g'.fillKuRequest r = g.fillKuRequest r := by
  have huser : ∀ a, g'.toUser a = g.toUser a := by
    intro a
    rw [Mempool.toUser, Mempool.byteSize, h.uva, h.kva, h.npages]
    rfl
  simp only [Mempool.fillKuRequest, huser]

/-- Without units every allocation is rejected. -/
theorem kgpuVmalloc_of_no_units (K : ZeroAreaSearch) (hn : g.nunits = 0) (nbytes : UL) :
    (g.kgpuVmalloc K nbytes).1 = 0 := by
  simp [Mempool.kgpuVmalloc, hn]

/-- A call that returns an error leaves the pool as it was: the observable fields, so
    also the buffers in use, the translation of every request, and the rejection of every
    allocation of a unit when there was no unit. -/
def KeepsPool (K : ZeroAreaSearch) (e : SetupEnv) (gb : MemInfo) (g : GmPool) : Prop :=
  (g.setGpuMempool e gb).1 ≠ 0 →
    SameObserved g (g.setGpuMempool e gb).2 ∧
    (g.setGpuMempool e gb).2.live = g.live ∧
    (∀ r, (g.setGpuMempool e gb).2.fillKuRequest r = g.fillKuRequest r) ∧
    (g.nunits = 0 → ∀ nbytes, 0 < (Mempool.reqNunits nbytes).toNat →
      ((g.setGpuMempool e gb).2.kgpuVmalloc K nbytes).1 = 0)

theorem keepsPool_iff {K : ZeroAreaSearch} : KeepsPool K e gb g ↔
    ((g.setGpuMempool e gb).1 ≠ 0 → SameObserved g (g.setGpuMempool e gb).2) := by
  refine imp_congr_right fun _ => ⟨fun h => h.1, fun h => ⟨h, h.live, h.fillKuRequest, ?_⟩⟩
  intro hn nbytes _
  exact kgpuVmalloc_of_no_units K (h.nunits.trans hn) nbytes

/-! ## When nothing observable changes -/

/-- The bytes of entry `i` that `memset` reaches are there and zero. -/
def ZeroedAt (g : GmPool) (i : Nat) : Prop :=
  ∃ w, g.allocSzAt i = some w ∧ ∀ j < 4, 4 * i + j < g.nunits.toNat → byteOf w j = 0

/-- What a call that fails writes before its exit is in the pool already: the address and
    the number of pages, once `pages` is obtained the number of units, once the bitmap is
    obtained a bitmap without a set bit, and once `alloc_sz` is obtained zero bytes and no
    mapping into the kernel. -/
def Written (e : SetupEnv) (gb : MemInfo) (g : GmPool) : Prop :=
  g.uva = gb.uva ∧ g.npages = gb.npages ∧
    (g.pagesCap.isSome ∨ e.pagesMem.isSome → g.nunits = gb.nunits ∧
      (g.bitmapCap.isSome ∨ e.bitmapMem.isSome →
        (∀ u < g.nunits.toNat, g.bitmapAt u = some false) ∧
        (g.allocSzCap.isSome ∨ e.allocSzMem.isSome →
          g.kva = 0 ∧ ∀ i < g.nunits.toNat, g.ZeroedAt i)))

theorem zeroedAt_iff {i : Nat} :
    g.ZeroedAt i ↔ some (memsetZero (g.oldAllocSz e) g.nunits.toNat i) = g.allocSzAt i := by
  unfold ZeroedAt allocSzAt oldAllocSz
  cases g.allocSzCap with
  | none => simp
  | some cap =>
    simp only [Option.map_some, Option.some.injEq, Option.isSome_some, if_true]
    rw [memsetZero_eq_self]
    constructor
    · rintro ⟨w, rfl, hw⟩
      exact hw
    · exact fun hw => ⟨_, rfl, hw⟩

theorem FailedAt.sameObserved_iff (h : FailedAt e gb g g') :
    SameObserved g g' ↔ Written e gb g := by
  unfold Written
  cases h with
  | pages hno hbegun hkva hnunits hbits hsizes =>
    constructor
    · intro hs
      exact ⟨hs.uva.symm.trans hbegun.uva, hs.npages.symm.trans hbegun.npages,
        fun hyes => absurd hyes hno⟩
    · rintro ⟨huva, hnpages, -⟩
      exact ⟨hbegun.uva.trans huva.symm, hkva, hbegun.npages.trans hnpages.symm, hnunits,
        fun u _ => congrFun hbits u, fun i _ => congrFun hsizes i⟩
  | bitmap hpages hno hbegun hkva hnunits hbits hsizes =>
    constructor
    · intro hs
      exact ⟨hs.uva.symm.trans hbegun.uva, hs.npages.symm.trans hbegun.npages,
        fun _ => ⟨hs.nunits.symm.trans hnunits, fun hyes => absurd hyes hno⟩⟩
    · rintro ⟨huva, hnpages, hrest⟩
      obtain ⟨hn, -⟩ := hrest hpages
      exact ⟨hbegun.uva.trans huva.symm, hkva, hbegun.npages.trans hnpages.symm,
        hnunits.trans hn.symm, fun u _ => congrFun hbits u, fun i _ => congrFun hsizes i⟩
  | allocSz hpages hbitmap hno hbegun hkva hnunits hbits hsizes =>
    constructor
    · intro hs
      have hn : g.nunits = gb.nunits := hs.nunits.symm.trans hnunits
      refine ⟨hs.uva.symm.trans hbegun.uva, hs.npages.symm.trans hbegun.npages,
        fun _ => ⟨hn, fun _ => ⟨fun u hu => ?_, fun hyes => absurd hyes hno⟩⟩⟩
      exact (hs.bitmap u hu).symm.trans (hbits u (hn ▸ hu))
    · rintro ⟨huva, hnpages, hrest⟩
      obtain ⟨hn, hrest⟩ := hrest hpages
      obtain ⟨hclear, -⟩ := hrest hbitmap
      refine ⟨hbegun.uva.trans huva.symm, hkva, hbegun.npages.trans hnpages.symm,
        hnunits.trans hn.symm, fun u hu => ?_, fun i _ => congrFun hsizes i⟩
      exact (hbits u (hn ▸ hu)).trans (hclear u hu).symm
  | vmap hpages hbitmap hallocSz hzero hbegun hkva hnunits hbits hsizes =>
    constructor
    · intro hs
      have hn : g.nunits = gb.nunits := hs.nunits.symm.trans hnunits
      refine ⟨hs.uva.symm.trans hbegun.uva, hs.npages.symm.trans hbegun.npages,
        fun _ => ⟨hn, fun _ => ⟨fun u hu => ?_, fun _ => ⟨?_, fun i hi => ?_⟩⟩⟩⟩
      · exact (hs.bitmap u hu).symm.trans (hbits u (hn ▸ hu))
      · exact hs.kva.symm.trans hkva
      · refine (zeroedAt_iff (e := e)).mpr ?_
        rw [hn, ← hsizes i]
        exact hs.allocSz i hi
    · rintro ⟨huva, hnpages, hrest⟩
      obtain ⟨hn, hrest⟩ := hrest hpages
      obtain ⟨hclear, hrest⟩ := hrest hbitmap
      obtain ⟨hk, hzeroed⟩ := hrest hallocSz
      refine ⟨hbegun.uva.trans huva.symm, hkva.trans hk.symm, hbegun.npages.trans hnpages.symm,
        hnunits.trans hn.symm, fun u hu => ?_, fun i hi => ?_⟩
      · exact (hbits u (hn ▸ hu)).trans (hclear u hu).symm
      · rw [hsizes i, ← hn]
        exact zeroedAt_iff.mp (hzeroed i hi)

theorem keepsPool_iff_written {K : ZeroAreaSearch} :
    KeepsPool K e gb g ↔ Obtained e g ∨ Written e gb g := by
  rw [keepsPool_iff]
  rcases setGpuMempool_outcome e gb g with ⟨hobtained, hret, -⟩ | ⟨hnot, hret, hfailed⟩
  · exact iff_of_true (fun h => absurd hret h) (.inl hobtained)
  · rw [or_iff_right hnot, ← hfailed.sameObserved_iff]
    exact ⟨fun h => h hret, fun h _ => h⟩

end GmPool

/-! ## Runs -/

namespace Setups

variable {K : ZeroAreaSearch} {s s' : Setups}

/-- A set-up that fails has written nothing new before its exit. -/
def FailsClean (s : Setups) : SetupStep → Prop
  | .set e gb => GmPool.Obtained e s.pool ∨ GmPool.Written e gb s.pool
  | .vmalloc _ | .vfree _ => True

/-- As above, and every set-up fails. -/
def OnlyFails (s : Setups) (l : SetupStep) : Prop :=
  s.FailsClean l ∧ ∀ e gb, l = .set e gb → ¬ GmPool.Obtained e s.pool

/-- A pool that no set-up has completed keeps its zero units. -/
theorem no_units_step {l : SetupStep} (h : s.pool.nunits = 0) (hok : s.OnlyFails l)
    (hs : s.step K l = some s') : s'.pool.nunits = 0 := by
  cases l with
  | set e gb =>
    cases hs
    have hnot := hok.2 e gb rfl
    rcases GmPool.setGpuMempool_outcome e gb s.pool with ⟨hobtained, -, -⟩ | ⟨-, hret, -⟩
    · exact absurd hobtained hnot
    · have hkeeps := (GmPool.keepsPool_iff_written (K := K)).mpr hok.1
      exact (hkeeps hret).1.nunits.trans h
  | vmalloc nbytes =>
    cases hs
    obtain ⟨map, sz, heq⟩ := Mempool.step_frame (K := K) (p := s.pool.toMempool)
      (c := .vmalloc nbytes) rfl
    exact (congrArg Mempool.nunits heq).trans h
  | vfree ptr =>
    cases hs
    obtain ⟨map, sz, heq⟩ := Mempool.step_frame (K := K) (p := s.pool.toMempool)
      (c := .vfree ptr) rfl
    exact (congrArg Mempool.nunits heq).trans h

/-- A set-up that returns an error leaves a pool as it was exactly when what it writes
    before its exit is in the pool already, for every pool. In every run in which that
    holds of each set-up and none of them returns 0, the pool rejects every allocation of
    a unit. -/
theorem failed_set_up_keeps_pool (K : ZeroAreaSearch) :
    (∀ e gb g, GmPool.KeepsPool K e gb g ↔ GmPool.Obtained e g ∨ GmPool.Written e gb g) ∧
    ∀ ls s nbytes, Run (step K) OnlyFails boot ls s → 0 < (Mempool.reqNunits nbytes).toNat →
      (s.pool.kgpuVmalloc K nbytes).1 = 0 := by
  refine ⟨fun e gb g => GmPool.keepsPool_iff_written, fun ls s nbytes hrun _ => ?_⟩
  refine GmPool.kgpuVmalloc_of_no_units K ?_ nbytes
  exact hrun.invariant (I := fun s => s.pool.nunits = 0) rfl
    fun s l s' h hok hs => no_units_step h hok hs

/-- A call for which there is no memory at all. -/
def outOfMemory : SetupEnv :=
  { SetupEnv.plenty with pagesMem := none, bitmapMem := none, allocSzMem := none }

/-- A call for which only `vmap` fails. -/
def unmappable : SetupEnv := { SetupEnv.plenty with vmap := 0 }

/-- Without memory, a first set-up for the address and the number of pages that the pool
    has when the module is loaded changes nothing. -/
theorem failed_set_up_keeps_pool_out_of_memory :
    GmPool.KeepsPool .firstFit outOfMemory ⟨0, 0⟩ boot.pool ∧
    ∃ s, Run (step .firstFit) OnlyFails boot [.set outOfMemory ⟨0, 0⟩, .vmalloc 1] s ∧
      s.ret = some Kernel.eNOMEM ∧ (s.pool.kgpuVmalloc .firstFit 1).1 = 0 := by
  have hwritten : GmPool.Written outOfMemory ⟨0, 0⟩ boot.pool :=
    ⟨rfl, rfl, fun h => absurd h (by decide)⟩
  have hnot : ¬ GmPool.Obtained outOfMemory boot.pool := fun h => absurd h.pages (by decide)
  have hrun : Run (step .firstFit) OnlyFails boot [.set outOfMemory ⟨0, 0⟩, .vmalloc 1] _ :=
    Run.of_along rfl ⟨⟨.inr hwritten, by rintro e gb ⟨⟩; exact hnot⟩, ⟨trivial, nofun⟩, trivial⟩
  exact ⟨((failed_set_up_keeps_pool .firstFit).1 _ _ _).mpr (.inr hwritten), _, hrun, rfl,
    (failed_set_up_keeps_pool .firstFit).2 _ _ 1 hrun (by decide)⟩

/-- With a buffer in use, a second set-up for which `vmap` fails clears the bit of the
    buffer and leaves no address to translate from. After a first set-up that fails so,
    the second allocation returns an address that nothing is mapped at. -/
theorem not_failed_set_up_keeps_pool :
    (∃ s, Run (step .firstFit) Free boot [.set .plenty ⟨0x1000000, 0x200000⟩, .vmalloc 1] s ∧
      ¬ GmPool.KeepsPool .firstFit unmappable ⟨0x1000000, 0x200000⟩ s.pool ∧
      (0, 1) ∈ s.pool.live ∧ s.pool.toUser 0x100000 = 0x1000000 ∧
      ∃ s', s.step .firstFit (.set unmappable ⟨0x1000000, 0x200000⟩) = some s' ∧
        s'.ret = some Kernel.eFAULT ∧ s'.pool.kva = 0 ∧ s'.pool.bitmap 0 = false ∧
        (0, 1) ∉ s'.pool.live ∧ s'.pool.toUser 0x100000 = 0x1100000) ∧
    ∃ s, Run (step .firstFit) Free boot
        [.set unmappable ⟨0x1000000, 0x200000⟩, .vmalloc 1] s ∧
      s.ret = some Kernel.eFAULT ∧ (s.pool.kgpuVmalloc .firstFit 1).1 = 0x100000 := by
  refine ⟨⟨_, Run.of_exec rfl, fun h => ?_, ⟨by decide, by decide, rfl⟩, by decide, _, rfl, rfl, rfl,
    rfl, fun h => ?_, by decide⟩, _, Run.of_exec rfl, rfl, by decide⟩
  · exact absurd (h (by decide)).1.kva (by decide)
  · exact absurd h.2.2 (by decide)

end Setups
end Kgpu
