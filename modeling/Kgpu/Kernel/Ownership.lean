-- SUMMARY: Clients of the buffer pool: which byte ranges they own, and when an allocation really reserves the bytes it was asked for.
import Kgpu.Kernel.Pool

/-!
# Ownership of buffer bytes

A client gets a pointer from `kgpu_vmalloc(nbytes)` and takes it that the bytes
`[p, p + nbytes)` are its own until it frees `p`. The unit count goes through a
64-bit round-up that can wrap and is then cut to 32 bits, so this holds exactly
for the sizes whose unit count survives both, and that are not zero.
-/

namespace Kgpu

open Library

namespace Mempool

/-- The largest size whose unit count fits `unsigned int`. -/
def maxBytes : Nat := (2 ^ 32 - 1) * 2 ^ 20

/-- For the sizes from 1 to `maxBytes` the count is the number of units that
    hold the bytes. -/
theorem reqNunits_toNat {nbytes : UL} (hle : nbytes.toNat ≤ maxBytes) :
    (reqNunits nbytes).toNat = (nbytes.toNat + (2 ^ 20 - 1)) / 2 ^ 20 := by
  unfold maxBytes at hle
  have hsum : (nbytes + bufUnitSize - 1).toNat = nbytes.toNat + (2 ^ 20 - 1) := by
    rw [BitVec.toNat_sub, BitVec.toNat_add, bufUnitSize_toNat, show (1 : UL).toNat = 1 from rfl]
    omega
  rw [reqNunits, divRoundUp, BitVec.toNat_setWidth, BitVec.toNat_udiv, hsum, bufUnitSize_toNat]
  exact Nat.mod_eq_of_lt (by omega)

end Mempool

/-! ## Clients -/

/-- A buffer a client was given: its address and the size asked for. -/
structure Buffer where
  addr : UL
  nbytes : UL
  deriving DecidableEq

/-- The pool together with the buffers given out and not freed since. -/
structure Clients where
  pool : Mempool
  live : List Buffer

inductive ClientOp where
  | vmalloc (nbytes : UL)
  | vfree (b : Buffer)

namespace Clients

/-- Any allocation may be asked for; a free is of a live buffer and ends its
    life. -/
def step (K : ZeroAreaSearch) (c : Clients) : ClientOp → Option Clients
  | .vmalloc nbytes =>
    let (ret, pool) := c.pool.kgpuVmalloc K nbytes
    some ⟨pool, if ret = 0 then c.live else ⟨ret, nbytes⟩ :: c.live⟩
  | .vfree b =>
    if b ∈ c.live then some ⟨(c.pool.kgpuVfree b.addr).2, c.live.erase b⟩ else none

end Clients

/-- The address `a` is a byte of `b`. -/
def Buffer.Byte (b : Buffer) (a : Nat) : Prop :=
  b.addr.toNat ≤ a ∧ a < b.addr.toNat + b.nbytes.toNat

namespace Clients

/-- Every live buffer lies in the pool, no two of them share an address or a
    byte, and every unit that a live buffer touches is marked. -/
structure Exclusive (c : Clients) : Prop where
  inside : ∀ b ∈ c.live, c.pool.kva.toNat ≤ b.addr.toNat ∧
    b.addr.toNat + b.nbytes.toNat ≤ c.pool.kva.toNat + c.pool.nunits.toNat * 2 ^ 20
  disjoint : c.live.Pairwise fun b b' => b.addr ≠ b'.addr ∧ ∀ a, ¬ (b.Byte a ∧ b'.Byte a)
  marked : ∀ b ∈ c.live, ∀ a, b.Byte a → c.pool.bitmap ((a - c.pool.kva.toNat) / 2 ^ 20) = true

/-! ## The invariant -/

/-- The buffer `b` begins at unit `i` and the recorded size holds its bytes. -/
def PlacedAt (p : Mempool) (b : Buffer) (i : Nat) : Prop :=
  i < p.nunits.toNat ∧ b.addr.toNat = p.kva.toNat + i * 2 ^ 20 ∧ 0 < p.size i ∧
    b.nbytes.toNat ≤ p.size i * 2 ^ 20

structure Owned (c : Clients) : Prop where
  tiled : c.pool.Tiled
  mapped : c.pool.Mapped
  placed : ∀ b ∈ c.live, ∃ i, PlacedAt c.pool b i
  distinct : c.live.Pairwise fun b b' => b.addr ≠ b'.addr

/-- The live buffers as blocks of the pool. -/
theorem Owned.blocks {c : Clients} (h : c.Owned) :
    Placed c.pool.nunits.toNat c.pool.kva.toNat (2 ^ 20) c.pool.size (fun b => b.addr.toNat)
      (fun b => b.nbytes.toNat) c.live :=
  ⟨h.placed, h.distinct.imp fun hne heq => hne (BitVec.eq_of_toNat_eq heq)⟩

theorem Owned.of_blocks {c : Clients} (htiled : c.pool.Tiled) (hmapped : c.pool.Mapped)
    (h : Placed c.pool.nunits.toNat c.pool.kva.toNat (2 ^ 20) c.pool.size (fun b => b.addr.toNat)
      (fun b => b.nbytes.toNat) c.live) : c.Owned :=
  ⟨htiled, hmapped, h.placed, h.distinct.imp fun hne heq => hne (congrArg BitVec.toNat heq)⟩

theorem PlacedAt.unitOf {p : Mempool} {b : Buffer} {i : Nat} (h : PlacedAt p b i)
    (hm : p.Mapped) : p.unitOf b.addr = i := by
  obtain ⟨hi, haddr, -⟩ := h
  exact (hm.unitOf_eq_iff hi).mpr (by omega)

/-- A live buffer is released, whatever is recorded for other units. -/
theorem kgpuVfree_live {p : Mempool} {b : Buffer} {i : Nat} (hm : p.Mapped)
    (hp : PlacedAt p b i) (hin : i + p.size i ≤ p.nunits.toNat) :
    (p.kgpuVfree b.addr).2 = { p with
      bitmap := p.bitmap.clear i (p.size i), allocSz := Function.update p.allocSz i 0 } := by
  have hunit := hp.unitOf hm
  obtain ⟨hi, -, hpos, -⟩ := hp
  have hne : p.allocSz i ≠ 0 := by
    rintro h0
    rw [Mempool.size, h0] at hpos
    cases hpos
  unfold Mempool.size at hin
  simp only [Mempool.kgpuVfree, hunit]
  rw [if_neg (by omega), if_neg hne, if_neg (by omega)]
  rfl

theorem Owned.exclusive {c : Clients} (h : c.Owned) : c.Exclusive where
  inside b hb := by
    obtain ⟨i, hp⟩ := h.placed b hb
    exact BlockAt.inside hp (h.tiled.inside i hp.1)
  disjoint := by
    refine h.distinct.imp_of_mem fun {b b'} hb hb' hne => ⟨hne, ?_⟩
    rintro a ⟨ha, ha'⟩
    exact hne (congrArg Buffer.addr (h.blocks.eq_of_common h.tiled (by decide) hb hb' ha ha'))
  marked b hb a ha := by
    obtain ⟨i, hp⟩ := h.placed b hb
    have hcov := BlockAt.covers hp (by decide) ha
    have hin := h.tiled.inside i hp.1
    have hlt : (a - c.pool.kva.toNat) / 2 ^ 20 < c.pool.nunits.toNat := by
      have := hcov.2
      omega
    exact (h.tiled.marked _ hlt).mpr ⟨i, hp.1, hcov⟩

/-! ## Runs -/

/-- What an allocation has to meet: a size whose unit count is right, or a pool
    in which the count the code computes is nowhere free. -/
def Sound (c : Clients) : ClientOp → Prop
  | .vmalloc nbytes => (0 < nbytes.toNat ∧ nbytes.toNat ≤ Mempool.maxBytes) ∨
      ∀ i < c.pool.nunits.toNat,
        c.pool.bitmap i = true ∨ ¬ c.pool.FreeRun i (Mempool.reqNunits nbytes).toNat
  | .vfree _ => True

theorem Owned.vmalloc {K : ZeroAreaSearch} {c : Clients} {nbytes : UL} (h : c.Owned)
    (hsound : c.Sound (.vmalloc nbytes)) :
    Owned ⟨(c.pool.kgpuVmalloc K nbytes).2,
      if (c.pool.kgpuVmalloc K nbytes).1 = 0 then c.live
      else ⟨(c.pool.kgpuVmalloc K nbytes).1, nbytes⟩ :: c.live⟩ := by
  have ho := Mempool.kgpuVmalloc_outcome K c.pool nbytes
  have htiled := ho.tiled h.tiled
  revert ho htiled
  generalize (c.pool.kgpuVmalloc K nbytes).1 = ret
  generalize (c.pool.kgpuVmalloc K nbytes).2 = pool
  intro ho htiled
  cases ho with
  | null => simpa using h
  | fresh i hfree hi hrun =>
    simp only [h.mapped.unit_ne_null hi, if_false]
    -- The area was found, so the size is one whose unit count is right.
    have hbytes : 0 < nbytes.toNat ∧ nbytes.toNat ≤ Mempool.maxBytes := by
      rcases hsound with hbytes | hnone
      · exact hbytes
      · rcases hnone i hi with hset | hno
        · simp [hfree] at hset
        · exact absurd hrun hno
    have hreq := Mempool.reqNunits_toNat hbytes.2
    refine Owned.of_blocks htiled ⟨h.mapped.kva_ne, h.mapped.no_wrap⟩ ?_
    simp only [Mempool.size_update]
    refine h.blocks.cons (by decide) (Tiling.size_eq_zero h.tiled hi hfree) ?_
    refine ⟨hi, h.mapped.unit_toNat hi, ?_, ?_⟩ <;> simp only [Function.update_self] <;> omega

theorem Owned.vfree {c : Clients} {b : Buffer} (h : c.Owned) (hb : b ∈ c.live) :
    Owned ⟨(c.pool.kgpuVfree b.addr).2, c.live.erase b⟩ := by
  have htiled := (h.tiled.kgpuVfree_outcome b.addr).tiled h.tiled
  obtain ⟨i, hp⟩ := h.placed b hb
  rw [kgpuVfree_live h.mapped hp (h.tiled.inside i hp.1)] at htiled ⊢
  refine Owned.of_blocks htiled ⟨h.mapped.kva_ne, h.mapped.no_wrap⟩ ?_
  simp only [Mempool.size_update]
  exact h.blocks.erase hb hp

theorem Owned.step {K : ZeroAreaSearch} {c c' : Clients} {op : ClientOp} (h : c.Owned)
    (hsound : c.Sound op) (hs : c.step K op = some c') : c'.Owned := by
  cases op with
  | vmalloc nbytes =>
    simp only [Clients.step, Option.some.injEq] at hs
    subst hs
    exact h.vmalloc hsound
  | vfree b =>
    simp only [Clients.step] at hs
    split at hs
    · rename_i hb
      cases hs
      exact h.vfree hb
    · cases hs

/-- A step of a client does not move or resize the pool. -/
theorem step_frame {K : ZeroAreaSearch} {c c' : Clients} {op : ClientOp}
    (hs : c.step K op = some c') :
    ∃ map sz, c'.pool = { c.pool with bitmap := map, allocSz := sz } := by
  cases op with
  | vmalloc nbytes =>
    cases hs
    exact @Mempool.step_frame K _ _ (.vmalloc nbytes) rfl
  | vfree b =>
    simp only [Clients.step] at hs
    split at hs <;> cases hs
    exact @Mempool.step_frame K _ _ (.vfree b.addr) rfl

/-- In every run whose allocations ask for 1 to `maxBytes` bytes (or find no
    area), by clients that free what they were given and only once, the buffers
    given out are the exclusive owners of their bytes in every state reached. -/
theorem live_buffers_exclusive (K : ZeroAreaSearch) {p₀ : Mempool} {c : Clients}
    {ops : List ClientOp} (hblank : p₀.Blank) (hm : p₀.Mapped)
    (hrun : Run (step K) Sound ⟨p₀, []⟩ ops c) : c.Exclusive := by
  have hinit : Owned ⟨p₀, []⟩ := ⟨hblank.tiled, hm, by simp, .nil⟩
  exact (hrun.invariant hinit fun _ _ _ h hsound hs => h.step hsound hs).exclusive

/-- Two buffers of different sizes in a pool of three units, the first freed. -/
theorem live_buffers_exclusive_three_units :
    ∃ c, Run (step .firstFit) Sound ⟨.empty 0x100000 3, []⟩
        [.vmalloc 5, .vmalloc 0x100001, .vfree ⟨0x100000, 5⟩] c ∧
      c.live = [⟨0x200000, 0x100001⟩] ∧ c.Exclusive := by
  have hrun : Run (step .firstFit) Sound ⟨.empty 0x100000 3, []⟩
      [.vmalloc 5, .vmalloc 0x100001, .vfree ⟨0x100000, 5⟩] _ :=
    .snoc (.snoc (.snoc .nil (.inl (by decide)) rfl) (.inl (by decide)) rfl) trivial rfl
  exact ⟨_, hrun, by decide, live_buffers_exclusive .firstFit (Mempool.empty_blank 0x100000 3)
    ⟨by decide, by decide⟩ hrun⟩

/-- Without the condition the buffers are not exclusive: an allocation of
    2^64 - 1 bytes computes no unit at all and is answered with the address of a
    free unit, and two allocations of no bytes get the same address. -/
theorem not_live_buffers_exclusive :
    (∃ c, Run (step .firstFit) Free ⟨.empty 0x100000 2, []⟩ [.vmalloc (BitVec.allOnes 64)] c ∧
      c.live = [⟨0x100000, BitVec.allOnes 64⟩] ∧ ¬ c.Exclusive) ∧
    (∃ c, Run (step .firstFit) Free ⟨.empty 0x100000 2, []⟩ [.vmalloc 0, .vmalloc 0] c ∧
      c.live = [⟨0x100000, 0⟩, ⟨0x100000, 0⟩] ∧ ¬ c.Exclusive) := by
  refine ⟨⟨_, Run.of_exec rfl, by decide, fun h => ?_⟩, ⟨_, Run.of_exec rfl, by decide, fun h => ?_⟩⟩
  · exact absurd (h.inside ⟨0x100000, BitVec.allOnes 64⟩ (by decide)).2 (by decide)
  · have hp : ([⟨0x100000, 0⟩, ⟨0x100000, 0⟩] : List Buffer).Pairwise
        fun b b' => b.addr ≠ b'.addr ∧ ∀ a, ¬ (b.Byte a ∧ b'.Byte a) := h.disjoint
    simp at hp

/-! ## Records that nobody reads -/

/-- The recorded sizes, less those at units where no live buffer begins. -/
def liveSz (units : List Nat) (sz : Nat → U32) (i : Nat) : U32 :=
  if i ∈ units then sz i else 0

theorem liveSz_update {units units' : List Nat} {sz : Nat → U32} {i : Nat} {k : U32}
    (hi : i ∈ units' ∨ k = 0) (hother : ∀ j, j ≠ i → (j ∈ units' ↔ j ∈ units)) :
    liveSz units' (Function.update sz i k) = Function.update (liveSz units sz) i k := by
  funext j
  by_cases hj : j = i
  · subst hj
    rw [liveSz, Function.update_self, Function.update_self]
    split
    next => rfl
    next hno => exact (hi.resolve_left hno).symm
  · rw [liveSz, Function.update_of_ne hj, Function.update_of_ne hj, liveSz]
    simp only [hother j hj]

/-- The units at which the live buffers begin. -/
def units (c : Clients) : List Nat := c.live.map fun b => c.pool.unitOf b.addr

/-- The clients with a pool that records nothing but the live buffers. -/
def clean (c : Clients) : Clients :=
  { c with pool := { c.pool with allocSz := liveSz c.units c.pool.allocSz } }

theorem step_clean_vmalloc {K : ZeroAreaSearch} {c c' : Clients} {nbytes : UL}
    (hm : c.pool.Mapped) (hs : c.step K (.vmalloc nbytes) = some c') :
    c.clean.step K (.vmalloc nbytes) = some c'.clean := by
  simp only [step, Option.some.injEq] at hs
  subst hs
  simp only [step, clean, Mempool.kgpuVmalloc]
  by_cases hi : K.find c.pool.bitmap c.pool.nunits.toNat 0 (Mempool.reqNunits nbytes).toNat 0 <
      c.pool.nunits.toNat
  · have hunit := (hm.unitOf_eq_iff hi).mpr ⟨(hm.unit_toNat hi).ge, by rw [hm.unit_toNat hi]; omega⟩
    simp only [hi, if_true, hm.unit_ne_null hi, if_false]
    rw [@liveSz_update c.units]
    · exact .inl (List.mem_map.mpr ⟨_, List.mem_cons_self, hunit⟩)
    · intro j hj
      change j ∈ c.pool.unitOf _ :: c.units ↔ _
      rw [hunit, List.mem_cons, or_iff_right hj]
  · simp only [hi, if_false, if_true]

theorem step_clean_vfree {K : ZeroAreaSearch} {c c' : Clients} {b : Buffer} (h : c.clean.Owned)
    (hs : c.step K (.vfree b) = some c') : c.clean.step K (.vfree b) = some c'.clean := by
  simp only [step] at hs
  split at hs <;> cases hs
  next hb =>
  obtain ⟨i, hp⟩ := h.placed b hb
  have hin := h.tiled.inside i hp.1
  have hm : c.pool.Mapped := ⟨h.mapped.kva_ne, h.mapped.no_wrap⟩
  have hunit : c.pool.unitOf b.addr = i := hp.unitOf h.mapped
  have hsz : c.clean.pool.size i = c.pool.size i := by
    simp only [Mempool.size, clean, liveSz, units]
    rw [if_pos (List.mem_map.mpr ⟨b, hb, hunit⟩)]
  have hp' : PlacedAt c.pool b i := ⟨hp.1, hp.2.1, hsz ▸ hp.2.2.1, hsz ▸ hp.2.2.2⟩
  have hstep : c.clean.step K (.vfree b) =
      some ⟨(c.clean.pool.kgpuVfree b.addr).2, c.live.erase b⟩ := if_pos hb
  rw [hstep, kgpuVfree_live h.mapped hp hin, kgpuVfree_live hm hp' (hsz ▸ hin), hsz]
  simp only [clean]
  rw [@liveSz_update c.units _ _ _ _ (.inr rfl)]
  intro j hj
  -- Only the freed buffer may have begun at its unit.
  constructor
  · intro hm
    obtain ⟨b', hb', hj'⟩ := List.mem_map.mp hm
    exact List.mem_map.mpr ⟨b', List.mem_of_mem_erase hb', hj'⟩
  · intro hm
    obtain ⟨b', hb', hj'⟩ := List.mem_map.mp hm
    have hne : b' ≠ b := by
      rintro rfl
      exact hj (hj'.symm.trans hunit)
    exact List.mem_map.mpr ⟨b', (List.mem_erase_of_ne hne).mpr hb', hj'⟩

theorem clean_step {K : ZeroAreaSearch} {c c' : Clients} {op : ClientOp} (h : c.clean.Owned)
    (hs : c.step K op = some c') : c.clean.step K op = some c'.clean := by
  cases op with
  | vmalloc nbytes => exact step_clean_vmalloc ⟨h.mapped.kva_ne, h.mapped.no_wrap⟩ hs
  | vfree b => exact step_clean_vfree h hs

/-- A pool without a marked unit may have any sizes recorded when the clients come. -/
theorem clean_owned {p : Mempool} (hm : p.Mapped)
    (hfree : ∀ u < p.nunits.toNat, p.bitmap u = false) : (clean ⟨p, []⟩).Owned := by
  have hblank : (clean ⟨p, []⟩).pool.Blank := ⟨hfree, fun _ _ => rfl⟩
  exact ⟨hblank.tiled, ⟨hm.kva_ne, hm.no_wrap⟩, nofun, .nil⟩

end Clients
end Kgpu
