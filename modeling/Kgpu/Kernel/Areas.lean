-- SUMMARY: Clients of the mmap area and the byte ranges they own.
import Kgpu.Kernel.Vma
import Kgpu.Kernel.Ownership

/-!
# Ownership of mmap areas

A client of `kgpu_alloc_mmap_area` takes it that the bytes from the address it is given
are its own until it gives the area back, as a client of `kgpu_vmalloc` does.
-/

namespace Kgpu

open Library

namespace Vma

/-- For the sizes up to `KGPU_BUF_SIZE` the count is the number of pages that hold the
    bytes. -/
theorem reqPages_toNat {size : UL} (hle : size.toNat ≤ bufSize.toNat) :
    (reqPages size).toNat = (size.toNat + 4095) / 4096 := by
  rw [bufSize_toNat] at hle
  have hpage : pageSize.toNat = 4096 := rfl
  have hsum : (size + pageSize - 1).toNat = size.toNat + 4095 := by
    rw [BitVec.toNat_sub, BitVec.toNat_add, hpage, show (1 : UL).toNat = 1 from rfl]
    omega
  rw [reqPages, divRoundUp, BitVec.toNat_setWidth, BitVec.toNat_udiv, hsum, hpage]
  omega

end Vma

/-- The area together with what was given out of it and not given back since. -/
structure AreaClients where
  vma : Vma
  live : List Buffer

inductive AreaOp where
  | alloc (size : UL)
  | free (b : Buffer)

namespace AreaClients

/-- Any size may be asked for; what is given back is live and is not so afterwards. -/
def step (K : ZeroAreaSearch) (c : AreaClients) : AreaOp → Option AreaClients
  | .alloc size =>
    let (ret, vma) := c.vma.kgpuAllocMmapArea K size
    some ⟨vma, if ret = 0 then c.live else ⟨ret, size⟩ :: c.live⟩
  | .free b =>
    if b ∈ c.live then some ⟨(c.vma.kgpuFreeMmapArea b.addr).2, c.live.erase b⟩ else none

/-- The area `b` begins at page `i` and the recorded size holds its bytes. -/
def PlacedAt (v : Vma) (b : Buffer) (i : Nat) : Prop :=
  i < v.npages.toNat ∧ b.addr.toNat = v.start.toNat + i * 4096 ∧ 0 < v.size i ∧
    b.nbytes.toNat ≤ v.size i * 4096

structure Owned (c : AreaClients) : Prop where
  tiled : c.vma.Tiled
  inside : c.vma.Inside
  placed : ∀ b ∈ c.live, ∃ i, PlacedAt c.vma b i
  distinct : c.live.Pairwise fun b b' => b.addr ≠ b'.addr

variable {c c' : AreaClients} {K : ZeroAreaSearch}

/-- The live areas as blocks of the whole one. -/
theorem Owned.blocks (h : c.Owned) :
    Placed c.vma.npages.toNat c.vma.start.toNat 4096 c.vma.size (fun b => b.addr.toNat)
      (fun b => b.nbytes.toNat) c.live :=
  ⟨h.placed, h.distinct.imp fun hne heq => hne (BitVec.eq_of_toNat_eq heq)⟩

theorem Owned.of_blocks (htiled : c.vma.Tiled) (hinside : c.vma.Inside)
    (h : Placed c.vma.npages.toNat c.vma.start.toNat 4096 c.vma.size (fun b => b.addr.toNat)
      (fun b => b.nbytes.toNat) c.live) : c.Owned :=
  ⟨htiled, hinside, h.placed, h.distinct.imp fun hne heq => hne (congrArg BitVec.toNat heq)⟩

theorem Owned.within (h : c.Owned) {b : Buffer} (hb : b ∈ c.live) :
    c.vma.start.toNat ≤ b.addr.toNat ∧ b.addr.toNat + b.nbytes.toNat ≤ c.vma.end_.toNat := by
  obtain ⟨i, hp⟩ := h.placed b hb
  obtain ⟨hlo, hhi⟩ := BlockAt.inside hp (h.tiled.inside i hp.1)
  exact ⟨hlo, hhi.trans h.inside⟩

/-- Two live areas with a byte in common are one. -/
theorem Owned.disjoint (h : c.Owned) {b b' : Buffer} (hb : b ∈ c.live) (hb' : b' ∈ c.live)
    {a : Nat} (ha : b.Byte a) (ha' : b'.Byte a) : b = b' :=
  h.blocks.eq_of_common h.tiled (by decide) hb hb' ha ha'

theorem Owned.alloc (h : c.Owned) {size : UL} (hpos : 0 < size.toNat)
    (hle : size.toNat ≤ bufSize.toNat) :
    Owned ⟨(c.vma.kgpuAllocMmapArea K size).2,
      if (c.vma.kgpuAllocMmapArea K size).1 = 0 then c.live
      else ⟨(c.vma.kgpuAllocMmapArea K size).1, size⟩ :: c.live⟩ := by
  have ho := Vma.kgpuAllocMmapArea_outcome K c.vma size
  have htiled := ho.tiled h.tiled
  have hinside := ho.inside h.inside
  have hreq := Vma.reqPages_toNat hle
  generalize (c.vma.kgpuAllocMmapArea K size).1 = ret at ho ⊢
  generalize (c.vma.kgpuAllocMmapArea K size).2 = vma at ho htiled hinside ⊢
  cases ho with
  | null => simpa using h
  | fresh i hfree hi hrun =>
    have hzero := Tiling.size_eq_zero h.tiled hi hfree
    refine Owned.of_blocks htiled hinside ?_
    simp only [Vma.size_update]
    split
    next => exact h.blocks.record hzero
    next =>
      refine h.blocks.cons (by decide) hzero ⟨hi, h.inside.page_toNat hi, ?_, ?_⟩ <;>
        simp only [Function.update_self] <;> omega

theorem Owned.free (h : c.Owned) {b : Buffer} (hb : b ∈ c.live) :
    Owned ⟨(c.vma.kgpuFreeMmapArea b.addr).2, c.live.erase b⟩ := by
  have ho := h.tiled.kgpuFreeMmapArea_outcome b.addr
  have htiled := ho.tiled h.tiled
  have hinside := ho.inside h.inside
  obtain ⟨i, hp⟩ := h.placed b hb
  have hpage : c.vma.pageOf b.addr = i := Vma.pageOf_eq hp.2.1
  generalize (c.vma.kgpuFreeMmapArea b.addr).1 = e at ho
  generalize (c.vma.kgpuFreeMmapArea b.addr).2 = vma at ho htiled hinside ⊢
  cases ho with
  | released =>
    refine Owned.of_blocks htiled hinside ?_
    simp only [Vma.size_update, hpage]
    exact h.blocks.erase hb hp
  | ignored _ _ hnone =>
    rw [hpage] at hnone
    exact absurd (hnone hp.1) (Nat.ne_of_gt hp.2.2.1)

/-- The areas stay owned when what is asked for is between 1 and `KGPU_BUF_SIZE` bytes,
    and the area they are taken from stays where it is. -/
theorem Owned.step {op : AreaOp} (h : c.Owned)
    (hsize : ∀ size, op = .alloc size → 0 < size.toNat ∧ size.toNat ≤ bufSize.toNat)
    (hs : c.step K op = some c') :
    c'.Owned ∧ c'.vma.start = c.vma.start ∧ c'.vma.end_ = c.vma.end_ := by
  cases op with
  | alloc size =>
    simp only [AreaClients.step, Option.some.injEq] at hs
    subst hs
    obtain ⟨hpos, hle⟩ := hsize size rfl
    refine ⟨h.alloc hpos hle, ?_⟩
    have ho := Vma.kgpuAllocMmapArea_outcome K c.vma size
    simp only
    generalize (c.vma.kgpuAllocMmapArea K size).1 = ret at ho
    generalize (c.vma.kgpuAllocMmapArea K size).2 = vma at ho ⊢
    cases ho <;> exact ⟨rfl, rfl⟩
  | free b =>
    simp only [AreaClients.step] at hs
    split at hs <;> cases hs
    next hb =>
    refine ⟨h.free hb, ?_⟩
    have ho := h.tiled.kgpuFreeMmapArea_outcome b.addr
    simp only
    generalize (c.vma.kgpuFreeMmapArea b.addr).1 = e at ho
    generalize (c.vma.kgpuFreeMmapArea b.addr).2 = vma at ho ⊢
    cases ho <;> exact ⟨rfl, rfl⟩

end AreaClients
end Kgpu
