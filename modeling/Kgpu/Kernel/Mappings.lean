-- SUMMARY: The page-table entries of the mmap area stay inside the areas in use, unless an area is freed while it has entries or is shorter than what was asked for.
import Kgpu.Kernel.Ownership
import Kgpu.Kernel.Vma

/-!
# The page-table entries of the mmap area

The bitmap says which pages of the area are handed out, the page table which of them
have an entry. `kgpu_unmap_area` gives an area back and removes its entries.
`kgpu_free_mmap_area` only gives it back, and `vm_insert_page` refuses a page that has an
entry, so that a later mapping of the same pages can fail.

What a client holds goes by the size that it has asked for. The page count of a size from
2^44 - 4096 bytes on is cut to an `unsigned int`, and `DIV_ROUND_UP` wraps for the
largest ones, so that the area can be shorter than its client supposes.
-/

namespace Kgpu

open Library

/-- The entries of the page table, by page number. -/
abbrev PageTable := Nat → Option Frame

namespace Vma

/-- `vm_insert_page`: it succeeds exactly on an address of the area without an entry. -/
def vmInsertPage (v : Vma) (addr : UL) (f : Frame) (ptes : PageTable) : Int × PageTable :=
  if v.start ≤ addr ∧ addr < v.end_ ∧ ptes (addr.toNat / 4096) = none then
    (0, Function.update ptes (addr.toNat / 4096) (some f))
  else (-16, ptes)

/-- `zap_vma_ptes`: every entry of the range goes. -/
def zapVmaPtes (addr : UL) (len : U32) (ptes : PageTable) : PageTable :=
  fun p => if addr.toNat / 4096 ≤ p ∧ p * 4096 < addr.toNat + len.toNat then none else ptes p

/-- The largest size whose page count is an `unsigned int`. -/
def maxBytes : Nat := (2 ^ 32 - 1) * 4096

/-- `kgpu_map_pages`. -/
def kgpuMapPages (K : ZeroAreaSearch) (v : Vma) (ptes : PageTable) (pages : Nat → Frame)
    (n : BitVec 32) : UL × Vma × PageTable :=
  v.mapPageUnits K (fun addr i => v.vmInsertPage addr (pages i)) ptes n

/-- `kgpu_map_pfns`: a page frame is named by its number here. -/
def kgpuMapPfns (K : ZeroAreaSearch) (v : Vma) (ptes : PageTable) (pfns : Nat → Frame)
    (n : BitVec 32) : UL × Vma × PageTable :=
  v.mapPageUnits K (fun addr i => v.vmInsertPage addr (pfns i)) ptes n

end Vma

/-- The number of pages that the size asked for needs. -/
def Buffer.pages (b : Buffer) : Nat := (b.nbytes.toNat + 4095) / 4096

/-- The area, its page table, the addresses that were given to clients and the areas that
    were not given back since, with the sizes asked for. -/
structure Mappings where
  vma : Vma
  ptes : PageTable
  given : List UL
  held : List Buffer

inductive MapStep where
  | alloc (size : UL)
  | mapPage (f : Frame) (addr : UL)
  | mapPages (pages : Nat → Frame) (n : BitVec 32)
  | mapPfns (pfns : Nat → Frame) (n : BitVec 32)
  | free (addr : UL)
  | unmap (addr : UL)

namespace Mappings

/-- The address is in an area that a client holds. -/
def holds (s : Mappings) (addr : UL) : Bool :=
  s.held.any fun b => decide (b.addr.toNat ≤ addr.toNat ∧
    addr.toNat < b.addr.toNat + b.pages * 4096)

/-- A client that has asked for `size` bytes is given the address `ret`, or `NULL`. -/
def give (s : Mappings) (ret size : UL) : Mappings :=
  if ret = 0 then s else { s with given := ret :: s.given, held := ⟨ret, size⟩ :: s.held }

/-- The area at the address is not held any more. -/
def drop (s : Mappings) (addr : UL) : Mappings :=
  { s with held := s.held.filter fun b => b.addr != addr }

/-- The client rules: pages are mapped one by one into an area that is held, `n` pages at
    a time for counts that fit the area, and what is given back was given out. -/
def step (K : ZeroAreaSearch) (s : Mappings) : MapStep → Option Mappings
  | .alloc size =>
    let (ret, v) := s.vma.kgpuAllocMmapArea K size
    some (give { s with vma := v } ret size)
  | .mapPage f addr =>
    if s.holds addr then some { s with ptes := (s.vma.vmInsertPage addr f s.ptes).2 } else none
  | .mapPages pages n =>
    if 0 < n.toInt ∧ n.toInt * 4096 ≤ mmapSize.toNat then
      let (ret, v, ptes) := s.vma.kgpuMapPages K s.ptes pages n
      some (give { s with vma := v, ptes := ptes } ret ((n <<< (12 : Nat)).signExtend 64))
    else none
  | .mapPfns pfns n =>
    if 0 < n.toInt ∧ n.toInt * 4096 ≤ mmapSize.toNat then
      let (ret, v, ptes) := s.vma.kgpuMapPfns K s.ptes pfns n
      some (give { s with vma := v, ptes := ptes } ret ((n <<< (12 : Nat)).signExtend 64))
    else none
  | .free addr =>
    if addr ∈ s.given then some (drop { s with vma := (s.vma.kgpuFreeMmapArea addr).2 } addr)
    else none
  | .unmap addr =>
    if addr ∈ s.given then
      let (_, v, ptes) := s.vma.kgpuUnmapArea Vma.zapVmaPtes s.ptes addr
      some (drop { s with vma := v, ptes := ptes } addr)
    else none

/-- The state after `kgpu_mmap` has set an area up. -/
def init (vmStart : UL) (allocSzMem : Nat → U32) (bitmapMem : Bitmap) : Mappings :=
  ⟨.setVm vmStart (vmStart + mmapSize) allocSzMem bitmapMem, fun _ => none, [], []⟩

/-- The number of page `i` of the area in the page table. -/
def pageNr (s : Mappings) (i : Nat) : Nat := s.vma.start.toNat / 4096 + i

/-- Every page that has an entry is marked. -/
def Backed (s : Mappings) : Prop :=
  ∀ p, s.ptes p ≠ none → ∃ i < s.vma.npages.toNat, p = s.pageNr i ∧ s.vma.bitmap i = true

/-- `kgpu_alloc_mmap_area` is asked for a size whose page count is right, or no area of the
    count it computes is free. And `kgpu_free_mmap_area` is used on areas without entries
    only. -/
def Sound (s : Mappings) : MapStep → Prop
  | .alloc size => size.toNat ≤ Vma.maxBytes ∨ ∀ i < s.vma.npages.toNat,
      s.vma.bitmap i = true ∨ ¬ s.vma.FreeRun i (Vma.reqPages size).toNat
  | .free addr => ∀ i, Covers s.vma.size (s.vma.pageOf addr) i → s.ptes (s.pageNr i) = none
  | .mapPage _ _ | .mapPages _ _ | .mapPfns _ _ | .unmap _ => True

end Mappings

namespace Vma

variable {v v' : Vma} {K : ZeroAreaSearch}

/-! ## Pages and addresses -/

/-- What is known of the area at any time: its records agree, and it consists of at most
    512 whole pages that do not begin at address 0. -/
structure Area (v : Vma) : Prop where
  tiled : v.Tiled
  inside : v.Inside
  aligned : v.start.toNat % 4096 = 0
  small : v.npages.toNat ≤ 512
  start_pos : 0 < v.start.toNat

theorem area_setVm {vmStart : UL} (haligned : vmStart.toNat % 4096 = 0)
    (hpos : 0 < vmStart.toNat) (hwrap : vmStart.toNat + mmapSize.toNat < 2 ^ 64)
    (allocSzMem : Nat → U32) (bitmapMem : Bitmap) :
    (setVm vmStart (vmStart + mmapSize) allocSzMem bitmapMem).Area := by
  have hend : (vmStart + mmapSize).toNat = vmStart.toNat + mmapSize.toNat := by
    rw [BitVec.toNat_add, Nat.mod_eq_of_lt hwrap]
  refine ⟨setVm_tiled _ _ _ _, setVm_inside (by omega) _ _, haligned, ?_, hpos⟩
  have hsub : vmStart + mmapSize - vmStart = mmapSize := by
    rw [BitVec.add_comm, BitVec.add_sub_cancel]
  simp only [setVm, hsub]
  decide

theorem AllocOutcome.area {n : U32} {ret : UL} (ho : AllocOutcome v n ret v') (h : v.Area) :
    v'.Area := by
  refine ⟨ho.tiled h.tiled, ho.inside h.inside, ?_, ?_, ?_⟩
  · cases ho <;> exact h.aligned
  · cases ho <;> exact h.small
  · cases ho <;> exact h.start_pos

theorem FreeOutcome.area {addr : UL} {e : Release} (ho : FreeOutcome v addr e v') (h : v.Area) :
    v'.Area := by
  refine ⟨ho.tiled h.tiled, ho.inside h.inside, ?_, ?_, ?_⟩
  · cases ho <;> exact h.aligned
  · cases ho <;> exact h.small
  · cases ho <;> exact h.start_pos

/-- The size that `map_page_units` asks for. -/
theorem shift_toNat {n : BitVec 32} (hpos : 0 < n.toInt) (hle : n.toInt * 4096 ≤ mmapSize.toNat) :
    ((n <<< (12 : Nat)).signExtend 64).toNat = n.toInt.toNat * 4096 ∧
      0 < n.toInt.toNat ∧ n.toInt.toNat ≤ 512 := by
  rw [mmapSize_toNat] at hle
  have hn : n.toInt = n.toNat := by
    have hlt := n.isLt
    rw [BitVec.toInt_eq_toNat_cond] at hpos ⊢
    split at hpos
    next hc => rw [if_pos hc]
    next => omega
  have hsmall : n.toNat ≤ 512 := by omega
  have hshift : (n <<< (12 : Nat)).toNat = n.toNat * 4096 := by
    rw [BitVec.toNat_shiftLeft, Nat.shiftLeft_eq]
    omega
  have hext : ((n <<< (12 : Nat)).signExtend 64).toNat = n.toNat * 4096 := by
    rw [BitVec.signExtend_eq_setWidth_of_msb_false, BitVec.toNat_setWidth, hshift]
    · omega
    · rw [BitVec.msb_eq_false_iff_two_mul_lt, hshift]
      omega
  rw [hext, hn]
  omega

/-- For the sizes up to `maxBytes` the count is the number of pages that hold the bytes. -/
theorem reqPages_of_le {size : UL} (hle : size.toNat ≤ maxBytes) :
    (reqPages size).toNat = (size.toNat + 4095) / 4096 := by
  unfold maxBytes at hle
  have hpage : pageSize.toNat = 4096 := rfl
  have hsum : (size + pageSize - 1).toNat = size.toNat + 4095 := by
    rw [BitVec.toNat_sub, BitVec.toNat_add, hpage, show (1 : UL).toNat = 1 from rfl]
    omega
  rw [reqPages, divRoundUp, BitVec.toNat_setWidth, BitVec.toNat_udiv, hsum, hpage]
  omega

theorem shift_le {n : BitVec 32} (hpos : 0 < n.toInt) (hle : n.toInt * 4096 ≤ mmapSize.toNat) :
    ((n <<< (12 : Nat)).signExtend 64).toNat ≤ maxBytes := by
  obtain ⟨hsize, -, hsmall⟩ := shift_toNat hpos hle
  unfold maxBytes
  omega

/-- The page count that `map_page_units` computes from its `int`. -/
theorem reqPages_shift {n : BitVec 32} (hpos : 0 < n.toInt) (hle : n.toInt * 4096 ≤ mmapSize.toNat) :
    (reqPages ((n <<< (12 : Nat)).signExtend 64)).toNat = n.toInt.toNat ∧ 0 < n.toInt.toNat := by
  obtain ⟨hsize, hn, -⟩ := shift_toNat hpos hle
  rw [reqPages_of_le (shift_le hpos hle), hsize]
  omega

/-! ## Inserting pages -/

/-- The loop of `map_page_units` over pages without an entry maps every one of them. -/
theorem insertPages_eq {addr : UL} (pages : Nat → Frame) (haddr : addr.toNat % 4096 = 0)
    (hlo : v.start.toNat ≤ addr.toNat) (k i : Nat) (ptes : PageTable)
    (hhi : addr.toNat + (i + k) * 4096 ≤ v.end_.toNat)
    (hnone : ∀ j, i ≤ j → j < i + k → ptes (addr.toNat / 4096 + j) = none) :
    insertPages (fun addr i => v.vmInsertPage addr (pages i)) addr k i ptes =
      (true, fun p => if addr.toNat / 4096 + i ≤ p ∧ p < addr.toNat / 4096 + i + k then
        some (pages (p - addr.toNat / 4096)) else ptes p) := by
  induction k generalizing i ptes with
  | zero =>
    simp only [insertPages, Nat.add_zero, Prod.mk.injEq, true_and]
    funext p
    rw [if_neg (by omega)]
  | succ k ih =>
    have hhi' : addr.toNat + (i + 1 + k) * 4096 ≤ v.end_.toNat := by
      rwa [Nat.add_right_comm, Nat.add_assoc i k 1]
    have hend : v.end_.toNat < 2 ^ 64 := v.end_.isLt
    have hpage : (addr + BitVec.ofNat 64 i * pageSize).toNat = addr.toNat + i * 4096 := by
      rw [BitVec.toNat_add, BitVec.toNat_mul, BitVec.toNat_ofNat,
        show pageSize.toNat = 4096 from rfl]
      omega
    have hdiv : (addr.toNat + i * 4096) / 4096 = addr.toNat / 4096 + i := by omega
    have hok : v.start ≤ addr + BitVec.ofNat 64 i * pageSize ∧
        addr + BitVec.ofNat 64 i * pageSize < v.end_ ∧
        ptes ((addr + BitVec.ofNat 64 i * pageSize).toNat / 4096) = none := by
      rw [BitVec.le_def, BitVec.lt_def, hpage, hdiv]
      exact ⟨by omega, by omega, hnone i (Nat.le_refl i) (by omega)⟩
    have hret : v.vmInsertPage (addr + BitVec.ofNat 64 i * pageSize) (pages i) ptes =
        (0, Function.update ptes (addr.toNat / 4096 + i) (some (pages i))) := by
      rw [vmInsertPage, if_pos hok, hpage, hdiv]
    simp only [insertPages, hret]
    rw [if_neg (Int.lt_irrefl 0), ih (i + 1) _ hhi']
    · simp only [Prod.mk.injEq, true_and]
      funext p
      by_cases hp : p = addr.toNat / 4096 + i
      · subst hp
        rw [if_neg (by omega), if_pos (by omega), Function.update_self, Nat.add_sub_cancel_left]
      · rw [Function.update_of_ne hp]
        by_cases hin : addr.toNat / 4096 + (i + 1) ≤ p ∧ p < addr.toNat / 4096 + (i + 1) + k
        · rw [if_pos hin, if_pos (by omega)]
        · rw [if_neg hin, if_neg (by omega)]
    · intro j hj hlt
      rw [Function.update_of_ne (by omega)]
      exact hnone j (by omega) (by omega)

end Vma

namespace Mappings

variable {s s' : Mappings} {K : ZeroAreaSearch}

/-- A page that is not marked has no entry. -/
theorem Backed.no_entry (h : s.Backed) {i : Nat} (hi : s.vma.bitmap i = false) :
    s.ptes (s.pageNr i) = none := by
  by_contra hne
  obtain ⟨j, -, heq, hj⟩ := h _ hne
  have hij : i = j := Nat.add_left_cancel heq
  rw [← hij, hi] at hj
  cases hj

/-- The outcomes of mapping `n` frames into an area: pages without an entry are taken and
    all of them are mapped, or there are none. -/
inductive MapOutcome (s : Mappings) (frames : Nat → Frame) (n : U32) :
    UL × Vma × PageTable → Prop where
  | mapped (i : Nat) (hfree : s.vma.bitmap i = false) (hi : i < s.vma.npages.toNat)
      (hrun : s.vma.FreeRun i n.toNat) :
      MapOutcome s frames n
        (s.vma.start + pageSize * BitVec.ofNat 64 i,
          { s.vma with
            bitmap := s.vma.bitmap.set i n.toNat
            allocSz := Function.update s.vma.allocSz i n },
          fun p => if s.pageNr i ≤ p ∧ p < s.pageNr i + n.toNat then some (frames (p - s.pageNr i))
            else s.ptes p)
  | null (hfull : 0 < n.toNat → ∀ i, ¬ s.vma.FreeRun i n.toNat) :
      MapOutcome s frames n (0, s.vma, s.ptes)

/-- The address of a page of the area. -/
theorem page_addr (h : s.vma.Area) {i : Nat} (hi : i < s.vma.npages.toNat) :
    (s.vma.start + pageSize * BitVec.ofNat 64 i).toNat % 4096 = 0 ∧
      (s.vma.start + pageSize * BitVec.ofNat 64 i).toNat / 4096 = s.pageNr i ∧
      s.vma.start + pageSize * BitVec.ofNat 64 i ≠ 0 := by
  have haddr := h.inside.page_toNat hi
  have halign := h.aligned
  have hpos := h.start_pos
  refine ⟨?_, ?_, fun h0 => ?_⟩
  · rw [haddr]
    omega
  · rw [haddr, pageNr]
    omega
  · rw [h0, show (0 : UL).toNat = 0 from rfl] at haddr
    omega

theorem kgpuMapPages_outcome (K : ZeroAreaSearch) (hb : s.Backed) (h : s.vma.Area)
    (pages : Nat → Frame) {n : BitVec 32} (hpos : 0 < n.toInt)
    (hle : n.toInt * 4096 ≤ mmapSize.toNat) :
    MapOutcome s pages (Vma.reqPages ((n <<< (12 : Nat)).signExtend 64))
      (s.vma.kgpuMapPages K s.ptes pages n) := by
  have hreq := (Vma.reqPages_shift hpos hle).1
  have ho := Vma.kgpuAllocMmapArea_outcome K s.vma ((n <<< (12 : Nat)).signExtend 64)
  simp only [Vma.kgpuMapPages, Vma.mapPageUnits]
  generalize (n <<< (12 : Nat)).signExtend 64 = size at ho hreq ⊢
  generalize s.vma.kgpuAllocMmapArea K size = res at ho ⊢
  obtain ⟨ret, v⟩ := res
  simp only at ho ⊢
  cases ho with
  | null hfull => exact .null hfull
  | fresh i hfree hi hrun =>
    obtain ⟨hmod, hdiv, hne⟩ := page_addr h hi
    have haddr := h.inside.page_toNat hi
    have hin := h.inside
    unfold Vma.Inside at hin
    have hfit := hrun.1
    have hinsert := Vma.insertPages_eq (v := s.vma) pages hmod (by omega)
      n.toInt.toNat 0 s.ptes (by rw [haddr, ← hreq]; omega) (by
        intro j _ hlt
        rw [hdiv, pageNr, Nat.add_assoc]
        exact hb.no_entry (hrun.2 (i + j) (by omega) (by omega)))
    simp only [hne, if_false, hinsert, if_true]
    rw [hdiv, ← hreq]
    exact .mapped i hfree hi hrun

/-! ## The area and the addresses given out -/

@[simp] theorem give_vma (s : Mappings) (ret size : UL) : (s.give ret size).vma = s.vma := by
  unfold give
  split <;> rfl

@[simp] theorem give_ptes (s : Mappings) (ret size : UL) : (s.give ret size).ptes = s.ptes := by
  unfold give
  split <;> rfl

/-- The address of a page of the area. -/
def PageAddr (v : Vma) (a : UL) : Prop := ∃ i < v.npages.toNat, a.toNat = v.start.toNat + i * 4096

structure Kept (s : Mappings) : Prop where
  area : s.vma.Area
  given : ∀ a ∈ s.given, PageAddr s.vma a
  held : ∀ b ∈ s.held, b.addr ∈ s.given

theorem Kept.page (h : s.Kept) {b : Buffer} (hb : b ∈ s.held) : PageAddr s.vma b.addr :=
  h.given b.addr (h.held b hb)

/-- An allocation whose address may not get to the client. -/
theorem Kept.alloc (h : s.Kept) {n : U32} {ret r : UL} {v : Vma}
    (ho : Vma.AllocOutcome s.vma n ret v) (ptes : PageTable) (size : UL) (hr : r = ret ∨ r = 0) :
    (give { s with vma := v, ptes := ptes } r size).Kept := by
  have hgiven : ∀ a ∈ s.given, PageAddr v a := by
    cases ho <;> exact h.given
  have harea := ho.area h.area
  unfold give
  split
  next => exact ⟨harea, hgiven, h.held⟩
  next hne =>
    refine ⟨harea, List.forall_mem_cons.mpr ⟨?_, hgiven⟩, List.forall_mem_cons.mpr
      ⟨List.mem_cons_self, fun b hb => List.mem_cons_of_mem _ (h.held b hb)⟩⟩
    cases hr.resolve_right hne
    cases ho with
    | fresh i hfree hi hrun => exact ⟨i, hi, h.area.inside.page_toNat hi⟩
    | null => exact absurd rfl hne

theorem Kept.free (h : s.Kept) {addr : UL} {e : Vma.Release} {v : Vma}
    (ho : Vma.FreeOutcome s.vma addr e v) (ptes : PageTable) :
    (drop { s with vma := v, ptes := ptes } addr).Kept := by
  refine ⟨ho.area h.area, ?_, fun b hb => h.held b (List.mem_filter.mp hb).1⟩
  cases ho <;> exact h.given

theorem Kept.map (h : s.Kept) {insert : UL → Nat → PageTable → Int × PageTable} {n : BitVec 32} :
    (give { s with
      vma := (s.vma.mapPageUnits K insert s.ptes n).2.1
      ptes := (s.vma.mapPageUnits K insert s.ptes n).2.2 }
      (s.vma.mapPageUnits K insert s.ptes n).1 ((n <<< (12 : Nat)).signExtend 64)).Kept := by
  rw [Vma.mapPageUnits_vma]
  refine h.alloc (Vma.kgpuAllocMmapArea_outcome K s.vma _) _ _ ?_
  by_cases hne : (s.vma.mapPageUnits K insert s.ptes n).1 = 0
  · exact .inr hne
  · exact .inl (Vma.mapPageUnits_addr hne).2

theorem step_alloc {size : UL} (hs : s.step K (.alloc size) = some s') :
    s' = give { s with vma := (s.vma.kgpuAllocMmapArea K size).2 }
      (s.vma.kgpuAllocMmapArea K size).1 size :=
  (Option.some.inj hs).symm

theorem step_free {addr : UL} (hs : s.step K (.free addr) = some s') :
    addr ∈ s.given ∧ s' = drop { s with vma := (s.vma.kgpuFreeMmapArea addr).2 } addr := by
  change (if addr ∈ s.given then some _ else none) = some s' at hs
  split at hs <;> cases hs
  next hmem => exact ⟨hmem, rfl⟩

theorem step_unmap {addr : UL} (hs : s.step K (.unmap addr) = some s') :
    addr ∈ s.given ∧ s' = drop { s with
      vma := (s.vma.kgpuUnmapArea Vma.zapVmaPtes s.ptes addr).2.1
      ptes := (s.vma.kgpuUnmapArea Vma.zapVmaPtes s.ptes addr).2.2 } addr := by
  change (if addr ∈ s.given then some _ else none) = some s' at hs
  split at hs <;> cases hs
  next hmem => exact ⟨hmem, rfl⟩

theorem Kept.step (h : s.Kept) {l : MapStep} (hs : s.step K l = some s') : s'.Kept := by
  cases l with
  | alloc size =>
    rw [step_alloc hs]
    exact h.alloc (Vma.kgpuAllocMmapArea_outcome K s.vma size) s.ptes size (.inl rfl)
  | mapPage f addr =>
    simp only [Mappings.step] at hs
    split at hs <;> cases hs
    exact ⟨h.area, h.given, h.held⟩
  | mapPages frames n | mapPfns frames n =>
    simp only [Mappings.step] at hs
    split at hs <;> cases hs
    exact h.map
  | free addr =>
    obtain ⟨-, rfl⟩ := step_free hs
    exact h.free (h.area.tiled.kgpuFreeMmapArea_outcome addr) s.ptes
  | unmap addr =>
    obtain ⟨-, rfl⟩ := step_unmap hs
    rw [(Vma.kgpuUnmapArea_eq _ _ _ _).2]
    exact h.free (h.area.tiled.kgpuFreeMmapArea_outcome addr) _

theorem kept_of_run {ok : Mappings → MapStep → Prop} {s₀ : Mappings} {ls : List MapStep}
    (hinit : s₀.Kept) (hrun : Run (step K) ok s₀ ls s) : s.Kept :=
  hrun.invariant hinit fun _ _ _ h _ hs => h.step hs

/-! ## The sizes -/

/-- Every area that is held is as long as its client supposes. -/
def Recorded (s : Mappings) : Prop :=
  ∀ b ∈ s.held, b.pages ≤ s.vma.size (s.vma.pageOf b.addr)

theorem Recorded.alloc (hr : s.Recorded) (h : s.Kept) {n : U32} {ret : UL} {v : Vma}
    (ho : Vma.AllocOutcome s.vma n ret v) (ptes : PageTable) {size r : UL}
    (hsize : r ≠ 0 → r = ret ∧ Buffer.pages ⟨ret, size⟩ ≤ n.toNat) :
    (give { s with vma := v, ptes := ptes } r size).Recorded := by
  have hold : ∀ b ∈ s.held, b.pages ≤ v.size (v.pageOf b.addr) := by
    intro b hb
    cases ho with
    | null => exact hr b hb
    | fresh i hfree hi hrun =>
      rw [Vma.size_update]
      change b.pages ≤ Function.update s.vma.size i n.toNat (s.vma.pageOf b.addr)
      by_cases hpage : s.vma.pageOf b.addr = i
      · -- An area that is held where nothing is marked has no page.
        have hzero := Tiling.size_eq_zero h.area.tiled hi hfree
        have hle := hr b hb
        rw [hpage, hzero] at hle
        exact hle.trans (Nat.zero_le _)
      · rw [Function.update_of_ne hpage]
        exact hr b hb
  unfold give
  split
  next => exact hold
  next hne =>
    obtain ⟨rfl, hle⟩ := hsize hne
    refine List.forall_mem_cons.mpr ⟨?_, hold⟩
    cases ho with
    | null => exact absurd rfl hne
    | fresh i hfree hi hrun =>
      have hpage : s.vma.pageOf (s.vma.start + pageSize * BitVec.ofNat 64 i) = i :=
        Vma.pageOf_eq (h.area.inside.page_toNat hi)
      rw [Vma.size_update]
      change _ ≤ Function.update s.vma.size i n.toNat (s.vma.pageOf _)
      rw [hpage, Function.update_self]
      exact hle

theorem Recorded.free (hr : s.Recorded) (h : s.Kept) {addr : UL} (haddr : PageAddr s.vma addr)
    {e : Vma.Release} {v : Vma} (ho : Vma.FreeOutcome s.vma addr e v) (ptes : PageTable) :
    (drop { s with vma := v, ptes := ptes } addr).Recorded := by
  intro b hb
  obtain ⟨hmem, hne⟩ := List.mem_filter.mp hb
  cases ho with
  | ignored => exact hr b hmem
  | released hi hsize =>
    have hpage : s.vma.pageOf b.addr ≠ s.vma.pageOf addr := by
      obtain ⟨i, -, hi⟩ := haddr
      obtain ⟨j, -, hj⟩ := h.page hmem
      rw [Vma.pageOf_eq hi, Vma.pageOf_eq hj]
      rintro rfl
      exact bne_iff_ne.mp hne (BitVec.eq_of_toNat_eq (hj.trans hi.symm))
    change b.pages ≤ Vma.size { s.vma with bitmap := _, allocSz := _ } (s.vma.pageOf b.addr)
    rw [Vma.size_update, Function.update_of_ne hpage]
    exact hr b hmem

/-- No area is given out when the count is free nowhere. -/
theorem alloc_none {size : UL} (hfull : ∀ i < s.vma.npages.toNat,
      s.vma.bitmap i = true ∨ ¬ s.vma.FreeRun i (Vma.reqPages size).toNat) :
    (s.vma.kgpuAllocMmapArea K size).1 = 0 := by
  have ho := Vma.kgpuAllocMmapArea_outcome K s.vma size
  generalize (s.vma.kgpuAllocMmapArea K size).1 = ret at ho ⊢
  generalize (s.vma.kgpuAllocMmapArea K size).2 = v at ho
  cases ho with
  | null => rfl
  | fresh i hfree hi hrun =>
    rcases hfull i hi with hset | hnone
    · rw [hfree] at hset
      cases hset
    · exact absurd hrun hnone

theorem Recorded.map (hr : s.Recorded) (h : s.Kept)
    {insert : UL → Nat → PageTable → Int × PageTable} {n : BitVec 32} (hpos : 0 < n.toInt)
    (hle : n.toInt * 4096 ≤ mmapSize.toNat) :
    (give { s with
      vma := (s.vma.mapPageUnits K insert s.ptes n).2.1
      ptes := (s.vma.mapPageUnits K insert s.ptes n).2.2 }
      (s.vma.mapPageUnits K insert s.ptes n).1 ((n <<< (12 : Nat)).signExtend 64)).Recorded := by
  rw [Vma.mapPageUnits_vma]
  exact hr.alloc h (Vma.kgpuAllocMmapArea_outcome K s.vma _) _ fun hne =>
    ⟨(Vma.mapPageUnits_addr hne).2, Nat.le_of_eq (Vma.reqPages_of_le (Vma.shift_le hpos hle)).symm⟩

theorem Recorded.step (hr : s.Recorded) (h : s.Kept) {l : MapStep} (hok : s.Sound l)
    (hs : s.step K l = some s') : s'.Recorded := by
  cases l with
  | alloc size =>
    rw [step_alloc hs]
    refine hr.alloc h (Vma.kgpuAllocMmapArea_outcome K s.vma size) s.ptes fun hne => ⟨rfl, ?_⟩
    exact Nat.le_of_eq (Vma.reqPages_of_le (hok.resolve_right fun hfull => hne (alloc_none hfull))).symm
  | mapPage f addr =>
    simp only [Mappings.step] at hs
    split at hs <;> cases hs
    exact hr
  | mapPages frames n | mapPfns frames n =>
    simp only [Mappings.step] at hs
    split at hs <;> cases hs
    next hn => exact hr.map h hn.1 hn.2
  | free addr =>
    obtain ⟨hmem, rfl⟩ := step_free hs
    exact hr.free h (h.given addr hmem) (h.area.tiled.kgpuFreeMmapArea_outcome addr) s.ptes
  | unmap addr =>
    obtain ⟨hmem, rfl⟩ := step_unmap hs
    rw [(Vma.kgpuUnmapArea_eq _ _ _ _).2]
    exact hr.free h (h.given addr hmem) (h.area.tiled.kgpuFreeMmapArea_outcome addr) _

/-! ## The entries -/

theorem Backed.congr (hb : s.Backed) (hvma : s'.vma = s.vma) (hptes : s'.ptes = s.ptes) :
    s'.Backed := by
  intro p hp
  rw [hptes] at hp
  obtain ⟨i, hi, heq, hmark⟩ := hb p hp
  exact ⟨i, hvma ▸ hi, by rw [heq, pageNr, pageNr, hvma], hvma ▸ hmark⟩

/-- An allocation marks more pages. -/
theorem Backed.alloc (hb : s.Backed) {n : U32} {ret : UL} {v : Vma}
    (ho : Vma.AllocOutcome s.vma n ret v) : Backed { s with vma := v } := by
  cases ho with
  | null => exact hb
  | fresh i hfree hi hrun =>
    intro p hp
    obtain ⟨j, hj, heq, hmark⟩ := hb p hp
    exact ⟨j, hj, heq, Bitmap.set_eq_true.mpr (.inr hmark)⟩

/-- A page of an area that is held is marked. -/
theorem Backed.mapPage (hb : s.Backed) (h : s.Kept) (hr : s.Recorded) {f : Frame} {addr : UL}
    (hold : s.holds addr = true) :
    Backed { s with ptes := (s.vma.vmInsertPage addr f s.ptes).2 } := by
  simp only [holds, List.any_eq_true, decide_eq_true_eq] at hold
  obtain ⟨b, hmem, hle, hlt⟩ := hold
  obtain ⟨i, hi, haddr⟩ := h.page hmem
  have hpages := hr b hmem
  rw [Vma.pageOf_eq haddr] at hpages
  intro p hp
  simp only [Vma.vmInsertPage] at hp
  split at hp
  next =>
    by_cases hpa : p = addr.toNat / 4096
    · have halign := h.area.aligned
      have hcov : Covers s.vma.size i (p - s.vma.start.toNat / 4096) := ⟨by omega, by omega⟩
      have hin := h.area.tiled.inside i hi
      have hn : p - s.vma.start.toNat / 4096 < s.vma.npages.toNat := by
        have := hcov.2
        omega
      refine ⟨p - s.vma.start.toNat / 4096, hn, ?_, ?_⟩
      · simp only [pageNr]
        omega
      · exact (h.area.tiled.marked _ hn).mpr ⟨i, hi, hcov⟩
    · simp only [Function.update_of_ne hpa] at hp
      exact hb p hp
  next => exact hb p hp

theorem MapOutcome.backed {frames : Nat → Frame} {n : U32} {r : UL × Vma × PageTable}
    (ho : MapOutcome s frames n r) (hb : s.Backed) :
    Backed { s with vma := r.2.1, ptes := r.2.2 } := by
  cases ho with
  | null => exact hb
  | mapped i hfree hi hrun =>
    intro p hp
    simp only at hp
    split at hp
    next hin =>
      have hfit := hrun.1
      refine ⟨p - s.vma.start.toNat / 4096, ?_, ?_, ?_⟩
      · simp only [pageNr] at hin ⊢
        omega
      · simp only [pageNr] at hin ⊢
        omega
      · refine Bitmap.set_eq_true.mpr (.inl ?_)
        simp only [pageNr] at hin
        omega
    next =>
      obtain ⟨j, hj, heq, hmark⟩ := hb p hp
      exact ⟨j, hj, heq, Bitmap.set_eq_true.mpr (.inr hmark)⟩

/-- An area that is given back without entries, or whose entries are removed. -/
theorem Backed.free (hb : s.Backed) {addr : UL} {e : Vma.Release} {v : Vma}
    (ho : Vma.FreeOutcome s.vma addr e v) {ptes : PageTable}
    (hsub : ∀ p, ptes p ≠ none → s.ptes p ≠ none)
    (hgone : ∀ i, Covers s.vma.size (s.vma.pageOf addr) i → ptes (s.pageNr i) = none) :
    Backed { s with vma := v, ptes := ptes } := by
  cases ho with
  | ignored => exact fun p hp => hb p (hsub p hp)
  | released hi hsize =>
    intro p hp
    obtain ⟨j, hj, rfl, hmark⟩ := hb p (hsub p hp)
    refine ⟨j, hj, rfl, Bitmap.clear_eq_true.mpr ⟨fun hcov => ?_, hmark⟩⟩
    exact hp (hgone j hcov)

/-- `kgpu_unmap_area` removes every entry of the area it gives back. -/
theorem Backed.unmap (hb : s.Backed) (h : s.Kept) {addr : UL} (haddr : addr ∈ s.given) :
    Backed { s with
      vma := (s.vma.kgpuUnmapArea Vma.zapVmaPtes s.ptes addr).2.1
      ptes := (s.vma.kgpuUnmapArea Vma.zapVmaPtes s.ptes addr).2.2 } := by
  have ho := h.area.tiled.kgpuFreeMmapArea_outcome addr
  obtain ⟨i, hi, ha⟩ := h.given addr haddr
  have hpage : s.vma.pageOf addr = i := Vma.pageOf_eq ha
  rw [(Vma.kgpuUnmapArea_eq _ _ _ _).2, Vma.kgpuUnmapArea_zap]
  refine hb.free ho (fun p hp => ?_) fun j hcov => ?_
  · split at hp
    next =>
      simp only [Vma.zapVmaPtes] at hp
      split at hp
      next => exact absurd rfl hp
      next => exact hp
    next => exact hp
  · -- Only an area with pages is given back, and its size in bytes fits `unsigned int`.
    have hsize : 0 < s.vma.size (s.vma.pageOf addr) := by
      have := hcov.2
      have := hcov.1
      omega
    have hrel : (s.vma.kgpuFreeMmapArea addr).1 = .released := by
      generalize (s.vma.kgpuFreeMmapArea addr).1 = e at ho
      generalize (s.vma.kgpuFreeMmapArea addr).2 = v at ho
      cases ho with
      | released => rfl
      | ignored _ _ hnone =>
        have := hnone (hpage ▸ hi)
        omega
    have hin := h.area.tiled.inside i hi
    have hsmall := h.area.small
    have halign := h.area.aligned
    rw [hpage] at hcov ⊢
    have hlen : (s.vma.allocSz i <<< (12 : Nat)).toNat = s.vma.size i * 4096 := by
      rw [BitVec.toNat_shiftLeft, Nat.shiftLeft_eq]
      simp only [Vma.size] at hin ⊢
      omega
    obtain ⟨hlo, hhi⟩ := hcov
    simp only [hrel, if_true, Vma.zapVmaPtes]
    rw [if_pos]
    rw [hlen, ha, pageNr]
    omega

theorem Backed.step (hb : s.Backed) (h : s.Kept) (hr : s.Recorded) {l : MapStep}
    (hok : s.Sound l) (hs : s.step K l = some s') : s'.Backed := by
  cases l with
  | alloc size =>
    rw [step_alloc hs]
    exact (hb.alloc (Vma.kgpuAllocMmapArea_outcome K s.vma size)).congr (give_vma ..) (give_ptes ..)
  | mapPage f addr =>
    simp only [Mappings.step] at hs
    split at hs <;> cases hs
    next hold => exact hb.mapPage h hr hold
  | mapPages frames n | mapPfns frames n =>
    simp only [Mappings.step] at hs
    split at hs <;> cases hs
    next hn =>
      have hmap := (kgpuMapPages_outcome K hb h.area frames hn.1 hn.2).backed hb
      exact hmap.congr (give_vma ..) (give_ptes ..)
  | free addr =>
    obtain ⟨-, rfl⟩ := step_free hs
    exact hb.free (h.area.tiled.kgpuFreeMmapArea_outcome addr) (fun _ hp => hp) hok
  | unmap addr =>
    obtain ⟨hmem, rfl⟩ := step_unmap hs
    exact hb.unmap h hmem

theorem init_kept {vmStart : UL} (haligned : vmStart.toNat % 4096 = 0) (hpos : 0 < vmStart.toNat)
    (hwrap : vmStart.toNat + mmapSize.toNat < 2 ^ 64) (allocSzMem : Nat → U32) (bitmapMem : Bitmap) :
    (init vmStart allocSzMem bitmapMem).Kept :=
  ⟨Vma.area_setVm haligned hpos hwrap allocSzMem bitmapMem, nofun, nofun⟩

end Mappings
end Kgpu
