-- SUMMARY: What `map_page_units` leaves behind when one of its `vm_insert_page` fails.
import Kgpu.Kernel.Mappings

/-!
# Failed mappings

`map_page_units` takes pages of the mmap area and maps the frames one by one. When an
insertion fails it returns `NULL`, and neither gives the pages back nor removes the
entries it has made, as `kgpu_unmap_area` would. The caller has no address to do it with.
-/

namespace Kgpu

open Library

namespace Vma

variable {v : Vma} {K : ZeroAreaSearch} {refused : Nat → Bool} {frames : Nat → Frame}
  {ptes : PageTable} {addr : UL}

/-- `vm_insert_page` of frame `i`, which also fails where `refused` says so: there is no
    memory for a page table, or the page is one that cannot be mapped. -/
def tryInsertPage (v : Vma) (refused : Nat → Bool) (frames : Nat → Frame) (addr : UL) (i : Nat)
    (ptes : PageTable) : Int × PageTable :=
  if refused i then (-12, ptes) else v.vmInsertPage addr (frames i) ptes

/-- `kgpu_map_pages` and `kgpu_map_pfns` with such insertions. -/
def tryMapPages (K : ZeroAreaSearch) (v : Vma) (refused : Nat → Bool) (ptes : PageTable)
    (frames : Nat → Frame) (n : BitVec 32) : UL × Vma × PageTable :=
  v.mapPageUnits K (v.tryInsertPage refused frames) ptes n

theorem tryMapPages_eq (ptes : PageTable) (frames : Nat → Frame) (n : BitVec 32) :
    v.tryMapPages K (fun _ => false) ptes frames n = v.kgpuMapPages K ptes frames n ∧
      v.tryMapPages K (fun _ => false) ptes frames n = v.kgpuMapPfns K ptes frames n :=
  ⟨rfl, rfl⟩

/-- When `NULL` is returned the two records and the page table are what they were. -/
def FailureKeeps (K : ZeroAreaSearch) (v : Vma) (refused : Nat → Bool) (ptes : PageTable)
    (frames : Nat → Frame) (n : BitVec 32) : Prop :=
  (v.tryMapPages K refused ptes frames n).1 = 0 →
    (v.tryMapPages K refused ptes frames n).2.1.bitmap = v.bitmap ∧
    (v.tryMapPages K refused ptes frames n).2.1.allocSz = v.allocSz ∧
    (v.tryMapPages K refused ptes frames n).2.2 = ptes

/-- The page count that is asked for: the `int` is shifted before it is widened. -/
def askedPages (n : BitVec 32) : U32 := reqPages ((n <<< (12 : Nat)).signExtend 64)

/-- The page that the search answers with. -/
def foundPage (K : ZeroAreaSearch) (v : Vma) (n : BitVec 32) : Nat :=
  K.find v.bitmap v.npages.toNat 0 (askedPages n).toNat 0

/-- The number of the page that is `j` pages after `addr`. -/
def loopPage (addr : UL) (j : Nat) : Nat := (addr + BitVec.ofNat 64 j * pageSize).toNat / 4096

/-- Frame `j` can be mapped `j` pages after `addr`. -/
structure Insertable (v : Vma) (refused : Nat → Bool) (ptes : PageTable) (addr : UL) (j : Nat) :
    Prop where
  accepted : refused j = false
  start_le : v.start ≤ addr + BitVec.ofNat 64 j * pageSize
  lt_end : addr + BitVec.ofNat 64 j * pageSize < v.end_
  no_entry : ptes (loopPage addr j) = none

/-! ## The loop -/

theorem tryInsertPage_cases (v : Vma) (refused : Nat → Bool) (frames : Nat → Frame)
    (ptes : PageTable) (addr : UL) (j : Nat) :
    (v.Insertable refused ptes addr j ∧
      v.tryInsertPage refused frames (addr + BitVec.ofNat 64 j * pageSize) j ptes =
        (0, Function.update ptes (loopPage addr j) (some (frames j)))) ∨
    (¬ v.Insertable refused ptes addr j ∧
      ∃ ret < 0, v.tryInsertPage refused frames (addr + BitVec.ofNat 64 j * pageSize) j ptes =
        (ret, ptes)) := by
  unfold tryInsertPage vmInsertPage
  cases hr : refused j with
  | true => exact .inr ⟨fun h => by simp [h.accepted] at hr, -12, by decide, rfl⟩
  | false =>
    simp only [Bool.false_eq_true, if_false]
    split
    next hok => exact .inl ⟨⟨hr, hok.1, hok.2.1, hok.2.2⟩, rfl⟩
    next hno =>
      exact .inr ⟨fun h => hno ⟨h.start_le, h.lt_end, h.no_entry⟩, -16, by decide, rfl⟩

/-- The pages of a loop are different. -/
theorem loop_page_inj (haddr : addr.toNat % 4096 = 0) {i j : Nat} (hi : i < 2 ^ 32)
    (hj : j < 2 ^ 32) (h : loopPage addr i = loopPage addr j) : i = j := by
  have hlt : addr.toNat < 2 ^ 64 := addr.isLt
  simp only [loopPage, BitVec.toNat_add, BitVec.toNat_mul, BitVec.toNat_ofNat,
    show pageSize.toNat = 4096 from rfl] at h
  omega

theorem insertable_update (haddr : addr.toNat % 4096 = 0) {i j : Nat} {e : Option Frame}
    (hi : i < 2 ^ 32) (hj : j < 2 ^ 32) (hne : j ≠ i) :
    v.Insertable refused (Function.update ptes (loopPage addr i) e) addr j ↔
      v.Insertable refused ptes addr j := by
  have hpage : loopPage addr j ≠ loopPage addr i :=
    fun heq => hne (loop_page_inj haddr hj hi heq)
  have hentry : Function.update ptes (loopPage addr i) e (loopPage addr j) =
      ptes (loopPage addr j) := Function.update_of_ne hpage ..
  constructor
  · intro h
    exact ⟨h.accepted, h.start_le, h.lt_end, hentry.symm.trans h.no_entry⟩
  · intro h
    exact ⟨h.accepted, h.start_le, h.lt_end, hentry.trans h.no_entry⟩

/-- The loop goes through exactly when every frame can be mapped. -/
theorem insertPages_true_iff (haddr : addr.toNat % 4096 = 0) (k i : Nat) (hk : i + k ≤ 2 ^ 32)
    (ptes : PageTable) :
    (insertPages (v.tryInsertPage refused frames) addr k i ptes).1 = true ↔
      ∀ j, i ≤ j → j < i + k → v.Insertable refused ptes addr j := by
  induction k generalizing i ptes with
  | zero => exact iff_of_true rfl fun j hle hlt => by omega
  | succ k ih =>
    simp only [insertPages]
    rcases tryInsertPage_cases v refused frames ptes addr i with ⟨hins, heq⟩ | ⟨hnot, ret, hret, heq⟩
    · rw [heq, if_neg (Int.lt_irrefl 0), ih (i + 1) (by omega)]
      constructor
      · intro h j hle hlt
        by_cases hji : j = i
        · subst hji
          exact hins
        · exact (insertable_update haddr (by omega) (by omega) hji).mp (h j (by omega) (by omega))
      · intro h j hle hlt
        exact (insertable_update haddr (by omega) (by omega) (by omega)).mpr
          (h j (by omega) (by omega))
    · rw [heq, if_pos hret]
      exact iff_of_false Bool.false_ne_true fun h => hnot (h i (Nat.le_refl i) (by omega))

/-- No insertion removes an entry. -/
theorem insertPages_keeps (k i : Nat) {ptes : PageTable} {p : Nat} (hp : ptes p ≠ none) :
    (insertPages (v.tryInsertPage refused frames) addr k i ptes).2 p ≠ none := by
  induction k generalizing i ptes with
  | zero => exact hp
  | succ k ih =>
    simp only [insertPages]
    rcases tryInsertPage_cases v refused frames ptes addr i with ⟨-, heq⟩ | ⟨-, ret, hret, heq⟩
    · rw [heq, if_neg (Int.lt_irrefl 0)]
      refine ih (i + 1) ?_
      by_cases hpage : p = loopPage addr i
      · simp [hpage]
      · simpa [Function.update_of_ne hpage] using hp
    · rw [heq, if_pos hret]
      exact hp

/-- The page table is what it was exactly when the first insertion fails. -/
theorem insertPages_eq_iff (k i : Nat) (ptes : PageTable) :
    (insertPages (v.tryInsertPage refused frames) addr (k + 1) i ptes).2 = ptes ↔
      ¬ v.Insertable refused ptes addr i := by
  simp only [insertPages]
  rcases tryInsertPage_cases v refused frames ptes addr i with ⟨hins, heq⟩ | ⟨hnot, ret, hret, heq⟩
  · rw [heq, if_neg (Int.lt_irrefl 0)]
    refine iff_of_false (fun hsame => ?_) (not_not.mpr hins)
    have hfirst : Function.update ptes (loopPage addr i) (some (frames i)) (loopPage addr i) ≠ none := by
      simp
    have hlast : (insertPages (v.tryInsertPage refused frames) addr k (i + 1)
        (Function.update ptes (loopPage addr i) (some (frames i)))).2 (loopPage addr i) ≠ none :=
      insertPages_keeps k (i + 1) hfirst
    rw [hsame] at hlast
    exact hlast hins.no_entry
  · rw [heq, if_pos hret]
    exact iff_of_true rfl hnot

/-! ## The records -/

/-- The address of the page that is found. -/
def foundAddr (K : ZeroAreaSearch) (v : Vma) (n : BitVec 32) : UL :=
  v.start + pageSize * BitVec.ofNat 64 (v.foundPage K n)

/-- The records do not show an allocation exactly when it is one of no page. -/
theorem Tiled.records_eq_iff (h : v.Tiled) {i : Nat} {k : U32} (hi : i < v.npages.toNat)
    (hfree : v.bitmap i = false) :
    (v.bitmap.set i k.toNat = v.bitmap ∧ Function.update v.allocSz i k = v.allocSz) ↔ k = 0 := by
  constructor
  · rintro ⟨hmap, -⟩
    by_contra hne
    have hpos : k.toNat ≠ 0 := fun h0 => hne (BitVec.eq_of_toNat_eq (by simpa using h0))
    have hset : v.bitmap.set i k.toNat i = true := Bitmap.set_eq_true.mpr (.inl (by omega))
    rw [hmap, hfree] at hset
    cases hset
  · rintro rfl
    have hzero : v.allocSz i = 0 := BitVec.eq_of_toNat_eq (Tiling.size_eq_zero h hi hfree)
    refine ⟨funext fun u => if_neg (by simp), ?_⟩
    rw [← hzero, Function.update_eq_self]

/-- No page is found, or every frame can be mapped, or no page is asked for and the first
    frame cannot be mapped. -/
def MapsClean (K : ZeroAreaSearch) (v : Vma) (refused : Nat → Bool) (ptes : PageTable)
    (n : BitVec 32) : Prop :=
  v.npages.toNat ≤ v.foundPage K n ∨
    (∀ j < n.toInt.toNat, v.Insertable refused ptes (v.foundAddr K n) j) ∨
    (askedPages n = 0 ∧ ¬ v.Insertable refused ptes (v.foundAddr K n) 0)

theorem Area.tryMapPages_found (h : v.Area) {n : BitVec 32} (hfound : v.foundPage K n < v.npages.toNat) :
    v.tryMapPages K refused ptes frames n =
      (if (insertPages (v.tryInsertPage refused frames) (v.foundAddr K n) n.toInt.toNat 0 ptes).1
        then v.foundAddr K n else 0,
        { v with
          bitmap := v.bitmap.set (v.foundPage K n) (askedPages n).toNat
          allocSz := Function.update v.allocSz (v.foundPage K n) (askedPages n) },
        (insertPages (v.tryInsertPage refused frames) (v.foundAddr K n) n.toInt.toNat 0 ptes).2) := by
  have hne : v.foundAddr K n ≠ 0 := (Mappings.page_addr (s := ⟨v, ptes, [], []⟩) h hfound).2.2
  have halloc : v.kgpuAllocMmapArea K ((n <<< (12 : Nat)).signExtend 64) =
      (v.foundAddr K n, { v with
        bitmap := v.bitmap.set (v.foundPage K n) (askedPages n).toNat
        allocSz := Function.update v.allocSz (v.foundPage K n) (askedPages n) }) := if_pos hfound
  rw [tryMapPages, mapPageUnits, halloc]
  simp only [hne, if_false]

theorem Area.failureKeeps_iff (h : v.Area) (n : BitVec 32) :
    FailureKeeps K v refused ptes frames n ↔ v.MapsClean K refused ptes n := by
  by_cases hfound : v.foundPage K n < v.npages.toNat
  · obtain ⟨hmod, -, hne⟩ := Mappings.page_addr (s := ⟨v, ptes, [], []⟩) h hfound
    have hcount : 0 + n.toInt.toNat ≤ 2 ^ 32 := by
      have hlt := n.toInt_lt
      omega
    have hloop : (insertPages (v.tryInsertPage refused frames) (v.foundAddr K n) n.toInt.toNat 0
        ptes).1 = true ↔ ∀ j, 0 ≤ j → j < 0 + n.toInt.toNat → _ :=
      insertPages_true_iff hmod n.toInt.toNat 0 hcount ptes
    rw [FailureKeeps, h.tryMapPages_found hfound]
    by_cases hall : ∀ j < n.toInt.toNat, v.Insertable refused ptes (v.foundAddr K n) j
    · have htrue := hloop.mpr fun j _ hj => hall j (by omega)
      refine iff_of_true (fun hnull => ?_) (.inr (.inl hall))
      rw [if_pos htrue] at hnull
      exact absurd hnull hne
    · have hfalse := mt hloop.mp fun hins => hall fun j hj => hins j (by omega) (by omega)
      obtain ⟨k, hk⟩ : ∃ k, n.toInt.toNat = k + 1 := by
        refine Nat.exists_eq_succ_of_ne_zero fun h0 => hall fun j hj => ?_
        omega
      have hrecords := h.tiled.records_eq_iff (k := askedPages n) hfound (K.found hfound).1
      rw [MapsClean, or_iff_right (Nat.not_le_of_lt hfound), or_iff_right hall, ← hrecords, and_assoc]
      rw [if_neg hfalse, hk, insertPages_eq_iff]
      exact ⟨fun hkeeps => hkeeps rfl, fun hkeeps _ => hkeeps⟩
  · refine iff_of_true (fun _ => ?_) (.inl (Nat.le_of_not_lt hfound))
    have halloc : v.kgpuAllocMmapArea K ((n <<< (12 : Nat)).signExtend 64) = (0, v) := if_neg hfound
    rw [tryMapPages, mapPageUnits, halloc]
    exact ⟨rfl, rfl, rfl⟩

/-! ## Every state of the area -/

theorem run_area {v₀ : Vma} {cs : List Call} (harea : v₀.Area) (hrun : Run (step K) Free v₀ cs v) :
    v.Area := by
  refine hrun.invariant (I := Area) harea ?_
  intro v c v' h _ hs
  rcases step_outcome h.tiled hs with ⟨n, ret, ho⟩ | ⟨addr, e, ho⟩
  · exact ho.area h
  · exact ho.area h

/-- In every state that calls with any arguments lead to, and whatever entries the page
    table has, a mapping that returns `NULL` leaves the records and the entries as they
    were exactly when no page was found for it, or every insertion succeeds (and it does
    not return `NULL`), or it asked for no page and its first insertion fails. -/
theorem failed_mapping_keeps_area (K : ZeroAreaSearch) {vmStart : UL}
    (haligned : vmStart.toNat % 4096 = 0) (hpos : 0 < vmStart.toNat)
    (hwrap : vmStart.toNat + mmapSize.toNat < 2 ^ 64) (allocSzMem : Nat → U32) (bitmapMem : Bitmap)
    {cs : List Call}
    (hrun : Run (step K) Free (setVm vmStart (vmStart + mmapSize) allocSzMem bitmapMem) cs v)
    (refused : Nat → Bool) (ptes : PageTable) (frames : Nat → Frame) (n : BitVec 32) :
    FailureKeeps K v refused ptes frames n ↔ v.MapsClean K refused ptes n :=
  (run_area (area_setVm haligned hpos hwrap allocSzMem bitmapMem) hrun).failureKeeps_iff n

/-- A full area: a mapping of one page finds no page and changes nothing. -/
theorem failed_mapping_keeps_area_full :
    ∃ v, Run (step .firstFit) Free (setVm 0x10000 (0x10000 + mmapSize) (fun _ => 7) fun _ => true)
        [.alloc mmapSize] v ∧
      (v.tryMapPages .firstFit (fun _ => false) (fun _ => none) (fun _ => 3) 1).1 = 0 ∧
      FailureKeeps .firstFit v (fun _ => false) (fun _ => none) (fun _ => 3) 1 := by
  have hrun : Run (step .firstFit) Free
      (setVm 0x10000 (0x10000 + mmapSize) (fun _ => 7) fun _ => true) [.alloc mmapSize] _ :=
    Run.of_exec rfl
  refine ⟨_, hrun, by decide +kernel, ?_⟩
  exact (failed_mapping_keeps_area .firstFit (by decide) (by decide) (by decide) _ _ hrun
    _ _ _ 1).mpr (.inl (by decide +kernel))

/-- Two pages of which the second is refused: `NULL` is returned, both pages stay marked and
    the first one keeps its entry. -/
theorem not_failed_mapping_keeps_area :
    ∃ v, Run (step .firstFit) Free (setVm 0x10000 (0x10000 + mmapSize) (fun _ => 7) fun _ => true)
        [] v ∧
      (v.tryMapPages .firstFit (fun i => decide (i = 1)) (fun _ => none) (fun _ => 3) 2).1 = 0 ∧
      v.bitmap 0 = false ∧
      (v.tryMapPages .firstFit (fun i => decide (i = 1)) (fun _ => none) (fun _ => 3) 2).2.1.bitmap 0 =
        true ∧
      (v.tryMapPages .firstFit (fun i => decide (i = 1)) (fun _ => none) (fun _ => 3) 2).2.2 0x10 =
        some 3 ∧
      ¬ FailureKeeps .firstFit v (fun i => decide (i = 1)) (fun _ => none) (fun _ => 3) 2 := by
  refine ⟨_, .nil, by decide, by decide, by decide, by decide, fun h => ?_⟩
  have hbit := congrFun (h (by decide)).1 0
  exact absurd hbit (by decide)

end Vma
end Kgpu
