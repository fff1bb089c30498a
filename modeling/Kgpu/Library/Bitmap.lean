-- SUMMARY: Bitmaps with a table of extent sizes: range updates, the search for a zero area, the tilings an extent allocator keeps, the removal of several extents, and the blocks of memory it gives out.
import Mathlib.Data.List.Pairwise
import Mathlib.Data.Set.Insert

/-!
# Bitmaps and extents

A first-fit allocator over numbered units keeps two records: a bitmap of the
units in use and, at the first unit of every extent, the extent's size. The two
agree when the set bits are tiled by the recorded extents. This file has the
range operations on bitmaps, the documented meaning of the search for a zero
area, and the lemmas saying that adding and removing an extent keep a tiling, what
is left when several extents are removed in any order, and that the blocks of memory
given out for the extents stay apart.
-/

namespace Library

/-- A bitmap, read at a bit number. -/
abbrev Bitmap := Nat → Bool

namespace Bitmap

/-- Set the `len` bits from `start` on. -/
def set (map : Bitmap) (start len : Nat) : Bitmap :=
  fun u => if start ≤ u ∧ u < start + len then true else map u

/-- Clear the `len` bits from `start` on. -/
def clear (map : Bitmap) (start len : Nat) : Bitmap :=
  fun u => if start ≤ u ∧ u < start + len then false else map u

/-- The `nr` bits from `i` on are all zero. -/
def ZeroArea (map : Bitmap) (i nr : Nat) : Prop :=
  ∀ u, i ≤ u → u < i + nr → map u = false

@[simp] theorem set_eq_true {map : Bitmap} {start len u : Nat} :
    map.set start len u = true ↔ (start ≤ u ∧ u < start + len) ∨ map u = true := by
  simp only [set]
  split <;> simp_all

@[simp] theorem clear_eq_true {map : Bitmap} {start len u : Nat} :
    map.clear start len u = true ↔ ¬ (start ≤ u ∧ u < start + len) ∧ map u = true := by
  simp only [clear]
  split <;> simp_all

end Bitmap

/-- A search for `nr` consecutive zero bits among the first `size` bits of a
    map, from bit `start` on, with what its documentation promises when no
    alignment is asked for (`alignMask = 0`). An answer below `size` is where an
    area begins, so it is the number of a zero bit even for `nr = 0`; an answer
    of `size` or more says that there is none. -/
structure ZeroAreaSearch where
  find : (map : Bitmap) → (size start nr alignMask : Nat) → Nat
  found {map : Bitmap} {size start nr : Nat} (h : find map size start nr 0 < size) :
    map (find map size start nr 0) = false ∧ find map size start nr 0 + nr ≤ size ∧
      map.ZeroArea (find map size start nr 0) nr
  complete {map : Bitmap} {size start nr i : Nat} (hnr : 0 < nr) (hi : start ≤ i)
    (hsize : i + nr ≤ size) (hzero : map.ZeroArea i nr) : find map size start nr 0 < size

namespace ZeroAreaSearch

/-- Whether an area of `nr` zero bits begins at the zero bit `i`. -/
def fits (map : Bitmap) (size nr alignMask i : Nat) : Bool :=
  i % (alignMask + 1) == 0 && !map i && decide (i + nr ≤ size) &&
    (List.range' i nr).all fun u => !map u

theorem fits_iff {map : Bitmap} {size nr i : Nat} :
    fits map size nr 0 i = true ↔ map i = false ∧ i + nr ≤ size ∧ map.ZeroArea i nr := by
  simp only [fits, Bitmap.ZeroArea, Nat.zero_add, Nat.mod_one, beq_self_eq_true, Bool.true_and,
    Bool.and_eq_true, Bool.not_eq_true', decide_eq_true_eq, List.all_eq_true, List.mem_range'_1,
    and_assoc, and_imp]

/-- The lowest area, or `size` when there is none. -/
def firstFit : ZeroAreaSearch where
  find map size start nr alignMask :=
    ((List.range' start (size - start)).find? (fits map size nr alignMask)).getD size
  found := by
    intro map size start nr h
    cases hf : (List.range' start (size - start)).find? (fits map size nr 0) with
    | none => simp [hf] at h
    | some i => exact fits_iff.mp (by simpa [hf] using List.find?_some hf)
  complete := by
    intro map size start nr i hnr hi hsize hzero
    have hfit : fits map size nr 0 i = true :=
      fits_iff.mpr ⟨hzero i (Nat.le_refl i) (by omega), hsize, hzero⟩
    cases hf : (List.range' start (size - start)).find? (fits map size nr 0) with
    | none =>
      have := List.find?_eq_none.mp hf i (List.mem_range'_1.mpr ⟨hi, by omega⟩)
      exact absurd hfit this
    | some j =>
      have := List.mem_range'_1.mp (List.mem_of_find?_eq_some hf)
      simp only [Option.getD_some]
      omega

end ZeroAreaSearch

/-! ## Tilings -/

/-- Unit `u` belongs to the extent recorded at `i`. -/
def Covers (size : Nat → Nat) (i u : Nat) : Prop := i ≤ u ∧ u < i + size i

/-- The set bits among the first `n` are the disjoint union of the extents that
    `size` records, and every extent lies below `n`. -/
structure Tiling (n : Nat) (map : Bitmap) (size : Nat → Nat) : Prop where
  inside : ∀ i < n, i + size i ≤ n
  disjoint : ∀ i < n, ∀ j < n, ∀ u, Covers size i u → Covers size j u → i = j
  marked : ∀ u < n, map u = true ↔ ∃ i < n, Covers size i u

/-- The recorded extents, as start and length. -/
def extents (n : Nat) (size : Nat → Nat) : Set (Nat × Nat) :=
  {e | e.1 < n ∧ 0 < e.2 ∧ size e.1 = e.2}

namespace Tiling

variable {n : Nat} {map : Bitmap} {size : Nat → Nat}

theorem empty (hmap : ∀ u < n, map u = false) (hsize : ∀ i < n, size i = 0) :
    Tiling n map size where
  inside i hi := by rw [hsize i hi]; omega
  disjoint i hi j _ u hu _ := by simp only [Covers, hsize i hi] at hu; omega
  marked u hu := by
    simp only [hmap u hu, Bool.false_eq_true, Covers, false_iff, not_exists, not_and]
    intro i hi
    rw [hsize i hi]
    omega

/-- A unit that is not marked is no extent's first unit. -/
theorem size_eq_zero (h : Tiling n map size) {i : Nat} (hi : i < n) (hfree : map i = false) :
    size i = 0 := by
  by_contra hne
  have : map i = true := (h.marked i hi).mpr ⟨i, hi, Nat.le_refl i, by omega⟩
  simp [hfree] at this

/-- Adding an extent of zero bits. A zero count leaves both records as they are. -/
theorem add (h : Tiling n map size) {i k : Nat} (hfree : map i = false) (hi : i < n)
    (hin : i + k ≤ n) (hzero : map.ZeroArea i k) :
    Tiling n (map.set i k) (Function.update size i k) := by
  have hsize : size i = 0 := h.size_eq_zero hi hfree
  -- No old extent reaches into the area, since its units are marked.
  have hout : ∀ j < n, ∀ u, Covers size j u → ¬ (i ≤ u ∧ u < i + k) := by
    intro j hj u hu harea
    have hn : u < n := by omega
    have : map u = true := (h.marked u hn).mpr ⟨j, hj, hu⟩
    simp [hzero u harea.1 harea.2] at this
  have hcov : ∀ j u, Covers (Function.update size i k) j u ↔
      (j = i ∧ i ≤ u ∧ u < i + k) ∨ Covers size j u := by
    intro j u
    by_cases hj : j = i
    · subst hj; simp [Covers, hsize]
    · simp [Covers, hj]
  refine ⟨?_, ?_, ?_⟩
  · intro j hj
    by_cases hji : j = i
    · subst hji; simpa using hin
    · simpa [hji] using h.inside j hj
  · intro a ha b hb u hau hbu
    rcases (hcov a u).mp hau with ⟨hai, harea⟩ | hold
    · rcases (hcov b u).mp hbu with ⟨hbi, -⟩ | hold'
      · rw [hai, hbi]
      · exact absurd harea (hout b hb u hold')
    · rcases (hcov b u).mp hbu with ⟨-, harea⟩ | hold'
      · exact absurd harea (hout a ha u hold)
      · exact h.disjoint a ha b hb u hold hold'
  · intro u hu
    rw [Bitmap.set_eq_true, h.marked u hu]
    constructor
    · rintro (harea | ⟨j, hj, hju⟩)
      · exact ⟨i, hi, (hcov i u).mpr (.inl ⟨rfl, harea⟩)⟩
      · exact ⟨j, hj, (hcov j u).mpr (.inr hju)⟩
    · rintro ⟨j, hj, hju⟩
      rcases (hcov j u).mp hju with ⟨rfl, harea⟩ | hju
      · exact .inl harea
      · exact .inr ⟨j, hj, hju⟩

/-- Removing the extent recorded at `i`. -/
theorem remove (h : Tiling n map size) {i : Nat} (hi : i < n) :
    Tiling n (map.clear i (size i)) (Function.update size i 0) := by
  have hcov : ∀ j u, Covers (Function.update size i 0) j u ↔ j ≠ i ∧ Covers size j u := by
    intro j u
    by_cases hj : j = i
    · subst hj; simp [Covers]
    · simp [Covers, hj]
  refine ⟨?_, ?_, ?_⟩
  · intro j hj
    by_cases hji : j = i
    · subst hji; simp; omega
    · simpa [hji] using h.inside j hj
  · intro a ha b hb u hau hbu
    exact h.disjoint a ha b hb u ((hcov a u).mp hau).2 ((hcov b u).mp hbu).2
  · intro u hu
    rw [Bitmap.clear_eq_true, h.marked u hu]
    constructor
    · rintro ⟨hnot, j, hj, hju⟩
      refine ⟨j, hj, (hcov j u).mpr ⟨?_, hju⟩⟩
      rintro rfl
      exact hnot hju
    · rintro ⟨j, hj, hju⟩
      obtain ⟨hne, hju⟩ := (hcov j u).mp hju
      exact ⟨fun hiu => hne (h.disjoint j hj i hi u hju hiu), j, hj, hju⟩

end Tiling

theorem extents_add {n : Nat} {size : Nat → Nat} {i k : Nat} (hi : i < n) (hsize : size i = 0) :
    extents n (Function.update size i k) = extents n size ∪ {e | e = (i, k) ∧ 0 < k} := by
  ext ⟨j, len⟩
  by_cases hj : j = i
  · subst hj
    simp only [extents, Set.mem_ofPred_eq, Function.update_self, Set.mem_union, hsize, Prod.mk.injEq,
      true_and]
    omega
  · simp [extents, hj]

theorem extents_remove {n : Nat} {size : Nat → Nat} {i : Nat} :
    extents n (Function.update size i 0) = extents n size \ {e | e.1 = i} := by
  ext ⟨j, len⟩
  by_cases hj : j = i
  · subst hj
    simp [extents]
    omega
  · simp [extents, hj]

/-- The extent at a unit is the only one there. -/
theorem extents_remove_mem {n : Nat} {size : Nat → Nat} {i len : Nat}
    (h : (i, len) ∈ extents n size) :
    extents n (Function.update size i 0) = extents n size \ {(i, len)} := by
  rw [extents_remove]
  ext ⟨j, l⟩
  refine and_congr_right fun hj => not_congr ⟨fun hji => ?_, congrArg Prod.fst⟩
  change j = i at hji
  subst hji
  rw [Set.mem_singleton_iff, Prod.mk.injEq]
  exact ⟨rfl, hj.2.2.symm.trans h.2.2⟩

/-! ## Removing several extents -/

/-- The extents recorded at the units `s`, and no others, are gone from the two records. -/
structure Removed (n : Nat) (map : Bitmap) (size : Nat → Nat) (s : Set Nat) (map' : Bitmap)
    (size' : Nat → Nat) : Prop where
  marked : ∀ u, map' u = true ↔ map u = true ∧ ∀ i ∈ s, i < n → ¬ Covers size i u
  gone : ∀ i ∈ s, i < n → size' i = 0
  kept : ∀ i, (i ∈ s → n ≤ i) → size' i = size i

namespace Removed

variable {n : Nat} {map map' : Bitmap} {size size' : Nat → Nat} {s : Set Nat} {i : Nat}

theorem none : Removed n map size ∅ map size where
  marked u := by simp
  gone i hi := absurd hi (Set.notMem_empty i)
  kept _ _ := rfl

/-- A unit that records no extent can be added. -/
theorem ignore (h : Removed n map size s map' size') (hz : i < n → size' i = 0) :
    Removed n map size (insert i s) map' size' := by
  have hcov : i ∉ s → i < n → ∀ u, ¬ Covers size i u := by
    intro hs hi u hu
    have hsize : size' i = size i := h.kept i fun hmem => absurd hmem hs
    have hzero := hz hi
    simp only [Covers] at hu
    omega
  refine ⟨fun u => ?_, fun j hj hn => ?_, fun j hj => h.kept j fun hmem => hj (.inr hmem)⟩
  · rw [h.marked u]
    refine and_congr_right fun _ => ⟨fun hall j hj hn => ?_, fun hall j hj => hall j (.inr hj)⟩
    by_cases hs : j ∈ s
    · exact hall j hs hn
    · obtain rfl := hj.resolve_right hs
      exact hcov hs hn u
  · rcases hj with rfl | hj
    · exact hz hn
    · exact h.gone j hj hn

/-- Removing one more extent. -/
theorem remove (h : Removed n map size s map' size') (hi : i < n) :
    Removed n map size (insert i s) (map'.clear i (size' i)) (Function.update size' i 0) := by
  refine ⟨fun u => ?_, fun j hj hn => ?_, fun j hj => ?_⟩
  · rw [Bitmap.clear_eq_true, h.marked u]
    by_cases hs : i ∈ s
    · -- The extent is gone already, and an empty range is cleared.
      rw [h.gone i hs hi, Set.insert_eq_of_mem hs]
      exact ⟨fun hu => hu.2, fun hu => ⟨by omega, hu⟩⟩
    · rw [h.kept i fun hmem => absurd hmem hs]
      constructor
      · rintro ⟨hout, hu, hall⟩
        refine ⟨hu, ?_⟩
        rintro j (rfl | hj) hn
        · exact hout
        · exact hall j hj hn
      · rintro ⟨hu, hall⟩
        exact ⟨hall i (.inl rfl) hi, hu, fun j hj => hall j (.inr hj)⟩
  · by_cases hji : j = i
    · subst hji
      exact Function.update_self ..
    · rw [Function.update_of_ne hji]
      exact h.gone j (hj.resolve_left hji) hn
  · have hji : j ≠ i := by
      rintro rfl
      exact absurd (hj (.inl rfl)) (Nat.not_le_of_lt hi)
    rw [Function.update_of_ne hji]
    exact h.kept j fun hmem => hj (.inr hmem)

/-- The records that are left depend only on which extents are gone. -/
theorem unique {map'' : Bitmap} {size'' : Nat → Nat} (h : Removed n map size s map' size')
    (h' : Removed n map size s map'' size'') : map' = map'' ∧ size' = size'' := by
  constructor
  · funext u
    rw [Bool.eq_iff_iff, h.marked u, h'.marked u]
  · funext i
    by_cases hi : i ∈ s ∧ i < n
    · rw [h.gone i hi.1 hi.2, h'.gone i hi.1 hi.2]
    · have hout : i ∈ s → n ≤ i := fun hs => Nat.le_of_not_lt fun hn => hi ⟨hs, hn⟩
      rw [h.kept i hout, h'.kept i hout]

/-- What is left when every unit with a record is among those removed. -/
theorem empty (h : Removed n map size s map' size') (ht : Tiling n map size)
    (hall : ∀ i < n, 0 < size i → i ∈ s) :
    (∀ u < n, map' u = false) ∧ ∀ i < n, size' i = 0 := by
  refine ⟨fun u hu => Bool.eq_false_iff.mpr fun htrue => ?_, fun i hi => ?_⟩
  · obtain ⟨hmap, hnone⟩ := (h.marked u).mp htrue
    obtain ⟨i, hi, hcov⟩ := (ht.marked u hu).mp hmap
    refine hnone i (hall i hi ?_) hi hcov
    simp only [Covers] at hcov
    omega
  · by_cases hs : i ∈ s
    · exact h.gone i hs hi
    · have hzero : ¬ 0 < size i := fun hpos => hs (hall i hi hpos)
      rw [h.kept i fun hmem => absurd hmem hs]
      omega

end Removed

/-! ## Blocks -/

/-- The block of `len` bytes at the address `addr` begins at unit `i` of a region of `n`
    units of `w` bytes from `base` on, and the size recorded there holds its bytes. -/
def BlockAt (n base w : Nat) (size : Nat → Nat) (addr len i : Nat) : Prop :=
  i < n ∧ addr = base + i * w ∧ 0 < size i ∧ len ≤ size i * w

/-- The blocks `live` are recorded, and no two of them have one address. -/
structure Placed {β : Type} (n base w : Nat) (size : Nat → Nat) (addr len : β → Nat)
    (live : List β) : Prop where
  placed : ∀ b ∈ live, ∃ i, BlockAt n base w size (addr b) (len b) i
  distinct : live.Pairwise fun b b' => addr b ≠ addr b'

namespace BlockAt

variable {n base w a addr len i j k : Nat} {size : Nat → Nat}

/-- The units that a block touches belong to it. -/
theorem covers (h : BlockAt n base w size addr len i) (hw : 0 < w)
    (ha : addr ≤ a ∧ a < addr + len) : Covers size i ((a - base) / w) := by
  obtain ⟨-, haddr, -, hlen⟩ := h
  have hend : (i + size i) * w = i * w + size i * w := Nat.add_mul i (size i) w
  refine ⟨(Nat.le_div_iff_mul_le hw).mpr ?_, (Nat.div_lt_iff_lt_mul hw).mpr ?_⟩
  · omega
  · omega

theorem inside (h : BlockAt n base w size addr len i) (hin : i + size i ≤ n) :
    base ≤ addr ∧ addr + len ≤ base + n * w := by
  obtain ⟨-, haddr, -, hlen⟩ := h
  have hend : (i + size i) * w = i * w + size i * w := Nat.add_mul i (size i) w
  have hle : (i + size i) * w ≤ n * w := Nat.mul_le_mul_right w hin
  exact ⟨by omega, by omega⟩

theorem update (h : BlockAt n base w size addr len j) (hne : j ≠ i) :
    BlockAt n base w (Function.update size i k) addr len j := by
  simp only [BlockAt, Function.update_of_ne hne]
  exact h

/-- A block and one of the same address begin at one unit. -/
theorem index_eq (h : BlockAt n base w size addr len i) (hw : 0 < w)
    (h' : addr = base + j * w) : i = j := by
  have hmul : i * w = j * w := by
    have := h.2.1
    omega
  exact Nat.mul_right_cancel hw hmul

end BlockAt

namespace Placed

variable {β : Type} {n base w : Nat} {size : Nat → Nat} {addr len : β → Nat} {live : List β}
  {b b' : β} {i k : Nat}

/-- A new record leaves the others where they are. -/
theorem record (h : Placed n base w size addr len live) (hfree : size i = 0) :
    Placed n base w (Function.update size i k) addr len live := by
  refine ⟨fun b hb => ?_, h.distinct⟩
  obtain ⟨j, hj⟩ := h.placed b hb
  refine ⟨j, hj.update ?_⟩
  rintro rfl
  exact Nat.ne_of_gt hj.2.2.1 hfree

theorem cons (h : Placed n base w size addr len live) (hw : 0 < w) (hfree : size i = 0)
    (hb : BlockAt n base w (Function.update size i k) (addr b) (len b) i) :
    Placed n base w (Function.update size i k) addr len (b :: live) := by
  have hrest := @record _ _ _ _ _ _ _ _ _ k h hfree
  refine ⟨List.forall_mem_cons.mpr ⟨⟨i, hb⟩, hrest.placed⟩, List.pairwise_cons.mpr ⟨?_, h.distinct⟩⟩
  intro b' hb' heq
  obtain ⟨j, hj⟩ := h.placed b' hb'
  -- The unit of a block has a size, and that of the new one had none.
  have hij : j = i := hj.index_eq hw (heq ▸ hb.2.1)
  subst hij
  exact Nat.ne_of_gt hj.2.2.1 hfree

theorem erase [DecidableEq β] (h : Placed n base w size addr len live) (hb : b ∈ live)
    (hat : BlockAt n base w size (addr b) (len b) i) :
    Placed n base w (Function.update size i 0) addr len (live.erase b) := by
  have hdist : (b :: live.erase b).Pairwise fun b b' => addr b ≠ addr b' :=
    ((List.perm_cons_erase hb).pairwise_iff fun hne => hne.symm).mp h.distinct
  obtain ⟨hother, hrest⟩ := List.pairwise_cons.mp hdist
  refine ⟨fun b' hb' => ?_, hrest⟩
  obtain ⟨j, hj⟩ := h.placed b' (List.mem_of_mem_erase hb')
  refine ⟨j, hj.update ?_⟩
  rintro rfl
  exact hother b' hb' (hat.2.1.trans hj.2.1.symm)

/-- In a tiling two blocks with a byte in common are one. -/
theorem eq_of_common {map : Bitmap} {a : Nat} (h : Placed n base w size addr len live)
    (ht : Tiling n map size) (hw : 0 < w) (hb : b ∈ live) (hb' : b' ∈ live)
    (ha : addr b ≤ a ∧ a < addr b + len b) (ha' : addr b' ≤ a ∧ a < addr b' + len b') : b = b' := by
  obtain ⟨i, hi⟩ := h.placed b hb
  obtain ⟨j, hj⟩ := h.placed b' hb'
  have hij : i = j := ht.disjoint i hi.1 j hj.1 _ (hi.covers hw ha) (hj.covers hw ha')
  have : Std.Symm fun b b' : β => addr b ≠ addr b' := ⟨fun _ _ hne => hne.symm⟩
  by_contra hne
  refine h.distinct.forall hb hb' hne ?_
  rw [hi.2.1, hj.2.1, hij]

end Placed

end Library
