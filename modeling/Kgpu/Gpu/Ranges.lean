-- SUMMARY: Rounding and merging of the ranges that are pinned for a request: `__merge_ranges` computes the hulls of the chains of ranges that touch.
import Kgpu.Gpu.Operations
import Kgpu.Library.Intervals
import Mathlib.Order.Lattice.Nat

/-!
# Ranges

`__merge_ranges` rounds at most three ranges to pages and merges those that
overlap or touch. The merged ranges cover the same bytes as the rounded ones, and
there is a gap between any two of them. They are the hulls of the maximal chains of
rounded ranges, so that the order of the ranges does not matter.
-/

namespace Kgpu

open Library

/-! ## Rounding -/

theorem roundDown_toNat (x : UL) : (roundDown x).toNat = x.toNat / 4096 * 4096 := by
  have hx := x.isLt
  have hmask : (~~~(pageSize - 1) : UL).toNat = (2 ^ 52 - 1) * 2 ^ 12 := by decide
  have hdiv : (x.toNat &&& (2 ^ 52 - 1) * 2 ^ 12) / 2 ^ 12 = x.toNat / 2 ^ 12 := by
    rw [Nat.and_div_two_pow, Nat.mul_div_cancel _ (by decide), Nat.and_two_pow_sub_one_eq_mod]
    omega
  have hmod : (x.toNat &&& (2 ^ 52 - 1) * 2 ^ 12) % 2 ^ 12 = 0 := by
    rw [Nat.and_mod_two_pow, Nat.mul_mod_left, Nat.and_zero]
  rw [roundDown, BitVec.toNat_and, hmask]
  omega

theorem or_pageMask (n : Nat) : n ||| (2 ^ 12 - 1) = n / 2 ^ 12 * 2 ^ 12 + (2 ^ 12 - 1) := by
  have hdiv : (n ||| (2 ^ 12 - 1)) / 2 ^ 12 = n / 2 ^ 12 := by
    rw [Nat.or_div_two_pow, show (2 ^ 12 - 1) / 2 ^ 12 = 0 from by decide, Nat.or_zero]
  have hmod : (n ||| (2 ^ 12 - 1)) % 2 ^ 12 = 2 ^ 12 - 1 := by
    rw [Nat.or_mod_two_pow, show (2 ^ 12 - 1) % 2 ^ 12 = 2 ^ 12 - 1 from by decide]
    have hlt := Nat.or_lt_two_pow (Nat.mod_lt n (show 0 < 2 ^ 12 by decide))
      (show 2 ^ 12 - 1 < 2 ^ 12 by decide)
    have hge := @Nat.right_le_or (n % 2 ^ 12) (2 ^ 12 - 1)
    omega
  omega

theorem roundUp_toNat {x : UL} (hle : x.toNat ≤ 2 ^ 64 - 4096) :
    (roundUp x).toNat = (x.toNat + 4095) / 4096 * 4096 := by
  rcases Nat.eq_zero_or_pos x.toNat with hz | hpos
  · have hzero : x = 0 := BitVec.eq_of_toNat_eq (by simpa using hz)
    rw [hzero]
    decide
  · have hsub : (x - 1).toNat = x.toNat - 1 := BitVec.toNat_sub_of_le (BitVec.le_def.mpr hpos)
    have hmask : (pageSize - 1 : UL).toNat = 2 ^ 12 - 1 := by decide
    rw [roundUp, BitVec.toNat_add, BitVec.toNat_or, hsub, hmask, or_pageMask,
      show (1 : UL).toNat = 1 from rfl]
    omega

theorem roundUp_aligned (x : UL) : (roundUp x).toNat % 4096 = 0 := by
  have hmask : (pageSize - 1 : UL).toNat = 2 ^ 12 - 1 := by decide
  rw [roundUp, BitVec.toNat_add, BitVec.toNat_or, hmask, or_pageMask,
    show (1 : UL).toNat = 1 from rfl]
  omega

/-! ## Extents -/

namespace Extent

def lo (e : Extent) : Nat := e.1.toNat

def hi (e : Extent) : Nat := e.1.toNat + e.2.toNat

def Contains (e : Extent) (n : Nat) : Prop := e.lo ≤ n ∧ n < e.hi

/-- There is a byte between the two. -/
def Clear (a b : Extent) : Prop := a.hi < b.lo ∨ b.hi < a.lo

/-- A non-empty run of whole pages that does not reach the end of the address space. -/
structure Paged (e : Extent) : Prop where
  lo_aligned : e.1.toNat % 4096 = 0
  size_aligned : e.2.toNat % 4096 = 0
  pos : 0 < e.2.toNat
  bound : e.1.toNat + e.2.toNat < 2 ^ 64

/-- Whole pages, or none, that do not reach the end of the address space. -/
structure Whole (e : Extent) : Prop where
  lo_aligned : e.1.toNat % 4096 = 0
  size_aligned : e.2.toNat % 4096 = 0
  bound : e.1.toNat + e.2.toNat < 2 ^ 64

theorem Paged.whole {e : Extent} (h : e.Paged) : e.Whole := ⟨h.lo_aligned, h.size_aligned, h.bound⟩

/-- The addresses from the start to the end, the end included: two ranges overlap or touch
    when these have one in common. -/
def span (e : Extent) : NonemptyInterval ℕ := ⟨(e.lo, e.hi), Nat.le_add_right _ _⟩

@[simp] theorem fst_span (e : Extent) : e.span.fst = e.lo := rfl

@[simp] theorem snd_span (e : Extent) : e.span.snd = e.hi := rfl

theorem span_injective : Function.Injective span := by
  intro a b h
  have hlo : a.lo = b.lo := congrArg (·.fst) h
  have hhi : a.hi = b.hi := congrArg (·.snd) h
  simp only [lo, hi] at hlo hhi
  exact Prod.ext (BitVec.eq_of_toNat_eq hlo) (BitVec.eq_of_toNat_eq (by omega))

theorem clear_iff {a b : Extent} : a.Clear b ↔ ¬ Touch a.span b.span := by
  simp only [Clear, Touch, fst_span, snd_span]
  omega

/-- What `__merge_ranges` does to each range first. -/
def round (e : Extent) : Extent := (roundDown e.1, roundUp e.2)

theorem round_paged {e : Extent} (hpos : 0 < e.2.toNat) (hbound : e.hi ≤ 2 ^ 64 - 4096) :
    e.round.Paged := by
  unfold hi at hbound
  have hd := roundDown_toNat e.1
  have hu := roundUp_toNat (x := e.2) (by omega)
  constructor <;> simp only [round, hd, hu] <;> omega

theorem round_whole {e : Extent} (hbound : e.round.hi < 2 ^ 64) : e.round.Whole := by
  refine ⟨?_, roundUp_aligned e.2, hbound⟩
  simp only [round, roundDown_toNat]
  omega

theorem round_whole_of_le {e : Extent} (hbound : e.hi ≤ 2 ^ 64 - 4096) : e.round.Whole := by
  unfold hi at hbound
  have hd := roundDown_toNat e.1
  have hu := roundUp_toNat (x := e.2) (by omega)
  refine round_whole ?_
  simp only [hi, round, hd, hu]
  omega

/-- The number of pages that the size needs. -/
def pages (e : Extent) : Nat := (e.2.toNat + 4095) / 4096

/-- The page is one of as many as the size needs, from the page of the start on. -/
def Reaches (e : Extent) (page : Nat) : Prop :=
  e.lo / 4096 ≤ page ∧ page < e.lo / 4096 + e.pages

/-- These are the pages of the rounded range. -/
theorem round_contains_iff {e : Extent} {n : Nat} (hbound : e.hi ≤ 2 ^ 64 - 4096) :
    e.round.Contains n ↔ e.Reaches (n / 4096) := by
  unfold hi at hbound
  have hd := roundDown_toNat e.1
  have hu := roundUp_toNat (x := e.2) (by omega)
  simp only [Contains, Reaches, pages, lo, hi, round, hd, hu]
  omega

/-- A page that is reached has a byte of the range. -/
theorem Reaches.exists_contains {e : Extent} {page : Nat} (h : e.Reaches page) :
    ∃ n, e.Contains n ∧ n / 4096 = page := by
  simp only [Reaches, pages, lo] at h
  refine ⟨max e.lo (page * 4096), ?_, ?_⟩
  · simp only [Contains, lo, hi]
    omega
  · simp only [lo]
    omega

/-- The rounded range has no page that the range does not touch. -/
theorem round_contains {e : Extent} {n : Nat} (hpos : 0 < e.2.toNat) (hbound : e.hi ≤ 2 ^ 64 - 4096)
    (hn : e.round.Contains n) : e.lo / 4096 ≤ n / 4096 ∧ n / 4096 ≤ (e.hi - 1) / 4096 := by
  unfold hi at hbound
  have hd := roundDown_toNat e.1
  have hu := roundUp_toNat (x := e.2) (by omega)
  simp only [Contains, lo, hi, round, hd, hu] at hn ⊢
  omega

end Extent

/-! ## Merging two ranges -/

theorem maxUL_toNat (a b : UL) : (maxUL a b).toNat = max a.toNat b.toNat := by
  unfold maxUL
  split
  next h =>
    rw [BitVec.lt_def] at h
    omega
  next h =>
    rw [BitVec.lt_def] at h
    omega

variable {a b e : Extent}

theorem Extent.Whole.end_toNat (ha : a.Whole) : (a.1 + a.2).toNat = a.1.toNat + a.2.toNat := by
  have hbound := ha.bound
  rw [BitVec.toNat_add]
  omega

/-- The hull of two ranges, as computed from the one that starts first. -/
theorem hull_spec (ha : a.Whole) (hb : b.Whole) (hle : a.1.toNat ≤ b.1.toNat)
    (htouch : b.1.toNat ≤ a.1.toNat + a.2.toNat) :
    Extent.Whole (a.1, maxUL (a.1 + a.2) (b.1 + b.2) - a.1) ∧
      Extent.span (a.1, maxUL (a.1 + a.2) (b.1 + b.2) - a.1) = a.span ⊔ b.span := by
  have hmax := maxUL_toNat (a.1 + a.2) (b.1 + b.2)
  rw [ha.end_toNat, hb.end_toNat] at hmax
  have hsub : (maxUL (a.1 + a.2) (b.1 + b.2) - a.1).toNat =
      max (a.1.toNat + a.2.toNat) (b.1.toNat + b.2.toNat) - a.1.toNat := by
    rw [BitVec.toNat_sub_of_le (BitVec.le_def.mpr (by omega)), hmax]
  obtain ⟨ha₁, ha₂, ha₃⟩ := ha
  obtain ⟨hb₁, hb₂, hb₃⟩ := hb
  refine ⟨⟨ha₁, ?_, ?_⟩, NonemptyInterval.ext (Prod.ext ?_ ?_)⟩
  · simp only [hsub]
    omega
  · simp only [hsub]
    omega
  · exact (min_eq_left hle).symm
  · change a.1.toNat + (maxUL (a.1 + a.2) (b.1 + b.2) - a.1).toNat =
      max (a.1.toNat + a.2.toNat) (b.1.toNat + b.2.toNat)
    omega

theorem maxUL_comm (x y : UL) : maxUL x y = maxUL y x := by
  apply BitVec.eq_of_toNat_eq
  rw [maxUL_toNat, maxUL_toNat, Nat.max_comm]

/-- Two ranges that are merged overlap or touch, and the result is their hull. -/
theorem merge2ranges_some (ha : a.Whole) (hb : b.Whole) (h : merge2ranges a b = some e) :
    e.Whole ∧ e.span = a.span ⊔ b.span ∧ Touch a.span b.span := by
  unfold merge2ranges at h
  simp only [BitVec.lt_def, BitVec.le_def, ha.end_toNat, hb.end_toNat] at h
  simp only [Touch, Extent.fst_span, Extent.snd_span, Extent.lo, Extent.hi]
  split at h
  next hlt =>
    split at h
    next htouch =>
      cases h
      obtain ⟨hw, hspan⟩ := hull_spec ha hb (Nat.le_of_lt hlt) htouch
      exact ⟨hw, hspan, by omega, by omega⟩
    next => cases h
  next hlt =>
    split at h
    next heq =>
      cases h
      have hmax := maxUL_toNat a.2 b.2
      have heq' := congrArg BitVec.toNat heq
      obtain ⟨ha₁, ha₂, ha₃⟩ := ha
      obtain ⟨hb₁, hb₂, hb₃⟩ := hb
      refine ⟨⟨ha₁, ?_, ?_⟩, NonemptyInterval.ext (Prod.ext ?_ ?_), by omega, by omega⟩
      · simp only [hmax]
        omega
      · simp only [hmax]
        omega
      · exact (min_eq_left (Nat.le_of_eq heq')).symm
      · change a.1.toNat + (maxUL a.2 b.2).toNat = max (a.1.toNat + a.2.toNat) (b.1.toNat + b.2.toNat)
        omega
    next hne =>
      split at h
      next htouch =>
        cases h
        obtain ⟨hw, hspan⟩ := hull_spec hb ha (Nat.le_of_not_lt hlt) htouch
        rw [maxUL_comm] at hw hspan
        exact ⟨hw, hspan.trans (sup_comm _ _), by omega, by omega⟩
      next => cases h

/-- Two ranges that are not merged have a gap between them. -/
theorem merge2ranges_none (ha : a.Whole) (hb : b.Whole) (h : merge2ranges a b = none) :
    a.Clear b := by
  unfold merge2ranges at h
  simp only [BitVec.lt_def, BitVec.le_def, ha.end_toNat, hb.end_toNat] at h
  simp only [Extent.Clear, Extent.lo, Extent.hi]
  split at h
  next =>
    split at h
    next => cases h
    next => omega
  next =>
    split at h
    next => cases h
    next =>
      split at h
      next => cases h
      next => omega

/-- Two ranges that start at one address are merged, also when sums wrap. -/
theorem merge2ranges_start_ne (h : merge2ranges a b = none) : a.1 ≠ b.1 := by
  intro heq
  simp [merge2ranges, heq] at h

/-! ## Merging all ranges -/

/-- The ranges `es` were made of `rs` by merging some of them. -/
structure Reduced (rs es : List Extent) : Prop where
  whole : ∀ e ∈ es, e.Whole
  grouped : Grouped {s | s ∈ rs.map Extent.span} (es.map Extent.span)
  length_le : es.length ≤ rs.length

namespace Reduced

variable {rs es es' : List Extent}

theorem self (h : ∀ r ∈ rs, r.Whole) : Reduced rs rs := ⟨h, Grouped.self _, Nat.le_refl _⟩

theorem perm (h : Reduced rs es) (hp : es.Perm es') : Reduced rs es' where
  whole e he := h.whole e (hp.mem_iff.mpr he)
  grouped := h.grouped.perm (hp.map _)
  length_le := hp.length_eq ▸ h.length_le

theorem merge (h : Reduced rs (a :: b :: es)) (hm : merge2ranges a b = some e) :
    Reduced rs (e :: es) := by
  obtain ⟨ha, hb, hes⟩ : a.Whole ∧ b.Whole ∧ ∀ e ∈ es, e.Whole := by simpa using h.whole
  obtain ⟨hw, hspan, htouch⟩ := merge2ranges_some ha hb hm
  refine ⟨List.forall_mem_cons.mpr ⟨hw, hes⟩, ?_, (Nat.le_succ _).trans h.length_le⟩
  rw [List.map_cons, hspan]
  exact h.grouped.merge htouch

/-- The step that ends every branch of `__merge_ranges` with one merge done: the two ranges
    that are left are merged, or they stay. -/
theorem last (h : Reduced rs [a, b]) :
    Reduced rs (match merge2ranges a b with
      | some r => [r]
      | none => [a, b]) := by
  cases hm : merge2ranges a b with
  | some e => exact h.merge hm
  | none => exact h

end Reduced

theorem mergeRanges_reduced {rs : List Extent} (hlen : rs.length ≤ 3)
    (hrs : ∀ r ∈ rs, r.round.Whole) : Reduced (rs.map Extent.round) (mergeRanges rs) := by
  have hround : (rs.map fun r => (roundDown r.1, roundUp r.2)) = rs.map Extent.round := rfl
  have hself : Reduced (rs.map Extent.round) (rs.map Extent.round) :=
    .self (List.forall_mem_map.mpr hrs)
  have hlen' : (rs.map Extent.round).length ≤ 3 := by rwa [List.length_map]
  unfold mergeRanges
  rw [hround]
  generalize rs.map Extent.round = ls at hself hlen' ⊢
  match ls, hlen' with
  | [], _ => exact hself
  | [r0], _ => exact hself
  | [r0, r1], _ => exact hself.last
  | [r0, r1, r2], _ =>
    cases h01 : merge2ranges r0 r1 with
    | some e =>
      simp only [h01]
      exact (hself.merge h01).last
    | none =>
      cases h02 : merge2ranges r0 r2 with
      | some e =>
        simp only [h01, h02]
        exact ((hself.perm (.cons _ (.swap _ _ _))).merge h02).last
      | none =>
        cases h21 : merge2ranges r2 r1 with
        | some e =>
          simp only [h01, h02, h21]
          have hperm : [r0, r1, r2].Perm [r2, r1, r0] := (List.reverse_perm [r0, r1, r2]).symm
          exact (((hself.perm hperm).merge h21).perm (.swap _ _ _)).last
        | none =>
          simp only [h01, h02, h21]
          exact hself

/-- `__merge_2ranges` was called on the two, in one order or the other, and did not merge
    them. -/
def Unmerged (a b : Extent) : Prop := merge2ranges a b = none ∨ merge2ranges b a = none

/-- Every pair of ranges that is left was compared, also when sums wrap. -/
theorem mergeRanges_unmerged (rs : List Extent) : (mergeRanges rs).Pairwise Unmerged := by
  have hlast : ∀ a b : Extent, (match merge2ranges a b with
      | some r => [r]
      | none => [a, b]).Pairwise Unmerged := by
    intro a b
    cases hm : merge2ranges a b with
    | some e => exact List.pairwise_singleton _ _
    | none => exact List.pairwise_pair.mpr (.inl hm)
  unfold mergeRanges
  generalize (rs.map fun r => (roundDown r.1, roundUp r.2)) = ls
  match ls with
  | [] => exact .nil
  | [r0] => exact List.pairwise_singleton _ _
  | [r0, r1] => exact hlast r0 r1
  | [r0, r1, r2] =>
    cases h01 : merge2ranges r0 r1 with
    | some e =>
      simp only [h01]
      exact hlast e r2
    | none =>
      cases h02 : merge2ranges r0 r2 with
      | some e =>
        simp only [h01, h02]
        exact hlast e r1
      | none =>
        cases h21 : merge2ranges r2 r1 with
        | some e =>
          simp only [h01, h02, h21]
          exact hlast r0 e
        | none =>
          simp only [h01, h02, h21]
          simp [Unmerged, h01, h02, h21]
  | _ :: _ :: _ :: _ :: _ => exact .nil

theorem mergeRanges_clear {rs : List Extent} (hlen : rs.length ≤ 3)
    (hrs : ∀ r ∈ rs, r.round.Whole) : (mergeRanges rs).Pairwise Extent.Clear := by
  have hwhole := (mergeRanges_reduced hlen hrs).whole
  refine (mergeRanges_unmerged rs).imp_of_mem fun {a b} ha hb hun => ?_
  rcases hun with h | h
  · exact merge2ranges_none (hwhole a ha) (hwhole b hb) h
  · exact (merge2ranges_none (hwhole b hb) (hwhole a ha) h).symm

theorem Reduced.covers {rs es : List Extent} (h : Reduced rs es) (n : Nat) :
    (∃ e ∈ es, e.Contains n) ↔ ∃ r ∈ rs, r.Contains n := by
  have hcovers := h.grouped.covers_iff n
  simpa [Extent.Contains] using hcovers

theorem mergeRanges_covers {rs : List Extent} (hlen : rs.length ≤ 3)
    (hrs : ∀ r ∈ rs, r.round.Whole) (n : Nat) :
    (∃ e ∈ mergeRanges rs, e.Contains n) ↔ ∃ r ∈ rs, r.round.Contains n := by
  rw [(mergeRanges_reduced hlen hrs).covers n]
  constructor
  · rintro ⟨e, he, hn⟩
    obtain ⟨r, hr, rfl⟩ := List.mem_map.mp he
    exact ⟨r, hr, hn⟩
  · rintro ⟨r, hr, hn⟩
    exact ⟨r.round, List.mem_map_of_mem hr, hn⟩

/-- What the result of `__merge_ranges` has to be for ranges that are not empty: whole
    pages, with gaps, and the bytes of the rounded ranges. -/
structure Merged (rs es : List Extent) : Prop where
  paged : ∀ e ∈ es, e.Paged
  clear : es.Pairwise Extent.Clear
  covers : ∀ n, (∃ e ∈ es, e.Contains n) ↔ ∃ r ∈ rs, r.Contains n

theorem mergeRanges_merged {rs : List Extent} (hlen : rs.length ≤ 3)
    (hrs : ∀ r ∈ rs, r.round.Paged) : Merged (rs.map Extent.round) (mergeRanges rs) := by
  have hwhole : ∀ r ∈ rs, r.round.Whole := fun r hr => (hrs r hr).whole
  have hred := mergeRanges_reduced hlen hwhole
  refine ⟨fun e he => ?_, mergeRanges_clear hlen hwhole, hred.covers⟩
  obtain ⟨hlo, hsize, hbound⟩ := hred.whole e he
  refine ⟨hlo, hsize, ?_, hbound⟩
  -- The hull is at least as long as one of the ranges it was made of.
  obtain ⟨S, hS⟩ := hred.grouped.group e.span (List.mem_map_of_mem he)
  obtain ⟨s, hs, -⟩ := hS.hull.least.1
  obtain ⟨r, hr, rfl⟩ : ∃ r ∈ rs, r.round.span = s := by simpa using hS.subset hs
  have hle := hS.hull.le hs
  have hlo' : e.lo ≤ r.round.lo := hle.1
  have hhi' : r.round.hi ≤ e.hi := hle.2
  have hpos := (hrs r hr).pos
  simp only [Extent.lo, Extent.hi] at hlo' hhi'
  omega

/-! ## The result does not depend on the order -/

section Order

variable {rs : List Extent} (hlen : rs.length ≤ 3) (hrs : ∀ r ∈ rs, r.round.Whole)

include hlen hrs

theorem mergeRanges_grouped :
    Grouped {s | ∃ r ∈ rs, r.round.span = s} ((mergeRanges rs).map Extent.span) ∧
      ((mergeRanges rs).map Extent.span).Pairwise fun a b => ¬ Touch a b := by
  have hset : {s | ∃ r ∈ rs, r.round.span = s} = {s | s ∈ (rs.map Extent.round).map Extent.span} := by
    ext s
    simp
  rw [hset]
  exact ⟨(mergeRanges_reduced hlen hrs).grouped,
    List.pairwise_map.mpr ((mergeRanges_clear hlen hrs).imp Extent.clear_iff.mp)⟩

theorem mem_mergeRanges_iff (e : Extent) :
    e ∈ mergeRanges rs ↔ e.span ∈ hulls {s | ∃ r ∈ rs, r.round.span = s} := by
  obtain ⟨hgrouped, hapart⟩ := mergeRanges_grouped hlen hrs
  rw [← hgrouped.mem_iff_hulls hapart, List.mem_map_of_injective Extent.span_injective]

/-- The ranges that are left begin where a rounded range begins and no other goes on. -/
theorem mergeRanges_starts (a : Nat) :
    (∃ e ∈ mergeRanges rs, e.lo = a) ↔
      (∃ r ∈ rs, r.round.lo = a) ∧ ∀ r ∈ rs, ¬ (r.round.lo < a ∧ a ≤ r.round.hi) := by
  obtain ⟨hgrouped, hapart⟩ := mergeRanges_grouped hlen hrs
  have h := hgrouped.starts_iff hapart a
  simp only [List.mem_map, Set.mem_ofPred_eq] at h
  constructor
  · rintro ⟨e, he, hlo⟩
    obtain ⟨⟨-, ⟨r, hr, rfl⟩, hr'⟩, hnone⟩ := h.mp ⟨_, ⟨e, he, rfl⟩, hlo⟩
    exact ⟨⟨r, hr, hr'⟩, fun r hr => hnone _ ⟨r, hr, rfl⟩⟩
  · rintro ⟨⟨r, hr, hlo⟩, hnone⟩
    have hnone' : ∀ s, (∃ r ∈ rs, r.round.span = s) → ¬ (s.fst < a ∧ a ≤ s.snd) := by
      rintro - ⟨r, hr, rfl⟩
      exact hnone r hr
    obtain ⟨-, ⟨e, he, rfl⟩, hlo'⟩ := h.mpr ⟨⟨_, ⟨r, hr, rfl⟩, hlo⟩, hnone'⟩
    exact ⟨e, he, hlo'⟩

end Order

/-- `__merge_ranges` of at most three ranges leaves no more ranges than it was given: whole
    pages with gaps between them, with the bytes of the rounded ranges. They are the hulls
    of the maximal chains of rounded ranges that overlap or touch, whatever the order the
    ranges are given in. -/
theorem merge_ranges_canonical {rs : List Extent} (hn : rs.length ≤ 3)
    (hend : ∀ r ∈ rs, r.round.hi ≤ 2 ^ 47) :
    (mergeRanges rs).length ≤ rs.length ∧
    (∀ e ∈ mergeRanges rs, e.1.toNat % 4096 = 0 ∧ e.2.toNat % 4096 = 0) ∧
    (mergeRanges rs).Pairwise Extent.Clear ∧
    (∀ n, (∃ e ∈ mergeRanges rs, e.Contains n) ↔ ∃ r ∈ rs, r.round.Contains n) ∧
    (∀ e, e ∈ mergeRanges rs ↔
      ∃ r ∈ rs, IsHull (chain {s | ∃ r ∈ rs, r.round.span = s} r.round.span) e.span) ∧
    ∀ rs', rs'.Perm rs → ∀ e, e ∈ mergeRanges rs' ↔ e ∈ mergeRanges rs := by
  have hwhole : ∀ r ∈ rs, r.round.Whole :=
    fun r hr => Extent.round_whole ((hend r hr).trans_lt (by decide))
  have hred := mergeRanges_reduced hn hwhole
  refine ⟨?_, fun e he => ?_, mergeRanges_clear hn hwhole, fun n => ?_, fun e => ?_,
    fun rs' hp e => ?_⟩
  · simpa using hred.length_le
  · exact ⟨(hred.whole e he).lo_aligned, (hred.whole e he).size_aligned⟩
  · exact mergeRanges_covers hn hwhole n
  · rw [mem_mergeRanges_iff hn hwhole]
    constructor
    · rintro ⟨s, ⟨r, hr, rfl⟩, hhull⟩
      exact ⟨r, hr, hhull⟩
    · rintro ⟨r, hr, hhull⟩
      exact ⟨_, ⟨r, hr, rfl⟩, hhull⟩
  · have hset : {s | ∃ r ∈ rs', r.round.span = s} = {s | ∃ r ∈ rs, r.round.span = s} := by
      ext s
      simp only [hp.mem_iff]
    rw [mem_mergeRanges_iff hn hwhole, mem_mergeRanges_iff (hp.length_eq ▸ hn)
      fun r hr => hwhole r (hp.mem_iff.mp hr), hset]

/-- One page, an empty range two pages on, and the page in between. -/
theorem merge_ranges_canonical_three :
    mergeRanges [(0x1800, 0x1000), (0x3000, 0), (0x2000, 0x10)] = [(0x1000, 0x2000)] ∧
      ∀ rs', rs'.Perm [(0x1800, 0x1000), (0x3000, 0), (0x2000, 0x10)] →
        ∀ e, e ∈ mergeRanges rs' ↔ e ∈ [((0x1000, 0x2000) : Extent)] := by
  have hmerge : mergeRanges [(0x1800, 0x1000), (0x3000, 0), (0x2000, 0x10)] = [(0x1000, 0x2000)] := by
    decide
  have hend : ∀ r ∈ ([(0x1800, 0x1000), (0x3000, 0), (0x2000, 0x10)] : List Extent),
      r.round.hi ≤ 2 ^ 47 := by
    intro r hr
    simp only [List.mem_cons, List.not_mem_nil, or_false] at hr
    rcases hr with rfl | rfl | rfl <;> decide
  have h := merge_ranges_canonical (by decide) hend
  exact ⟨hmerge, fun rs' hp e => hmerge ▸ h.2.2.2.2.2 rs' hp e⟩

end Kgpu
