-- SUMMARY: Which bytes of a request are pinned, and when `gpu_free_device_mem` unpins what `gpu_alloc_device_mem` has pinned.
import Kgpu.Gpu.Pinning

/-!
# Pinned pages

`gpu_alloc_device_mem` and `gpu_free_device_mem` each collect the ranges of the request
and merge them. The start of a range is rounded down and its size is rounded up, so that
a range that is not aligned can lose its last page. The first function collects input and
output whenever they are not in `hostbuf`, the second one only when they are in `hostvma`.

`openCLOperations.c` has the same text for what is shown here.
-/

namespace Kgpu

open Library

/-- Input, output and data of a request. -/
def ServiceRequest.ranges (sr : ServiceRequest) : List Extent :=
  [(sr.hin, sr.insize), (sr.hout, sr.outsize), (sr.hdata, sr.datasize)]

namespace Config

variable {c : Config} {sr : ServiceRequest} {e : Extent}

theorem mem_pinRanges (he : e ∈ c.pinRanges sr) : e ∈ sr.ranges := by
  simp only [pinRanges, List.mem_append] at he
  rcases he with (he | he) | he
  · split at he
    next => cases he
    next => simp [ServiceRequest.ranges, List.mem_singleton.mp he]
  · split at he
    next => cases he
    next => simp [ServiceRequest.ranges, List.mem_singleton.mp he]
  · split at he
    next => cases he
    next =>
      split at he
      next => simp [ServiceRequest.ranges, List.mem_singleton.mp he]
      next => cases he

theorem length_pinRanges (c : Config) (sr : ServiceRequest) : (c.pinRanges sr).length ≤ 3 := by
  simp only [pinRanges, List.length_append]
  split <;> split <;> split <;> try split
  all_goals simp

/-- Of the ranges that are pinned, those in `hostvma` are unpinned. -/
theorem unpinRanges_eq_filter (hc : c.Separate) (sr : ServiceRequest) :
    c.unpinRanges sr = (c.pinRanges sr).filter fun e => c.hostvma.within e.1 := by
  have hside : ∀ a, c.hostvma.within a = true → c.hostbuf.within a = false := by
    intro a hv
    exact Bool.eq_false_iff.mpr fun hb => hc a ⟨hb, hv⟩
  have hone : ∀ a sz, (if c.hostvma.within a = true then [((a, sz) : Extent)] else []) =
      (if c.hostbuf.within a = true then [] else [((a, sz) : Extent)]).filter
        fun e => c.hostvma.within e.1 := by
    intro a sz
    cases hv : c.hostvma.within a with
    | true => simp [hside a hv, hv]
    | false => cases c.hostbuf.within a <;> simp [hv]
  have hdata : ∀ a sz, (if c.hostvma.within a = true then [((a, sz) : Extent)] else []) =
      (if c.hostbuf.within a = true then [] else
        if c.hostvma.within a = true then [((a, sz) : Extent)] else []).filter
          fun e => c.hostvma.within e.1 := by
    intro a sz
    cases hv : c.hostvma.within a with
    | true => simp [hside a hv, hv]
    | false => cases c.hostbuf.within a <;> simp
  simp only [unpinRanges, pinRanges, List.filter_append]
  rw [← hone sr.hin, ← hone sr.hout, ← hdata sr.hdata]

theorem mem_unpinRanges_iff (hc : c.Separate) :
    e ∈ c.unpinRanges sr ↔ e ∈ c.pinRanges sr ∧ c.hostvma.within e.1 = true := by
  rw [unpinRanges_eq_filter hc, List.mem_filter]

theorem mem_pinRanges_of_vma (hc : c.Separate) (he : e ∈ sr.ranges)
    (hv : c.hostvma.within e.1 = true) : e ∈ c.pinRanges sr := by
  refine ((mem_unpinRanges_iff hc).mp ?_).1
  simp only [ServiceRequest.ranges, List.mem_cons, List.not_mem_nil, or_false] at he
  rcases he with rfl | rfl | rfl <;> simp [unpinRanges, hv]

theorem mem_pins {p sz : UL} :
    .pin p sz ∈ (c.gpuAllocDeviceMem sr).2 ↔ (p, sz) ∈ mergeRanges (c.pinRanges sr) := by
  simp [gpuAllocDeviceMem]

/-! ## The bytes that are pinned -/

/-- Every byte of a range that begins in `hostvma` is inside a pinned range. -/
def BytesPinned (c : Config) (sr : ServiceRequest) : Prop :=
  ∀ e ∈ sr.ranges, c.hostvma.within e.1 = true → ∀ n, e.Contains n →
    ∃ p sz, .pin p sz ∈ (c.gpuAllocDeviceMem sr).2 ∧ Extent.Contains (p, sz) n

/-- Every page of a pinned range has a byte of the request. -/
def PagesUsed (c : Config) (sr : ServiceRequest) : Prop :=
  ∀ p sz, .pin p sz ∈ (c.gpuAllocDeviceMem sr).2 → ∀ page n, Extent.Contains (p, sz) n →
    n / 4096 = page → ∃ e ∈ sr.ranges, ∃ m, e.Contains m ∧ m / 4096 = page

/-- A range in `hostvma` fits in as many pages as its size needs, from the page of its
    start on, or its last page is one of those of another range. -/
def Fitting (c : Config) (sr : ServiceRequest) : Prop :=
  ∀ e ∈ sr.ranges, c.hostvma.within e.1 = true → 0 < e.2.toNat →
    e.lo % 4096 + e.2.toNat ≤ e.pages * 4096 ∨
      ∃ r ∈ c.pinRanges sr, r.Reaches ((e.hi - 1) / 4096)

section Pinned

variable (hend : ∀ e ∈ sr.ranges, e.hi ≤ 2 ^ 47)

include hend

theorem pins_contain_iff (n : Nat) :
    (∃ p sz, .pin p sz ∈ (c.gpuAllocDeviceMem sr).2 ∧ Extent.Contains (p, sz) n) ↔
      ∃ r ∈ c.pinRanges sr, r.Reaches (n / 4096) := by
  have hbound : ∀ r ∈ c.pinRanges sr, r.hi ≤ 2 ^ 64 - 4096 :=
    fun r hr => (hend r (mem_pinRanges hr)).trans (by decide)
  have hwhole : ∀ r ∈ c.pinRanges sr, r.round.Whole :=
    fun r hr => Extent.round_whole_of_le (hbound r hr)
  have hcovers := mergeRanges_covers (c.length_pinRanges sr) hwhole n
  simp only [mem_pins]
  constructor
  · rintro ⟨p, sz, hmem, hn⟩
    obtain ⟨r, hr, hrn⟩ := hcovers.mp ⟨_, hmem, hn⟩
    exact ⟨r, hr, (Extent.round_contains_iff (hbound r hr)).mp hrn⟩
  · rintro ⟨r, hr, hrn⟩
    obtain ⟨e, he, hn⟩ := hcovers.mpr ⟨r, hr, (Extent.round_contains_iff (hbound r hr)).mpr hrn⟩
    exact ⟨e.1, e.2, he, hn⟩

theorem pagesUsed : c.PagesUsed sr := by
  rintro p sz hmem page n hn rfl
  obtain ⟨r, hr, hreach⟩ := (pins_contain_iff hend n).mp ⟨p, sz, hmem, hn⟩
  exact ⟨r, mem_pinRanges hr, hreach.exists_contains⟩

theorem bytesPinned_iff (hc : c.Separate) : c.BytesPinned sr ↔ c.Fitting sr := by
  simp only [BytesPinned, pins_contain_iff hend]
  constructor
  · intro h e he hv hpos
    refine .inr (h e he hv (e.hi - 1) ?_)
    simp only [Extent.Contains, Extent.lo, Extent.hi]
    omega
  · intro h e he hv n hn
    have hself := mem_pinRanges_of_vma hc he hv
    have hlast := h e he hv
    simp only [Extent.Contains, Extent.lo, Extent.hi] at hn hlast
    by_cases hin : e.Reaches (n / 4096)
    · exact ⟨e, hself, hin⟩
    · -- The byte is in the one page that rounding can lose, that of the last byte.
      simp only [Extent.Reaches, Extent.pages, Extent.lo] at hin
      rcases hlast (by omega) with hfit | ⟨r, hr, hreach⟩
      · simp only [Extent.pages] at hfit
        omega
      · have hpage : n / 4096 = (e.1.toNat + e.2.toNat - 1) / 4096 := by omega
        exact ⟨r, hr, hpage ▸ hreach⟩

end Pinned

/-- Every byte of the ranges in `hostvma` is pinned, and every pinned page has a byte of the
    request, exactly when each of these ranges fits in the pages that its size needs or
    shares its last page with the pages of another range. -/
theorem pinned_ranges_cover (hc : c.Separate) (hend : ∀ e ∈ sr.ranges, e.hi ≤ 2 ^ 47) :
    (c.BytesPinned sr ∧ c.PagesUsed sr) ↔ c.Fitting sr := by
  rw [and_iff_left (pagesUsed hend), bytesPinned_iff hend hc]

/-- A request with one page and a half of input in `hostvma`, from the middle of a page on. -/
theorem pinned_ranges_cover_one_page_and_a_half :
    (Config.small.gpuAllocDeviceMem { (default : ServiceRequest) with
        hin := 0x2000800, insize := 0x1800, hout := 0x1000000, hdata := 0x1000000 }).2 =
      [.pin 0x2000000 0x2000] ∧
    Config.small.BytesPinned { (default : ServiceRequest) with
      hin := 0x2000800, insize := 0x1800, hout := 0x1000000, hdata := 0x1000000 } := by
  have hend : ∀ e ∈ ServiceRequest.ranges { (default : ServiceRequest) with
      hin := 0x2000800, insize := 0x1800, hout := 0x1000000, hdata := 0x1000000 },
      e.hi ≤ 2 ^ 47 := by
    intro e he
    simp only [ServiceRequest.ranges, List.mem_cons, List.not_mem_nil, or_false] at he
    rcases he with rfl | rfl | rfl <;> decide
  refine ⟨by decide, ((pinned_ranges_cover separate_small hend).mpr ?_).1⟩
  intro e he hv hpos
  simp only [ServiceRequest.ranges, List.mem_cons, List.not_mem_nil, or_false] at he
  rcases he with rfl | rfl | rfl
  · exact .inl (by decide)
  · exact absurd hv (by decide)
  · exact absurd hv (by decide)

/-- One page of input from the middle of a page on: its second half lies in a page that is
    not pinned. -/
theorem not_pinned_ranges_cover :
    (Config.small.gpuAllocDeviceMem { (default : ServiceRequest) with
        hin := 0x2000800, insize := 0x1000, hout := 0x1000000, hdata := 0x1000000 }).2 =
      [.pin 0x2000000 0x1000] ∧
    Extent.Contains (0x2000800, 0x1000) 0x2001000 ∧
    ¬ Config.small.BytesPinned { (default : ServiceRequest) with
      hin := 0x2000800, insize := 0x1000, hout := 0x1000000, hdata := 0x1000000 } := by
  have hpins : (Config.small.gpuAllocDeviceMem { (default : ServiceRequest) with
        hin := 0x2000800, insize := 0x1000, hout := 0x1000000, hdata := 0x1000000 }).2 =
      [.pin 0x2000000 0x1000] := by decide
  have hbyte : Extent.Contains (0x2000800, 0x1000) 0x2001000 := by
    simp only [Extent.Contains, Extent.lo, Extent.hi]
    decide
  refine ⟨hpins, hbyte, fun h => ?_⟩
  obtain ⟨p, sz, hmem, hn⟩ := h (0x2000800, 0x1000) List.mem_cons_self (by decide) _ hbyte
  rw [hpins, List.mem_singleton] at hmem
  cases hmem
  exact absurd hn.2 (by decide)

/-! ## Unpinning what was pinned -/

/-- `gpu_free_device_mem` after `gpu_alloc_device_mem` unpins the addresses that were
    pinned, each once, and forgets the device addresses. -/
structure Mirrored (c : Config) (sr : ServiceRequest) : Prop where
  once : (c.gpuFreeDeviceMem (c.gpuAllocDeviceMem sr).1).2.Nodup
  same : ∀ p, .unpin p ∈ (c.gpuFreeDeviceMem (c.gpuAllocDeviceMem sr).1).2 ↔
    ∃ sz, .pin p sz ∈ (c.gpuAllocDeviceMem sr).2
  din : (c.gpuFreeDeviceMem (c.gpuAllocDeviceMem sr).1).1.din = 0
  dout : (c.gpuFreeDeviceMem (c.gpuAllocDeviceMem sr).1).1.dout = 0
  ddata : (c.gpuFreeDeviceMem (c.gpuAllocDeviceMem sr).1).1.ddata = 0

/-- Input and output begin in `hostbuf` or in `hostvma`. -/
def Inside (c : Config) (sr : ServiceRequest) : Prop :=
  (c.hostbuf.within sr.hin = true ∨ c.hostvma.within sr.hin = true) ∧
    (c.hostbuf.within sr.hout = true ∨ c.hostvma.within sr.hout = true)

/-- A range `x` that is pinned and not unpinned makes no difference to the starts: its
    pages begin where the pages of a range that is unpinned begin, or inside or right behind
    the pages of another one; and where its pages go on over the first page of a range that
    is unpinned, so do the pages of another one that is unpinned. -/
structure Hidden (c : Config) (sr : ServiceRequest) (x : Extent) : Prop where
  start : (∃ u ∈ c.unpinRanges sr, u.round.lo = x.round.lo) ∨
    ∃ r ∈ c.pinRanges sr, r.round.lo < x.round.lo ∧ x.round.lo ≤ r.round.hi
  spans : ∀ u ∈ c.unpinRanges sr, x.round.lo < u.round.lo ∧ u.round.lo ≤ x.round.hi →
    ∃ r ∈ c.unpinRanges sr, r.round.lo < u.round.lo ∧ u.round.lo ≤ r.round.hi

theorem gpuFreeDeviceMem_pins (c : Config) (sr : ServiceRequest) :
    (c.gpuFreeDeviceMem (c.gpuAllocDeviceMem sr).1).2 =
      (mergeRanges (c.unpinRanges sr)).map fun r => .unpin r.1 := rfl

theorem mem_unpins {p : UL} :
    .unpin p ∈ (c.gpuFreeDeviceMem (c.gpuAllocDeviceMem sr).1).2 ↔
      ∃ e ∈ mergeRanges (c.unpinRanges sr), e.1 = p := by
  rw [gpuFreeDeviceMem_pins, List.mem_map]
  simp only [PinCall.unpin.injEq]

theorem exists_mem_pins {p : UL} :
    (∃ sz, .pin p sz ∈ (c.gpuAllocDeviceMem sr).2) ↔
      ∃ e ∈ mergeRanges (c.pinRanges sr), e.1 = p := by
  simp only [mem_pins]
  constructor
  · rintro ⟨sz, h⟩
    exact ⟨_, h, rfl⟩
  · rintro ⟨e, he, rfl⟩
    exact ⟨e.2, he⟩

/-- No address is unpinned twice, since ranges with one start are merged. -/
theorem unpins_nodup (c : Config) (sr : ServiceRequest) :
    (c.gpuFreeDeviceMem (c.gpuAllocDeviceMem sr).1).2.Nodup := by
  rw [gpuFreeDeviceMem_pins]
  refine List.pairwise_map.mpr ((mergeRanges_unmerged _).imp fun {a b} hun heq => ?_)
  have hstart : a.1 = b.1 := PinCall.unpin.inj heq
  rcases hun with h | h
  · exact merge2ranges_start_ne h hstart
  · exact merge2ranges_start_ne h hstart.symm

theorem mirrored_iff : c.Mirrored sr ↔
    ∀ p, (∃ e ∈ mergeRanges (c.unpinRanges sr), e.1 = p) ↔
      ∃ e ∈ mergeRanges (c.pinRanges sr), e.1 = p := by
  constructor
  · intro h p
    rw [← mem_unpins, ← exists_mem_pins]
    exact h.same p
  · intro h
    refine ⟨unpins_nodup c sr, fun p => ?_, rfl, rfl, rfl⟩
    rw [mem_unpins, exists_mem_pins]
    exact h p

theorem Inside.pinRanges_eq (hc : c.Separate) (h : c.Inside sr) :
    c.pinRanges sr = c.unpinRanges sr := by
  rw [unpinRanges_eq_filter hc, eq_comm, List.filter_eq_self]
  intro e he
  simp only [pinRanges, List.mem_append] at he
  rcases he with (he | he) | he
  · split at he
    next => cases he
    next hb =>
      rw [List.mem_singleton.mp he]
      exact h.1.resolve_left hb
  · split at he
    next => cases he
    next hb =>
      rw [List.mem_singleton.mp he]
      exact h.2.resolve_left hb
  · split at he
    next => cases he
    next =>
      split at he
      next hv =>
        rw [List.mem_singleton.mp he]
        exact hv
      next => cases he

/-- The starts of the merged ranges are the same with and without the ranges that are not
    unpinned exactly when these are hidden. -/
theorem mirrored_iff_hidden (hc : c.Separate) (hend : ∀ e ∈ c.pinRanges sr, e.round.hi < 2 ^ 64) :
    c.Mirrored sr ↔
      ∀ x ∈ c.pinRanges sr, c.hostvma.within x.1 = false → c.Hidden sr x := by
  have hpin : ∀ r ∈ c.pinRanges sr, r.round.Whole := fun r hr => Extent.round_whole (hend r hr)
  have hsub : ∀ u ∈ c.unpinRanges sr, u ∈ c.pinRanges sr :=
    fun u hu => ((mem_unpinRanges_iff hc).mp hu).1
  have hunpin : ∀ u ∈ c.unpinRanges sr, u.round.Whole := fun u hu => hpin u (hsub u hu)
  have hsplit : ∀ r ∈ c.pinRanges sr, r ∈ c.unpinRanges sr ∨ c.hostvma.within r.1 = false := by
    intro r hr
    cases hv : c.hostvma.within r.1 with
    | true => exact .inl ((mem_unpinRanges_iff hc).mpr ⟨hr, hv⟩)
    | false => exact .inr rfl
  have hlo : ∀ (es : List Extent) (p : UL), (∃ e ∈ es, e.1 = p) ↔ ∃ e ∈ es, e.lo = p.toNat := by
    intro es p
    refine exists_congr fun e => and_congr_right fun _ => ?_
    exact ⟨fun h => congrArg BitVec.toNat h, fun h => BitVec.eq_of_toNat_eq h⟩
  have hall : c.Mirrored sr ↔ ∀ p : UL,
      ((∃ u ∈ c.unpinRanges sr, u.round.lo = p.toNat) ∧
        ∀ u ∈ c.unpinRanges sr, ¬ (u.round.lo < p.toNat ∧ p.toNat ≤ u.round.hi)) ↔
      ((∃ r ∈ c.pinRanges sr, r.round.lo = p.toNat) ∧
        ∀ r ∈ c.pinRanges sr, ¬ (r.round.lo < p.toNat ∧ p.toNat ≤ r.round.hi)) := by
    rw [mirrored_iff]
    refine forall_congr' fun p => ?_
    rw [hlo, hlo, mergeRanges_starts (c.length_unpinRanges sr) hunpin,
      mergeRanges_starts (c.length_pinRanges sr) hpin]
  rw [hall]
  constructor
  · intro h x hx hv
    refine ⟨?_, fun u hu hover => ?_⟩
    · by_contra hnot
      rw [not_or] at hnot
      have hx' := (h x.round.1).mpr ⟨⟨x, hx, rfl⟩, fun r hr hin => hnot.2 ⟨r, hr, hin⟩⟩
      exact hnot.1 hx'.1
    · by_contra hnot
      have hu' := (h u.round.1).mp ⟨⟨u, hu, rfl⟩, fun r hr hin => hnot ⟨r, hr, hin⟩⟩
      exact hu'.2 x hx hover
  · intro h p
    constructor
    · rintro ⟨⟨u, hu, hup⟩, hnone⟩
      refine ⟨⟨u, hsub u hu, hup⟩, fun r hr hin => ?_⟩
      rcases hsplit r hr with hr' | hv
      · exact hnone r hr' hin
      · rw [← hup] at hin
        obtain ⟨r', hr', hin'⟩ := (h r hr hv).spans u hu hin
        exact hnone r' hr' (hup ▸ hin')
    · rintro ⟨⟨r, hr, hrp⟩, hnone⟩
      refine ⟨?_, fun u hu => hnone u (hsub u hu)⟩
      rcases hsplit r hr with hr' | hv
      · exact ⟨r, hr', hrp⟩
      · rcases (h r hr hv).start with ⟨u, hu, heq⟩ | ⟨r', hr', hin⟩
        · exact ⟨u, hu, heq.trans hrp⟩
        · exact absurd (hrp ▸ hin) (hnone r' hr')

/-- When input and output begin in `hostbuf` or in `hostvma`, what was pinned is unpinned.
    When none of the ranges that are pinned runs, rounded, to the end of the address space,
    it is unpinned exactly when the ranges that begin in neither region are hidden behind
    others. -/
theorem unpin_mirrors_pin (hc : c.Separate) (sr : ServiceRequest) :
    (c.Inside sr → c.Mirrored sr) ∧
    ((∀ e ∈ c.pinRanges sr, e.round.hi < 2 ^ 64) → (c.Mirrored sr ↔
      ∀ x ∈ c.pinRanges sr, c.hostvma.within x.1 = false → c.Hidden sr x)) := by
  refine ⟨fun h => ?_, mirrored_iff_hidden hc⟩
  rw [mirrored_iff, h.pinRanges_eq hc]
  exact fun _ => Iff.rfl

/-- Input and data in `hostvma` and output in `hostbuf`. -/
theorem unpin_mirrors_pin_two_ranges :
    (Config.small.gpuAllocDeviceMem { (default : ServiceRequest) with
        hin := 0x2000000, insize := 8, hout := 0x1000000, hdata := 0x2002000, datasize := 8 }).2 =
      [.pin 0x2000000 0x1000, .pin 0x2002000 0x1000] ∧
    Config.small.Mirrored { (default : ServiceRequest) with
      hin := 0x2000000, insize := 8, hout := 0x1000000, hdata := 0x2002000, datasize := 8 } :=
  ⟨by decide, (unpin_mirrors_pin separate_small _).1 ⟨.inr (by decide), .inl (by decide)⟩⟩

/-- A request without input, `NULL` and size 0: address 0 is pinned and not unpinned. -/
theorem not_unpin_mirrors_pin :
    (Config.small.gpuAllocDeviceMem { (default : ServiceRequest) with
        hin := 0, insize := 0, hout := 0x1000000, hdata := 0x1000000 }).2 = [.pin 0 0] ∧
    (Config.small.gpuFreeDeviceMem (Config.small.gpuAllocDeviceMem { (default : ServiceRequest) with
        hin := 0, insize := 0, hout := 0x1000000, hdata := 0x1000000 }).1).2 = [] ∧
    ¬ Config.small.Mirrored { (default : ServiceRequest) with
      hin := 0, insize := 0, hout := 0x1000000, hdata := 0x1000000 } := by
  refine ⟨by decide, by decide, fun h => ?_⟩
  have hunpin := (h.same 0).mpr ⟨0, by decide⟩
  exact absurd hunpin (by decide)

end Config
end Kgpu
