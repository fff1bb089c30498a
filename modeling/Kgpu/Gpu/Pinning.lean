-- SUMMARY: Which pin and unpin calls are legal, and when the helper makes only legal ones.
import Kgpu.Gpu.Ranges
import Kgpu.Helper.Lifecycle
import Mathlib.Data.List.Pairwise

/-!
# Pinned memory

CUDA registers a range of host memory once at a time and unregisters it by its
start, and the helper aborts when a call is refused. `kh_request_alloc_mem` pins
the ranges of a request and `kh_service_done` computes them again to unpin them.
A request that found no service never came to the first of the two, but does come
to the second.
-/

namespace Kgpu

open Library

/-! ## Legal calls -/

namespace Extent

/-- The two have no byte in common. -/
def Apart (a b : Extent) : Prop := a.hi ≤ b.lo ∨ b.hi ≤ a.lo

instance (a b : Extent) : Decidable (a.Apart b) := inferInstanceAs (Decidable (_ ∨ _))

variable {a b : Extent}

theorem Apart.symm (h : a.Apart b) : b.Apart a := Or.symm h

instance : Std.Symm Apart := ⟨fun _ _ h => h.symm⟩

theorem Clear.apart (h : a.Clear b) : a.Apart b := h.imp Nat.le_of_lt Nat.le_of_lt

theorem Paged.roundUp (h : a.Paged) : Kgpu.roundUp a.2 = a.2 := by
  have hbound := h.bound
  have halign := h.size_aligned
  apply BitVec.eq_of_toNat_eq
  rw [roundUp_toNat (by omega)]
  omega

/-- Two ranges with one start overlap. -/
theorem Apart.start_ne (h : a.Apart b) (ha : a.Paged) (hb : b.Paged) : a.1 ≠ b.1 := by
  intro heq
  have hpos := ha.pos
  have hpos' := hb.pos
  simp only [Apart, lo, hi, heq] at h
  omega

end Extent

/-- Only the ranges of the list are tried. -/
instance (e : Extent) (P : List Extent) : Decidable (∀ e' ∈ P, e.Apart e') := List.decidableBAll _ P

/-- The ranges pinned after a call on top of `P`, if the call is legal. `gpu_pin_mem`
    registers its range rounded up to pages. -/
def PinCall.apply (P : List Extent) : PinCall → Option (List Extent)
  | pin p sz =>
    if sz ≠ 0 ∧ ∀ e ∈ P, Extent.Apart (p, roundUp sz) e then some (P ++ [(p, roundUp sz)]) else none
  | unpin p => if ∃ e ∈ P, e.1 = p then some (P.eraseP fun e => e.1 = p) else none

/-- The ranges pinned after a list of calls, if all of them are legal. -/
def pinnedAfter (calls : List PinCall) : Option (List Extent) := calls.foldlM PinCall.apply []

theorem foldlM_pin {es : List Extent} : ∀ {P : List Extent}, (∀ e ∈ es, e.Paged) →
    es.Pairwise Extent.Clear → (∀ e ∈ es, ∀ p ∈ P, e.Apart p) →
    (es.map fun e => PinCall.pin e.1 e.2).foldlM PinCall.apply P = some (P ++ es) := by
  induction es with
  | nil => simp
  | cons e es ih =>
    intro P hpaged hclear hP
    obtain ⟨he, hes⟩ := List.pairwise_cons.mp hclear
    have hpe := hpaged e List.mem_cons_self
    have happly : (PinCall.pin e.1 e.2).apply P = some (P ++ [e]) := by
      have hne : e.2 ≠ 0 := fun hz => Nat.lt_irrefl 0 (by simpa [hz] using hpe.pos)
      have hall : ∀ p ∈ P, Extent.Apart (e.1, e.2) p := hP e List.mem_cons_self
      simp only [PinCall.apply, hpe.roundUp]
      rw [if_pos ⟨hne, hall⟩]
    rw [List.map_cons, List.foldlM_cons, happly]
    refine (ih (fun e' he' => hpaged e' (List.mem_cons_of_mem _ he')) hes ?_).trans (by simp)
    intro e' he' p hp
    rcases List.mem_append.mp hp with hp | hp
    · exact hP e' (List.mem_cons_of_mem _ he') p hp
    · rw [List.mem_singleton.mp hp]
      exact (he e' he').apart.symm

theorem eraseP_perm {e : Extent} {P Q : List Extent} (hpaged : ∀ p ∈ P, p.Paged)
    (hapart : P.Pairwise Extent.Apart) (hperm : P.Perm (e :: Q)) :
    (P.eraseP fun p => p.1 = e.1).Perm Q := by
  have hmem : e ∈ P := hperm.mem_iff.mpr List.mem_cons_self
  obtain ⟨d, l₁, l₂, -, hd, hP, herase⟩ :=
    List.exists_of_eraseP (p := fun p : Extent => decide (p.1 = e.1)) hmem (by simp)
  have hdP : d ∈ P := by
    rw [hP]
    exact List.mem_append_right _ List.mem_cons_self
  -- Pinned ranges have different starts, so the one that is found is the one meant.
  have hde : d = e := by
    refine Classical.byContradiction fun hne => ?_
    have hap : d.Apart e := hapart.forall hdP hmem hne
    exact hap.start_ne (hpaged d hdP) (hpaged e hmem) (of_decide_eq_true hd)
  rw [herase]
  subst hde
  refine List.Perm.cons_inv (a := d) (List.Perm.trans ?_ hperm)
  rw [hP]
  exact List.perm_middle.symm

theorem foldlM_unpin {es : List Extent} : ∀ {P Q : List Extent}, (∀ p ∈ P, p.Paged) →
    P.Pairwise Extent.Apart → P.Perm (es ++ Q) →
    ∃ P', (es.map fun e => PinCall.unpin e.1).foldlM PinCall.apply P = some P' ∧ P'.Perm Q := by
  induction es with
  | nil => exact fun _ _ hperm => ⟨_, rfl, hperm⟩
  | cons e es ih =>
    intro P Q hpaged hapart hperm
    have hmem : e ∈ P := hperm.mem_iff.mpr List.mem_cons_self
    have happly : (PinCall.unpin e.1).apply P = some (P.eraseP fun p => p.1 = e.1) := by
      simp only [PinCall.apply]
      rw [if_pos ⟨e, hmem, rfl⟩]
    have hperm' := eraseP_perm hpaged hapart hperm
    have hsub : (P.eraseP fun p => p.1 = e.1).Sublist P := List.eraseP_sublist
    obtain ⟨P', hP', hQ⟩ := ih (fun p hp => hpaged p (hsub.subset hp)) (hapart.sublist hsub) hperm'
    refine ⟨P', ?_, hQ⟩
    rw [List.map_cons, List.foldlM_cons, happly]
    exact hP'

/-! ## Requests -/

namespace Config

variable {c : Config} {sr : ServiceRequest}

/-- The two host regions have no address in common. -/
def Separate (c : Config) : Prop := ∀ a, ¬ (c.hostbuf.within a = true ∧ c.hostvma.within a = true)

/-- The regions of the small setting have no address in common. -/
theorem separate_small : Config.small.Separate := by
  rintro a ⟨hb, hv⟩
  rw [MemInfo.within, addrWithin_iff (by decide)] at hb hv
  have hb := hb.2
  have hv := hv.1
  change a.toNat < 0x1000000 + 0x200000 at hb
  change 0x2000000 ≤ a.toNat at hv
  omega

/-- Input, output and data are not empty and start in `hostbuf` or in `hostvma`. -/
def Proper (c : Config) (sr : ServiceRequest) : Prop :=
  ∀ e : Extent, e = (sr.hin, sr.insize) ∨ e = (sr.hout, sr.outsize) ∨ e = (sr.hdata, sr.datasize) →
    0 < e.2.toNat ∧ (c.hostbuf.within e.1 = true ∨ c.hostvma.within e.1 = true)

/-- The ranges in `hostvma` end a page or more before the end of the address space, so that
    neither `round_up` nor the sums in `__merge_2ranges` wrap. -/
def Unwrapped (c : Config) (sr : ServiceRequest) : Prop :=
  ∀ e ∈ c.unpinRanges sr, e.hi ≤ 2 ^ 64 - 4096

/-- The pages of `hostvma` that a request uses. -/
def Uses (c : Config) (sr : ServiceRequest) (page : Nat) : Prop :=
  ∃ e ∈ c.unpinRanges sr, e.lo / 4096 ≤ page ∧ page ≤ (e.hi - 1) / 4096

/-- The ranges pinned for a request. -/
def pinsOf (c : Config) (sr : ServiceRequest) : List Extent := mergeRanges (c.pinRanges sr)

/-- The two functions collect the same ranges of a proper request. -/
theorem pinRanges_eq (hc : c.Separate) (h : c.Proper sr) : c.pinRanges sr = c.unpinRanges sr := by
  have hside : ∀ e : Extent, e = (sr.hin, sr.insize) ∨ e = (sr.hout, sr.outsize) ∨
      e = (sr.hdata, sr.datasize) → c.hostvma.within e.1 = !c.hostbuf.within e.1 := by
    intro e he
    have hsep := hc e.1
    rcases (h e he).2 with hb | hv
    · simpa [hb] using hsep
    · simpa [hv] using hsep
  have h₁ := hside _ (.inl rfl)
  have h₂ := hside _ (.inr (.inl rfl))
  have h₃ := hside _ (.inr (.inr rfl))
  simp only [pinRanges, unpinRanges, h₁, h₂, h₃]
  cases c.hostbuf.within sr.hin <;> cases c.hostbuf.within sr.hout <;>
    cases c.hostbuf.within sr.hdata <;> rfl

theorem mem_unpinRanges {e : Extent} (he : e ∈ c.unpinRanges sr) :
    (e = (sr.hin, sr.insize) ∨ e = (sr.hout, sr.outsize) ∨ e = (sr.hdata, sr.datasize)) ∧
      c.hostvma.within e.1 = true := by
  simp only [unpinRanges, List.mem_append] at he
  rcases he with (he | he) | he
  · split at he
    next hw =>
      rw [List.mem_singleton.mp he]
      exact ⟨.inl rfl, hw⟩
    next => cases he
  · split at he
    next hw =>
      rw [List.mem_singleton.mp he]
      exact ⟨.inr (.inl rfl), hw⟩
    next => cases he
  · split at he
    next hw =>
      rw [List.mem_singleton.mp he]
      exact ⟨.inr (.inr rfl), hw⟩
    next => cases he

theorem length_unpinRanges (c : Config) (sr : ServiceRequest) : (c.unpinRanges sr).length ≤ 3 := by
  simp only [unpinRanges, List.length_append]
  split <;> split <;> split <;> simp

/-- A proper request whose ranges do not wrap. -/
structure Tidy (c : Config) (sr : ServiceRequest) : Prop where
  proper : c.Proper sr
  unwrapped : c.Unwrapped sr

theorem pinsOf_merged (hc : c.Separate) (h : c.Tidy sr) :
    Merged ((c.unpinRanges sr).map Extent.round) (c.pinsOf sr) := by
  unfold pinsOf
  rw [pinRanges_eq hc h.proper]
  refine mergeRanges_merged (c.length_unpinRanges sr) (fun e he => ?_)
  exact Extent.round_paged (h.proper e (mem_unpinRanges he).1).1 (h.unwrapped e he)

/-- Every pinned page is one the request uses. -/
theorem pinsOf_uses (hc : c.Separate) (h : c.Tidy sr) {e : Extent} (he : e ∈ c.pinsOf sr) {n : Nat}
    (hn : e.Contains n) : c.Uses sr (n / 4096) := by
  obtain ⟨r, hr, hrn⟩ := ((pinsOf_merged hc h).covers n).mp ⟨e, he, hn⟩
  obtain ⟨e', he', rfl⟩ := List.mem_map.mp hr
  have hpos := (h.proper e' (mem_unpinRanges he').1).1
  exact ⟨e', he', Extent.round_contains hpos (h.unwrapped e' he') hrn⟩

/-- Ranges pinned for requests that use different pages are apart. -/
theorem pinsOf_apart {sr' : ServiceRequest} (hc : c.Separate) (h : c.Tidy sr) (h' : c.Tidy sr')
    (hpages : ∀ page, ¬ (c.Uses sr page ∧ c.Uses sr' page)) {e e' : Extent}
    (he : e ∈ c.pinsOf sr) (he' : e' ∈ c.pinsOf sr') : e.Apart e' := by
  have hpos := ((pinsOf_merged hc h).paged e he).pos
  have hpos' := ((pinsOf_merged hc h').paged e' he').pos
  refine Classical.byContradiction fun hnot => ?_
  -- Otherwise the larger of the two starts lies in both.
  have hboth : e.Contains (max e.lo e'.lo) ∧ e'.Contains (max e.lo e'.lo) := by
    simp only [Extent.Apart, Extent.Contains, Extent.lo, Extent.hi] at hnot ⊢
    omega
  exact hpages _ ⟨pinsOf_uses hc h he hboth.1, pinsOf_uses hc h' he' hboth.2⟩

end Config
/-! ## The invariant -/

namespace Helper

variable {c : Config} {s s' : Helper} {t : Token} {x : ReqState} {a : Answers} {P : List Extent}

/-- The request has been through `kh_request_alloc_mem`. -/
def holdsPins (sr : ServiceRequest) : Bool := sr.state ≠ .init && sr.s.isSome

/-- The requests that have ranges pinned. -/
def holders (s : Helper) : List Token := s.allReqs.filter fun t => holdsPins (s.sr t)

/-- The requests held are tidy and use different pages, and one without a service
    uses none. -/
structure Tame (c : Config) (s : Helper) : Prop where
  tidy : ∀ t ∈ s.allReqs, c.Tidy (s.sr t)
  pages : ∀ t ∈ s.allReqs, ∀ t' ∈ s.allReqs, t ≠ t' →
    ∀ page, ¬ (c.Uses (s.sr t) page ∧ c.Uses (s.sr t') page)
  unserved : ∀ t ∈ s.allReqs, (s.sr t).s = none →
    (s.sr t).state = .done ∧ c.unpinRanges (s.sr t) = []

/-- The calls made so far were legal and left the ranges of the holders pinned. -/
structure Pinned (c : Config) (s : Helper) (P : List Extent) : Prop where
  calls : pinnedAfter s.pins = some P
  perm : P.Perm (s.holders.flatMap fun t => c.pinsOf (s.sr t))

theorem SameRanges.eqs {sr sr' : ServiceRequest} (h : SameRanges sr sr') :
    (c.Tidy sr' ↔ c.Tidy sr) ∧ c.Uses sr' = c.Uses sr ∧ c.pinsOf sr' = c.pinsOf sr ∧
      c.unpinRanges sr' = c.unpinRanges sr := by
  obtain ⟨h₁, h₂, h₃, h₄, h₅, h₆, -⟩ := h
  have hun : c.unpinRanges sr' = c.unpinRanges sr := by
    simp only [Config.unpinRanges, h₁, h₂, h₃, h₄, h₅, h₆]
  have hproper : c.Proper sr' ↔ c.Proper sr := by
    simp only [Config.Proper, h₁, h₂, h₃, h₄, h₅, h₆]
  have hunwrapped : c.Unwrapped sr' ↔ c.Unwrapped sr := by
    simp only [Config.Unwrapped, hun]
  refine ⟨?_, ?_, ?_, hun⟩
  · exact ⟨fun h => ⟨hproper.mp h.proper, hunwrapped.mp h.unwrapped⟩,
      fun h => ⟨hproper.mpr h.proper, hunwrapped.mpr h.unwrapped⟩⟩
  · funext page
    simp only [Config.Uses, hun]
  · simp only [Config.pinsOf, Config.pinRanges, h₁, h₂, h₃, h₄, h₅, h₆]

theorem Tame.frame (h : s.Tame c) (hall : ∀ t ∈ s'.allReqs, t ∈ s.allReqs)
    (hsr : ∀ t, SameRanges (s.sr t) (s'.sr t))
    (hdone : ∀ t, (s.sr t).state = .done → (s'.sr t).state = .done) : s'.Tame c := by
  refine ⟨fun t ht => ?_, fun t ht t' ht' hne => ?_, fun t ht hnone => ?_⟩
  · exact ((hsr t).eqs.1).mpr (h.tidy t (hall t ht))
  · rw [(hsr t).eqs.2.1, (hsr t').eqs.2.1]
    exact h.pages t (hall t ht) t' (hall t' ht') hne
  · rw [(hsr t).2.2.2.2.2.2] at hnone
    obtain ⟨hstate, hnil⟩ := h.unserved t (hall t ht) hnone
    exact ⟨hdone t hstate, by rw [(hsr t).eqs.2.2.2]; exact hnil⟩

/-- The pinned ranges of tame requests are whole pages and apart. -/
theorem Pinned.apart (h : s.Pinned c P) (hc : c.Separate) (htame : s.Tame c) (hl : s.Listed) :
    (∀ e ∈ P, e.Paged) ∧ P.Pairwise Extent.Apart := by
  have hmem : ∀ t ∈ s.holders, t ∈ s.allReqs := fun t ht => (List.mem_filter.mp ht).1
  have hnd : s.holders.Nodup := hl.nodup_all.filter _
  constructor
  · intro e he
    obtain ⟨t, ht, het⟩ := List.mem_flatMap.mp (h.perm.mem_iff.mp he)
    exact (Config.pinsOf_merged hc (htame.tidy t (hmem t ht))).paged e het
  · rw [h.perm.pairwise_iff Extent.Apart.symm, List.pairwise_flatMap]
    constructor
    · intro t ht
      exact (Config.pinsOf_merged hc (htame.tidy t (hmem t ht))).clear.imp Extent.Clear.apart
    · refine hnd.imp_of_mem fun {t t'} ht ht' hne e he e' he' => ?_
      exact Config.pinsOf_apart hc (htame.tidy t (hmem t ht)) (htame.tidy t' (hmem t' ht'))
        (htame.pages t (hmem t ht) t' (hmem t' ht') hne) he he'

theorem pinnedAfter_append {calls calls' : List PinCall} (h : pinnedAfter calls = some P) :
    pinnedAfter (calls ++ calls') = calls'.foldlM PinCall.apply P := by
  unfold pinnedAfter at h ⊢
  rw [List.foldlM_append, h]
  rfl

/-- Steps that pin nothing and let no request begin or stop holding its ranges. -/
theorem Pinned.frame (h : s.Pinned c P) (hall : s'.allReqs = s.allReqs) (hpins : s'.pins = s.pins)
    (hsr : ∀ t, SameRanges (s.sr t) (s'.sr t))
    (hholds : ∀ t ∈ s.allReqs, holdsPins (s'.sr t) = holdsPins (s.sr t)) : s'.Pinned c P := by
  refine ⟨by rw [hpins]; exact h.calls, ?_⟩
  have hf : (fun t => c.pinsOf (s'.sr t)) = fun t => c.pinsOf (s.sr t) := by
    funext t
    exact (hsr t).eqs.2.2.1
  have hholders : s'.holders = s.holders := by
    unfold holders
    rw [hall]
    exact List.filter_congr hholds
  rw [hholders, hf]
  exact h.perm

/-- The ranges of a request are pinned on top of the others. -/
theorem Pinned.alloc (h : s.Pinned c P) (hc : c.Separate) (htame : s.Tame c) (hl : s.Listed)
    (ht : t ∈ s.allReqs) (hinit : holdsPins (s.sr t) = false) (hall : s'.allReqs = s.allReqs)
    (hpins : s'.pins = s.pins ++ (c.gpuAllocDeviceMem (s.sr t)).2)
    (hsr : ∀ t, SameRanges (s.sr t) (s'.sr t)) (hholds : holdsPins (s'.sr t) = true)
    (hother : ∀ t', t' ≠ t → s'.sr t' = s.sr t') : s'.Pinned c (P ++ c.pinsOf (s.sr t)) := by
  have hmerged := Config.pinsOf_merged hc (htame.tidy t ht)
  have hf : (fun t => c.pinsOf (s'.sr t)) = fun t => c.pinsOf (s.sr t) := by
    funext t
    exact (hsr t).eqs.2.2.1
  constructor
  · rw [hpins, pinnedAfter_append h.calls]
    refine foldlM_pin hmerged.paged hmerged.clear (fun e he p hp => ?_)
    obtain ⟨t', ht', hpt⟩ := List.mem_flatMap.mp (h.perm.mem_iff.mp hp)
    obtain ⟨ht'all, hholds'⟩ := List.mem_filter.mp ht'
    have hne : t ≠ t' := by
      rintro rfl
      rw [hinit] at hholds'
      cases hholds'
    exact Config.pinsOf_apart hc (htame.tidy t ht) (htame.tidy t' ht'all)
      (htame.pages t ht t' ht'all hne) he hpt
  · have hholders : s'.holders.Perm (t :: s.holders) := by
      unfold holders
      rw [hall]
      have herase : (s.allReqs.erase t).filter (fun t => holdsPins (s'.sr t)) =
          (s.allReqs.erase t).filter fun t => holdsPins (s.sr t) := by
        refine List.filter_congr fun t' ht' => ?_
        rw [hother t' (hl.nodup_all.mem_erase_iff.mp ht').1]
      have hbefore := (List.perm_cons_erase ht).filter fun t => holdsPins (s.sr t)
      have hafter := (List.perm_cons_erase ht).filter fun t => holdsPins (s'.sr t)
      rw [List.filter_cons_of_neg (by rw [hinit]; exact Bool.false_ne_true)] at hbefore
      rw [List.filter_cons_of_pos (by exact hholds), herase] at hafter
      exact hafter.trans (hbefore.symm.cons t)
    rw [hf]
    refine List.Perm.trans ?_ (hholders.flatMap_right _).symm
    rw [List.flatMap_cons]
    exact (h.perm.append_right _).trans List.perm_append_comm

/-- The ranges of an answered request are unpinned, and the others stay. -/
theorem Pinned.answer (h : s.Pinned c P) (hc : c.Separate) (htame : s.Tame c) (hl : s.Listed)
    (ht : t ∈ s.allReqs) (hdone : (s.sr t).state = .done) (hall : s'.allReqs = s.allReqs.erase t)
    (hpins : s'.pins = s.pins ++ (c.gpuFreeDeviceMem (s.sr t)).2)
    (hother : ∀ t', t' ≠ t → s'.sr t' = s.sr t') : ∃ P', s'.Pinned c P' := by
  have hrest : s'.holders = (s.allReqs.erase t).filter fun t => holdsPins (s.sr t) := by
    unfold holders
    rw [hall]
    refine List.filter_congr fun t' ht' => ?_
    rw [hother t' (hl.nodup_all.mem_erase_iff.mp ht').1]
  have hf : s'.holders.flatMap (fun t => c.pinsOf (s'.sr t)) =
      s'.holders.flatMap fun t => c.pinsOf (s.sr t) := by
    refine List.flatMap_congr fun t' ht' => ?_
    rw [hrest, List.mem_filter] at ht'
    rw [hother t' (hl.nodup_all.mem_erase_iff.mp ht'.1).1]
  have hbefore : s.holders.Perm ((t :: s.allReqs.erase t).filter fun t => holdsPins (s.sr t)) :=
    (List.perm_cons_erase ht).filter _
  have hcalls : (c.gpuFreeDeviceMem (s.sr t)).2 =
      (c.pinsOf (s.sr t)).map fun e => PinCall.unpin e.1 := by
    simp only [Config.gpuFreeDeviceMem, Config.pinsOf, Config.pinRanges_eq hc (htame.tidy t ht).proper]
  obtain ⟨hpaged, hapart⟩ := h.apart hc htame hl
  cases hs : (s.sr t).s with
  | none =>
    have hnil : c.pinsOf (s.sr t) = [] := by
      rw [Config.pinsOf, Config.pinRanges_eq hc (htame.tidy t ht).proper, (htame.unserved t ht hs).2]
      rfl
    rw [List.filter_cons_of_neg (by simp [holdsPins, hs]), ← hrest] at hbefore
    refine ⟨P, ?_, ?_⟩
    · rw [hpins, hcalls, hnil, List.map_nil, List.append_nil]
      exact h.calls
    · rw [hf]
      exact h.perm.trans (hbefore.flatMap_right _)
  | some p =>
    rw [List.filter_cons_of_pos (by simp [holdsPins, hs, hdone]), ← hrest] at hbefore
    have hperm : P.Perm (c.pinsOf (s.sr t) ++ s'.holders.flatMap fun t => c.pinsOf (s.sr t)) := by
      have hflat := hbefore.flatMap_right fun t => c.pinsOf (s.sr t)
      rw [List.flatMap_cons] at hflat
      exact h.perm.trans hflat
    obtain ⟨P', hP', hQ⟩ := foldlM_unpin hpaged hapart hperm
    refine ⟨P', ?_, ?_⟩
    · rw [hpins, pinnedAfter_append h.calls, hcalls]
      exact hP'
    · rw [hf]
      exact hQ

/-- The requests are tame and the calls have been legal. -/
structure PinInv (c : Config) (s : Helper) : Prop where
  tame : s.Tame c
  pinned : ∃ P, s.Pinned c P

theorem PinInv.runOp (h : s.PinInv c) (hc : c.Separate) (hl : s.Listed) (ht : t ∈ s.q x)
    (ha : a.alloc = 0) : (s.runOp c x t a).2.PinInv c := by
  obtain ⟨htame, P, hP⟩ := h
  obtain ⟨htall, hx⟩ := (hl.mem_iff t x).mp ht
  have hranges : ∀ t', SameRanges (s.sr t') ((s.runOp c x t a).2.sr t') := runOp_sameRanges
  have hother : ∀ t', t' ≠ t → (s.runOp c x t a).2.sr t' = s.sr t' :=
    fun t' hne => (runOp_other hne).1
  have hcase : OpCase c s t a x (s.runOp c x t a) := runOp_case
  generalize s.runOp c x t a = r at hcase hranges hother
  have hdone : ∀ t', (s.sr t').state = .done → (r.2.sr t').state = .done := by
    intro t' ht'
    by_cases htt : t' = t
    · subst htt
      rw [hx] at ht'
      subst ht'
      cases hcase with
      | answered => simpa [touch, listDel, Config.gpuFreeDeviceMem] using hx
    · rw [hother t' htt]
      exact ht'
  have hsame : (holdsPins (r.2.sr t) = holdsPins (s.sr t)) →
      ∀ t' ∈ s.allReqs, holdsPins (r.2.sr t') = holdsPins (s.sr t') := by
    intro heq t' _
    by_cases htt : t' = t
    · rw [htt, heq]
    · rw [hother t' htt]
  cases hcase with
  | allocRefused hne => exact absurd ha hne
  | allocated =>
    refine ⟨htame.frame (fun _ ht => ht) hranges hdone, _, hP.alloc hc htame hl htall ?_ rfl rfl
      hranges ?_ hother⟩
    · simp [holdsPins, hx]
    · cases hs : (s.sr t).s with
      | none =>
        have hbad := (htame.unserved t htall hs).1
        rw [hx] at hbad
        cases hbad
      | some p => simp [holdsPins, touch, Config.gpuAllocDeviceMem, hs]
  | noStream | executing | copying =>
    refine ⟨htame.frame (fun _ ht => ht) hranges hdone, P, hP.frame rfl rfl hranges (hsame ?_)⟩
    simp [touch]
  | prepared | prepareFailed | launched | launchFailed | posted | postFailed | finished =>
    refine ⟨htame.frame (fun _ ht => ht) hranges hdone, P, hP.frame rfl rfl hranges (hsame ?_)⟩
    simp [touch, holdsPins, hx]
  | answered =>
    refine ⟨htame.frame (fun _ ht => List.mem_of_mem_erase ht) hranges hdone, ?_⟩
    exact hP.answer hc htame hl htall hx rfl rfl hother

/-- What the requests that are read have to be: proper, and on other pages of
    `hostvma` than the requests held. The CUDA `gpu_alloc_device_mem` never fails. -/
def Orderly (c : Config) (s : Helper) : HelperStep → Prop
  | .op a => a.alloc = 0
  | .get (some kureq) => c.Proper (c.ofKuRequest kureq) ∧ ∀ t ∈ s.allReqs, ∀ page,
      ¬ (c.Uses (c.ofKuRequest kureq) page ∧ c.Uses (s.sr t) page)
  | .advance | .get none => True

/-- A request that finds no service points nowhere into `hostvma`, and no range of a
    request in `hostvma` runs over the end of the address space. -/
def Matched (c : Config) : HelperStep → Prop
  | .get (some kureq) => ((c.khLookupService kureq.serviceName).isSome ∨
      (c.hostvma.within kureq.inp = false ∧ c.hostvma.within kureq.out = false ∧
        c.hostvma.within kureq.data = false)) ∧ c.Unwrapped (c.ofKuRequest kureq)
  | .op _ | .advance | .get none => True

theorem PinInv.khInitServiceRequest (h : s.PinInv c) (hl : s.Listed) {kureq : KuRequest}
    (hord : s.Orderly c (.get (some kureq))) (hmatch : Matched c (.get (some kureq))) :
    (s.khInitServiceRequest c kureq).PinInv c := by
  obtain ⟨htame, P, hP⟩ := h
  obtain ⟨hproper, hpages⟩ := hord
  obtain ⟨hall, -, -, hpins⟩ := khInitServiceRequest_frame (c := c) (s := s) kureq
  have hfresh : s.next ∉ s.allReqs := fun hmem => Nat.lt_irrefl _ (hl.lt_next _ hmem)
  have hother : ∀ t', t' ≠ s.next → (s.khInitServiceRequest c kureq).sr t' = s.sr t' :=
    fun t' hne => (khInitServiceRequest_other kureq hne).1
  have hold : ∀ t' ∈ s.allReqs, (s.khInitServiceRequest c kureq).sr t' = s.sr t' :=
    fun t' ht' => hother t' fun e => hfresh (e ▸ ht')
  have hnew : SameRanges (c.ofKuRequest kureq) ((s.khInitServiceRequest c kureq).sr s.next) ∧
      holdsPins ((s.khInitServiceRequest c kureq).sr s.next) = false ∧
      (((s.khInitServiceRequest c kureq).sr s.next).s = none →
        ((s.khInitServiceRequest c kureq).sr s.next).state = .done ∧
        c.unpinRanges ((s.khInitServiceRequest c kureq).sr s.next) = []) := by
    rcases khInitServiceRequest_new (c := c) (s := s) kureq with ⟨hs, hsr, -⟩ | ⟨p, hs, hsr, -⟩
    · rw [hsr]
      refine ⟨⟨rfl, rfl, rfl, rfl, rfl, rfl, rfl⟩, by simp [holdsPins, Config.ofKuRequest, hs],
        fun _ => ⟨rfl, ?_⟩⟩
      have hout : c.hostvma.within kureq.inp = false ∧ c.hostvma.within kureq.out = false ∧
          c.hostvma.within kureq.data = false := by
        rcases hmatch.1 with hsome | hout
        · rw [hs] at hsome
          cases hsome
        · exact hout
      simp [Config.unpinRanges, Config.ofKuRequest, hout]
    · rw [hsr]
      refine ⟨⟨rfl, rfl, rfl, rfl, rfl, rfl, rfl⟩, by simp [holdsPins, Config.ofKuRequest],
        fun hnone => ?_⟩
      simp [Config.ofKuRequest, hs] at hnone
  have hcases : ∀ t' ∈ (s.khInitServiceRequest c kureq).allReqs, t' ∈ s.allReqs ∨ t' = s.next := by
    intro t' ht'
    rw [hall, List.mem_append, List.mem_singleton] at ht'
    exact ht'
  refine ⟨⟨fun t' ht' => ?_, fun t₁ h₁ t₂ h₂ hne page hboth => ?_, fun t' ht' hnone => ?_⟩,
    P, ?_, ?_⟩
  · rcases hcases t' ht' with hm | rfl
    · rw [hold t' hm]
      exact htame.tidy t' hm
    · exact hnew.1.eqs.1.mpr ⟨hproper, hmatch.2⟩
  · rcases hcases t₁ h₁ with hm₁ | rfl
    · rw [hold t₁ hm₁] at hboth
      rcases hcases t₂ h₂ with hm₂ | rfl
      · rw [hold t₂ hm₂] at hboth
        exact htame.pages t₁ hm₁ t₂ hm₂ hne page hboth
      · rw [hnew.1.eqs.2.1] at hboth
        exact hpages t₁ hm₁ page hboth.symm
    · rcases hcases t₂ h₂ with hm₂ | rfl
      · rw [hold t₂ hm₂, hnew.1.eqs.2.1] at hboth
        exact hpages t₂ hm₂ page hboth
      · exact hne rfl
  · rcases hcases t' ht' with hm | rfl
    · rw [hold t' hm] at hnone ⊢
      exact htame.unserved t' hm hnone
    · exact hnew.2.2 hnone
  · rw [hpins]
    exact hP.calls
  · have hholders : (s.khInitServiceRequest c kureq).holders = s.holders := by
      unfold holders
      rw [hall, List.filter_append, List.filter_cons_of_neg (by simp [hnew.2.1]), List.filter_nil,
        List.append_nil]
      exact List.filter_congr fun t' ht' => by rw [hold t' ht']
    have hf : s.holders.flatMap (fun t => c.pinsOf ((s.khInitServiceRequest c kureq).sr t)) =
        s.holders.flatMap fun t => c.pinsOf (s.sr t) :=
      List.flatMap_congr fun t' ht' => by rw [hold t' (List.mem_filter.mp ht').1]
    rw [hholders, hf]
    exact hP.perm

/-! ## Runs -/

/-- All pin calls so far were legal. And answering a request unpins only ranges that
    are pinned and that its `gpu_alloc_device_mem` pins, and leaves none of its pages
    pinned. -/
def PinsLegal (c : Config) (s : Helper) : Prop :=
  (∃ P, pinnedAfter s.pins = some P) ∧
  ∀ t rest a s', s.pc = .process .done (t :: rest) → s.step c (.op a) = some s' →
    ∃ P P', pinnedAfter s.pins = some P ∧ pinnedAfter s'.pins = some P' ∧
      (∀ p, .unpin p ∈ (c.gpuFreeDeviceMem (s.sr t)).2 →
        ∃ e ∈ P, e.1 = p ∧ .pin e.1 e.2 ∈ (c.gpuAllocDeviceMem (s.sr t)).2) ∧
      ∀ e ∈ P', ∀ n, e.Contains n → ¬ c.Uses (s.sr t) (n / 4096)

theorem PinInv.legal (h : s.PinInv c) (hc : c.Separate) (hl : s.Listed) (hw : s.Walking) :
    s.PinsLegal c := by
  obtain ⟨htame, P, hP⟩ := h
  refine ⟨⟨P, hP.calls⟩, fun t rest a s' hpc hs => ?_⟩
  obtain ⟨ht, hdone⟩ := (hl.mem_iff t .done).mp ((hw .done _ hpc).2 t List.mem_cons_self)
  simp only [Helper.step, hpc, Option.some.injEq] at hs
  have hcase : OpCase c s t a .done (s.runOp c .done t a) := runOp_case
  have hother : ∀ t', t' ≠ t → (s.runOp c .done t a).2.sr t' = s.sr t' :=
    fun t' hne => (runOp_other hne).1
  generalize s.runOp c .done t a = r at hcase hs hother
  cases hcase
  obtain ⟨P', hP'⟩ := hP.answer hc htame hl ht hdone rfl rfl hother
  refine ⟨P, P', hP.calls, by rw [← hs]; exact hP'.calls, fun p hp => ?_, fun e he n hn huse => ?_⟩
  · simp only [Config.gpuFreeDeviceMem, ← Config.pinRanges_eq hc (htame.tidy t ht).proper] at hp
    obtain ⟨e, he, heq⟩ := List.mem_map.mp hp
    cases heq
    have hholds : t ∈ s.holders := by
      refine List.mem_filter.mpr ⟨ht, ?_⟩
      cases hs : (s.sr t).s with
      | none =>
        rw [Config.pinRanges_eq hc (htame.tidy t ht).proper, (htame.unserved t ht hs).2] at he
        cases he
      | some p => simp [holdsPins, hdone, hs]
    refine ⟨e, hP.perm.mem_iff.mpr (List.mem_flatMap.mpr ⟨t, hholds, he⟩), rfl, ?_⟩
    exact List.mem_map.mpr ⟨e, he, rfl⟩
  · obtain ⟨t', ht', het⟩ := List.mem_flatMap.mp (hP'.perm.mem_iff.mp he)
    obtain ⟨hne, ht'all⟩ := hl.nodup_all.mem_erase_iff.mp (List.mem_filter.mp ht').1
    rw [hother t' hne] at het
    exact htame.pages t ht t' ht'all (Ne.symm hne) _
      ⟨huse, Config.pinsOf_uses hc (htame.tidy t' ht'all) het hn⟩

/-- In every run in which each request read finds its service or points nowhere into
    `hostvma`, and has no range there that runs over the end of the address space, in
    every state reached, the pin calls are legal. -/
theorem pins_legal_of_matched {sr : Token → ServiceRequest} {ls : List HelperStep}
    (hc : c.Separate)
    (hrun : Run (Helper.step c) (fun s l => s.Orderly c l ∧ Matched c l) (init sr) ls s) :
    s.PinsLegal c := by
  have hinit : (init sr).PinInv c := by
    refine ⟨⟨?_, ?_, ?_⟩, [], rfl, List.Perm.nil⟩ <;> simp [init]
  obtain ⟨hl, hw, h⟩ := Listed.invariant hrun hinit
    (fun s pc h => ⟨⟨h.tame.tidy, h.tame.pages, h.tame.unserved⟩,
      h.pinned.imp fun P hP => ⟨hP.calls, hP.perm⟩⟩)
    (fun s x t rest a hl _ ht hok h => h.runOp hc hl ht hok.1)
    (fun s kureq hl _ hok h => h.khInitServiceRequest hl hok.1 hok.2)
  exact h.legal hc hl hw

/-- A request that finds its service and has its ranges pinned. -/
theorem pins_legal_of_matched_one_request :
    ∃ s, Run (Helper.step .small) (fun s l => s.Orderly .small l ∧ Matched .small l) (init default)
        [.advance, .advance, .advance, .advance, .advance, .advance,
          .get (some ⟨7, Vector.replicate 32 65, 0x2000000, 0x2001000, 0x2002000, 8, 8, 8⟩),
          .advance, .advance, .advance, .advance, .advance, .op ⟨0, 0, 0, 0, false, false⟩] s ∧
      s.pins = [.pin 0x2000000 0x3000] ∧ s.PinsLegal .small := by
  have hproper : Config.small.Proper (Config.small.ofKuRequest
      ⟨7, Vector.replicate 32 65, 0x2000000, 0x2001000, 0x2002000, 8, 8, 8⟩) := by
    rintro e (rfl | rfl | rfl) <;> exact ⟨by decide, .inr (by decide)⟩
  have hunwrapped : Config.small.Unwrapped (Config.small.ofKuRequest
      ⟨7, Vector.replicate 32 65, 0x2000000, 0x2001000, 0x2002000, 8, 8, 8⟩) := by
    intro e he
    obtain ⟨rfl | rfl | rfl, -⟩ := Config.mem_unpinRanges he <;> decide
  have hidle : ∀ s : Helper, s.Orderly .small .advance ∧ Matched .small .advance :=
    fun s => ⟨trivial, trivial⟩
  have hrun : Run (Helper.step .small) (fun s l => s.Orderly .small l ∧ Matched .small l)
      (init default) [.advance, .advance, .advance, .advance, .advance, .advance,
        .get (some ⟨7, Vector.replicate 32 65, 0x2000000, 0x2001000, 0x2002000, 8, 8, 8⟩),
        .advance, .advance, .advance, .advance, .advance, .op ⟨0, 0, 0, 0, false, false⟩] _ :=
    Run.of_along rfl (And.intro (hidle _) (And.intro (hidle _) (And.intro (hidle _)
      (And.intro (hidle _) (And.intro (hidle _) (And.intro (hidle _)
      (And.intro ⟨⟨hproper, fun t ht => by cases ht⟩, .inl (by decide), hunwrapped⟩
      (And.intro (hidle _) (And.intro (hidle _) (And.intro (hidle _) (And.intro (hidle _)
      (And.intro (hidle _) (And.intro ⟨rfl, trivial⟩ trivial)))))))))))))
  exact ⟨_, hrun, by decide, pins_legal_of_matched Config.separate_small hrun⟩

/-- A request that finds no service, with its three ranges in `hostvma`. It is answered
    without having been through `kh_request_alloc_mem`, and the unpin call for its
    first range is refused. -/
theorem not_pins_legal :
    ∃ s, Run (Helper.step .small) (Orderly .small) (init default)
        [.advance, .advance, .advance, .advance, .advance, .advance,
          .get (some ⟨7, Vector.replicate 32 66, 0x2000000, 0x2001000, 0x2002000, 8, 8, 8⟩),
          .op ⟨0, 0, 0, 0, false, false⟩] s ∧
      s.pins = [.unpin 0x2000000] ∧ pinnedAfter s.pins = none ∧ ¬ s.PinsLegal .small := by
  have hproper : Config.small.Proper (Config.small.ofKuRequest
      ⟨7, Vector.replicate 32 66, 0x2000000, 0x2001000, 0x2002000, 8, 8, 8⟩) := by
    rintro e (rfl | rfl | rfl) <;> exact ⟨by decide, .inr (by decide)⟩
  have hidle : ∀ s : Helper, s.Orderly .small .advance := fun s => trivial
  refine ⟨_, Run.of_along rfl (And.intro (hidle _) (And.intro (hidle _) (And.intro (hidle _)
    (And.intro (hidle _) (And.intro (hidle _) (And.intro (hidle _)
    (And.intro ⟨hproper, fun t ht => by cases ht⟩ (And.intro rfl trivial)))))))),
    by decide, by decide, fun h => ?_⟩
  obtain ⟨P, hP⟩ := h.1
  cases hP

end Helper
end Kgpu
