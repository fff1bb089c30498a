-- SUMMARY: The seven lists of the helper as rings in memory, and what the list operations do to them.
import Kgpu.Helper.Linked
import Kgpu.Helper.Lists

/-!
# The lists in memory

The lists of `Kgpu.Helper.Loop` are stored in memory as seven rings: the nodes of
`all_reqs` are the `glist` nodes of the items, those of the six others are their
`list` nodes, and an item is allocated as long as it is on `all_reqs`. Each list
operation of the source, applied to the rings, does what the operation on sequences
does.
-/

namespace Kgpu

open Library

/-- The head of each ring; `none` stands for `all_reqs`. -/
def ringHead : Option ReqState → Node
  | none => .allReqs
  | some x => .head x

/-- The nodes of each ring. -/
def ringItems (s : Helper) : Option ReqState → List Node
  | none => s.allReqs.map .glist
  | some x => (s.q x).map .list

/-- The lists are in memory, and the items on `all_reqs` are allocated. -/
structure Stored (links : Links Node) (s : Helper) : Prop where
  rings : links.Rings ringHead (ringItems s)
  list_alive : ∀ t, links.alive (.list t) = true ↔ t ∈ s.allReqs
  glist_alive : ∀ t, links.alive (.glist t) = true ↔ t ∈ s.allReqs

/-! ## Nodes of the rings -/

theorem ringItems_congr {s s' : Helper} (hall : s'.allReqs = s.allReqs) (hq : s'.q = s.q) :
    ringItems s' = ringItems s := by
  funext k
  cases k with
  | none => rw [ringItems, ringItems, hall]
  | some x => rw [ringItems, ringItems, hq]

/-- Two states that differ in the list of one state. -/
theorem ringItems_update (s s' : Helper) (x : ReqState) (hall : s'.allReqs = s.allReqs)
    (hq : ∀ y, y ≠ x → s'.q y = s.q y) :
    ringItems s' = Function.update (ringItems s) (some x) ((s'.q x).map .list) := by
  funext k
  cases k with
  | none => rw [Function.update_of_ne (by simp), ringItems, ringItems, hall]
  | some y =>
    by_cases hy : y = x
    · rw [hy, Function.update_self, ringItems]
    · rw [Function.update_of_ne (by simp [hy]), ringItems, ringItems, hq y hy]

/-- Two states that differ in `all_reqs`. -/
theorem ringItems_update_all (s s' : Helper) (hq : s'.q = s.q) :
    ringItems s' = Function.update (ringItems s) none (s'.allReqs.map .glist) := by
  funext k
  cases k with
  | none => rw [Function.update_self, ringItems]
  | some y => rw [Function.update_of_ne (by simp), ringItems, ringItems, hq]

/-- A `list` node is in a ring only through the list of a state. -/
theorem list_not_mem_rings {s : Helper} {t : Token} (hout : ∀ x, t ∉ s.q x) (k : Option ReqState) :
    Node.list t ∉ ringHead k :: ringItems s k := by
  cases k with
  | none => simp [ringHead, ringItems]
  | some x => simp [ringHead, ringItems, hout x]

theorem glist_not_mem_rings {s : Helper} {t : Token} (hout : t ∉ s.allReqs)
    (k : Option ReqState) : Node.glist t ∉ ringHead k :: ringItems s k := by
  cases k with
  | none => simp [ringHead, ringItems, hout]
  | some x => simp [ringHead, ringItems]

/-- Taking an item out of a list that has it once. -/
theorem erase_middle {pre post : List Token} {t : Token} (hnodup : (pre ++ t :: post).Nodup) :
    (pre ++ t :: post).erase t = pre ++ post := by
  have hout : t ∉ pre := by
    have hmid := (List.nodup_middle.mp hnodup).notMem
    exact fun hin => hmid (List.mem_append_left _ hin)
  rw [List.erase_append_right _ hout, List.erase_cons_head]

/-- Both nodes of an item are made alive or freed; the other nodes stay. -/
theorem alive_update {alive : Node → Bool} {b : Bool} {t : Token} {n : Node} (hlist : n ≠ .list t)
    (hglist : n ≠ .glist t) :
    Function.update (Function.update alive (.list t) b) (.glist t) b n = alive n := by
  rw [Function.update_of_ne hglist, Function.update_of_ne hlist]

theorem list_alive_update {alive : Node → Bool} {b : Bool} {t t' : Token} :
    Function.update (Function.update alive (.list t) b) (.glist t) b (.list t') =
      if t' = t then b else alive (.list t') := by
  by_cases ht : t' = t
  · simp [ht]
  · simp [ht]

theorem glist_alive_update {alive : Node → Bool} {b : Bool} {t t' : Token} :
    Function.update (Function.update alive (.list t) b) (.glist t) b (.glist t') =
      if t' = t then b else alive (.glist t') := by
  by_cases ht : t' = t
  · simp [ht]
  · simp [ht]

/-- Whether the nodes of an item are alive does not matter to rings that have neither. -/
theorem rings_alive {links : Links Node} {s : Helper} {t : Token} {b : Bool}
    (hr : links.Rings ringHead (ringItems s)) (hall : t ∉ s.allReqs) (hq : ∀ x, t ∉ s.q x) :
    Links.Rings { links with
      alive := Function.update (Function.update links.alive (.list t) b) (.glist t) b }
      ringHead (ringItems s) := by
  refine hr.congr (fun k n _ => ⟨rfl, rfl⟩) (fun k n hn => alive_update ?_ ?_)
  · rintro rfl
    exact list_not_mem_rings hq k hn
  · rintro rfl
    exact glist_not_mem_rings hall k hn

namespace Stored

variable {links : Links Node} {s s' : Helper} {t : Token} {x : ReqState}

/-- Links with other rings, in which the same nodes are alive. -/
theorem of_rings {links' : Links Node} (h : Stored links s) (hall : s'.allReqs = s.allReqs)
    (halive : links'.alive = links.alive) (hrings : links'.Rings ringHead (ringItems s')) :
    Stored links' s' where
  rings := hrings
  list_alive t := by
    rw [halive, hall]
    exact h.list_alive t
  glist_alive t := by
    rw [halive, hall]
    exact h.glist_alive t

/-- The memory does not depend on the rest of the state. -/
theorem congr (h : Stored links s) (hall : s'.allReqs = s.allReqs) (hq : s'.q = s.q) :
    Stored links s' :=
  h.of_rings hall rfl (ringItems_congr hall hq ▸ h.rings)

/-- `list_del` of the `list` node of an item. -/
theorem listDel (h : Stored links s) (hmem : t ∈ s.q x) (hnodup : (s.q x).Nodup)
    (hother : ∀ y, y ≠ x → t ∉ s.q y) :
    ∃ links', links.listDel (some (.list t)) = some links' ∧ Stored links' (s.listDel t) ∧
      ∀ y, t ∉ (s.listDel t).q y := by
  obtain ⟨pre, post, hq⟩ := List.append_of_mem hmem
  have herase : (s.listDel t).q x = pre ++ post := by
    change (s.q x).erase t = pre ++ post
    rw [hq] at hnodup ⊢
    exact erase_middle hnodup
  have hitems : ringItems s (some x) = pre.map .list ++ .list t :: post.map .list := by
    simp [ringItems, hq]
  obtain ⟨links', hdel, hrings, halive, -⟩ := h.rings.del hitems
  have hafter : ringItems (s.listDel t) =
      Function.update (ringItems s) (some x) (pre.map .list ++ post.map .list) := by
    refine (ringItems_update s (s.listDel t) x rfl fun y hy => ?_).trans ?_
    · exact List.erase_of_not_mem (hother y hy)
    · rw [herase, List.map_append]
  refine ⟨links', hdel, h.of_rings rfl halive (hafter ▸ hrings), fun y hin => ?_⟩
  by_cases hy : y = x
  · rw [hy] at hin
    exact (hnodup.mem_erase_iff.mp hin).1 rfl
  · exact hother y hy (List.mem_of_mem_erase hin)

/-- `list_add_tail` of the `list` node of an item that is on no list. -/
theorem listAddTail (h : Stored links s) (hmem : t ∈ s.allReqs) (hout : ∀ y, t ∉ s.q y)
    (x : ReqState) :
    ∃ links', links.listAddTail (some (.list t)) (some (.head x)) = some links' ∧
      Stored links' (s.listAddTail t x) := by
  obtain ⟨links', hadd, hrings, halive, -⟩ :=
    h.rings.addTail (some x) ((h.list_alive t).mpr hmem) (list_not_mem_rings hout)
  have hafter : ringItems (s.listAddTail t x) =
      Function.update (ringItems s) (some x) (ringItems s (some x) ++ [.list t]) := by
    refine (ringItems_update s (s.listAddTail t x) x rfl fun y hy => ?_).trans ?_
    · exact Function.update_of_ne hy _ _
    · simp [Helper.listAddTail, ringItems]
  exact ⟨links', hadd, h.of_rings rfl halive (hafter ▸ hrings)⟩

/-- `list_del` of the `list` node of an item that is held, from the list of its state. -/
theorem listDel_listed (h : Stored links s) (hl : s.Listed) (hmem : t ∈ s.allReqs) :
    ∃ links', links.listDel (some (.list t)) = some links' ∧ Stored links' (s.listDel t) ∧
      ∀ y, t ∉ (s.listDel t).q y := by
  apply h.listDel ((hl.mem_iff t (s.sr t).state).mpr ⟨hmem, rfl⟩) (hl.nodup _)
  intro y hy hin
  exact hy ((hl.mem_iff t y).mp hin).2.symm

/-- `list_del` and `list_add_tail`, as every move of an item has them. -/
theorem move (h : Stored links s) (hl : s.Listed) (hmem : t ∈ s.allReqs) (x : ReqState) :
    ∃ links₁ links₂, links.listDel (some (.list t)) = some links₁ ∧
      links₁.listAddTail (some (.list t)) (some (.head x)) = some links₂ ∧
      Stored links₂ ((s.listDel t).listAddTail t x) := by
  obtain ⟨links₁, hdel, h₁, hout⟩ := h.listDel_listed hl hmem
  obtain ⟨links₂, hadd, h₂⟩ := h₁.listAddTail hmem hout x
  exact ⟨links₁, links₂, hdel, hadd, h₂⟩

/-- The item leaves both lists and is freed, as in `kh_service_done`. -/
theorem release (h : Stored links s) (hl : s.Listed) (hmem : t ∈ s.allReqs) :
    ∃ links₁ links₂ links₃, links.listDel (some (.list t)) = some links₁ ∧
      links₁.listDel (some (.glist t)) = some links₂ ∧
      khFreeServiceRequest links₂ t = some links₃ ∧
      Stored links₃ { s.listDel t with allReqs := s.allReqs.erase t } := by
  obtain ⟨links₁, hdel, h₁, hout⟩ := h.listDel_listed hl hmem
  obtain ⟨pre, post, hall⟩ := List.append_of_mem hmem
  have herase : s.allReqs.erase t = pre ++ post := by
    have hnodup := hl.nodup_all
    rw [hall] at hnodup ⊢
    exact erase_middle hnodup
  have hitems : ringItems (s.listDel t) none = pre.map .glist ++ .glist t :: post.map .glist := by
    simp [ringItems, Helper.listDel, hall]
  obtain ⟨links₂, hgdel, hrings, halive, -⟩ := h₁.rings.del hitems
  have halive₂ : links₂.alive (.list t) = true := by
    rw [halive]
    exact (h₁.list_alive t).mpr hmem
  generalize hs' : ({ s.listDel t with allReqs := s.allReqs.erase t } : Helper) = s'
  have hall' : s'.allReqs = s.allReqs.erase t := by rw [← hs']
  have hq' : s'.q = (s.listDel t).q := by rw [← hs']
  have hafter : ringItems s' =
      Function.update (ringItems (s.listDel t)) none (pre.map .glist ++ post.map .glist) := by
    rw [ringItems_update_all (s.listDel t) s' hq', hall', herase, List.map_append]
  have hgone : t ∉ s'.allReqs := by
    rw [hall']
    exact hl.nodup_all.not_mem_erase
  have hleft : ∀ t', t' ∈ s'.allReqs ↔ t' ≠ t ∧ t' ∈ s.allReqs := by
    intro t'
    rw [hall', hl.nodup_all.mem_erase_iff]
  refine ⟨links₁, links₂, _, hdel, hgdel, if_pos halive₂, ?_, fun t' => ?_, fun t' => ?_⟩
  · exact rings_alive (hafter ▸ hrings) hgone (hq' ▸ hout)
  · simp only [list_alive_update, hleft, halive]
    split
    next ht => simp [ht]
    next ht => simpa [ht, Helper.listDel] using h₁.list_alive t'
  · simp only [glist_alive_update, hleft, halive]
    split
    next ht => simp [ht]
    next ht => simpa [ht, Helper.listDel] using h₁.glist_alive t'

/-! ## New items -/

/-- A new item: both nodes are alive and linked to themselves, and the rings stay. -/
theorem alloc (h : Stored links s) (hall : t ∉ s.allReqs) (hq : ∀ x, t ∉ s.q x) :
    ∃ links', khAllocServiceRequest links t = some links' ∧
      links'.Rings ringHead (ringItems s) ∧
      (links'.next (.list t) = some (.list t) ∧ links'.prev (.list t) = some (.list t)) ∧
      links'.alive =
        Function.update (Function.update links.alive (.list t) true) (.glist t) true := by
  generalize hzero : ({
      next := Function.update (Function.update links.next (.list t) none) (.glist t) none
      prev := Function.update (Function.update links.prev (.list t) none) (.glist t) none
      alive := Function.update (Function.update links.alive (.list t) true) (.glist t) true } :
    Links Node) = links₀
  have hrings₀ : links₀.Rings ringHead (ringItems s) := by
    rw [← hzero]
    refine (rings_alive (b := true) h.rings hall hq).congr (fun k n hn => ?_) (fun k n _ => rfl)
    have hlist : n ≠ .list t := by
      rintro rfl
      exact list_not_mem_rings hq k hn
    have hglist : n ≠ .glist t := by
      rintro rfl
      exact glist_not_mem_rings hall k hn
    exact ⟨by simp [hlist, hglist], by simp [hlist, hglist]⟩
  have halive₀ : links₀.alive =
      Function.update (Function.update links.alive (.list t) true) (.glist t) true := by
    rw [← hzero]
  obtain ⟨links₁, hinit₁, hrings₁, halive₁, hnext, hprev, -⟩ :=
    hrings₀.initListHead (n := .list t) (by simp [halive₀]) (list_not_mem_rings hq)
  obtain ⟨links₂, hinit₂, hrings₂, halive₂, -, -, hsame⟩ :=
    hrings₁.initListHead (n := .glist t) (by simp [halive₁, halive₀]) (glist_not_mem_rings hall)
  have hself := hsame (.list t) (by simp)
  refine ⟨links₂, ?_, hrings₂, ⟨hself.1.trans hnext, hself.2.trans hprev⟩, ?_⟩
  · simp [khAllocServiceRequest, hzero, hinit₁, hinit₂]
  · rw [halive₂, halive₁, halive₀]

/-- An item that is allocated and freed again when there is nothing to read. -/
theorem alloc_free (h : Stored links s) (hall : t ∉ s.allReqs) (hq : ∀ x, t ∉ s.q x) :
    ∃ links₁ links₂, khAllocServiceRequest links t = some links₁ ∧
      khFreeServiceRequest links₁ t = some links₂ ∧ Stored links₂ s := by
  obtain ⟨links₁, halloc, hrings, -, halive⟩ := h.alloc hall hq
  have halive₁ : links₁.alive (.list t) = true := by simp [halive]
  refine ⟨links₁, _, halloc, if_pos halive₁, rings_alive hrings hall hq, fun t' => ?_, fun t' => ?_⟩
  · simp only [list_alive_update, halive]
    split
    next ht => simp [ht, hall]
    next ht => exact h.list_alive t'
  · simp only [glist_alive_update, halive]
    split
    next ht => simp [ht, hall]
    next ht => exact h.glist_alive t'

/-- A new item on `all_reqs`; its `list` node is linked to itself. -/
theorem enroll (h : Stored links s) (hall : t ∉ s.allReqs) (hq : ∀ x, t ∉ s.q x) :
    ∃ links₁ links₂, khAllocServiceRequest links t = some links₁ ∧
      links₁.listAddTail (some (.glist t)) (some .allReqs) = some links₂ ∧
      Stored links₂ { s with allReqs := s.allReqs ++ [t] } ∧
      links₂.next (.list t) = some (.list t) ∧ links₂.prev (.list t) = some (.list t) := by
  obtain ⟨links₁, halloc, hrings, ⟨hnext, hprev⟩, halive⟩ := h.alloc hall hq
  obtain ⟨links₂, hadd, hrings₂, halive₂, hsame⟩ :=
    hrings.addTail none (by simp [halive]) (glist_not_mem_rings hall)
  have hself := hsame (.list t) (list_not_mem_rings hq) (by simp)
  have hafter : ringItems { s with allReqs := s.allReqs ++ [t] } =
      Function.update (ringItems s) none (ringItems s none ++ [.glist t]) := by
    refine (ringItems_update_all s { s with allReqs := s.allReqs ++ [t] } rfl).trans ?_
    rw [List.map_append]
    rfl
  refine ⟨links₁, links₂, halloc, hadd, ⟨hafter ▸ hrings₂, fun t' => ?_, fun t' => ?_⟩,
    hself.1.trans hnext, hself.2.trans hprev⟩
  · simp only [halive₂, halive, list_alive_update, List.mem_append, List.mem_singleton]
    split
    next ht => simp [ht]
    next ht => simpa [ht] using h.list_alive t'
  · simp only [halive₂, halive, glist_alive_update, List.mem_append, List.mem_singleton]
    split
    next ht => simp [ht]
    next ht => simpa [ht] using h.glist_alive t'

/-- `list_del` of a `list` node that is linked to itself only, as `kh_fail_request` does
    it to a new item. -/
theorem listDel_self (h : Stored links s) (hmem : t ∈ s.allReqs) (hq : ∀ x, t ∉ s.q x)
    (hnext : links.next (.list t) = some (.list t))
    (hprev : links.prev (.list t) = some (.list t)) :
    ∃ links', links.listDel (some (.list t)) = some links' ∧ Stored links' s := by
  obtain ⟨links', hdel, hrings, halive⟩ :=
    h.rings.delSelf ((h.list_alive t).mpr hmem) (list_not_mem_rings hq) hnext hprev
  exact ⟨links', hdel, h.of_rings rfl halive hrings⟩

end Stored
end Kgpu
