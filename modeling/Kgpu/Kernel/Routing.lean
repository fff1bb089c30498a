-- SUMMARY: Ids over every run: the draws of `kgpu_next_request_id` and the routing of responses by id.
import Kgpu.Kernel.Queue
import Mathlib.Data.List.Nodup

/-!
# Routing of responses

`kgpu_write` finds the request of a response by its id, and takes the first
match. This file follows the ids from the counter through the queues: ids drawn
within a window of 2^31 draws are distinct, so that a client who gives every
request in flight an id of its own draw gets its responses at the right request.
-/

namespace Kgpu

open Library

/-- The kernel with the ids drawn so far and, for every item read, the id that
    `kgpu_read` handed to the helper. -/
structure Routing where
  kernel : Kernel
  draws : List Int
  readAs : Nat → Option Int
  nextItem : Nat

inductive RoutingStep where
  /-- `kgpu_next_request_id`, by the request constructor or a client. -/
  | draw
  /-- A client writes to a request object. -/
  | edit (r : ReqPtr) (q : KgpuRequest)
  /-- The locked append of `kgpu_call_async` and `kgpu_call_sync`. -/
  | submit (r : ReqPtr)
  | read (c : UL)
  | write (count : UL) (resp : KuResponse)

namespace Routing

/-- The items of both queues. -/
def inFlight (s : Routing) : List RequestItem := s.kernel.reqs ++ s.kernel.rtdreqs

/-- The request's id as it stands now. -/
def idOf (s : Routing) (item : RequestItem) : Int := (s.kernel.req item.r).id

/-- Any order of the steps. A client may write any field of a request at any
    time, except that the id of a request in flight stays. -/
def step (s : Routing) : RoutingStep → Option Routing
  | .draw =>
    let (id, k) := s.kernel.kgpuNextRequestId
    some { s with kernel := k, draws := s.draws ++ [id] }
  | .edit r q =>
    if q.id = (s.kernel.req r).id ∨ r ∉ s.inFlight.map (·.r) then
      some { s with kernel := { s.kernel with req := Function.update s.kernel.req r q } }
    else none
  | .submit r =>
    some { s with
      kernel := { s.kernel with reqs := s.kernel.reqs ++ [⟨s.nextItem, r⟩] }
      nextItem := s.nextItem + 1 }
  | .read c =>
    match s.kernel.kgpuRead c with
    | none => none
    | some (_, item, kureq, k) =>
      some { s with kernel := k, readAs := Function.update s.readAs item.addr (some kureq.id) }
  | .write count resp => some { s with kernel := (s.kernel.kgpuWrite count resp).2 }

/-- The state `kgpu_init` leaves, with any memory and any pool. -/
def init (req : ReqPtr → KgpuRequest) (sync : DataPtr → SyncCallData) (pool : Mempool) : Routing where
  kernel :=
    { terminated := false, ridSequence := 0, reqs := [], rtdreqs := [], gmpool := pool, fpos := 0
      req := req, sync := sync, callbacks := [] }
  draws := []
  readAs := fun _ => none
  nextItem := 0

/-- Every request object in flight was submitted once and carries the id of a
    draw of its own, made among the last 2^31 draws. -/
structure OwnDraws (s : Routing) : Prop where
  once : (s.inFlight.map (·.r)).Nodup
  drawn : ∃ d : ReqPtr → Nat,
    (∀ item ∈ s.inFlight, s.draws.length ≤ d item.r + 2 ^ 31 ∧
      s.draws[d item.r]? = some (s.idOf item)) ∧
    ∀ item ∈ s.inFlight, ∀ item' ∈ s.inFlight, d item.r = d item'.r → item.r = item'.r

/-! ## The counter -/

/-- The counter is the number of draws modulo 2^31, and so is each id drawn. -/
structure Counting (s : Routing) : Prop where
  seq : s.kernel.ridSequence.toNat = s.draws.length % 2 ^ 31
  ids : ∀ (i : Nat) (id : Int), s.draws[i]? = some id → id = ((i + 1) % 2 ^ 31 : Nat)

theorem kgpuNextRequestId_spec {k : Kernel} {n : Nat} (h : k.ridSequence.toNat = n % 2 ^ 31) :
    k.kgpuNextRequestId.1 = ((n + 1) % 2 ^ 31 : Nat) ∧
      k.kgpuNextRequestId.2.ridSequence.toNat = (n + 1) % 2 ^ 31 := by
  have hadd : (k.ridSequence + 1).toNat = n % 2 ^ 31 + 1 := by
    rw [BitVec.toNat_add, h, show (1 : BitVec 32).toNat = 1 from rfl]
    omega
  have hint : (k.ridSequence + 1).toInt < 0 ↔ n % 2 ^ 31 + 1 = 2 ^ 31 := by
    rw [BitVec.toInt_eq_toNat_cond, hadd]
    split <;> omega
  simp only [Kernel.kgpuNextRequestId]
  split
  · rename_i hneg
    have := hint.mp hneg
    simp
    omega
  · rename_i hpos
    have := mt hint.mpr hpos
    constructor
    · rw [BitVec.toInt_eq_toNat_cond, hadd]
      split <;> omega
    · rw [hadd]
      omega

/-- Two draws of one window with the same id are the same draw. -/
theorem Counting.draw_injective {s : Routing} (h : s.Counting) {i j : Nat} {id : Int}
    (hi : s.draws[i]? = some id) (hj : s.draws[j]? = some id)
    (hwi : s.draws.length ≤ i + 2 ^ 31) (hwj : s.draws.length ≤ j + 2 ^ 31) : i = j := by
  have hli := (List.getElem?_eq_some_iff.mp hi).1
  have hlj := (List.getElem?_eq_some_iff.mp hj).1
  have heq := (h.ids i id hi).symm.trans (h.ids j id hj)
  omega

/-! ## The invariant -/

/-- What every run keeps: the counter, the id under which each read item was
    handed out, and that an address stands for one item. -/
structure Inv (s : Routing) : Prop extends Counting s where
  readAs : ∀ item ∈ s.kernel.rtdreqs, s.readAs item.addr = some (s.idOf item)
  addr_lt : ∀ item ∈ s.inFlight, item.addr < s.nextItem
  addr_nodup : (s.inFlight.map (·.addr)).Nodup

theorem Inv.draw {s : Routing} (h : s.Inv) :
    Inv { s with
      kernel := s.kernel.kgpuNextRequestId.2
      draws := s.draws ++ [s.kernel.kgpuNextRequestId.1] } := by
  obtain ⟨hid, hseq⟩ := kgpuNextRequestId_spec h.seq
  refine ⟨⟨by simpa using hseq, ?_⟩, h.readAs, h.addr_lt, h.addr_nodup⟩
  intro i id hi
  rcases lt_trichotomy i s.draws.length with hlt | rfl | hgt
  · rw [List.getElem?_append_left hlt] at hi
    exact h.ids i id hi
  · simp only [List.getElem?_concat_length, Option.some.injEq] at hi
    rw [← hi, hid]
  · rw [List.getElem?_eq_none (by simp; omega)] at hi
    cases hi

theorem Inv.edit {s : Routing} {r : ReqPtr} {q : KgpuRequest} (h : s.Inv)
    (hok : q.id = (s.kernel.req r).id ∨ r ∉ s.inFlight.map (·.r)) :
    Inv { s with kernel := { s.kernel with req := Function.update s.kernel.req r q } } := by
  refine ⟨⟨h.seq, h.ids⟩, fun item hmem => ?_, h.addr_lt, h.addr_nodup⟩
  have hread := h.readAs item hmem
  -- The id of an item in flight is the same before and after the write.
  have hid : (Function.update s.kernel.req r q item.r).id = (s.kernel.req item.r).id := by
    by_cases hr : item.r = r
    · rcases hok with hok | hok
      · simp [hr, hok]
      · exact absurd (List.mem_map.mpr ⟨item, List.mem_append_right _ hmem, hr⟩) hok
    · simp [hr]
  simpa [idOf, hid] using hread

theorem Inv.submit {s : Routing} {r : ReqPtr} (h : s.Inv) :
    Inv { s with
      kernel := { s.kernel with reqs := s.kernel.reqs ++ [⟨s.nextItem, r⟩] }
      nextItem := s.nextItem + 1 } := by
  have hperm : ((s.kernel.reqs ++ [RequestItem.mk s.nextItem r]) ++ s.kernel.rtdreqs).Perm
      (RequestItem.mk s.nextItem r :: s.inFlight) := by
    simp [inFlight]
  refine ⟨⟨h.seq, h.ids⟩, h.readAs, fun item hmem => ?_, ?_⟩
  · rcases List.mem_cons.mp (hperm.mem_iff.mp hmem) with rfl | hmem
    · exact Nat.lt_succ_self _
    · exact Nat.lt_succ_of_lt (h.addr_lt item hmem)
  · refine ((hperm.map _).nodup_iff).mpr (List.nodup_cons.mpr ⟨fun hmem => ?_, h.addr_nodup⟩)
    obtain ⟨item, hitem, haddr⟩ := List.mem_map.mp hmem
    exact absurd (h.addr_lt item hitem) (by simp [haddr])

theorem Inv.read {s : Routing} {c : UL} {ret : Int} {item : RequestItem} {kureq : KuRequest}
    {k : Kernel} (h : s.Inv) (hread : s.kernel.kgpuRead c = some (ret, item, kureq, k)) :
    Inv { s with
      kernel := k
      readAs := Function.update s.readAs item.addr (some kureq.id) } := by
  obtain ⟨rest, hreqs, rfl, -, rfl⟩ := Kernel.kgpuRead_eq_some hread
  have hflight : s.inFlight = item :: (rest ++ s.kernel.rtdreqs) := by simp [inFlight, hreqs]
  have hnd := h.addr_nodup
  rw [hflight] at hnd
  obtain ⟨hnew, hnd'⟩ := List.nodup_cons.mp hnd
  -- A lost item (a count that is not positive) only makes the queues shorter.
  have hsub : ∀ {l : List RequestItem}, l = (if 0 < c.toInt then s.kernel.rtdreqs ++ [item]
      else s.kernel.rtdreqs) → ((rest ++ l).map (·.addr)).Nodup ∧
        ∀ it ∈ l, it = item ∨ it ∈ s.kernel.rtdreqs := by
    rintro l rfl
    split
    · refine ⟨?_, by simp [or_comm]⟩
      rw [← List.append_assoc]
      exact ((List.perm_append_singleton item (rest ++ s.kernel.rtdreqs)).map _).nodup_iff.mpr hnd
    · exact ⟨hnd', fun it hit => .inr hit⟩
  obtain ⟨hnodup, hmem⟩ := hsub rfl
  refine ⟨⟨h.seq, h.ids⟩, fun it hit => ?_, fun it hit => ?_, hnodup⟩
  · rcases hmem it hit with rfl | hold
    · simp [idOf, Mempool.fillKuRequest, Kernel.readRetire]
    · have hne : it.addr ≠ item.addr := fun heq =>
        hnew (List.mem_map.mpr ⟨it, List.mem_append_right _ hold, heq⟩)
      simpa [hne, Kernel.readRetire, idOf] using h.readAs it hold
  · refine h.addr_lt it ?_
    rw [hflight]
    rcases List.mem_append.mp hit with hrest | hl
    · exact List.mem_cons_of_mem _ (List.mem_append_left _ hrest)
    · rcases hmem it hl with rfl | hold
      · exact List.mem_cons_self
      · exact List.mem_cons_of_mem _ (List.mem_append_right _ hold)

theorem Inv.write {s : Routing} {count : UL} {resp : KuResponse} (h : s.Inv) :
    Inv { s with kernel := (s.kernel.kgpuWrite count resp).2 } := by
  by_cases hcount : count < kuResponseSize
  · rw [Kernel.kgpuWrite_short hcount]
    exact h
  rcases Kernel.kgpuWrite_cases hcount with ⟨-, hw⟩ | ⟨item, hmem, -, hw⟩
  · rw [hw]
    exact h
  · rw [hw]
    have hsub : (s.kernel.reqs ++ s.kernel.rtdreqs.erase item).Sublist s.inFlight :=
      List.Sublist.append_left List.erase_sublist _
    refine ⟨⟨h.seq, h.ids⟩, fun it hit => ?_, fun it hit => ?_, ?_⟩
    · have := h.readAs it (List.mem_of_mem_erase hit)
      simpa [idOf, Kernel.writeComplete, Kernel.invokeCallback] using this
    · exact h.addr_lt it (hsub.subset hit)
    · exact h.addr_nodup.sublist (hsub.map _)

theorem Inv.step {s s' : Routing} {l : RoutingStep} (h : s.Inv) (hs : s.step l = some s') :
    s'.Inv := by
  cases l with
  | draw =>
    cases hs
    exact h.draw
  | edit r q =>
    simp only [Routing.step] at hs
    split at hs
    · rename_i hok
      cases hs
      exact h.edit hok
    · cases hs
  | submit r =>
    cases hs
    exact h.submit
  | read c =>
    simp only [Routing.step] at hs
    split at hs
    · cases hs
    · rename_i hread
      cases hs
      exact h.read hread
  | write count resp =>
    cases hs
    exact h.write

theorem run_inv {req : ReqPtr → KgpuRequest} {sync : DataPtr → SyncCallData} {pool : Mempool}
    {ls : List RoutingStep} {s : Routing} (hrun : Run step Free (init req sync pool) ls s) :
    s.Inv := by
  have hinit : (init req sync pool).Inv :=
    ⟨⟨rfl, by simp [init]⟩, by simp [init], by simp [init, inFlight], by simp [init, inFlight]⟩
  exact hrun.invariant hinit fun _ _ _ h _ hs => h.step hs

/-! ## Distinct ids and exact routing -/

theorem Inv.ids_nodup {s : Routing} (h : s.Inv) (hown : s.OwnDraws) :
    (s.inFlight.map s.idOf).Nodup := by
  obtain ⟨d, hdraw, hinj⟩ := hown.drawn
  refine List.Nodup.map_on ?_ (List.Nodup.of_map _ hown.once)
  intro item hmem item' hmem' hid
  obtain ⟨hw, hd⟩ := hdraw item hmem
  obtain ⟨hw', hd'⟩ := hdraw item' hmem'
  rw [← hid] at hd'
  have hr : item.r = item'.r :=
    hinj item hmem item' hmem' (h.toCounting.draw_injective hd hd' hw hw')
  exact List.inj_on_of_nodup_map hown.once hmem hmem' hr

/-- Response routing. After every run of draws, client writes, submissions,
    reads and writes, every id drawn is a non-negative `int`; and if the
    requests in flight carry ids of their own recent draws, no two of them have
    the same id, and a write either finds no item and has no effect, or takes
    off exactly the item that was read with the response's id, stores the error
    code in its request only and calls its callback only. -/
theorem responses_routed_by_id {req : ReqPtr → KgpuRequest} {sync : DataPtr → SyncCallData}
    {pool : Mempool} {ls : List RoutingStep} {s : Routing}
    (hrun : Run step Free (init req sync pool) ls s) (hown : s.OwnDraws) :
    (∀ id ∈ s.draws, 0 ≤ id ∧ id ≤ 2 ^ 31 - 1) ∧
    (s.inFlight.map s.idOf).Nodup ∧
    ∀ count resp, ¬ count < kuResponseSize →
      ((∀ item ∈ s.kernel.rtdreqs, s.readAs item.addr ≠ some resp.id) ∧
        s.kernel.kgpuWrite count resp = (Kernel.eFAULT, s.kernel)) ∨
      ∃ item ∈ s.kernel.rtdreqs, s.readAs item.addr = some resp.id ∧
        (∀ item' ∈ s.kernel.rtdreqs, s.readAs item'.addr = some resp.id → item' = item) ∧
        (s.kernel.kgpuWrite count resp).1 = count.toInt ∧
        (s.kernel.kgpuWrite count resp).2.reqs = s.kernel.reqs ∧
        (s.kernel.kgpuWrite count resp).2.rtdreqs = s.kernel.rtdreqs.erase item ∧
        (s.kernel.kgpuWrite count resp).2.req = Function.update s.kernel.req item.r
          { s.kernel.req item.r with errcode := resp.errcode } ∧
        (s.kernel.kgpuWrite count resp).2.callbacks =
          s.kernel.callbacks ++ [(item, (s.kernel.req item.r).callback)] := by
  have hinv := run_inv hrun
  have hnd := hinv.ids_nodup hown
  refine ⟨fun id hid => ?_, hnd, fun count resp hcount => ?_⟩
  · obtain ⟨i, hi⟩ := List.mem_iff_getElem?.mp hid
    have := hinv.ids i id hi
    omega
  · rcases Kernel.kgpuWrite_cases hcount with ⟨hnone, hw⟩ | ⟨item, hmem, hid, hw⟩
    · refine .inl ⟨fun item hmem hread => ?_, hw⟩
      rw [hinv.readAs item hmem] at hread
      exact hnone item hmem (Option.some.inj hread)
    · refine .inr ⟨item, hmem, ?_, fun item' hmem' hread => ?_, ?_⟩
      · rw [hinv.readAs item hmem]
        exact congrArg some hid
      · rw [hinv.readAs item' hmem', ← hid] at hread
        exact List.inj_on_of_nodup_map hnd (List.mem_append_right _ hmem')
          (List.mem_append_right _ hmem) (Option.some.inj hread)
      · rw [hw]
        simp [Kernel.writeComplete, Kernel.invokeCallback, Kernel.storeErrcode]

/-- Two requests drawn, submitted and read: a response with the id of the second takes it
    off and leaves the first, and one with any other id is refused. -/
theorem responses_routed_by_id_two_requests :
    ∃ s, Run step Free (init (fun _ => .constructed 0) (fun _ => ⟨.client 0, .client 0, false⟩)
        (.empty 0x100000 2))
        [.draw, .draw, .edit 0 (.constructed 1), .edit 1 (.constructed 2), .submit 0, .submit 1,
          .read kuRequestSize, .read kuRequestSize] s ∧
      s.OwnDraws ∧ s.kernel.rtdreqs = [⟨0, 0⟩, ⟨1, 1⟩] ∧ (s.inFlight.map s.idOf).Nodup ∧
      (∃ item ∈ s.kernel.rtdreqs, s.readAs item.addr = some 2 ∧
        (s.kernel.kgpuWrite kuResponseSize ⟨2, 7⟩).2.rtdreqs = s.kernel.rtdreqs.erase item) ∧
      (s.kernel.kgpuWrite kuResponseSize ⟨2, 7⟩).2.rtdreqs = [⟨0, 0⟩] ∧
      (s.kernel.kgpuWrite kuResponseSize ⟨3, 7⟩).1 = Kernel.eFAULT := by
  have hrun : Run step Free (init (fun _ => .constructed 0)
      (fun _ => ⟨.client 0, .client 0, false⟩) (.empty 0x100000 2))
      [.draw, .draw, .edit 0 (.constructed 1), .edit 1 (.constructed 2), .submit 0, .submit 1,
        .read kuRequestSize, .read kuRequestSize] _ := Run.of_exec rfl
  refine ⟨_, hrun, ?own, rfl, (responses_routed_by_id hrun ?own).2.1, ?routed, by decide,
    by decide⟩
  case routed =>
    have hw := (responses_routed_by_id hrun ?own).2.2 kuResponseSize ⟨2, 7⟩ (by decide)
    rcases hw with ⟨hnone, -⟩ | ⟨item, hmem, hread, -, -, -, hrtd, -⟩
    · exact absurd rfl (hnone ⟨1, 1⟩ (by decide))
    · exact ⟨item, hmem, hread, hrtd⟩
  case own => exact ⟨by decide, id, by decide, fun _ _ _ _ h => h⟩

end Routing
end Kgpu
