-- SUMMARY: The helper on linked lists makes the runs of the helper on sequences, without an error.
import Kgpu.Helper.Stored

/-!
# Linked lists refine sequences

A state of the helper on linked lists represents a state of the helper on sequences
when the sequences are stored as the rings and the rest is the same. Every operation
on linked lists has a result, which represents the result of the operation on
sequences. A walk keeps the node after its cursor; the operation at the cursor takes
nothing else off the list that is walked, so the node kept is still on it.
-/

namespace Kgpu

open Library

/-- The state on linked lists that represents a state on sequences. -/
def Helper.link (s : Helper) (links : Links Node) (pc : LinkedPc) : LinkedHelper where
  links := links
  sr := s.sr
  streamuses := s.streamuses
  next := s.next
  pc := pc
  trace := s.trace
  pins := s.pins

/-- The step on sequences that a step on linked lists stands for. -/
def Poll.kureq : Poll → Option KuRequest
  | .idle | .noMemory | .nothing => none
  | .request kureq => some kureq

def LinkedStep.abstract : LinkedStep → HelperStep
  | .op a => .op a
  | .advance => .advance
  | .get poll => .get poll.kureq

namespace Helper

variable {c : Config} {s : Helper} {links : Links Node} {t : Token} {x : ReqState} {a : Answers}
  (pc : LinkedPc)

/-! ## Operations -/

theorem link_record (e : Event) :
    (s.link links pc).record t e = (s.record t e).link links pc := rfl

theorem link_moveTo (h : Stored links s) (hl : s.Listed) (ht : t ∈ s.allReqs) (x : ReqState) :
    ∃ links', (s.link links pc).moveTo t x = some ((s.moveTo t x).link links' pc) ∧
      Stored links' (s.moveTo t x) := by
  obtain ⟨links₁, links₂, hdel, hadd, h₂⟩ := h.move hl ht x
  refine ⟨links₂, ?_, h₂.congr rfl rfl⟩
  simp only [LinkedHelper.moveTo, LinkedHelper.setSr, link, hdel, hadd, Option.bind_eq_bind,
    Option.bind_some]
  rfl

/-- The lists, the states of the items and the next address are the same. -/
structure SameLists (s s' : Helper) : Prop where
  allReqs : s'.allReqs = s.allReqs
  q : s'.q = s.q
  state : ∀ t, (s'.sr t).state = (s.sr t).state
  next : s'.next = s.next

namespace SameLists

variable {s' : Helper}

theorem listed (h : SameLists s s') (hl : s.Listed) : s'.Listed :=
  hl.congr h.allReqs h.q h.state h.next

theorem stored (h : SameLists s s') (hs : Stored links s) : Stored links s' :=
  hs.congr h.allReqs h.q

theorem mem (h : SameLists s s') (ht : t ∈ s.allReqs) : t ∈ s'.allReqs := h.allReqs ▸ ht

theorem record (s : Helper) (t : Token) (e : Event) : SameLists s (s.record t e) :=
  ⟨rfl, rfl, fun _ => rfl, rfl⟩

/-- A request is changed but for its state. -/
theorem of_sr {sr : ServiceRequest} (hstate : sr.state = (s.sr t).state)
    (hsr : s'.sr = Function.update s.sr t sr) (hall : s'.allReqs = s.allReqs) (hq : s'.q = s.q)
    (hnext : s'.next = s.next) : SameLists s s' := by
  refine ⟨hall, hq, fun t' => ?_, hnext⟩
  rw [hsr]
  by_cases ht : t' = t
  · rw [ht, Function.update_self, hstate]
  · rw [Function.update_of_ne ht]

end SameLists

theorem link_khFailRequest (h : Stored links s) (hl : s.Listed) (ht : t ∈ s.allReqs) (serr : Int) :
    ∃ links', (s.link links pc).khFailRequest t serr =
        some ((s.khFailRequest t serr).link links' pc) ∧
      Stored links' (s.khFailRequest t serr) := by
  have hsame : SameLists s (s.setSr t { s.sr t with errcode := serr }) :=
    .of_sr (by rfl) rfl rfl rfl rfl
  exact link_moveTo pc (hsame.stored h) (hsame.listed hl) ht .done

/-- The results agree: the operation on linked lists returns what the operation on
    sequences returns, in a state that represents the one it leaves. -/
def Agree (r : Option (Int × LinkedHelper)) (r' : Int × Helper) (pc : LinkedPc) : Prop :=
  ∃ links', r = some (r'.1, r'.2.link links' pc) ∧ Stored links' r'.2

section Ends

variable {s₁ : Helper} (hsame : SameLists s s₁) (h : Stored links s) (hl : s.Listed)
  (ht : t ∈ s.allReqs)
include hsame h hl ht

/-- An operation that moves its item at the end. -/
theorem agree_moveTo (x : ReqState) (code : Int) :
    Agree (((s₁.link links pc).moveTo t x).map fun p => (code, p)) (code, s₁.moveTo t x) pc := by
  obtain ⟨links', hmove, h'⟩ :=
    link_moveTo pc (hsame.stored h) (hsame.listed hl) (hsame.mem ht) x
  exact ⟨links', by rw [hmove]; rfl, h'⟩

/-- An operation that fails its item at the end. -/
theorem agree_khFailRequest (serr : Int) (code : Int) :
    Agree (((s₁.link links pc).khFailRequest t serr).map fun p => (code, p))
      (code, s₁.khFailRequest t serr) pc := by
  obtain ⟨links', hfail, h'⟩ :=
    link_khFailRequest pc (hsame.stored h) (hsame.listed hl) (hsame.mem ht) serr
  exact ⟨links', by rw [hfail]; rfl, h'⟩

end Ends

/-- An operation that leaves its item where it is. -/
theorem agree_stay {s₁ : Helper} (hsame : SameLists s s₁) (h : Stored links s) (code : Int) :
    Agree (some (code, s₁.link links pc)) (code, s₁) pc :=
  ⟨links, rfl, hsame.stored h⟩

theorem agree_khRequestAllocMem (h : Stored links s) (hl : s.Listed) (ht : t ∈ s.allReqs) :
    Agree ((s.link links pc).khRequestAllocMem c t a) (s.khRequestAllocMem c t a) pc := by
  generalize hs₁ : ({ s.setSr t (c.gpuAllocDeviceMem (s.sr t)).1 with
      pins := s.pins ++ (c.gpuAllocDeviceMem (s.sr t)).2 } : Helper).record t (.allocMem a.alloc) = s₁
  have hsame : SameLists s s₁ := by
    rw [← hs₁]
    exact .of_sr (by rfl) rfl rfl rfl rfl
  have heq : (s.link links pc).khRequestAllocMem c t a =
      if a.alloc = 0 then ((s₁.link links pc).moveTo t .memDone).map fun p => (0, p)
      else some (-1, s₁.link links pc) := by
    rw [← hs₁]
    rfl
  rw [heq]
  simp only [khRequestAllocMem, hs₁]
  split
  · exact agree_moveTo pc hsame h hl ht _ _
  · exact agree_stay pc hsame h _

theorem agree_khLaunchExec (h : Stored links s) (hl : s.Listed) (ht : t ∈ s.allReqs) :
    Agree ((s.link links pc).khLaunchExec t a) (s.khLaunchExec t a) pc := by
  simp only [LinkedHelper.khLaunchExec, khLaunchExec, link_record]
  split
  · exact agree_moveTo pc (.record ..) h hl ht _ _
  · exact agree_khFailRequest pc (.record ..) h hl ht _ _

theorem agree_khPrepareExec (h : Stored links s) (hl : s.Listed) (ht : t ∈ s.allReqs) :
    Agree ((s.link links pc).khPrepareExec c t a) (s.khPrepareExec c t a) pc := by
  rcases c.gpuAllocStream_cases s.streamuses (s.sr t) with ⟨-, hf⟩ | ⟨i, -, hf⟩
  · have heq : (s.link links pc).khPrepareExec c t a =
        some (-1, (s.record t (.allocStream 1)).link links pc) := by
      simp only [LinkedHelper.khPrepareExec, link, hf]
      rfl
    rw [heq]
    simp only [khPrepareExec, hf]
    exact agree_stay pc (.record ..) h _
  · generalize hs₁ : (({ s.setSr t { s.sr t with streamId := i.val, stream := c.streams i } with
        streamuses := Function.update s.streamuses i true } : Helper).record t
      (.allocStream 0)).record t (.call .prepare a.prepare) = s₁
    have hsame : SameLists s s₁ := by
      rw [← hs₁]
      exact .of_sr (by rfl) rfl rfl rfl rfl
    have heq : (s.link links pc).khPrepareExec c t a =
        if a.prepare = 0 then ((s₁.link links pc).moveTo t .prepared).map fun p => (a.prepare, p)
        else ((s₁.link links pc).khFailRequest t a.prepare).map fun p => (a.prepare, p) := by
      rw [← hs₁]
      simp only [LinkedHelper.khPrepareExec, link, hf]
      rfl
    rw [heq]
    simp only [khPrepareExec, hf, hs₁]
    split
    · exact agree_moveTo pc hsame h hl ht _ _
    · exact agree_khFailRequest pc hsame h hl ht _ _

theorem agree_khPostExec (h : Stored links s) (hl : s.Listed) (ht : t ∈ s.allReqs) :
    Agree ((s.link links pc).khPostExec t a) (s.khPostExec t a) pc := by
  have hsame : SameLists s
      ((s.record t (.execFinished a.execFinished)).record t (.call .post a.post)) :=
    ⟨rfl, rfl, fun _ => rfl, rfl⟩
  simp only [LinkedHelper.khPostExec, khPostExec, link_record]
  split
  · split
    · exact agree_moveTo pc hsame h hl ht _ _
    · exact agree_khFailRequest pc hsame h hl ht _ _
  · exact agree_stay pc (.record ..) h _

theorem agree_khFinishPost (h : Stored links s) (hl : s.Listed) (ht : t ∈ s.allReqs) :
    Agree ((s.link links pc).khFinishPost t a) (s.khFinishPost t a) pc := by
  simp only [LinkedHelper.khFinishPost, khFinishPost, link_record]
  split
  · exact agree_moveTo pc (.record ..) h hl ht _ _
  · exact agree_stay pc (.record ..) h _

theorem agree_khServiceDone (h : Stored links s) (hl : s.Listed) (ht : t ∈ s.allReqs) :
    Agree ((s.link links pc).khServiceDone c t) (s.khServiceDone c t) pc := by
  obtain ⟨links₁, links₂, links₃, hdel, hgdel, hfree, h₃⟩ := h.release hl ht
  refine ⟨links₃, ?_, h₃.congr rfl rfl⟩
  simp only [LinkedHelper.khServiceDone, LinkedHelper.record, LinkedHelper.setSr, link, hdel, hgdel,
    hfree, Option.bind_eq_bind, Option.bind_some]
  rfl

/-- Every operation on an item that is held agrees with the one on sequences. -/
theorem agree_runOp (h : Stored links s) (hl : s.Listed) (ht : t ∈ s.allReqs) :
    Agree ((s.link links pc).runOp c x t a) (s.runOp c x t a) pc := by
  have halive : (s.link links pc).links.alive (.list t) = true := (h.list_alive t).mpr ht
  simp only [LinkedHelper.runOp, if_pos halive, runOp]
  cases x with
  | done => exact agree_khServiceDone pc h hl ht
  | postExec => exact agree_khFinishPost pc h hl ht
  | running => exact agree_khPostExec pc h hl ht
  | prepared => exact agree_khLaunchExec pc h hl ht
  | memDone => exact agree_khPrepareExec pc h hl ht
  | init => exact agree_khRequestAllocMem pc h hl ht

/-! ## New requests -/

theorem link_khInitServiceRequest (h : Stored links s) (hl : s.Listed) (kureq : KuRequest) :
    ∃ links₁ links', khAllocServiceRequest links s.next = some links₁ ∧
      (s.link links₁ pc).khInitServiceRequest c kureq =
        some ((s.khInitServiceRequest c kureq).link links' pc) ∧
      Stored links' (s.khInitServiceRequest c kureq) := by
  have hall : s.next ∉ s.allReqs := fun hmem => Nat.lt_irrefl _ (hl.lt_next _ hmem)
  have hq : ∀ x, s.next ∉ s.q x := fun x hmem => hall ((hl.mem_iff _ x).mp hmem).1
  obtain ⟨links₁, links₂, halloc, hadd, h₂, hnext, hprev⟩ := h.enroll hall hq
  have hnew : s.next ∈ s.allReqs ++ [s.next] := by simp
  refine ⟨links₁, ?_⟩
  cases hs : c.khLookupService kureq.serviceName with
  | none =>
    obtain ⟨links₃, hdel, h₃⟩ := h₂.listDel_self hnew hq hnext hprev
    obtain ⟨links₄, hadd', h₄⟩ := h₃.listAddTail hnew hq .done
    refine ⟨links₄, halloc, ?_, h₄.congr (khInitServiceRequest_frame kureq).1 ?_⟩
    · rw [khInitServiceRequest_none hs]
      simp only [LinkedHelper.khInitServiceRequest, LinkedHelper.khFailRequest, LinkedHelper.moveTo,
        LinkedHelper.setSr, LinkedHelper.record, link, Config.ofKuRequest, hs, hadd, hdel, hadd',
        Option.bind_eq_bind, Option.bind_some]
      rfl
    · funext y
      rw [khInitServiceRequest_none hs, khFailRequest_eq, moveTo_q]
      change (s.q y).erase s.next ++ _ = Function.update s.q .done (s.q .done ++ [s.next]) y
      rw [List.erase_of_not_mem (hq y)]
      by_cases hy : y = .done
      · simp [hy]
      · simp [hy]
  | some service =>
    obtain ⟨links₃, hadd', h₃⟩ := h₂.listAddTail hnew hq .init
    refine ⟨links₃, halloc, ?_, h₃.congr (khInitServiceRequest_frame kureq).1 ?_⟩
    · rw [khInitServiceRequest_some hs]
      simp only [LinkedHelper.khInitServiceRequest, LinkedHelper.setSr, LinkedHelper.record, link,
        Config.ofKuRequest, hs, hadd, hadd', Option.bind_eq_bind, Option.bind_some]
      rfl
    · rw [khInitServiceRequest_some hs]
      rfl

theorem link_khGetNextServiceRequest (h : Stored links s) (hl : s.Listed) (poll : Poll) :
    ∃ links', (s.link links pc).khGetNextServiceRequest c poll =
        some ((s.khGetNextServiceRequest c poll.kureq).link links' pc) ∧
      Stored links' (s.khGetNextServiceRequest c poll.kureq) := by
  have hall : s.next ∉ s.allReqs := fun hmem => Nat.lt_irrefl _ (hl.lt_next _ hmem)
  have hq : ∀ x, s.next ∉ s.q x := fun x hmem => hall ((hl.mem_iff _ x).mp hmem).1
  cases poll with
  | idle | noMemory => exact ⟨links, rfl, h⟩
  | nothing =>
    obtain ⟨links₁, links₂, halloc, hfree, h₂⟩ := h.alloc_free hall hq
    refine ⟨links₂, ?_, h₂⟩
    simp only [LinkedHelper.khGetNextServiceRequest, link, halloc, hfree, Option.bind_eq_bind,
      Option.bind_some]
    rfl
  | request kureq =>
    obtain ⟨links₁, links', halloc, hinit, h'⟩ :=
      link_khInitServiceRequest (c := c) pc h hl kureq
    refine ⟨links', ?_, h'⟩
    have heq : (s.link links pc).khGetNextServiceRequest c (.request kureq) =
        (khAllocServiceRequest links s.next).bind fun links₁ =>
          (s.link links₁ pc).khInitServiceRequest c kureq := rfl
    rw [heq, halloc, Option.bind_some, hinit]
    rfl

/-! ## Walks -/

/-- The node at which a walk with these items left stands. -/
def cursor (x : ReqState) (rest : List Token) : Node := (rest.map Node.list).headD (.head x)

theorem cursor_eq_head {rest : List Token} : cursor x rest = .head x ↔ rest = [] := by
  cases rest <;> simp [cursor]

section Walks

variable {pre rest : List Token}

/-- A walk goes on at the items that are left of the list. -/
theorem forEachAt_cursor (h : Stored links s) (hq : s.q x = pre ++ rest) :
    links.forEachAt (some (cursor x rest)) =
      some (cursor x rest, links.next (cursor x rest)) := by
  have hring := h.rings.ring (some x)
  simp only [ringHead, ringItems, hq, List.map_append] at hring
  exact hring.forEachAt

theorem forEachSafe_cursor (h : Stored links s) (x : ReqState) :
    links.forEachSafe (.head x) =
      some (cursor x (s.q x), links.next (cursor x (s.q x))) :=
  (h.rings.ring (some x)).forEachSafe

/-- The node after an item is that of the next item left, or the head. -/
theorem next_cursor (h : Stored links s) (hq : s.q x = pre ++ t :: rest) :
    links.next (.list t) = some (cursor x rest) := by
  have hring := h.rings.ring (some x)
  simp only [ringHead, ringItems, hq, List.map_append, List.map_cons] at hring
  exact hring.next_eq

/-- An operation leaves the list it is run over, or takes its item off. -/
theorem runOp_q_self :
    (s.runOp c x t a).2.q x = s.q x ∨ (s.runOp c x t a).2.q x = (s.q x).erase t := by
  have hcase : OpCase c s t a x (s.runOp c x t a) := runOp_case
  generalize s.runOp c x t a = r at hcase
  cases hcase with
  | allocRefused | noStream | executing | copying => exact .inl rfl
  | answered => exact .inr rfl
  | allocated | prepared | prepareFailed | launched | launchFailed | posted | postFailed
  | finished => exact .inr (by simp [moveTo_q, touch])

/-- The items left of the walk stay at the end of the list. -/
theorem runOp_rest (hl : s.Listed) (hq : s.q x = pre ++ t :: rest) :
    ∃ pre', (s.runOp c x t a).2.q x = pre' ++ rest := by
  rcases runOp_q_self (c := c) (s := s) (x := x) (t := t) (a := a) with hsame | herase
  · exact ⟨pre ++ [t], by rw [hsame, hq]; simp⟩
  · refine ⟨pre, ?_⟩
    have hnodup := hl.nodup x
    rw [herase]
    rw [hq] at hnodup ⊢
    exact erase_middle hnodup

end Walks

/-! ## The main loop -/

/-- The cursor of a walk is at the items that the walk on sequences has left, and the
    node after it is kept. -/
inductive AtSame (links : Links Node) (s : Helper) : LinkedPc → LoopPc → Prop where
  | process (x : ReqState) (pre rest : List Token) (hq : s.q x = pre ++ rest) :
      AtSame links s (.process x (cursor x rest) (links.next (cursor x rest))) (.process x rest)
  | broken (x : ReqState) : AtSame links s (.broken x) (.process x [])
  | get : AtSame links s .get .get

/-- The state is no error, and represents a state on sequences. -/
def Represents (p : Option LinkedHelper) (s : Helper) : Prop :=
  ∃ links pc, p = some (s.link links pc) ∧ Stored links s ∧ AtSame links s pc s.pc

/-- The start of a walk. -/
theorem link_startLoop (h : Stored links s) (y : ReqState) :
    ∃ pc', (s.link links pc).startLoop y = some (s.link links pc') ∧
      AtSame links s pc' (.process y (s.q y)) := by
  refine ⟨_, ?_, .process y [] (s.q y) rfl⟩
  simp only [LinkedHelper.startLoop]
  rw [show (s.link links pc).links = links from rfl, forEachSafe_cursor h y]
  rfl

/-- The program counter on sequences is not part of the memory. -/
theorem represents_setPc {pc : LinkedPc} {pc' : LoopPc} (h : Stored links s)
    (hat : AtSame links s pc pc') : Represents (some (s.link links pc)) { s with pc := pc' } := by
  refine ⟨links, pc, rfl, h.congr rfl rfl, ?_⟩
  cases hat with
  | process x pre rest hq => exact .process (s := { s with pc := .process x rest }) x pre rest hq
  | broken x => exact .broken x
  | get => exact .get

/-- The operation at the cursor. -/
theorem perform_op (hl : s.Listed) (h : Stored links s) {pre rest : List Token}
    (hpc : s.pc = .process x (t :: rest)) (hq : s.q x = pre ++ t :: rest) :
    ∃ s', s.step c (.op a) = some s' ∧ Represents (LinkedHelper.perform c
      (s.link links (.process x (.list t) (links.next (.list t)))) (.op a)) s' := by
  have ht : t ∈ s.allReqs := ((hl.mem_iff t x).mp (by simp [hq])).1
  obtain ⟨links', hop, h'⟩ := agree_runOp (c := c) (x := x) (a := a)
    (.process x (.list t) (links.next (.list t))) h hl ht
  obtain ⟨pre', hq'⟩ := runOp_rest (c := c) (a := a) hl hq
  have hperform : LinkedHelper.perform c
      (s.link links (.process x (.list t) (links.next (.list t)))) (.op a) =
      if (s.runOp c x t a).1 = 0 && once x then some ((s.runOp c x t a).2.link links' (.broken x))
      else (links'.forEachAt (links.next (.list t))).bind fun next =>
        some ((s.runOp c x t a).2.link links' (.process x next.1 next.2)) := by
    simp only [LinkedHelper.perform, link, Option.bind_eq_bind] at hop ⊢
    rw [hop]
    rfl
  have hstep : s.step c (.op a) = some { (s.runOp c x t a).2 with
      pc := .process x (if (s.runOp c x t a).1 = 0 && once x then [] else rest) } := by
    simp only [Helper.step, hpc]
  refine ⟨_, hstep, ?_⟩
  rw [hperform, next_cursor h hq]
  split
  · exact represents_setPc h' (.broken x)
  · rw [forEachAt_cursor h' hq']
    exact represents_setPc h' (.process x pre' rest hq')

/-- The main loop takes up the next list, or reads. -/
theorem perform_advance (h : Stored links s) (hpc : s.pc = .process x [])
    (hwalked : (s.link links pc).walked = some x) :
    ∃ s', s.step c .advance = some s' ∧
      Represents (LinkedHelper.perform c (s.link links pc) .advance) s' := by
  cases hy : following x with
  | none =>
    refine ⟨{ s with pc := .get }, by simp [Helper.step, hpc, hy], ?_⟩
    simp only [LinkedHelper.perform, hwalked, Option.bind_some, hy]
    exact represents_setPc h .get
  | some y =>
    obtain ⟨pc', hstart, hat⟩ := link_startLoop pc h y
    refine ⟨{ s with pc := .process y (s.q y) }, by simp [Helper.step, hpc, hy], ?_⟩
    simp only [LinkedHelper.perform, hwalked, Option.bind_some, hy, hstart]
    exact represents_setPc h hat

theorem perform_get (hl : s.Listed) (h : Stored links s) (hpc : s.pc = .get) (poll : Poll) :
    ∃ s', s.step c (.get poll.kureq) = some s' ∧
      Represents (LinkedHelper.perform c (s.link links .get) (.get poll)) s' := by
  obtain ⟨links', hget, h'⟩ := link_khGetNextServiceRequest (c := c) .get h hl poll
  obtain ⟨pc', hstart, hat⟩ := link_startLoop .get h' .done
  refine ⟨{ s.khGetNextServiceRequest c poll.kureq with
      pc := .process .done ((s.khGetNextServiceRequest c poll.kureq).q .done) },
    by simp [Helper.step, hpc], ?_⟩
  simp only [LinkedHelper.perform, hget, Option.bind_eq_bind, Option.bind_some, hstart]
  exact represents_setPc h' hat

/-- Every step on linked lists is a step on sequences, and leads to no error. -/
theorem Represents.step {p p' : Option LinkedHelper} (h : Represents p s) (hl : s.Listed)
    {l : LinkedStep} (hs : LinkedHelper.step c p l = some p') :
    ∃ s', s.step c l.abstract = some s' ∧ Represents p' s' := by
  obtain ⟨links, pc, rfl, hstored, hat⟩ := h
  simp only [LinkedHelper.step] at hs
  split at hs
  next henabled =>
    obtain rfl := Option.some.inj hs
    generalize hpc : s.pc = spc at hat
    cases l with
    | op a =>
      cases hat with
      | process x pre rest hq =>
        cases rest with
        | nil => simp [LinkedHelper.enabled, link, cursor] at henabled
        | cons t rest => exact perform_op hl hstored hpc hq
      | broken | get => simp [LinkedHelper.enabled, link] at henabled
    | advance =>
      cases hat with
      | process x pre rest hq =>
        obtain rfl : rest = [] := by
          simpa [LinkedHelper.enabled, link, cursor_eq_head] using henabled
        exact perform_advance _ hstored hpc rfl
      | broken x => exact perform_advance _ hstored hpc rfl
      | get => simp [LinkedHelper.enabled, link] at henabled
    | get poll =>
      cases hat with
      | get => exact perform_get hl hstored hpc poll
      | process | broken => simp [LinkedHelper.enabled, link] at henabled
  next => cases hs

theorem ringHead_injective : Function.Injective ringHead := by
  intro k k' heq
  cases k <;> cases k' <;> simp_all [ringHead]

theorem represents_init (sr : Token → ServiceRequest) :
    Represents (some (LinkedHelper.init sr)) (Helper.init sr) := by
  have hnone : ∀ k, ringItems (Helper.init sr) k = [] := by
    intro k
    cases k <;> rfl
  refine ⟨(LinkedHelper.init sr).links, _, rfl, ⟨⟨fun k => ?_, fun k k' n hn hn' => ?_⟩, ?_, ?_⟩, ?_⟩
  · rw [hnone k]
    refine ⟨List.nodup_singleton _, fun n hn => ?_, ?_⟩
    · rw [List.mem_singleton.mp hn]
      cases k <;> rfl
    · cases k <;> exact ⟨rfl, rfl⟩
  · rw [hnone, List.mem_singleton] at hn hn'
    exact ringHead_injective (hn.symm.trans hn')
  · simp [Helper.init, LinkedHelper.init]
  · simp [Helper.init, LinkedHelper.init]
  · exact .process (s := Helper.init sr) .done [] [] rfl

/-! ## One call of `__kh_process_request` -/

/-- The operation applied to a sequence of items in order, until it returns 0 when
    `once` is set: the items it was applied to with what it returned, and the state
    after the last. -/
def processItems (c : Config) (x : ReqState) (once : Bool) (ans : Nat → Answers) :
    Nat → List Token → Helper → List (Token × Int) × Helper
  | _, [], s => ([], s)
  | i, t :: rest, s =>
    let (r, s') := s.runOp c x t (ans i)
    if r = 0 && once then ([(t, r)], s')
    else
      let (visited, s'') := processItems c x once ans (i + 1) rest s'
      ((t, r) :: visited, s'')

/-- The items visited are, in order and once each, those of the sequence up to and
    including the first one for which the operation returned 0 when `once` is set, and
    all of them otherwise. -/
structure Visits (once : Bool) (items : List Token) (visited : List (Token × Int)) : Prop where
  in_order : visited.map (·.1) <+: items
  stops : once = true → ∀ e ∈ visited.dropLast, e.2 ≠ 0
  all : once = false ∨ (∀ e ∈ visited, e.2 ≠ 0) → visited.map (·.1) = items

section Process

variable {pre rest : List Token} (once : Bool) (ans : Nat → Answers)

theorem processItems_visits (i : Nat) (rest : List Token) (s : Helper) :
    Visits once rest (processItems c x once ans i rest s).1 := by
  induction rest generalizing i s with
  | nil => exact ⟨List.prefix_refl [], by simp [processItems], fun _ => rfl⟩
  | cons t rest ih =>
    simp only [processItems]
    split
    next hstop =>
      rw [Bool.and_eq_true, decide_eq_true_iff] at hstop
      refine ⟨List.prefix_append [t] rest, by simp, fun hall => ?_⟩
      rcases hall with honce | hne
      · exact absurd (honce.symm.trans hstop.2) (by decide)
      · exact absurd hstop.1 (hne _ List.mem_cons_self)
    next hgo =>
      have h := ih (i + 1) (s.runOp c x t (ans i)).2
      generalize processItems c x once ans (i + 1) rest (s.runOp c x t (ans i)).2 = r at h
      refine ⟨(List.prefix_cons_inj t).mpr h.in_order, fun honce e he => ?_, fun hall => ?_⟩
      · have hcode : (s.runOp c x t (ans i)).1 ≠ 0 := fun hzero => hgo (by simp [hzero, honce])
        cases hr : r.1 with
        | nil =>
          rw [hr] at he
          cases he
        | cons e' v =>
          rw [hr, List.dropLast_cons_cons] at he
          rcases List.mem_cons.mp he with rfl | he
          · exact hcode
          · exact h.stops honce e (hr ▸ he)
      · rw [List.map_cons, h.all (hall.imp_right fun hne e he => hne e (List.mem_cons_of_mem _ he))]

/-- The loop on linked lists, from any place of a walk on, with enough turns for the
    items that are left. -/
theorem processLoop_eq {s : Helper} {links : Links Node} (hl : s.Listed) (h : Stored links s)
    (hq : s.q x = pre ++ rest) {fuel : Nat} (hfuel : rest.length ≤ fuel) (i : Nat) :
    ∃ links', LinkedHelper.processLoop c x once ans fuel i (cursor x rest)
        (links.next (cursor x rest)) (s.link links pc) =
          some ((processItems c x once ans i rest s).1,
            (processItems c x once ans i rest s).2.link links' pc) ∧
      Stored links' (processItems c x once ans i rest s).2 := by
  induction rest generalizing s links pre fuel i with
  | nil =>
    refine ⟨links, ?_, h⟩
    cases fuel <;> simp [LinkedHelper.processLoop, cursor, processItems]
  | cons t rest ih =>
    obtain ⟨fuel, rfl⟩ : ∃ k, fuel = k + 1 := Nat.exists_eq_succ_of_ne_zero (by
      rintro rfl
      simp at hfuel)
    have ht : t ∈ s.allReqs := ((hl.mem_iff t x).mp (by simp [hq])).1
    obtain ⟨links₁, hop, h₁⟩ := agree_runOp (c := c) (x := x) (a := ans i) pc h hl ht
    have hl₁ : (s.runOp c x t (ans i)).2.Listed := hl.runOp ht
    obtain ⟨pre', hq₁⟩ := runOp_rest (c := c) (a := ans i) hl hq
    have hloop : LinkedHelper.processLoop c x once ans (fuel + 1) i (.list t)
        (links.next (.list t)) (s.link links pc) =
          if (s.runOp c x t (ans i)).1 = 0 && once then
            some ([(t, (s.runOp c x t (ans i)).1)], (s.runOp c x t (ans i)).2.link links₁ pc)
          else (links₁.forEachAt (links.next (.list t))).bind fun next =>
            (LinkedHelper.processLoop c x once ans fuel (i + 1) next.1 next.2
              ((s.runOp c x t (ans i)).2.link links₁ pc)).bind fun after =>
                some ((t, (s.runOp c x t (ans i)).1) :: after.1, after.2) := by
      simp only [LinkedHelper.processLoop, reduceCtorEq, if_false, Option.bind_eq_bind]
      rw [hop]
      rfl
    rw [show cursor x (t :: rest) = .list t from rfl, hloop]
    simp only [processItems]
    split
    next hstop => exact ⟨links₁, rfl, h₁⟩
    next hgo =>
      obtain ⟨links', hrest, h'⟩ := ih hl₁ h₁ hq₁ (Nat.le_of_succ_le_succ hfuel) (i + 1)
      refine ⟨links', ?_, h'⟩
      rw [next_cursor h hq, forEachAt_cursor h₁ hq₁, Option.bind_some, hrest]
      rfl

/-- A whole call. -/
theorem khProcessRequest_eq (hl : s.Listed) (h : Stored links s) (x : ReqState) {fuel : Nat}
    (hfuel : (s.q x).length ≤ fuel) :
    ∃ links', (s.link links pc).khProcessRequest c x once ans fuel =
        some ((processItems c x once ans 0 (s.q x) s).1,
          (processItems c x once ans 0 (s.q x) s).2.link links' pc) ∧
      Stored links' (processItems c x once ans 0 (s.q x) s).2 := by
  obtain ⟨links', hloop, h'⟩ :=
    processLoop_eq (c := c) pc once ans hl h (List.nil_append (s.q x)).symm hfuel 0
  refine ⟨links', ?_, h'⟩
  simp only [LinkedHelper.khProcessRequest]
  rw [show (s.link links pc).links = links from rfl, forEachSafe_cursor h x]
  exact hloop

end Process

/-! ## Every run -/

/-- The sequences are the seven rings, which have no node in common, and exactly the
    items on `all_reqs` are allocated, each on one of the other lists. -/
structure WellLinked (p : LinkedHelper) (s : Helper) : Prop where
  same : p = s.link p.links p.pc
  all_ring : p.links.Ring .allReqs (s.allReqs.map .glist)
  state_ring : ∀ x, p.links.Ring (.head x) ((s.q x).map .list)
  disjoint : ∀ k k' n, n ∈ ringHead k :: ringItems s k → n ∈ ringHead k' :: ringItems s k' → k = k'
  list_alive : ∀ t, p.links.alive (.list t) = true ↔ t ∈ s.allReqs
  glist_alive : ∀ t, p.links.alive (.glist t) = true ↔ t ∈ s.allReqs
  one_list : ∀ t ∈ s.allReqs, ∃! x, t ∈ s.q x
  timeout : p.pollTimeout = s.pollTimeout

theorem wellLinked (h : Stored links s) (hl : s.Listed) : WellLinked (s.link links pc) s where
  same := rfl
  all_ring := h.rings.ring none
  state_ring x := h.rings.ring (some x)
  disjoint := h.rings.apart
  list_alive := h.list_alive
  glist_alive := h.glist_alive
  one_list t ht := by
    refine ⟨(s.sr t).state, (hl.mem_iff t _).mpr ⟨ht, rfl⟩, fun y hy => ?_⟩
    exact ((hl.mem_iff t y).mp hy).2.symm
  timeout := by
    have hempty : links.listEmpty .allReqs = true ↔ s.allReqs.map Node.glist = [] :=
      (h.rings.ring none).listEmpty_iff
    rw [List.map_eq_nil_iff, ← List.isEmpty_iff] at hempty
    rw [LinkedHelper.pollTimeout, pollTimeout]
    exact if_congr hempty rfl rfl

theorem processItems_listed (i : Nat) {once : Bool} {ans : Nat → Answers} {rest : List Token}
    (hl : s.Listed) (hnodup : rest.Nodup) (hrest : ∀ t ∈ rest, t ∈ s.q x) :
    (processItems c x once ans i rest s).2.Listed := by
  induction rest generalizing s i with
  | nil => exact hl
  | cons t rest ih =>
    obtain ⟨hout, hnodup⟩ := List.nodup_cons.mp hnodup
    have ht : t ∈ s.allReqs := ((hl.mem_iff t x).mp (hrest t List.mem_cons_self)).1
    simp only [processItems]
    split
    · exact hl.runOp ht
    · refine ih (i + 1) (hl.runOp ht) hnodup fun t' ht' => ?_
      have hne : t' ≠ t := fun heq => hout (heq ▸ ht')
      exact (mem_runOp_q hne).mpr (hrest t' (List.mem_cons_of_mem t ht'))

/-- Every run of the helper on linked lists, from the heads linked to themselves, makes
    no error and is a run on sequences, which are the rings at the end. From there
    `__kh_process_request` with any of the six operations, with `once` or without and
    whatever the calls of the operations answer, ends after at most one turn for each
    item of the list, has visited the items as it should, and leaves rings that are the
    sequences after the operations. -/
theorem linked_lists_refine_sequences {sr : Token → ServiceRequest} {ls : List LinkedStep}
    {state : Option LinkedHelper}
    (hrun : Run (LinkedHelper.step c) Free (some (LinkedHelper.init sr)) ls state) :
    ∃ p s, state = some p ∧
      Run (Helper.step c) Free (init sr) (ls.map LinkedStep.abstract) s ∧ WellLinked p s ∧
      ∀ x once ans fuel, (s.q x).length ≤ fuel → ∃ p',
        p.khProcessRequest c x once ans fuel =
          some ((processItems c x once ans 0 (s.q x) s).1, p') ∧
        Visits once (s.q x) (processItems c x once ans 0 (s.q x) s).1 ∧
        WellLinked p' (processItems c x once ans 0 (s.q x) s).2 := by
  obtain ⟨s, hrun', hrepr, hl, -⟩ := hrun.simulate LinkedStep.abstract
    (fun p s => Represents p s ∧ s.Listed ∧ s.Walking)
    ⟨represents_init sr, (listed_init sr).1, (listed_init sr).2⟩
    (by
      rintro p l p' s ⟨hrepr, hl, hw⟩ hs
      obtain ⟨s', hs', hrepr'⟩ := hrepr.step hl hs
      exact ⟨s', hs', hrepr', (hl.step hw hs').1, (hl.step hw hs').2⟩)
  obtain ⟨links, pc, rfl, h, -⟩ := hrepr
  refine ⟨s.link links pc, s, rfl, hrun', wellLinked pc h hl, fun x once ans fuel hfuel => ?_⟩
  obtain ⟨links', hprocess, h'⟩ := khProcessRequest_eq (c := c) pc once ans hl h x hfuel
  exact ⟨_, hprocess, processItems_visits once ans 0 (s.q x) s,
    wellLinked pc h' (processItems_listed 0 hl (hl.nodup x) fun t ht => ht)⟩

/-- A request without a service: its self-linked node is failed and then answered. The
    item is freed under the cursor, and the next one is in the ring of its list. -/
theorem linked_lists_refine_sequences_two_requests :
    ∃ p s, Run (LinkedHelper.step .small) Free (some (LinkedHelper.init default))
        ([.advance, .advance, .advance, .advance, .advance, .advance,
          .get (.request ⟨1, Vector.replicate 32 66, 0, 0, 0, 0, 0, 0⟩), .op ⟨0, 0, 0, 0, true, true⟩,
          .advance, .advance, .advance, .advance, .advance, .advance,
          .get (.request ⟨2, Vector.replicate 32 65, 0, 0, 0, 0, 0, 0⟩)]) (some p) ∧
      p.links.next (.head .done) = some (.head .done) ∧ p.links.alive (.list 0) = false ∧
      p.links.next (.head .init) = some (.list 1) ∧ WellLinked p s := by
  have hrun : Run (LinkedHelper.step .small) Free (some (LinkedHelper.init default))
      ([.advance, .advance, .advance, .advance, .advance, .advance,
        .get (.request ⟨1, Vector.replicate 32 66, 0, 0, 0, 0, 0, 0⟩), .op ⟨0, 0, 0, 0, true, true⟩,
        .advance, .advance, .advance, .advance, .advance, .advance,
        .get (.request ⟨2, Vector.replicate 32 65, 0, 0, 0, 0, 0, 0⟩)]) _ := Run.of_exec rfl
  obtain ⟨p, s, hp, -, hlinked, -⟩ := linked_lists_refine_sequences hrun
  obtain rfl := Option.some.inj hp
  exact ⟨_, s, hrun, rfl, rfl, rfl, hlinked⟩

end Helper
end Kgpu
