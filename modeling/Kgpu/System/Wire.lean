-- SUMMARY: The bytes of the requests and responses that cross the device, and the system that passes bytes.
import Kgpu.Library.Layout
import Kgpu.Kernel.Requests
import Kgpu.System.Machine

/-!
# The wire format

`kgpu_read` fills a `struct kgpu_ku_request` on the kernel stack and copies its bytes to
the helper, which takes them for a structure of the same layout. `kgpu_write` does so with
the `struct kgpu_ku_response` of the helper. The system that passes bytes makes the steps
of the system that passes records, whatever was on either stack before.
-/

namespace Kgpu

open Library

/-! ## The layouts -/

def kuRequestLayout : List Member :=
  [.scalar 4 (by decide), .chars 32, .scalar 8 (by decide), .scalar 8 (by decide),
    .scalar 8 (by decide), .scalar 8 (by decide), .scalar 8 (by decide), .scalar 8 (by decide)]

def kuResponseLayout : List Member := [.scalar 4 (by decide), .scalar 4 (by decide)]

example : structSize kuRequestLayout = kuRequestSize.toNat ∧
    structSize kuResponseLayout = kuResponseSize.toNat := by decide

/-- A value of the C type `int`. -/
def IsInt (z : Int) : Prop := -2 ^ 31 ≤ z ∧ z < 2 ^ 31

instance (z : Int) : Decidable (IsInt z) := inferInstanceAs (Decidable (_ ∧ _))

def intBytes (z : Int) : List UInt8 := leBytes 4 (BitVec.ofInt 32 z).toNat

def intOf (bs : List UInt8) : Int := (BitVec.ofNat 32 (leNat bs)).toInt

def wordBytes (w : UL) : List UInt8 := leBytes 8 w.toNat

def wordOf (bs : List UInt8) : UL := BitVec.ofNat 64 (leNat bs)

namespace KuRequest

def members (r : KuRequest) : List (List UInt8) :=
  [intBytes r.id, r.serviceName.toList, wordBytes r.inp, wordBytes r.out, wordBytes r.data,
    wordBytes r.insize, wordBytes r.outsize, wordBytes r.datasize]

def ofMembers (vs : List (List UInt8)) : KuRequest where
  id := intOf (vs.getD 0 [])
  serviceName := Vector.ofFn fun i => (vs.getD 1 []).getD i 0
  inp := wordOf (vs.getD 2 [])
  out := wordOf (vs.getD 3 [])
  data := wordOf (vs.getD 4 [])
  insize := wordOf (vs.getD 5 [])
  outsize := wordOf (vs.getD 6 [])
  datasize := wordOf (vs.getD 7 [])

/-- The structure in memory that held something else before. -/
def store (r : KuRequest) (mem : Bytes) : Bytes := Library.store kuRequestLayout r.members mem

def load (mem : Bytes) : KuRequest := ofMembers (Library.load kuRequestLayout mem)

end KuRequest

namespace KuResponse

def members (r : KuResponse) : List (List UInt8) := [intBytes r.id, intBytes r.errcode]

def ofMembers (vs : List (List UInt8)) : KuResponse :=
  ⟨intOf (vs.getD 0 []), intOf (vs.getD 1 [])⟩

def store (r : KuResponse) (mem : Bytes) : Bytes := Library.store kuResponseLayout r.members mem

def load (mem : Bytes) : KuResponse := ofMembers (Library.load kuResponseLayout mem)

end KuResponse

/-- `memcpy(dst, src, n)`. -/
def memcpy (dst src : Bytes) (n : Nat) : Bytes := fun i => if i < n then src i else dst i

/-! ## Round trips -/

theorem intOf_intBytes {z : Int} (h : IsInt z) : intOf (intBytes z) = z := by
  have hlt : (BitVec.ofInt 32 z).toNat < 256 ^ 4 :=
    Nat.lt_of_lt_of_le (BitVec.ofInt 32 z).isLt (by decide)
  rw [intOf, intBytes, leNat_leBytes, Nat.mod_eq_of_lt hlt, BitVec.ofNat_toNat,
    BitVec.setWidth_eq, BitVec.toInt_ofInt]
  obtain ⟨hlo, hhi⟩ := h
  exact Int.bmod_eq_of_le (by omega) (by omega)

theorem wordOf_wordBytes (w : UL) : wordOf (wordBytes w) = w := by
  have hlt : w.toNat < 256 ^ 8 := Nat.lt_of_lt_of_le w.isLt (by decide)
  rw [wordOf, wordBytes, leNat_leBytes, Nat.mod_eq_of_lt hlt, BitVec.ofNat_toNat,
    BitVec.setWidth_eq]

theorem ofFn_toList {n : Nat} (v : Vector UInt8 n) : (Vector.ofFn fun i => v.toList.getD i 0) = v := by
  ext i hi
  simp

namespace KuRequest

theorem sized (r : KuRequest) : Sized kuRequestLayout r.members := by
  simp [Sized, kuRequestLayout, members, intBytes, wordBytes, Member.scalar, Member.chars]

theorem load_store {r : KuRequest} (h : IsInt r.id) (mem : Bytes) : load (r.store mem) = r := by
  rw [load, store, Library.load_store r.sized]
  simp only [ofMembers, members, List.getD_cons_zero, List.getD_cons_succ, intOf_intBytes h,
    wordOf_wordBytes, ofFn_toList]

/-- The helper reads from a copy what the kernel stored. -/
theorem load_memcpy {r : KuRequest} (h : IsInt r.id) (stack buf : Bytes) :
    load (memcpy buf (r.store stack) kuRequestSize.toNat) = r := by
  have hcopy : Library.load kuRequestLayout (memcpy buf (r.store stack) kuRequestSize.toNat) =
      Library.load kuRequestLayout (r.store stack) := load_congr fun i hi => if_pos hi
  rw [load, hcopy]
  exact load_store h stack

end KuRequest

namespace KuResponse

theorem sized (r : KuResponse) : Sized kuResponseLayout r.members := by
  simp [Sized, kuResponseLayout, members, intBytes, Member.scalar]

theorem load_memcpy {r : KuResponse} (hid : IsInt r.id) (he : IsInt r.errcode)
    (stack buf : Bytes) : load (memcpy buf (r.store stack) kuResponseSize.toNat) = r := by
  have hcopy : Library.load kuResponseLayout (memcpy buf (r.store stack) kuResponseSize.toNat) =
      Library.load kuResponseLayout (r.store stack) := load_congr fun i hi => if_pos hi
  rw [load, hcopy, store, Library.load_store r.sized]
  simp only [ofMembers, members, List.getD_cons_zero, List.getD_cons_succ, intOf_intBytes hid,
    intOf_intBytes he]

end KuResponse

/-! ## The system that passes bytes -/

variable {T : Type} [DecidableEq T]

/-- The system, with the `kureq` of `kh_get_next_service_request`, which the helper's read
    fills. -/
structure Wire (T : Type) where
  sys : System T
  kureq : Bytes

namespace Wire

/-- A step with what is on the stack of the function that fills a structure. The request
    in the kernel's record of a read is only used to fill the structure. -/
def step (c : Config) (w : Wire T) : SysStep T × Bytes → Option (Wire T)
  | (.read, stack) =>
    match w.sys.step c .read with
    | some s =>
      match s.calls.dev with
      | .reading _ kureq _ =>
        some ⟨s, memcpy w.kureq (kureq.store stack) kuRequestSize.toNat⟩
      | _ => none
    | none => none
  | (.initRequest, _) =>
    match w.sys.pc with
    | .hasRead _ =>
      match w.sys.helper.step c (.get (some (.load w.kureq))) with
      | some h => some { w with sys := { w.sys with helper := h, pc := .user } }
      | none => none
    | _ => none
  | (.send, stack) =>
    match w.sys.pc, w.sys.helper.pc with
    | .user, .process .done (t :: _) =>
      -- `resp` is on the helper's stack, and `kuresp` on the kernel's.
      let kuresp := memcpy stack ((w.sys.helper.response t).store stack) kuResponseSize.toNat
      match w.sys.calls.step (.writeFind kuResponseSize (.load kuresp)) with
      | some k =>
        some { w with
          sys := { w.sys with
            calls := k
            pc := match k.dev with
              | .writing .. => .writing
              | _ => .aborted
            taken := w.sys.taken ++ k.dev.held } }
      | none => none
    | _, _ => none
  | (l, _) => (w.sys.step c l).map fun s => { w with sys := s }

/-- The module is loaded, the helper has the device open and is about to enter its loop. -/
def init (sr : Token → ServiceRequest) (sync : DataPtr → SyncCallData) (pool : Mempool)
    (kureq : Bytes) : Wire T := ⟨.init sr sync pool, kureq⟩

end Wire

/-! ## The `int`s of the system -/

namespace Helper

variable {c : Config} {s : Helper} {x : ReqState} {t : Token} {a : Answers}

theorem runOp_errcode_cases (t' : Token) :
    ((s.runOp c x t a).2.sr t').errcode = (s.sr t').errcode ∨
      ((s.runOp c x t a).2.sr t').errcode ∈ [a.prepare, a.launch, a.post] := by
  by_cases htt : t' = t
  · subst htt
    have hcase : OpCase c s t' a x (s.runOp c x t' a) := runOp_case
    generalize s.runOp c x t' a = r at hcase
    cases hcase <;>
      simp [touch, listDel, moveTo, setSr, record, listAddTail, Config.gpuAllocDeviceMem,
        Config.gpuFreeDeviceMem]
  · rw [(runOp_other htt).1]
    exact .inl rfl

/-- The ids and error codes of the items are `int`s. -/
def IntItems (s : Helper) : Prop := ∀ t, IsInt (s.sr t).id ∧ IsInt (s.sr t).errcode

theorem IntItems.op (h : s.IntItems) (ha : IsInt a.prepare ∧ IsInt a.launch ∧ IsInt a.post)
    {s' : Helper} (hs : s.step c (.op a) = some s') : s'.IntItems := by
  obtain ⟨hprepare, hlaunch, hpost⟩ := ha
  simp only [step] at hs
  split at hs <;> cases hs
  next x t rest _ =>
    intro t'
    refine ⟨?_, ?_⟩
    · have hid : ((s.runOp c x t a).2.sr t').id = (s.sr t').id := runOp_id t'
      exact hid ▸ (h t').1
    · have herr := runOp_errcode_cases (c := c) (s := s) (x := x) (t := t) (a := a) t'
      show IsInt ((s.runOp c x t a).2.sr t').errcode
      rcases herr with heq | hmem
      · rw [heq]
        exact (h t').2
      · generalize ((s.runOp c x t a).2.sr t').errcode = e at hmem
        simp only [List.mem_cons, List.not_mem_nil, or_false] at hmem
        rcases hmem with rfl | rfl | rfl
        · exact hprepare
        · exact hlaunch
        · exact hpost

theorem IntItems.get (h : s.IntItems) {kureq : KuRequest} (hid : IsInt kureq.id) {s' : Helper}
    (hs : s.step c (.get (some kureq)) = some s') : s'.IntItems := by
  simp only [step] at hs
  split at hs <;> cases hs
  intro t
  show IsInt ((s.khInitServiceRequest c kureq).sr t).id ∧
    IsInt ((s.khInitServiceRequest c kureq).sr t).errcode
  by_cases ht : t = s.next
  · subst ht
    rcases khInitServiceRequest_new (c := c) (s := s) kureq with ⟨_, hsr, _⟩ | ⟨_, _, hsr, _⟩
    · rw [hsr]
      have hcode : IsInt kgpuNoService := by decide
      exact ⟨hid, hcode⟩
    · rw [hsr]
      have hcode : IsInt 0 := by decide
      exact ⟨hid, hcode⟩
  · rw [(khInitServiceRequest_other kureq ht).1]
    exact h t

theorem IntItems.same (h : s.IntItems) {s' : Helper} {l : HelperStep}
    (hl : l = .advance ∨ l = .get none) (hs : s.step c l = some s') : s'.IntItems := by
  rcases hl with rfl | rfl
  · simp only [step] at hs
    split at hs
    · split at hs <;> cases hs <;> exact h
    · cases hs
  · simp only [step] at hs
    split at hs <;> cases hs
    exact h

end Helper

namespace Calls

/-- The ids of the requests, and of the one that is being read, are `int`s. -/
structure IntIds (s : Calls T) : Prop where
  req : ∀ r, IsInt (s.kernel.req r).id
  dev : ∀ item kureq n, s.dev = .reading item kureq n → IsInt kureq.id

/-- Clients do not come between the sections of a read or a write. -/
theorem step_dev {s s' : Calls T} {l : CallStep T} (hl : l.kind ≠ .device)
    (hs : s.step l = some s') : s'.dev = s.dev := by
  cases l with
  | edit r q => exact (step_edit hs).1.dev
  | _ => exact (step_client hl (by rintro _ _ ⟨⟩) hs).1

theorem IntIds.step {s s' : Calls T} (h : s.IntIds) {l : CallStep T}
    (hl : ∀ r q, l = .edit r q → IsInt q.id) (hs : s.step l = some s') : s'.IntIds := by
  have hreq : ∀ r, IsInt (s'.kernel.req r).id := by
    intro r
    by_cases hedit : l.kind = .edit
    · cases l with
      | edit r' q =>
        rw [(step_edit hs).2]
        by_cases hr : r = r'
        · subst hr
          rw [Function.update_self]
          exact hl r q rfl
        · rw [Function.update_of_ne hr]
          exact h.req r
      | _ => cases hedit
    · rw [(step_ids hedit hs).1 r]
      exact h.req r
  refine ⟨hreq, fun item kureq n hdev => ?_⟩
  by_cases hk : l.kind = .device
  · cases step_case hs with
    | taken hidle hreqs =>
      cases hdev
      exact h.req _
    | retired | completed | found => cases hdev
    | tooShort hidle | unknown hidle => exact h.dev item kureq n hdev
    | _ => cases hk
  · rw [step_dev hk hs] at hdev
    exact h.dev item kureq n hdev

end Calls

namespace System

/-- What has the type `int` in the source is an `int`. -/
structure IntValues (s : System T) : Prop where
  ids : s.calls.IntIds
  items : s.helper.IntItems
  hasRead : ∀ kureq, s.pc = .hasRead kureq → IsInt kureq.id

/-- So is what a client stores and a service returns. -/
def Ints (_ : System T) : SysStep T → Prop
  | .client (.edit _ q) => IsInt q.id
  | .op a => IsInt a.prepare ∧ IsInt a.launch ∧ IsInt a.post
  | _ => True

theorem IntValues.step {c : Config} {s s' : System T} {l : SysStep T} (h : s.IntValues)
    (hok : s.Ints l) (hs : s.step c l = some s') : s'.IntValues := by
  cases step_case hs with
  | client hk hc =>
    refine ⟨h.ids.step (fun r q hl => ?_) hc, h.items, h.hasRead⟩
    subst hl
    exact hok
  | op hready hh => exact ⟨h.ids, h.items.op hok hh, by rintro _ ⟨⟩⟩
  | advance hpc hh => exact ⟨h.ids, h.items.same (.inl rfl) hh, by rintro _ ⟨⟩⟩
  | getNone hpc hh => exact ⟨h.ids, h.items.same (.inr rfl) hh, by rintro _ ⟨⟩⟩
  | read hpc hget hc => exact ⟨h.ids.step (by rintro _ _ ⟨⟩) hc, h.items, by rintro _ ⟨⟩⟩
  | readReturn hpc hdev hc =>
    refine ⟨h.ids.step (by rintro _ _ ⟨⟩) hc, h.items, ?_⟩
    rintro _ ⟨⟩
    exact h.ids.dev _ _ _ hdev
  | initRequest hpc hh => exact ⟨h.ids, h.items.get (h.hasRead _ hpc) hh, by rintro _ ⟨⟩⟩
  | send hpc hdone hc =>
    refine ⟨h.ids.step (by rintro _ _ ⟨⟩) hc, h.items, fun kureq hread => ?_⟩
    dsimp only at hread
    split at hread <;> cases hread
  | writeReturn hpc hc => exact ⟨h.ids.step (by rintro _ _ ⟨⟩) hc, h.items, by rintro _ ⟨⟩⟩

end System

namespace Wire

variable {c : Config} {w w' : Wire T}

/-! ## Runs -/

/-- The helper's structure has the bytes of the request that was read. -/
structure Intact (w : Wire T) : Prop where
  values : w.sys.IntValues
  reading : w.sys.pc = .reading → ∀ item kureq n, w.sys.calls.dev = .reading item kureq n →
    KuRequest.load w.kureq = kureq
  hasRead : ∀ kureq, w.sys.pc = .hasRead kureq → KuRequest.load w.kureq = kureq

/-- A step that does not touch the structure. -/
theorem Intact.keep (h : w.Intact) {l : SysStep T} {s : System T} (hok : w.sys.Ints l)
    (hs : w.sys.step c l = some s) (hl : l ≠ .read) :
    ({ w with sys := s } : Wire T).Intact := by
  refine ⟨h.values.step hok hs, ?_, ?_⟩
  · intro hpc item kureq n hdev
    cases System.step_case hs with
    | client hk hc =>
      rw [Calls.step_dev hk hc] at hdev
      exact h.reading hpc item kureq n hdev
    | read => exact absurd rfl hl
    | send hpc' hdone hc =>
      dsimp only at hpc
      split at hpc <;> cases hpc
    | _ => cases hpc
  · intro kureq hpc
    cases System.step_case hs with
    | client hk hc => exact h.hasRead kureq hpc
    | readReturn hpc' hdev hc =>
      cases hpc
      exact h.reading hpc' _ _ _ hdev
    | send hpc' hdone hc =>
      dsimp only at hpc
      split at hpc <;> cases hpc
    | _ => cases hpc

theorem Intact.step (h : w.Intact) {l : SysStep T} {stack : Bytes} (hok : w.sys.Ints l)
    (hs : w.step c (l, stack) = some w') : w.sys.step c l = some w'.sys ∧ w'.Intact := by
  cases l with
  | read =>
    simp only [Wire.step] at hs
    split at hs
    next s hread =>
      split at hs <;> cases hs
      next item kureq n hdev =>
        refine ⟨hread, h.values.step hok hread, ?_, ?_⟩
        · intro _ item' kureq' n' hdev'
          cases hdev.symm.trans hdev'
          exact KuRequest.load_memcpy ((h.values.step hok hread).ids.dev _ _ _ hdev) _ _
        · intro kureq' hpc
          cases System.step_case hread with
          | read => cases hpc
    next => cases hs
  | initRequest =>
    simp only [Wire.step] at hs
    split at hs
    next kureq hpc =>
      split at hs <;> cases hs
      next h' hh =>
        rw [h.hasRead kureq hpc] at hh
        have hsys : w.sys.step c .initRequest = some { w.sys with helper := h', pc := .user } := by
          simp only [System.step, hpc, hh]
        exact ⟨hsys, h.keep hok hsys (by rintro ⟨⟩)⟩
    next => cases hs
  | send =>
    simp only [Wire.step] at hs
    split at hs
    next t rest hpc hdone =>
      have hitem := h.values.items t
      rw [KuResponse.load_memcpy hitem.1 hitem.2] at hs
      split at hs <;> cases hs
      next k hk =>
        have hsys : w.sys.step c .send = some { w.sys with
            calls := k
            pc := match k.dev with
              | .writing .. => .writing
              | _ => .aborted
            taken := w.sys.taken ++ k.dev.held } := by
          cases hdev : k.dev <;> simp only [System.step, hpc, hdone, hk, hdev]
        exact ⟨hsys, h.keep hok hsys (by rintro ⟨⟩)⟩
    next => cases hs
  | client _ | op _ | advance | getNone | readReturn | writeReturn =>
    obtain ⟨s, hsys, rfl⟩ := Option.map_eq_some_iff.mp hs
    exact ⟨hsys, h.keep hok hsys (by rintro ⟨⟩)⟩

omit [DecidableEq T] in
theorem Intact.init {sr : Token → ServiceRequest} (hsr : ∀ t, IsInt (sr t).id ∧ IsInt (sr t).errcode)
    (sync : DataPtr → SyncCallData) (pool : Mempool) (kureq : Bytes) :
    (init sr sync pool kureq : Wire T).Intact := by
  have hzero : IsInt 0 := by decide
  exact ⟨⟨⟨fun _ => hzero, by rintro _ _ _ ⟨⟩⟩, hsr, by rintro _ ⟨⟩⟩, by rintro ⟨⟩,
    by rintro _ ⟨⟩⟩

/-- Passing bytes is passing records: every run of the helper, the kernel and its clients
    that copies structures, whatever was on the stacks, is a run of the system that passes
    the records. A read fills the 88 bytes of the helper's structure and no others, and the
    four between `service_name` and `in` are those of the kernel's stack. -/
theorem wire_faithful {sr : Token → ServiceRequest}
    (hsr : ∀ t, IsInt (sr t).id ∧ IsInt (sr t).errcode) {sync : DataPtr → SyncCallData}
    {pool : Mempool} {kureq : Bytes} {ls : List (SysStep T × Bytes)}
    (hrun : Run (step c) (fun w l => w.sys.Ints l.1) (init sr sync pool kureq) ls w) :
    Run (System.step c) System.Ints (System.init sr sync pool) (ls.map Prod.fst) w.sys ∧
      ∀ stack w', w.step c (.read, stack) = some w' →
        (∀ i, 36 ≤ i → i < 40 → w'.kureq i = stack i) ∧
          ∀ i, 88 ≤ i → w'.kureq i = w.kureq i := by
  refine ⟨?_, fun stack w' hs => ?_⟩
  · have hboth : Run (System.step c) System.Ints (System.init sr sync pool) (ls.map Prod.fst)
        w.sys ∧ w.Intact := by
      induction hrun with
      | nil => exact ⟨.nil, .init hsr sync pool kureq⟩
      | snoc _ hok hs ih =>
        obtain ⟨hrun, hintact⟩ := ih
        obtain ⟨hsys, hintact'⟩ := hintact.step hok hs
        rw [List.map_append]
        exact ⟨hrun.snoc hok hsys, hintact'⟩
    exact hboth.1
  · simp only [Wire.step] at hs
    split at hs
    next s hread =>
      split at hs <;> cases hs
      next item kureq' n hdev =>
        refine ⟨fun i hlo hhi => ?_, fun i hi => if_neg (Nat.not_lt.mpr hi)⟩
        have hlt : i < kuRequestSize.toNat := Nat.lt_trans hhi (by decide)
        have hpad : Padding kuRequestLayout i := by
          have hfour : i = 36 ∨ i = 37 ∨ i = 38 ∨ i = 39 := by omega
          rcases hfour with rfl | rfl | rfl | rfl <;> decide
        exact (if_pos hlt).trans (store_padding kureq'.sized stack hpad)
    next => cases hs

/-- A request is submitted, read and answered, with all ones on every stack. -/
def oneAnswered : List (SysStep Unit × Bytes) :=
  [.client (.edit 0 (.constructed (-7))), .client (.callAsync () 0), .client (.allocItem () true),
    .client (.append ()), .advance, .advance, .advance, .advance, .advance, .advance, .read,
    .readReturn, .initRequest, .send, .writeReturn].map fun l => (l, fun _ => 255)

theorem wire_faithful_one_answered :
    ∃ s : System Unit, Run (System.step .small) System.Ints (System.init default
        (fun _ => ⟨.client 0, .client 0, false⟩) (.empty 0x100000 2)) (oneAnswered.map Prod.fst) s ∧
      s.calls.kernel.callbacks = [(⟨0, 0⟩, .client 0)] ∧ s.calls.answered ⟨0, 0⟩ = some 2 := by
  have hrun : Run (step .small) (fun w l => w.sys.Ints l.1) (init default
      (fun _ => ⟨.client 0, .client 0, false⟩) (.empty 0x100000 2) fun _ => 0) oneAnswered
      ((exec (step .small) oneAnswered (init default
        (fun _ => ⟨.client 0, .client 0, false⟩) (.empty 0x100000 2) fun _ => 0)).get rfl) := by
    refine Run.of_forall rfl fun l hl w => ?_
    simp only [oneAnswered, List.map_cons, List.map_nil, List.mem_cons, List.not_mem_nil,
      or_false] at hl
    rcases hl with rfl | rfl | rfl | rfl | rfl | rfl | rfl | rfl | rfl | rfl | rfl | rfl | rfl |
      rfl | rfl <;> trivial
  have hsr : IsInt (default : ServiceRequest).id ∧ IsInt (default : ServiceRequest).errcode := by
    decide
  exact ⟨_, (wire_faithful (fun _ => hsr) hrun).1, rfl, rfl⟩

end Wire
end Kgpu
