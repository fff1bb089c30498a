-- SUMMARY: Clients that keep to the buffers they have allocated find their results in them.
import Kgpu.System.Placement
import Kgpu.System.Submitted

/-!
# Clients with buffers

A client asks `kgpu_vmalloc` or `kgpu_alloc_mmap_area` for memory, points a request at it,
submits the request and gives the memory back after the callback. What it has to see to
is about its own allocations only: they are live, no other request in flight uses them,
and it does not give them back or write to them while its request is in flight. That is
enough for the requests of all clients to stay apart on their way to the device and back.
-/

namespace Kgpu

open Library

variable {T : Type}

/-- The system with the allocators of the kernel. `gmpool` of the kernel is the pool of the
    allocators, of which the system reads the addresses only. -/
structure Buffered (T : Type) where
  whole : Whole T
  alloc : Allocators

inductive BufferedStep (T : Type) where
  | whole (l : WholeStep T)
  /-- A client allocates memory, or gives it back. -/
  | alloc (op : AllocatorOp)

/-- What an operation gives back. -/
def AllocatorOp.freed : AllocatorOp → Option Allocation
  | .pool (.vfree b) => some (.buffer b)
  | .area (.free b) => some (.area b)
  | _ => none

/-- A byte of an allocation, at the address at which the helper has it. -/
def Allocation.OnHost (c : Config) (kva : UL) (y : Allocation) (n : Nat) : Prop :=
  ∃ a, y.block.Byte a ∧ n = (y.hostBase c).toNat + (a - (y.base c kva).toNat)

namespace Buffered

section
variable [DecidableEq T]

def step (K : ZeroAreaSearch) (c : Config) (k : Kernels) (m : Buffered T) :
    BufferedStep T → Option (Buffered T)
  | .whole l => (m.whole.step c k l).map fun w => { m with whole := w }
  | .alloc op => (m.alloc.step K op).map fun a => { m with alloc := a }

end

/-- The module is loaded, the helper has set up the pool `p` and mapped the device, and is
    about to enter its loop. -/
def init (c : Config) (p : Mempool) (sr : Token → ServiceRequest) (sync : DataPtr → SyncCallData)
    (host dev : Memory) (seen : Token → KuRequest × Memory) (allocSzMem : Nat → U32)
    (bitmapMem : Bitmap) : Buffered T where
  whole := Whole.init sr sync p host dev seen
  alloc := Allocators.start p c.hostvma allocSzMem bitmapMem

/-- Memory as a client has it at the addresses of an allocation. -/
def memory (c : Config) (kva : UL) (m : Buffered T) (y : Allocation) : Memory := fun a =>
  m.whole.host ((y.hostBase c).toNat + (a - (y.base c kva).toNat))

/-- The field of the request is in the allocation, which is live. -/
def Backs (m : Buffered T) (q : KgpuRequest) (f : ReqField) (y : Allocation) : Prop :=
  y.Holds (f.range q) ∧ m.alloc.Live y

/-- A request in flight has a field in the allocation. -/
def InUse (m : Buffered T) (y : Allocation) : Prop :=
  ∃ item ∈ m.whole.sys.calls.pending, ∃ f : ReqField,
    y.Holds (f.range (m.whole.sys.calls.kernel.req item.r))

/-- What a client has to see to. A request that it puts on the queue has an id of its own,
    and each of its two fields is empty or in an allocation that is live and not in use by
    a request in flight. It does not write to a request in flight, nor to an allocation
    that is in use, and does not give one back. -/
def Disciplined (c : Config) (kva : UL) (m : Buffered T) : BufferedStep T → Prop
  | .whole (.sys (.client (.edit r _))) => r ∉ m.whole.sys.calls.pending.map (·.r)
  | .whole (.sys (.client (.append t))) => ∀ r, (m.whole.sys.calls.pc t).req = some r →
      (∀ f : ReqField, (f.range (m.whole.sys.calls.kernel.req r)).2 = 0 ∨
        ∃ y, y.Holds (f.range (m.whole.sys.calls.kernel.req r)) ∧ m.alloc.Live y ∧ ¬ m.InUse y) ∧
      ∀ item ∈ m.whole.sys.calls.pending,
        (m.whole.sys.calls.kernel.req r).id ≠ (m.whole.sys.calls.kernel.req item.r).id
  | .whole (.hostWrite x _) => ∀ y, m.alloc.Live y → m.InUse y → ¬ y.OnHost c kva x
  | .whole _ => True
  | .alloc op => m.alloc.Sized op ∧ ∀ y, op.freed = some y → ¬ m.InUse y

end Buffered

/-! ## What the clients keep -/

namespace Calls

variable [DecidableEq T] {s s' : Calls T}

/-- Only an edit changes the fields of a request. -/
theorem step_range {l : CallStep T} (hs : s.step l = some s') {r : ReqPtr}
    (hedit : ∀ q, l ≠ .edit r q) (f : ReqField) :
    f.range (s'.kernel.req r) = f.range (s.kernel.req r) := by
  obtain ⟨_, _, _, hreq⟩ := step_req hs hedit
  rw [hreq]
  cases f <;> rfl

/-- Only what is appended comes into flight. -/
theorem pending_of_step {l : CallStep T} (hs : s.step l = some s') {item : RequestItem}
    (hi : item ∈ s'.pending) :
    item ∈ s.pending ∨
      item.addr = s.nextItem ∧ ∃ t, l = .append t ∧ (s.pc t).req = some item.r := by
  by_cases hkind : l.kind = .device
  · refine .inl ?_
    cases step_case hs with
    | asyncEntered | syncEntered | gotData | noData | asyncGotItem | asyncNoItem | syncGotItem
    | syncNoItem | swapped | asyncAppended | syncAppended | woken | signalled | finished
    | edited => cases hkind
    | tooShort | unknown | stopped => exact hi
    | taken hdev hreqs =>
      simp only [Calls.pending, hdev, hreqs, DevPc.held, List.nil_append] at hi ⊢
      exact List.perm_middle.mem_iff.mp hi
    | retired hdev =>
      simp only [Calls.pending, hdev, DevPc.held, Kernel.readRetire, List.nil_append] at hi ⊢
      split at hi
      · exact (List.perm_append_comm.append_left _).mem_iff.mp hi
      · grind
    | found hdev _ hmem _ =>
      simp only [Calls.pending, hdev, DevPc.held, List.nil_append] at hi ⊢
      exact ((List.perm_cons_erase hmem).append_left _).mem_iff.mpr hi
    | completed hdev =>
      simp only [Calls.pending, hdev, DevPc.held, List.nil_append] at hi ⊢
      exact (List.sublist_append_right [_] _ |>.append_left _).subset hi
  · obtain ⟨-, -, hsame | ⟨t, r, rfl, hr, hp⟩⟩ := step_client_pending hkind hs
    · exact .inl (hsame ▸ hi)
    · rcases List.mem_cons.mp (hp.mem_iff.mp hi) with rfl | hold
      · exact .inr ⟨rfl, t, rfl, hr⟩
      · exact .inl hold

end Calls

namespace Whole

variable [DecidableEq T] {c : Config} {k : Kernels} {s s' : Whole T} {l : WholeStep T}

theorem step_gmpool (hs : s.step c k l = some s') :
    s'.sys.calls.kernel.gmpool = s.sys.calls.kernel.gmpool := by
  rcases step_calls hs with heq | ⟨lc, hk, -⟩
  · rw [heq]
  · exact Calls.step_gmpool hk

theorem step_range (hs : s.step c k l = some s') {r : ReqPtr}
    (hedit : ∀ q, l ≠ .sys (.client (.edit r q))) (f : ReqField) :
    f.range (s'.sys.calls.kernel.req r) = f.range (s.sys.calls.kernel.req r) := by
  rcases step_calls hs with heq | ⟨lc, hk, hclient⟩
  · rw [heq]
  · refine Calls.step_range hk (fun q heq => ?_) f
    subst heq
    exact hedit q (hclient (by simp [CallStep.kind]))

theorem pending_of_step (hs : s.step c k l = some s') {item : RequestItem}
    (hi : item ∈ s'.sys.calls.pending) :
    item ∈ s.sys.calls.pending ∨ item.addr = s.sys.calls.nextItem ∧
      ∃ t, l = .sys (.client (.append t)) ∧ (s.sys.calls.pc t).req = some item.r := by
  rcases step_calls hs with heq | ⟨lc, hk, hclient⟩
  · rw [heq] at hi
    exact .inl hi
  · rcases Calls.pending_of_step hk hi with hold | ⟨haddr, t, rfl, hr⟩
    · exact .inl hold
    · exact .inr ⟨haddr, t, hclient (by simp [CallStep.kind]), hr⟩

end Whole

/-! ## Allocations and host bytes -/

namespace Allocators

variable {c : Config} {kva : UL} {s : Allocators} {y y' : Allocation} {n : Nat}

/-- A pool with the addresses of the allocators'. -/
structure SameAddresses (p : Mempool) (s : Allocators) : Prop where
  uva : p.uva = s.clients.pool.uva
  kva : p.kva = s.clients.pool.kva
  npages : p.npages = s.clients.pool.npages

theorem SameAddresses.toUser {p : Mempool} (h : SameAddresses p s) (a : UL) :
    p.toUser a = s.clients.pool.toUser a := by
  unfold Mempool.toUser Mempool.byteSize
  rw [h.uva, h.kva, h.npages]

/-- An allocation is live until it is given back. -/
theorem live_step {K : ZeroAreaSearch} {s' : Allocators} {op : AllocatorOp}
    (hs : s.step K op = some s') (hy : s.Live y) (hkeep : op.freed ≠ some y) : s'.Live y := by
  cases op with
  | pool op =>
    obtain ⟨clients, hclients, rfl⟩ := Option.map_eq_some_iff.mp hs
    cases y with
    | area b => exact hy
    | buffer b =>
      change b ∈ clients.live
      cases op with
      | vmalloc nbytes =>
        cases hclients
        simp only
        split
        next => exact hy
        next => exact List.mem_cons_of_mem _ hy
      | vfree b' =>
        simp only [Clients.step] at hclients
        split at hclients <;> cases hclients
        refine (List.mem_erase_of_ne fun heq => hkeep ?_).mpr hy
        rw [heq]
        rfl
  | area op =>
    obtain ⟨areas, hareas, rfl⟩ := Option.map_eq_some_iff.mp hs
    cases y with
    | buffer b => exact hy
    | area b =>
      change b ∈ areas.live
      cases op with
      | alloc size =>
        cases hareas
        simp only
        split
        next => exact hy
        next => exact List.mem_cons_of_mem _ hy
      | free b' =>
        simp only [AreaClients.step] at hareas
        split at hareas <;> cases hareas
        refine (List.mem_erase_of_ne fun heq => hkeep ?_).mpr hy
        rw [heq]
        rfl

end Allocators

/-! ## Runs -/

namespace Buffered

variable {c : Config} {k : Kernels} {kva : UL} {m m' : Buffered T}

/-- What every run keeps: the fields of the requests in flight are in live allocations. -/
structure Sound (c : Config) (kva : UL) (m : Buffered T) : Prop where
  kept : Allocators.Kept c kva m.alloc
  same : Allocators.SameAddresses m.whole.sys.calls.kernel.gmpool m.alloc
  held : ∀ item ∈ m.whole.sys.calls.pending, ∀ f : ReqField,
    (f.range (m.whole.sys.calls.kernel.req item.r)).2 = 0 ∨
      ∃ y, y.Holds (f.range (m.whole.sys.calls.kernel.req item.r)) ∧ m.alloc.Live y

namespace Sound

/-- At the place that a field names, the helper has what the client has. -/
theorem host_eq (h : m.Sound c kva) (hl : Layout c kva) {q : KgpuRequest} {f : ReqField}
    {y : Allocation} (hy : m.Backs q f y) {i : Nat} (hi : i < (f.range q).2.toNat)
    (m' : Buffered T) :
    m'.whole.host ((m.whole.sys.calls.kernel.gmpool.toUser (f.range q).1).toNat + i) =
      m'.memory c kva y ((f.range q).1.toNat + i) := by
  obtain ⟨⟨-, hlo, hhi⟩, hlive⟩ := hy
  obtain ⟨hbase, hend⟩ := h.kept.within hl hlive
  unfold Extent.lo at hlo
  unfold Extent.hi at hhi
  have huser := h.kept.toUser hl (x := y) (a := (f.range q).1) (hbase.trans hlo) (by omega)
  rw [h.same.toUser, huser, memory]
  congr 1
  omega

theorem bytes_eq (h : m.Sound c kva) (hl : Layout c kva) {q : KgpuRequest} {f : ReqField}
    {y : Allocation} (hy : (f.range q).2 = 0 ∨ m.Backs q f y) :
    m.whole.host.bytes (m.whole.sys.calls.kernel.gmpool.toUser (f.range q).1).toNat
        (f.range q).2.toNat =
      (m.memory c kva y).bytes (f.range q).1.toNat (f.range q).2.toNat := by
  refine List.map_congr_left fun i hi => ?_
  rcases hy with hzero | hback
  · rw [hzero] at hi
    exact absurd hi List.not_mem_nil
  · exact h.host_eq hl hback (List.mem_range.mp hi) m

/-- The result of a request for the memory that its client has. -/
theorem runAlone_served (h : m.Sound c kva) (hl : Layout c kva) {r : ReqPtr}
    (hin : c.Contained (c.ofKuRequest (m.whole.sys.calls.asked r))) {p : ServicePtr}
    (hp : c.khLookupService (m.whole.sys.calls.kernel.req r).serviceName = some p) {y : Allocation}
    (hy : (m.whole.sys.calls.kernel.req r).insize = 0 ∨
      m.Backs (m.whole.sys.calls.kernel.req r) .inp y)
    {i : Nat} (hi : i < (m.whole.sys.calls.kernel.req r).outsize.toNat) {dev₀ : Memory} :
    runAlone c k (m.whole.sys.calls.asked r) m.whole.host dev₀
        ((m.whole.sys.calls.asked r).out.toNat + i) =
      k p (m.whole.sys.calls.kernel.req r).outsize
        ((m.memory c kva y).bytes (m.whole.sys.calls.kernel.req r).inp.toNat
          (m.whole.sys.calls.kernel.req r).insize.toNat) i := by
  have hout : (c.ofKuRequest (m.whole.sys.calls.asked r)).Out
      ((m.whole.sys.calls.asked r).out.toNat + i) :=
    ⟨Nat.le_add_right _ _, Nat.add_lt_add_left hi _⟩
  rw [Kgpu.runAlone_served hl.regions hin hp hout]
  unfold resultByte
  exact congr (congrArg (k p _) (h.bytes_eq hl (f := .inp) hy)) (Nat.add_sub_cancel_left _ _)

end Sound

section

variable [DecidableEq T]

/-- The fields of a request in flight stay. -/
theorem range_of_whole {l : WholeStep T} {w : Whole T} (hok : m.Disciplined c kva (.whole l))
    (hs : m.whole.step c k l = some w) {item : RequestItem}
    (hi : item ∈ m.whole.sys.calls.pending) (f : ReqField) :
    f.range (w.sys.calls.kernel.req item.r) =
      f.range (m.whole.sys.calls.kernel.req item.r) := by
  refine Whole.step_range hs (fun q heq => ?_) f
  subst heq
  exact hok (List.mem_map.mpr ⟨item, hi, rfl⟩)

/-- A step of the whole keeps what the requests in flight ask for, and brings in what keeps
    to the rules. -/
theorem Sound.whole (h : m.Sound c kva) {l : WholeStep T} {w : Whole T}
    (hok : m.Disciplined c kva (.whole l)) (hs : m.whole.step c k l = some w) :
    Sound c kva { m with whole := w } := by
  refine ⟨h.kept, ?_, fun item hi f => ?_⟩
  · change Allocators.SameAddresses w.sys.calls.kernel.gmpool m.alloc
    rw [Whole.step_gmpool hs]
    exact h.same
  · change (f.range (w.sys.calls.kernel.req item.r)).2 = 0 ∨
      ∃ y, y.Holds (f.range (w.sys.calls.kernel.req item.r)) ∧ m.alloc.Live y
    rcases Whole.pending_of_step hs hi with hold | ⟨-, t, rfl, hr⟩
    · rw [range_of_whole hok hs hold]
      exact h.held item hold f
    · rw [Whole.step_range hs (by simp) f]
      exact ((hok item.r hr).1 f).imp_right fun ⟨y, hy, hlive, _⟩ => ⟨y, hy, hlive⟩

end

theorem Sound.alloc (h : m.Sound c kva) {K : ZeroAreaSearch} {op : AllocatorOp} {a : Allocators}
    (hok : m.Disciplined c kva (.alloc op)) (hs : m.alloc.step K op = some a) :
    Sound c kva { m with alloc := a } := by
  obtain ⟨hsized, hfreed⟩ := hok
  have hkept := h.kept.step hsized hs
  refine ⟨hkept, ⟨?_, ?_, ?_⟩, fun item hi f => (h.held item hi f).imp_right ?_⟩
  · exact h.same.uva.trans (h.kept.uva.trans hkept.uva.symm)
  · exact h.same.kva.trans (h.kept.kva.trans hkept.kva.symm)
  · exact h.same.npages.trans (h.kept.npages.trans hkept.npages.symm)
  · rintro ⟨y, hy, hlive⟩
    exact ⟨y, hy, Allocators.live_step hs hlive fun hgone => hfreed y hgone ⟨item, hi, f, hy⟩⟩

variable [DecidableEq T]

theorem Sound.step (h : m.Sound c kva) {K : ZeroAreaSearch} {l : BufferedStep T}
    (hok : m.Disciplined c kva l) (hs : m.step K c k l = some m') : m'.Sound c kva := by
  cases l with
  | whole l =>
    obtain ⟨w, hw, rfl⟩ := Option.map_eq_some_iff.mp hs
    exact h.whole hok hw
  | alloc op =>
    obtain ⟨a, ha, rfl⟩ := Option.map_eq_some_iff.mp hs
    exact h.alloc hok ha

/-- The pool and the area are set up, and no client has done anything. -/
def atStart : Buffered Unit :=
  init .small (Setups.boot.pool.setGpuMempool .plenty Config.small.hostbuf).2.toMempool default
    (fun _ => ⟨.client 0, .client 0, false⟩) Gpu.lowBytes Gpu.lowBytes
    (fun _ => (Gpu.inPlace, Gpu.lowBytes)) (fun _ => 7) fun _ => true

/-- A request on the second buffer. -/
def onSecond : KgpuRequest :=
  { KgpuRequest.constructed 8 with
    inp := 0x200000, out := 0x200008, insize := 8, outsize := 8
    serviceName := Vector.replicate 32 65 }

/-- A client allocates a buffer and calls `kgpu_call_async`, up to its section under `reqlock`. -/
def calling (r : ReqPtr) (q : KgpuRequest) : List (BufferedStep Unit) :=
  .alloc (.pool (.vmalloc 16)) :: (Whole.submitting r q).dropLast.map .whole

def oneReady : Buffered Unit :=
  (exec (step .firstFit .small Gpu.addOne) (calling 0 Whole.onPool) atStart).get rfl

def oneSubmitted : Buffered Unit :=
  (step .firstFit .small Gpu.addOne oneReady (.whole (.sys (.client (.append ()))))).get rfl

def oneHeld : Buffered Unit :=
  (exec (step .firstFit .small Gpu.addOne) (Whole.settingUp.map .whole) oneSubmitted).get rfl

/-- The second client fills its buffer before it calls. -/
def secondReady : Buffered Unit :=
  (exec (step .firstFit .small Gpu.addOne)
    (calling 1 onSecond ++ [.whole (.hostWrite 0x1100003 9)]) oneHeld).get rfl

def bothSubmitted : Buffered Unit :=
  (step .firstFit .small Gpu.addOne secondReady (.whole (.sys (.client (.append ()))))).get rfl

def oneAnswered : Buffered Unit :=
  (exec (step .firstFit .small Gpu.addOne) (Whole.working.map .whole) bothSubmitted).get rfl

end Buffered
end Kgpu
