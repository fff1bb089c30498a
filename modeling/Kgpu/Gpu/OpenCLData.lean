-- SUMMARY: The runtime data of the OpenCL backend through `gpu_alloc_pinned_mem`, `gpu_init` and `gpu_finit`.
import Kgpu.Library.Run
import Mathlib.Logic.Function.Basic

/-!
# Runtime data of the OpenCL backend

The backend keeps its context and its devices in a block that the global
`openCLData` points to, and a flag `initialized` beside it. Both are set up by
whichever of `gpu_alloc_pinned_mem` and `gpu_init` is called first. The memory
is modelled by allocations that are never given out twice, so that an address
stands for one allocation. Freeing what is not allocated, and access through
`NULL` or to freed memory, have no result.
-/

namespace Kgpu

open Library

/-- Name of an allocation. -/
abbrev Addr := Nat

/-- A `cl_context`. -/
abbrev ClContext := Nat

/-- `openCLRuntimeData`. A field of a block that was allocated and not written to
    yet is `none`. -/
structure OpenCLRuntimeData where
  context : Option ClContext
  devices : Option (Option Addr)

/-- What an `initializeOpenCL` that succeeded has set up. -/
structure SetUpData where
  data : Addr
  context : ClContext
  devices : Addr
  deriving DecidableEq

/-- The fields as they were when a call used them, and what the last successful
    `initializeOpenCL` had set up then. -/
structure FieldUse where
  data : Addr
  fields : OpenCLRuntimeData
  last : Option SetUpData

/-- The globals of the backend and the heap, with a record of the run: what the last
    successful `initializeOpenCL` set up, the uses of the fields, and whether
    `openCLData` has ever pointed to something that is not allocated. -/
structure OpenCL where
  openCLData : Option Addr
  initialized : Bool
  live : Addr → Bool
  next : Addr
  block : Addr → OpenCLRuntimeData
  last : Option SetUpData
  uses : List FieldUse
  dangled : Bool

/-- The outcomes of the calls that `initializeOpenCL` makes: statuses of the OpenCL
    calls, whether each `malloc` succeeds, and the context that is returned. -/
structure InitOutcome where
  data : Bool
  platformCount : Int
  platforms : Bool
  platformIds : Int
  deviceCount : Int
  devices : Bool
  deviceIds : Int
  contextStatus : Int
  context : ClContext

inductive GpuCall where
  | gpuAllocPinnedMem (o : InitOutcome)
  /-- With the statuses of the two calls of `clCreateBuffer`. -/
  | gpuInit (o : InitOutcome) (buffer bufferForVMA : Int)
  /-- With the statuses of the two calls of `clReleaseMemObject`. -/
  | gpuFinit (buffer bufferForVMA : Int)

def clSuccess : Int := 0
def noSpaceOnHost : Int := -999

/-- Every call of `initializeOpenCL` succeeds. -/
def InitOutcome.Succeeds (o : InitOutcome) : Prop :=
  o.data = true ∧ o.platformCount = clSuccess ∧ o.platforms = true ∧ o.platformIds = clSuccess ∧
  o.deviceCount = clSuccess ∧ o.devices = true ∧ o.deviceIds = clSuccess ∧
  o.contextStatus = clSuccess

instance (o : InitOutcome) : Decidable o.Succeeds := inferInstanceAs (Decidable (_ ∧ _))

/-- Both fields were set by the last successful `initializeOpenCL`. -/
def FieldUse.Right (u : FieldUse) : Prop :=
  ∃ d, u.last = some d ∧ u.data = d.data ∧ u.fields.context = some d.context ∧
    u.fields.devices = some (some d.devices)

namespace OpenCL

/-! ## Memory -/

def isLive (s : OpenCL) : Option Addr → Bool
  | none => true
  | some a => s.live a

/-- Take down whether `openCLData` points to something that is not allocated. -/
def watch (s : OpenCL) : OpenCL := { s with dangled := s.dangled || !s.isLive s.openCLData }

def malloc (s : OpenCL) (ok : Bool) : Option Addr × OpenCL :=
  if ok then (some s.next, { s with live := Function.update s.live s.next true, next := s.next + 1 })
  else (none, s)

def free (s : OpenCL) : Option Addr → Option OpenCL
  | none => some s
  | some a =>
    if s.live a then some (watch { s with live := Function.update s.live a false }) else none

/-- `openCLData = p`. A new block has no field set. -/
def setData (s : OpenCL) (p : Option Addr) : OpenCL :=
  watch { s with
    openCLData := p
    block := match p with
      | none => s.block
      | some a => Function.update s.block a ⟨none, none⟩ }

/-- The block that `openCLData` points to, for an access to its fields. -/
def deref (s : OpenCL) : Option Addr :=
  match s.openCLData with
  | none => none
  | some p => if s.live p then some p else none

/-- An assignment to a field of `openCLData`. -/
def store (s : OpenCL) (f : OpenCLRuntimeData → OpenCLRuntimeData) : Option OpenCL :=
  s.deref.map fun p => { s with block := Function.update s.block p (f (s.block p)) }

/-- A call gets `openCLData->context`. -/
def useContext (s : OpenCL) : Option OpenCL :=
  s.deref.map fun p => { s with uses := s.uses ++ [⟨p, s.block p, s.last⟩] }

/-- A call gets `openCLData->context` and `openCLData->devices[0]`. -/
def useDevice (s : OpenCL) : Option OpenCL :=
  match s.useContext, s.deref.map fun p => (s.block p).devices with
  | some s', some (some (some d)) => if s.live d then some s' else none
  | _, _ => none

/-! ## Setting up -/

/-- `initializePlatform`: the status, and the array if it was allocated. -/
def initializePlatform (s : OpenCL) (o : InitOutcome) : Int × Option Addr × OpenCL :=
  if o.platformCount ≠ clSuccess then (o.platformCount, none, s)
  else
    match s.malloc o.platforms with
    | (none, s) => (noSpaceOnHost, none, s)
    | (some platforms, s) => (o.platformIds, some platforms, s)

/-- `initializeDevice`. -/
def initializeDevice (s : OpenCL) (o : InitOutcome) : Option (Int × OpenCL) :=
  if o.deviceCount ≠ clSuccess then some (o.deviceCount, s)
  else
    match s.malloc o.devices with
    | (devices, s) =>
      (s.store ({ · with devices := some devices })).map fun s =>
        (if devices.isNone then noSpaceOnHost else o.deviceIds, s)

/-- `initializeContext`. -/
def initializeContext (s : OpenCL) (o : InitOutcome) : Option (Int × OpenCL) :=
  (s.store ({ · with context := some o.context })).map fun s => (o.contextStatus, s)

/-- `free(openCLData->devices)`. -/
def freeDevices (s : OpenCL) : Option OpenCL :=
  match s.deref.bind fun p => (s.block p).devices with
  | none => none
  | some devices => s.free devices

/-- The label `firstLevelOfClean`. -/
def firstLevelOfClean (s : OpenCL) (status : Int) : Option (Int × OpenCL) :=
  (s.free s.openCLData).map fun s => (status, s)

def secondLevelOfClean (s : OpenCL) (platforms : Option Addr) (status : Int) :
    Option (Int × OpenCL) :=
  (s.free platforms).bind fun s => s.firstLevelOfClean status

def thirdLevelOfClean (s : OpenCL) (platforms : Option Addr) (status : Int) :
    Option (Int × OpenCL) :=
  s.freeDevices.bind fun s => s.secondLevelOfClean platforms status

/-- The successful end of `initializeOpenCL`, taken down. -/
def finishSetUp (s : OpenCL) : OpenCL :=
  { s with
    last := match s.openCLData with
      | none => none
      | some p =>
        match (s.block p).context, (s.block p).devices with
        | some c, some (some d) => some ⟨p, c, d⟩
        | _, _ => none }

/-- `initializeOpenCL` from the first `malloc` on. -/
def initializeFresh (s : OpenCL) (o : InitOutcome) : Option (Int × OpenCL) :=
  match s.malloc o.data with
  | (none, s) => some (noSpaceOnHost, s.setData none)
  | (some p, s) =>
    match (s.setData (some p)).initializePlatform o with
    | (status, platforms, s) =>
      if status ≠ clSuccess then s.firstLevelOfClean status
      else
        (s.initializeDevice o).bind fun (status, s) =>
          if status ≠ clSuccess then s.secondLevelOfClean platforms status
          else
            (s.initializeContext o).bind fun (status, s) =>
              if status ≠ clSuccess then s.thirdLevelOfClean platforms status
              else some (status, s.finishSetUp)

/-- `initializeOpenCL`. -/
def initializeOpenCL (s : OpenCL) (o : InitOutcome) : Option (Int × OpenCL) :=
  (s.free s.openCLData).bind fun s => s.initializeFresh o

/-! ## The entry points -/

def maxStreamNr : Nat := 8

/-- The loop of `gpu_init` over the command queues. -/
def createQueues : Nat → OpenCL → Option OpenCL
  | 0, s => some s
  | n + 1, s => s.useDevice.bind (createQueues n)

/-- `gpu_init` after the set-up. -/
def createBuffers (s : OpenCL) (buffer bufferForVMA : Int) : Option OpenCL :=
  s.useContext.bind fun s =>
    if buffer ≠ clSuccess then some s
    else
      s.useContext.bind fun s =>
        if bufferForVMA ≠ clSuccess then some s
        else createQueues maxStreamNr s

/-- The set-up that both entry points begin with: when it is needed and fails, the
    call returns, and else it goes on. -/
def setUpThen (s : OpenCL) (needed : Bool) (o : InitOutcome) (rest : OpenCL → Option OpenCL) :
    Option OpenCL :=
  if needed then
    (s.initializeOpenCL o).bind fun (status, s) =>
      if status ≠ clSuccess then some s else rest { s with initialized := true }
  else rest s

def gpuInit (s : OpenCL) (o : InitOutcome) (buffer bufferForVMA : Int) : Option OpenCL :=
  s.setUpThen (!s.initialized) o fun s => s.createBuffers buffer bufferForVMA

/-- `gpu_alloc_pinned_mem` up to the creation of the buffer. What follows does not
    touch the runtime data. -/
def gpuAllocPinnedMem (s : OpenCL) (o : InitOutcome) : Option OpenCL :=
  s.setUpThen (s.openCLData.isNone && !s.initialized) o useContext

def gpuFinit (s : OpenCL) (buffer bufferForVMA : Int) : Option OpenCL :=
  if buffer ≠ clSuccess then some s
  else if bufferForVMA ≠ clSuccess then some s
  else s.free s.openCLData

def step (s : OpenCL) : GpuCall → Option OpenCL
  | .gpuAllocPinnedMem o => s.gpuAllocPinnedMem o
  | .gpuInit o buffer bufferForVMA => s.gpuInit o buffer bufferForVMA
  | .gpuFinit buffer bufferForVMA => s.gpuFinit buffer bufferForVMA

/-- The state at the start of the program. -/
def init : OpenCL where
  openCLData := none
  initialized := false
  live := fun _ => false
  next := 0
  block := fun _ => ⟨none, none⟩
  last := none
  uses := []
  dangled := false

/-! ## The life cycle -/

/-- `openCLData` is live and is what the last successful `initializeOpenCL` set up. -/
structure Ready (s : OpenCL) (d : SetUpData) : Prop where
  data : s.openCLData = some d.data
  live : s.live d.data = true
  context : (s.block d.data).context = some d.context
  devices : (s.block d.data).devices = some (some d.devices)
  devices_live : s.live d.devices = true
  last : s.last = some d

/-- `openCLData` is `NULL` or live now and has always been so, every use so far was of
    fields set by the last successful `initializeOpenCL`, and the flag tells whether
    the runtime data is set up. -/
structure Good (s : OpenCL) : Prop where
  pointer : s.isLive s.openCLData = true
  always : s.dangled = false
  uses : ∀ u ∈ s.uses, u.Right
  flag : s.initialized = true ↔ ∃ d, s.Ready d

/-- A sequence of calls goes well when no call frees or accesses memory that is not
    allocated, and the state is good before, between and after the calls. -/
def GoesWell (cs : List GpuCall) : Prop :=
  ∀ pre, pre <+: cs → ∃ s, exec step pre init = some s ∧ s.Good

/-- The call does not run into the clean-up of `initializeOpenCL`, and does not free
    the runtime data. -/
def Careful (s : OpenCL) : GpuCall → Prop
  | .gpuAllocPinnedMem o =>
    s.openCLData = none → s.initialized = false → o.data = false ∨ o.Succeeds
  | .gpuInit o _ _ => s.initialized = false → o.data = false ∨ o.Succeeds
  | .gpuFinit buffer bufferForVMA =>
    buffer ≠ clSuccess ∨ bufferForVMA ≠ clSuccess ∨ s.openCLData = none

variable {s s' : OpenCL} {o : InitOutcome}

/-! ## A failed set-up -/

/-- `openCLData` points to freed memory. -/
def Abandoned (s : OpenCL) : Prop := ∃ p, s.openCLData = some p ∧ s.live p = false

theorem Abandoned.not_good (h : s.Abandoned) : ¬ s.Good := by
  obtain ⟨p, hp, hdead⟩ := h
  intro hgood
  have hlive := hgood.pointer
  rw [hp, isLive, hdead] at hlive
  cases hlive

theorem free_data {a : Option Addr} (h : s.free a = some s') : s'.openCLData = s.openCLData := by
  cases a with
  | none =>
    cases h
    rfl
  | some a =>
    simp only [free] at h
    split at h <;> cases h
    rfl

/-- What is freed is what `openCLData` still points to. -/
theorem free_abandons {p : Addr} (hp : s.openCLData = some p)
    (h : s.free s.openCLData = some s') : s'.Abandoned := by
  rw [hp] at h
  simp only [free] at h
  split at h <;> cases h
  exact ⟨p, hp, Function.update_self ..⟩

section Clean

variable {p : Addr} {status : Int} {r : Int × OpenCL} {platforms : Option Addr}

theorem firstLevelOfClean_abandons (hp : s.openCLData = some p)
    (h : s.firstLevelOfClean status = some r) : r.1 = status ∧ r.2.Abandoned := by
  obtain ⟨s', hfree, rfl⟩ := Option.map_eq_some_iff.mp h
  exact ⟨rfl, free_abandons hp hfree⟩

theorem secondLevelOfClean_abandons (hp : s.openCLData = some p)
    (h : s.secondLevelOfClean platforms status = some r) : r.1 = status ∧ r.2.Abandoned := by
  obtain ⟨s', hfree, h⟩ := Option.bind_eq_some_iff.mp h
  exact firstLevelOfClean_abandons ((free_data hfree).trans hp) h

theorem thirdLevelOfClean_abandons (hp : s.openCLData = some p)
    (h : s.thirdLevelOfClean platforms status = some r) : r.1 = status ∧ r.2.Abandoned := by
  obtain ⟨s', hfree, h⟩ := Option.bind_eq_some_iff.mp h
  have hdata : s'.openCLData = s.openCLData := by
    unfold freeDevices at hfree
    split at hfree
    · cases hfree
    · exact free_data hfree
  exact secondLevelOfClean_abandons (hdata.trans hp) h

end Clean

@[simp] theorem malloc_data (ok : Bool) : (s.malloc ok).2.openCLData = s.openCLData := by
  cases ok <;> rfl

@[simp] theorem setData_data (p : Option Addr) : (s.setData p).openCLData = p := rfl

theorem store_data {f : OpenCLRuntimeData → OpenCLRuntimeData} (h : s.store f = some s') :
    s'.openCLData = s.openCLData := by
  obtain ⟨p, -, rfl⟩ := Option.map_eq_some_iff.mp h
  rfl

theorem initializePlatform_data : (s.initializePlatform o).2.2.openCLData = s.openCLData := by
  unfold initializePlatform
  split
  · rfl
  · cases hp : o.platforms <;> rfl

theorem initializeDevice_data {r : Int × OpenCL} (h : s.initializeDevice o = some r) :
    r.2.openCLData = s.openCLData := by
  unfold initializeDevice at h
  split at h
  · cases h
    rfl
  · obtain ⟨s', hstore, rfl⟩ := Option.map_eq_some_iff.mp h
    exact (store_data hstore).trans (malloc_data _)

theorem initializeContext_data {r : Int × OpenCL} (h : s.initializeContext o = some r) :
    r.2.openCLData = s.openCLData := by
  obtain ⟨s', hstore, rfl⟩ := Option.map_eq_some_iff.mp h
  exact store_data hstore

theorem initializePlatform_succeeds (h : (s.initializePlatform o).1 = clSuccess) :
    o.platformCount = clSuccess ∧ o.platforms = true ∧ o.platformIds = clSuccess := by
  unfold initializePlatform at h
  split at h
  next hcount => exact absurd h hcount
  next hcount =>
    cases hp : o.platforms with
    | false =>
      rw [hp] at h
      cases h
    | true =>
      rw [hp] at h
      exact ⟨not_not.mp hcount, rfl, h⟩

theorem initializeDevice_succeeds (h : s.initializeDevice o = some (clSuccess, s')) :
    o.deviceCount = clSuccess ∧ o.devices = true ∧ o.deviceIds = clSuccess := by
  unfold initializeDevice at h
  split at h
  next hcount => exact absurd (congrArg Prod.fst (Option.some.inj h)) hcount
  next hcount =>
    obtain ⟨s₁, -, heq⟩ := Option.map_eq_some_iff.mp h
    cases hd : o.devices with
    | false =>
      rw [hd] at heq
      cases heq
    | true =>
      rw [hd] at heq
      exact ⟨not_not.mp hcount, rfl, congrArg Prod.fst heq⟩

theorem initializeContext_succeeds (h : s.initializeContext o = some (clSuccess, s')) :
    o.contextStatus = clSuccess := by
  obtain ⟨s₁, -, heq⟩ := Option.map_eq_some_iff.mp h
  exact congrArg Prod.fst heq

/-- An `initializeOpenCL` that gets its block and fails later leaves `openCLData` at
    the freed block. -/
theorem initializeFresh_abandons {r : Int × OpenCL} (hdata : o.data = true) (hfail : ¬ o.Succeeds)
    (h : s.initializeFresh o = some r) : r.1 ≠ clSuccess ∧ r.2.Abandoned := by
  have hclean {status : Int} (hne : status ≠ clSuccess) (hr : r.1 = status ∧ r.2.Abandoned) :
      r.1 ≠ clSuccess ∧ r.2.Abandoned := ⟨hr.1 ▸ hne, hr.2⟩
  simp only [initializeFresh, malloc, hdata, if_true] at h
  generalize hs₁ : OpenCL.setData _ _ = s₁ at h
  have hp₁ : s₁.openCLData = some s.next := by rw [← hs₁]; rfl
  have hp₂ : (s₁.initializePlatform o).2.2.openCLData = some s.next :=
    initializePlatform_data.trans hp₁
  split at h
  next hst => exact hclean hst (firstLevelOfClean_abandons hp₂ h)
  next hst₁ =>
    obtain ⟨⟨status, s₃⟩, hdev, h⟩ := Option.bind_eq_some_iff.mp h
    have hp₃ : s₃.openCLData = some s.next := (initializeDevice_data hdev).trans hp₂
    split at h
    next hst => exact hclean hst (secondLevelOfClean_abandons hp₃ h)
    next hst₂ =>
      obtain ⟨⟨status', s₄⟩, hctx, h⟩ := Option.bind_eq_some_iff.mp h
      have hp₄ : s₄.openCLData = some s.next := (initializeContext_data hctx).trans hp₃
      split at h
      next hst => exact hclean hst (thirdLevelOfClean_abandons hp₄ h)
      next hst₃ =>
        obtain rfl := not_not.mp hst₂
        obtain rfl := not_not.mp hst₃
        obtain ⟨hcount, hplat, hids⟩ := initializePlatform_succeeds (not_not.mp hst₁)
        obtain ⟨hdcount, hdevs, hdids⟩ := initializeDevice_succeeds hdev
        exact absurd ⟨hdata, hcount, hplat, hids, hdcount, hdevs, hdids,
          initializeContext_succeeds hctx⟩ hfail

/-! ## A set-up that succeeds -/

/-- The state after a set-up that succeeds: the block, the platforms and the devices are
    three new allocations. -/
def setUp (s : OpenCL) (context : ClContext) : OpenCL :=
  { s with
    openCLData := some s.next
    live := Function.update (Function.update (Function.update s.live s.next true)
      (s.next + 1) true) (s.next + 1 + 1) true
    next := s.next + 1 + 1 + 1
    block := Function.update s.block s.next ⟨some context, some (some (s.next + 1 + 1))⟩
    last := some ⟨s.next, context, s.next + 1 + 1⟩ }

theorem initializeFresh_succeeds (ho : o.Succeeds) :
    s.initializeFresh o = some (clSuccess, s.setUp o.context) := by
  obtain ⟨hdata, hcount, hplat, hids, hdcount, hdevs, hdids, hctx⟩ := ho
  have hlive : Function.update (Function.update (Function.update s.live s.next true)
      (s.next + 1) true) (s.next + 1 + 1) true s.next = true := by
    simp [Function.update_apply]
  simp [initializeFresh, malloc, hdata, setData, watch, isLive, initializePlatform, hcount, hplat,
    hids, initializeDevice, hdcount, hdevs, hdids, store, deref, initializeContext, hctx,
    finishSetUp, setUp, hlive]

theorem setUp_ready (context : ClContext) :
    (s.setUp context).Ready ⟨s.next, context, s.next + 1 + 1⟩ where
  data := rfl
  live := by simp [setUp, Function.update_apply]
  context := by simp [setUp]
  devices := by simp [setUp]
  devices_live := by simp [setUp]
  last := rfl

/-! ## The two states between calls -/

/-- There is no runtime data yet. -/
structure Unset (s : OpenCL) : Prop where
  data : s.openCLData = none
  flag : s.initialized = false
  always : s.dangled = false
  uses : ∀ u ∈ s.uses, u.Right

/-- The runtime data is set up. -/
structure Working (s : OpenCL) : Prop where
  ready : ∃ d, s.Ready d
  flag : s.initialized = true
  always : s.dangled = false
  uses : ∀ u ∈ s.uses, u.Right

theorem Unset.good (h : s.Unset) : s.Good where
  pointer := by rw [h.data]; rfl
  always := h.always
  uses := h.uses
  flag := by
    rw [h.flag]
    constructor
    · intro hflag
      cases hflag
    · rintro ⟨d, hd⟩
      exact absurd (h.data.symm.trans hd.data) (by simp)

namespace Working

theorem good (h : s.Working) : s.Good where
  pointer := by
    obtain ⟨d, hd⟩ := h.ready
    rw [hd.data]
    exact hd.live
  always := h.always
  uses := h.uses
  flag := ⟨fun _ => h.ready, fun _ => h.flag⟩

theorem useContext (h : s.Working) : ∃ s', s.useContext = some s' ∧ s'.Working := by
  obtain ⟨d, hd⟩ := h.ready
  have hderef : s.deref = some d.data := by simp [deref, hd.data, hd.live]
  refine ⟨_, congrArg (Option.map _) hderef, ?_⟩
  refine ⟨⟨d, hd.data, hd.live, hd.context, hd.devices, hd.devices_live, hd.last⟩, h.flag, h.always,
    ?_⟩
  intro u hu
  rcases List.mem_append.mp hu with hold | hnew
  · exact h.uses u hold
  · rw [List.mem_singleton.mp hnew]
    exact ⟨d, hd.last, rfl, hd.context, hd.devices⟩

theorem useDevice (h : s.Working) : ∃ s', s.useDevice = some s' ∧ s'.Working := by
  obtain ⟨s', hs', hwork⟩ := h.useContext
  obtain ⟨d, hd⟩ := h.ready
  refine ⟨s', ?_, hwork⟩
  simp [OpenCL.useDevice, hs', deref, hd.data, hd.live, hd.devices, hd.devices_live]

theorem createQueues (n : Nat) (h : s.Working) :
    ∃ s', OpenCL.createQueues n s = some s' ∧ s'.Working := by
  induction n generalizing s with
  | zero => exact ⟨s, rfl, h⟩
  | succ n ih =>
    obtain ⟨s₁, hs₁, h₁⟩ := h.useDevice
    obtain ⟨s₂, hs₂, h₂⟩ := ih h₁
    exact ⟨s₂, by simp [OpenCL.createQueues, hs₁, hs₂], h₂⟩

theorem createBuffers (h : s.Working) (buffer bufferForVMA : Int) :
    ∃ s', s.createBuffers buffer bufferForVMA = some s' ∧ s'.Working := by
  obtain ⟨s₁, hs₁, h₁⟩ := h.useContext
  obtain ⟨s₂, hs₂, h₂⟩ := h₁.useContext
  obtain ⟨s₃, hs₃, h₃⟩ := h₂.createQueues maxStreamNr
  simp only [OpenCL.createBuffers, hs₁, Option.bind_some]
  split
  · exact ⟨s₁, rfl, h₁⟩
  · simp only [hs₂, Option.bind_some]
    split
    · exact ⟨s₂, rfl, h₂⟩
    · exact ⟨s₃, hs₃, h₃⟩

end Working

theorem Unset.setUp_working (h : s.Unset) (context : ClContext) :
    Working { s.setUp context with initialized := true } := by
  have hd := setUp_ready (s := s) context
  exact ⟨⟨_, hd.data, hd.live, hd.context, hd.devices, hd.devices_live, hd.last⟩, rfl, h.always,
    h.uses⟩

/-! ## The entry points between calls -/

theorem Unset.initializeOpenCL (h : s.Unset) : s.initializeOpenCL o = s.initializeFresh o := by
  simp [OpenCL.initializeOpenCL, h.data, free]

/-- A set-up that fails at its first `malloc` or succeeds leaves one of the two states. -/
theorem Unset.setUpThen (h : s.Unset) {rest : OpenCL → Option OpenCL}
    (hrest : ∀ s, Working s → ∃ s', rest s = some s' ∧ s'.Working)
    (ho : o.data = false ∨ o.Succeeds) :
    ∃ s', s.setUpThen true o rest = some s' ∧ (s'.Unset ∨ s'.Working) := by
  simp only [OpenCL.setUpThen, if_true, h.initializeOpenCL]
  rcases ho with hdata | hok
  · refine ⟨s.setData none, ?_, .inl ⟨rfl, h.flag, ?_, h.uses⟩⟩
    · simp [initializeFresh, malloc, hdata, noSpaceOnHost, clSuccess]
    · simp [setData, watch, isLive, h.always]
  · obtain ⟨s', hs', hwork⟩ := hrest _ (h.setUp_working o.context)
    refine ⟨s', ?_, .inr hwork⟩
    simp [initializeFresh_succeeds hok, hs']

/-- Any other set-up leaves `openCLData` at freed memory. -/
theorem Unset.setUpThen_abandons (h : s.Unset) {rest : OpenCL → Option OpenCL}
    (hdata : o.data = true) (hfail : ¬ o.Succeeds) (hs : s.setUpThen true o rest = some s') :
    s'.Abandoned := by
  simp only [OpenCL.setUpThen, if_true, h.initializeOpenCL] at hs
  obtain ⟨r, hr, hs⟩ := Option.bind_eq_some_iff.mp hs
  obtain ⟨hne, hab⟩ := initializeFresh_abandons hdata hfail hr
  rw [if_pos hne] at hs
  cases hs
  exact hab

/-- A careful call leads from one of the two states to one of them. -/
theorem careful_step {c : GpuCall} (h : s.Unset ∨ s.Working) (hc : s.Careful c) :
    ∃ s', s.step c = some s' ∧ (s'.Unset ∨ s'.Working) := by
  cases c with
  | gpuAllocPinnedMem o =>
    rcases h with h | h
    · simp only [step, gpuAllocPinnedMem, h.data, h.flag]
      exact h.setUpThen (fun s hs => hs.useContext) (hc h.data h.flag)
    · obtain ⟨s', hs', hwork⟩ := h.useContext
      refine ⟨s', ?_, .inr hwork⟩
      simp [step, gpuAllocPinnedMem, OpenCL.setUpThen, h.flag, hs']
  | gpuInit o buffer bufferForVMA =>
    rcases h with h | h
    · simp only [step, gpuInit, h.flag]
      exact h.setUpThen (fun s hs => hs.createBuffers buffer bufferForVMA) (hc h.flag)
    · obtain ⟨s', hs', hwork⟩ := h.createBuffers buffer bufferForVMA
      refine ⟨s', ?_, .inr hwork⟩
      simp [step, gpuInit, OpenCL.setUpThen, h.flag, hs']
  | gpuFinit buffer bufferForVMA =>
    refine ⟨s, ?_, h⟩
    rcases hc with hb | hv | hnull
    · simp [step, gpuFinit, hb]
    · simp [step, gpuFinit, hv]
    · simp [step, gpuFinit, hnull, free]

/-- A call that is not careful leaves `openCLData` at freed memory. -/
theorem careless_step {c : GpuCall} (h : s.Unset ∨ s.Working) (hc : ¬ s.Careful c)
    (hs : s.step c = some s') : s'.Abandoned := by
  have hunset (hflag : s.initialized = false) : s.Unset := by
    rcases h with h | h
    · exact h
    · exact absurd (h.flag.symm.trans hflag) (by decide)
  cases c with
  | gpuAllocPinnedMem o =>
    simp only [Careful, not_forall, not_or] at hc
    obtain ⟨hnull, hflag, hdata, hfail⟩ := hc
    simp only [step, gpuAllocPinnedMem, hnull, hflag] at hs
    exact (hunset hflag).setUpThen_abandons (by simpa using hdata) hfail hs
  | gpuInit o buffer bufferForVMA =>
    simp only [Careful, not_forall, not_or] at hc
    obtain ⟨hflag, hdata, hfail⟩ := hc
    simp only [step, gpuInit, hflag] at hs
    exact (hunset hflag).setUpThen_abandons (by simpa using hdata) hfail hs
  | gpuFinit buffer bufferForVMA =>
    simp only [Careful, not_or] at hc
    obtain ⟨hb, hv, hsome⟩ := hc
    obtain ⟨p, hp⟩ := Option.ne_none_iff_exists'.mp hsome
    simp only [step, gpuFinit, if_neg hb, if_neg hv] at hs
    exact free_abandons hp hs

/-- The calls go well exactly as far as they are careful, from either of the two states. -/
theorem goesWell_from (cs : List GpuCall) (h : s.Unset ∨ s.Working) :
    (∀ pre, pre <+: cs → ∃ s', exec step pre s = some s' ∧ s'.Good) ↔ Along step Careful cs s := by
  have hgood : s.Good := h.elim Unset.good Working.good
  induction cs generalizing s with
  | nil =>
    refine ⟨fun _ => trivial, fun _ pre hpre => ⟨s, ?_, hgood⟩⟩
    rw [List.prefix_nil.mp hpre]
    rfl
  | cons c cs ih =>
    constructor
    · intro hwell
      obtain ⟨s', hs', hgood'⟩ := hwell [c] (List.prefix_append [c] cs)
      have hstep : s.step c = some s' := by simpa [exec] using hs'
      have hc : s.Careful c := by
        by_contra hc
        exact (careless_step h hc hstep).not_good hgood'
      refine ⟨hc, ?_⟩
      rw [hstep]
      obtain ⟨s₁, hs₁, h₁⟩ := careful_step h hc
      obtain rfl : s' = s₁ := Option.some.inj (hstep.symm.trans hs₁)
      refine (ih h₁ hgood').mp fun pre hpre => ?_
      obtain ⟨s'', hs'', hgood''⟩ := hwell (c :: pre) ((List.prefix_cons_inj c).mpr hpre)
      exact ⟨s'', by simpa [exec, hstep] using hs'', hgood''⟩
    · rintro ⟨hc, hrest⟩ pre hpre
      obtain ⟨s₁, hs₁, h₁⟩ := careful_step h hc
      rw [hs₁] at hrest
      cases pre with
      | nil => exact ⟨s, rfl, hgood⟩
      | cons c' pre =>
        obtain ⟨rfl, htail⟩ := List.cons_prefix_cons.mp hpre
        have hgood₁ : s₁.Good := h₁.elim Unset.good Working.good
        obtain ⟨s'', hs'', hgood''⟩ := (ih h₁ hgood₁).mpr hrest pre htail
        exact ⟨s'', by simpa [exec, hs₁] using hs'', hgood''⟩

/-- For every sequence of calls and every outcome of the calls they make: `openCLData`
    is `NULL` or live at all times, nothing is freed twice or used when it is not set
    up, and the flag tells whether it is, exactly when every call is careful. -/
theorem runtime_data_life_cycle (cs : List GpuCall) : GoesWell cs ↔ Along step Careful cs init :=
  goesWell_from cs (.inl ⟨rfl, rfl, rfl, by simp [init]⟩)

/-- After a set-up and a shutdown `openCLData` points to freed memory with the flag
    still set: another shutdown frees it again, and another `gpu_init` uses it. After a
    set-up in which `clGetPlatformIDs` fails, the next one frees the block again. -/
theorem not_runtime_data_life_cycle :
    let ok : InitOutcome := ⟨true, 0, true, 0, 0, true, 0, 0, 7⟩
    let noPlatform : InitOutcome := { ok with platformCount := -32 }
    (∃ s, exec step [.gpuInit ok 0 0, .gpuFinit 0 0] init = some s ∧ s.Abandoned ∧
        s.initialized = true ∧ s.dangled = true) ∧
      ¬ GoesWell [.gpuInit ok 0 0, .gpuFinit 0 0] ∧
      exec step [.gpuInit ok 0 0, .gpuFinit 0 0, .gpuFinit 0 0] init = none ∧
      exec step [.gpuInit ok 0 0, .gpuFinit 0 0, .gpuInit ok 0 0] init = none ∧
      exec step [.gpuAllocPinnedMem noPlatform, .gpuInit ok 0 0] init = none := by
  intro ok noPlatform
  have habandoned : ∃ s, exec step [.gpuInit ok 0 0, .gpuFinit 0 0] init = some s ∧ s.Abandoned ∧
      s.initialized = true ∧ s.dangled = true := ⟨_, rfl, ⟨0, rfl, rfl⟩, rfl, rfl⟩
  refine ⟨habandoned, fun hwell => ?_, rfl, rfl, rfl⟩
  obtain ⟨s, hs, hab, -, -⟩ := habandoned
  obtain ⟨s', hs', hgood⟩ := hwell _ (List.prefix_refl _)
  obtain rfl := Option.some.inj (hs.symm.trans hs')
  exact hab.not_good hgood

end OpenCL
end Kgpu
