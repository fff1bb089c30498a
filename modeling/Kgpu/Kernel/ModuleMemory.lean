-- SUMMARY: What loading and unloading the module takes and gives back, and what every history of it leaks.
import Kgpu.Kernel.Setup
import Kgpu.Library.Slots

/-!
# The memory of the module

`kgpu_init` creates three caches, a class, a device region, a character device and its
entry. The ioctl `KGPU_IOC_SET_GPU_BUFS` and `mmap` allocate the records of the pool and
of the area. `kgpu_cleanup` gives back what the statics of the module name. Whether each
allocation succeeds is decided outside. A module whose `kgpu_init` fails is not loaded,
its statics are gone and `kgpu_cleanup` is not run.
-/

namespace Kgpu

open Library

/-- What the module has from the kernel, after the static that names it. -/
inductive Resource where
  | requestCache
  | requestItemCache
  | syncCallDataCache
  | cls
  | chrdevRegion
  | cdev
  | device
  | pages
  | bitmap
  | allocSz
  | kva
  | vmAllocSz
  | vmBitmap
  deriving DecidableEq

instance : Fintype Resource where
  elems :=
    { .requestCache, .requestItemCache, .syncCallDataCache, .cls, .chrdevRegion, .cdev, .device,
      .pages, .bitmap, .allocSz, .kva, .vmAllocSz, .vmBitmap }
  complete r := by cases r <;> decide

abbrev Statics := Slots Resource

/-- What `kgpu_init` meets: whether each `kmem_cache_create` succeeds, and the error number
    of each of the other calls, 0 for success. -/
structure InitEnv where
  requestCache : Bool
  requestItemCache : Bool
  syncCallDataCache : Bool
  classCreate : Nat
  allocChrdevRegion : Nat
  cdevAdd : Nat
  deviceCreate : Nat

/-- A `kgpu_init` for which everything succeeds. -/
def InitEnv.works : InitEnv := ⟨true, true, true, 0, 0, 0, 0⟩

namespace Statics

/-! ## The functions -/

/-- `kgpu_init`: the returned value and the statics after. The caches of a load that fails
    are empty, so `kmem_cache_destroy` frees them. -/
def kgpuInit (e : InitEnv) (s : Statics) : Option (Int × Statics) :=
  let s := s.clear [.vmAllocSz, .vmBitmap]
  if e.requestCache = false then some (Kernel.eFAULT, s)
  else
    let s := s.acquire .requestCache
    if e.requestItemCache = false then do
      let s ← s.release .requestCache
      some (Kernel.eFAULT, s)
    else
      let s := s.acquire .requestItemCache
      if e.syncCallDataCache = false then do
        let s ← s.release .requestCache
        let s ← s.release .requestItemCache
        some (Kernel.eFAULT, s)
      else
        let s := s.acquire .syncCallDataCache
        let s := s.clear [.pages, .bitmap, .allocSz, .kva]
        -- Nothing is undone from here on.
        if e.classCreate ≠ 0 then some (-e.classCreate, s)
        else
          let s := s.acquire .cls
          if e.allocChrdevRegion ≠ 0 then some (-e.allocChrdevRegion, s)
          else
            let s := s.acquire .chrdevRegion
            let s := if e.cdevAdd = 0 then s.acquire .cdev else s
            if e.deviceCreate = 0 then some (-e.cdevAdd, s.acquire .device)
            else some (-e.deviceCreate, s)

/-- An array of the pool, allocated unless an earlier call has done it. -/
def kmallocOnce (r : Resource) (ok : Bool) (s : Statics) : Option Statics :=
  match s.slot r with
  | some _ => some s
  | none => if ok then some (s.acquire r) else none

/-- `set_gpu_mempool`: the returned value and the statics after. -/
def setGpuMempool (e : SetupEnv) (s : Statics) : Int × Statics :=
  match s.kmallocOnce .pages e.pagesMem.isSome with
  | none => (Kernel.eNOMEM, s)
  | some s =>
    match s.kmallocOnce .bitmap e.bitmapMem.isSome with
    | none => (Kernel.eNOMEM, s)
    | some s =>
      match s.kmallocOnce .allocSz e.allocSzMem.isSome with
      | none => (Kernel.eNOMEM, s)
      | some s =>
        -- `kva` is assigned whether or not it names an earlier mapping.
        if e.vmap = 0 then (Kernel.eFAULT, s.clear [.kva]) else (0, s.acquire .kva)

/-- `set_vm`. When one `kmalloc` fails, both pointers are `NULL` and the `bitmap_zero` that
    follows writes there, so there is no state after it. -/
def setVm (allocSz bitmap : Bool) (s : Statics) : Option Statics :=
  if allocSz && bitmap then some ((s.acquire .vmAllocSz).acquire .vmBitmap) else none

/-- `kgpu_mmap`: the returned value and the statics after. -/
def kgpuMmap (vmStart vmEnd : UL) (allocSz bitmap : Bool) (s : Statics) : Option (Int × Statics) :=
  if vmEnd - vmStart ≠ mmapSize then some (Kernel.eINVAL, s)
  else (s.setVm allocSz bitmap).map ((0 : Int), ·)

/-- What the kernel destroys only when it was registered. -/
def unregister (s : Statics) (r : Resource) : Option Statics :=
  if (s.slot r).isSome then s.release r else none

/-- `kmem_cache_destroy`, which leaves a cache that has objects in use. -/
def kmemCacheDestroy (inUse : Resource → Bool) (s : Statics) (r : Resource) : Option Statics :=
  if inUse r then some s else s.release r

/-- `kfree` and `vunmap`. -/
def kfree (s : Statics) (r : Resource) : Option Statics := s.release r

def clearGpuMempool (s : Statics) : Option Statics := [.pages, .bitmap, .allocSz, .kva].foldlM kfree s

def cleanVm (s : Statics) : Option Statics := [.vmAllocSz, .vmBitmap].foldlM kfree s

def caches : List Resource := [.requestCache, .requestItemCache, .syncCallDataCache]

def registrations : List Resource := [.device, .cdev, .cls, .chrdevRegion]

/-- `kgpu_cleanup`, with the caches that have objects in use. There is no state after it
    when it gives something back twice. -/
def kgpuCleanup (inUse : Resource → Bool) (s : Statics) : Option Statics := do
  let s ← registrations.foldlM unregister s
  let s ← caches.foldlM (kmemCacheDestroy inUse) s
  let s ← clearGpuMempool s
  cleanVm s

end Statics

/-- The module and what it has from the kernel. -/
structure ModuleMemory where
  loaded : Bool
  statics : Statics

inductive ModuleStep where
  /-- `mod_init`. -/
  | load (e : InitEnv)
  /-- The ioctl `KGPU_IOC_SET_GPU_BUFS`. -/
  | setGpuBufs (e : SetupEnv)
  | mmap (vmStart vmEnd : UL) (allocSz bitmap : Bool)
  /-- `mod_exit`, with the caches that have objects in use. -/
  | unload (inUse : Resource → Bool)

namespace ModuleMemory

def boot : ModuleMemory := ⟨false, .empty⟩

def step (m : ModuleMemory) : ModuleStep → Option ModuleMemory
  | .load e =>
    if m.loaded then none
    else (m.statics.kgpuInit e).map fun (ret, s) =>
      if ret = 0 then ⟨true, s⟩ else ⟨false, s.forget⟩
  | .setGpuBufs e =>
    if m.loaded then some { m with statics := (m.statics.setGpuMempool e).2 } else none
  | .mmap vmStart vmEnd allocSz bitmap =>
    if m.loaded then
      (m.statics.kgpuMmap vmStart vmEnd allocSz bitmap).map fun (_, s) => { m with statics := s }
    else none
  | .unload inUse =>
    if m.loaded then (m.statics.kgpuCleanup inUse).map fun s => ⟨false, s.forget⟩ else none

/-- What a step leaves without a name: after a failed `kgpu_init` all that it had taken but
    for the caches it destroys, with a new mapping or new records the ones they replace, and
    after `kgpu_cleanup` the caches that were in use. -/
def lost (m : ModuleMemory) : ModuleStep → Nat
  | .load e =>
    if (e.requestCache && e.requestItemCache && e.syncCallDataCache) = false then 0
    else if e.classCreate ≠ 0 then 3
    else if e.allocChrdevRegion ≠ 0 then 4
    else if e.cdevAdd = 0 ∧ e.deviceCreate = 0 then 0
    else if e.cdevAdd = 0 ∨ e.deviceCreate = 0 then 6 else 5
  | .setGpuBufs e =>
    if ((m.statics.slot .pages).isSome || e.pagesMem.isSome) &&
        ((m.statics.slot .bitmap).isSome || e.bitmapMem.isSome) &&
        ((m.statics.slot .allocSz).isSome || e.allocSzMem.isSome) then
      (m.statics.slot .kva).toList.length
    else 0
  | .mmap vmStart vmEnd _ _ =>
    if vmEnd - vmStart = mmapSize then
      (m.statics.slot .vmAllocSz).toList.length + (m.statics.slot .vmBitmap).toList.length
    else 0
  | .unload inUse => Statics.caches.countP inUse

end ModuleMemory

namespace Statics

variable {s s' : Statics} {n : Nat} {r : Resource}

/-! ## What one function does to the account -/

theorem kmallocOnce_account {ok : Bool} (h : s.Account n) (hs : s.kmallocOnce r ok = some s') :
    s'.Account n := by
  unfold kmallocOnce at hs
  split at hs
  · cases hs
    exact h
  · split at hs
    · cases hs
      exact h.acquire_new ‹_›
    · cases hs

theorem kmallocOnce_slot {ok : Bool} (hs : s.kmallocOnce r ok = some s') {r' : Resource}
    (hne : r' ≠ r) : s'.slot r' = s.slot r' := by
  unfold kmallocOnce at hs
  split at hs
  · cases hs
    rfl
  · split at hs
    · cases hs
      exact Slots.acquire_of_ne s hne
    · cases hs

theorem kmallocOnce_isSome {ok : Bool} :
    (s.kmallocOnce r ok).isSome = ((s.slot r).isSome || ok) := by
  unfold kmallocOnce
  cases s.slot r with
  | some a => rfl
  | none => cases ok <;> rfl

theorem kmallocOnce_none {ok : Bool} (hs : s.kmallocOnce r ok = none) :
    ((s.slot r).isSome || ok) = false := by
  rw [← kmallocOnce_isSome, hs]
  rfl

theorem kmallocOnce_some {ok : Bool} (hs : s.kmallocOnce r ok = some s') :
    ((s.slot r).isSome || ok) = true := by
  rw [← kmallocOnce_isSome, hs]
  rfl

theorem setGpuMempool_account (h : s.Account n) (e : SetupEnv) :
    (s.setGpuMempool e).2.Account (n + ModuleMemory.lost ⟨true, s⟩ (.setGpuBufs e)) := by
  unfold setGpuMempool ModuleMemory.lost
  cases hp : s.kmallocOnce .pages e.pagesMem.isSome with
  | none => simpa [kmallocOnce_none hp] using h
  | some s₁ =>
    have h₁ := kmallocOnce_account h hp
    cases hb : s₁.kmallocOnce .bitmap e.bitmapMem.isSome with
    | none =>
      have hfail := kmallocOnce_none hb
      rw [kmallocOnce_slot hp (by decide)] at hfail
      simpa [hb, hfail] using h₁
    | some s₂ =>
      have h₂ := kmallocOnce_account h₁ hb
      cases ha : s₂.kmallocOnce .allocSz e.allocSzMem.isSome with
      | none =>
        have hfail := kmallocOnce_none ha
        rw [kmallocOnce_slot hb (by decide), kmallocOnce_slot hp (by decide)] at hfail
        simpa [hb, ha, hfail] using h₂
      | some s₃ =>
        have h₃ := kmallocOnce_account h₂ ha
        have hp' := kmallocOnce_some hp
        have hb' := kmallocOnce_some hb
        have ha' := kmallocOnce_some ha
        rw [kmallocOnce_slot hp (by decide)] at hb'
        rw [kmallocOnce_slot hb (by decide), kmallocOnce_slot hp (by decide)] at ha'
        have hkva : s₃.slot .kva = s.slot .kva := by
          rw [kmallocOnce_slot ha (by decide), kmallocOnce_slot hb (by decide),
            kmallocOnce_slot hp (by decide)]
        simp only [hb, ha, hp', hb', ha', Bool.and_self, if_true, ← hkva]
        split
        · exact h₃.clear .kva
        · exact h₃.acquire .kva

theorem setVm_account (h : s.Account n) {allocSz bitmap : Bool}
    (hs : s.setVm allocSz bitmap = some s') :
    s'.Account (n + ((s.slot .vmAllocSz).toList.length + (s.slot .vmBitmap).toList.length)) := by
  unfold setVm at hs
  split at hs
  · cases hs
    have hboth := (h.acquire .vmAllocSz).acquire .vmBitmap
    rwa [Slots.acquire_of_ne s (by decide), Nat.add_assoc] at hboth
  · cases hs

theorem setGpuMempool_slot {e : SetupEnv} (hr : r ∉ [Resource.pages, .bitmap, .allocSz, .kva]) :
    (s.setGpuMempool e).2.slot r = s.slot r := by
  have hne : r ≠ .pages ∧ r ≠ .bitmap ∧ r ≠ .allocSz ∧ r ≠ .kva := by simpa using hr
  obtain ⟨hpages, hbitmap, hallocSz, hkva⟩ := hne
  unfold setGpuMempool
  split
  · rfl
  · rename_i s₁ h₁
    have hslot₁ := kmallocOnce_slot h₁ hpages
    split
    · exact hslot₁
    · rename_i s₂ h₂
      have hslot₂ := (kmallocOnce_slot h₂ hbitmap).trans hslot₁
      split
      · exact hslot₂
      · rename_i s₃ h₃
        have hslot₃ := (kmallocOnce_slot h₃ hallocSz).trans hslot₂
        split
        · simpa [Slots.clear, hkva] using hslot₃
        · exact (Slots.acquire_of_ne s₃ hkva).trans hslot₃

theorem setVm_slot {allocSz bitmap : Bool} (hs : s.setVm allocSz bitmap = some s')
    (hr : r ∉ [Resource.vmAllocSz, .vmBitmap]) : s'.slot r = s.slot r := by
  have hne : r ≠ .vmAllocSz ∧ r ≠ .vmBitmap := by simpa using hr
  unfold setVm at hs
  split at hs
  · cases hs
    rw [Slots.acquire_of_ne _ hne.2, Slots.acquire_of_ne _ hne.1]
  · cases hs

/-! ## Loading -/

/-- What a module that is loaded has whatever happens to its pool and its area. -/
def Registered (s : Statics) : Prop := ∀ r ∈ caches ++ registrations, (s.slot r).isSome = true

/-- What `kgpu_init` has taken when it returns, if it does not fail at a cache. -/
def taken (e : InitEnv) : List Resource :=
  caches ++
    if e.classCreate ≠ 0 then []
    else .cls ::
      if e.allocChrdevRegion ≠ 0 then []
      else .chrdevRegion :: ((if e.cdevAdd = 0 then [.cdev] else []) ++
        if e.deviceCreate = 0 then [.device] else [])

/-- Everything that can fail after the caches succeeds. -/
def Works (e : InitEnv) : Prop :=
  e.classCreate = 0 ∧ e.allocChrdevRegion = 0 ∧ e.cdevAdd = 0 ∧ e.deviceCreate = 0

theorem kgpuInit_eq {e : InitEnv} (hnone : ∀ r, s.slot r = none)
    (hc : (e.requestCache && e.requestItemCache && e.syncCallDataCache) = true) :
    ∃ ret, s.kgpuInit e = some (ret, s.acquireAll (taken e)) ∧ (ret = 0 ↔ Works e) := by
  simp only [Bool.and_eq_true] at hc
  obtain ⟨⟨h₁, h₂⟩, h₃⟩ := hc
  have hvm : Slots.clear [.vmAllocSz, .vmBitmap] s = s := Slots.clear_of_none fun r _ => hnone r
  have hpool : Slots.clear [.pages, .bitmap, .allocSz, .kva] (s.acquireAll caches) =
      s.acquireAll caches := by
    refine Slots.clear_of_none fun r hr => ?_
    have hmem : r ∉ caches := by
      revert hr
      cases r <;> decide
    rw [Slots.acquireAll_of_notMem hmem, hnone r]
  simp only [Slots.acquireAll, caches, List.foldl_cons, List.foldl_nil] at hpool
  by_cases hcls : e.classCreate = 0
  · by_cases hreg : e.allocChrdevRegion = 0
    · by_cases hadd : e.cdevAdd = 0 <;> by_cases hdev : e.deviceCreate = 0 <;>
        simp [kgpuInit, hvm, h₁, h₂, h₃, hpool, hcls, hreg, hadd, hdev, taken, Works, caches,
          Slots.acquireAll]
    · simp [kgpuInit, hvm, h₁, h₂, h₃, hpool, hcls, hreg, taken, Works, caches, Slots.acquireAll]
  · simp [kgpuInit, hvm, h₁, h₂, h₃, hpool, hcls, taken, Works, caches, Slots.acquireAll]

theorem taken_nodup (e : InitEnv) : (taken e).Nodup := by
  unfold taken caches
  split_ifs <;> decide

/-- A load that fails at a cache undoes what it has done. -/
theorem kgpuInit_undone {e : InitEnv} (h : s.Account n) (hnone : ∀ r, s.slot r = none)
    (hc : (e.requestCache && e.requestItemCache && e.syncCallDataCache) = false) :
    ∃ s', s.kgpuInit e = some (Kernel.eFAULT, s') ∧ s'.forget.Account n := by
  have hvm : Slots.clear [.vmAllocSz, .vmBitmap] s = s := Slots.clear_of_none fun r _ => hnone r
  cases h₁ : e.requestCache with
  | false =>
    obtain ⟨s', hs', hacc⟩ := h.acquireAll_releaseAll hnone [] .nil
    cases hs'
    exact ⟨s, by simp [kgpuInit, hvm, h₁], hacc⟩
  | true =>
    cases h₂ : e.requestItemCache with
    | false =>
      obtain ⟨s', hs', hacc⟩ := h.acquireAll_releaseAll hnone [.requestCache] (by decide)
      refine ⟨s', ?_, hacc⟩
      have hrel : (s.acquire .requestCache).release .requestCache = some s' := by
        simpa [Slots.acquireAll, Slots.releaseAll] using hs'
      simp [kgpuInit, hvm, h₁, h₂, hrel]
    | true =>
      obtain ⟨s', hs', hacc⟩ := h.acquireAll_releaseAll hnone
        [.requestCache, .requestItemCache] (by decide)
      refine ⟨s', ?_, hacc⟩
      have h₃ : e.syncCallDataCache = false := by simpa [h₁, h₂] using hc
      have hrel : (((s.acquire .requestCache).acquire .requestItemCache).release
          .requestCache).bind (fun s => s.release .requestItemCache) = some s' := by
        simpa [Slots.acquireAll, Slots.releaseAll] using hs'
      obtain ⟨s₁, hs₁, hs'⟩ := Option.bind_eq_some_iff.mp hrel
      simp [kgpuInit, hvm, h₁, h₂, h₃, hs₁, hs']

theorem taken_length {e : InitEnv} (hc : (e.requestCache && e.requestItemCache &&
    e.syncCallDataCache) = true) (hfail : ¬ Works e) :
    (taken e).length = ModuleMemory.lost ⟨false, s⟩ (.load e) := by
  simp only [taken, caches, ModuleMemory.lost, hc, Bool.true_eq_false, if_false]
  by_cases hcls : e.classCreate = 0
  · by_cases hreg : e.allocChrdevRegion = 0
    · by_cases hadd : e.cdevAdd = 0 <;> by_cases hdev : e.deviceCreate = 0 <;>
        simp [hcls, hreg, hadd, hdev]
      exact hfail ⟨hcls, hreg, hadd, hdev⟩
    · simp [hcls, hreg]
  · simp [hcls]

/-- What `kgpu_init` does from a state in which the statics name nothing. -/
theorem kgpuInit_account (h : s.Account n) (hnone : ∀ r, s.slot r = none) (e : InitEnv) :
    ∃ ret s', s.kgpuInit e = some (ret, s') ∧
      (ret = 0 → s'.Registered ∧ s'.Account (n + ModuleMemory.lost ⟨false, s⟩ (.load e))) ∧
      (ret ≠ 0 → s'.forget.Account (n + ModuleMemory.lost ⟨false, s⟩ (.load e))) := by
  cases hc : e.requestCache && e.requestItemCache && e.syncCallDataCache with
  | false =>
    obtain ⟨s', hs', hacc⟩ := kgpuInit_undone h hnone hc
    refine ⟨_, s', hs', fun hret => absurd hret (by decide), fun _ => ?_⟩
    simpa [ModuleMemory.lost, hc] using hacc
  | true =>
    obtain ⟨ret, hs', hret⟩ := kgpuInit_eq hnone hc
    obtain ⟨hacc, hheld⟩ := h.acquireAll (taken_nodup e) fun r _ => hnone r
    refine ⟨ret, _, hs', fun hzero => ?_, fun hne => ?_⟩
    · obtain ⟨hcls, hreg, hadd, hdev⟩ := hret.mp hzero
      have hlost : ModuleMemory.lost ⟨false, s⟩ (.load e) = 0 := by
        simp [ModuleMemory.lost, hcls, hreg, hadd, hdev]
      refine ⟨fun r hr => Slots.acquireAll_isSome (.inl ?_), by rwa [hlost]⟩
      have htaken : taken e = caches ++ [.cls, .chrdevRegion, .cdev, .device] := by
        simp [taken, hcls, hreg, hadd, hdev]
      rw [htaken]
      revert hr
      cases r <;> decide
    · have hzero : s.held = 0 := by
        have hslot : s.slot = fun _ => none := funext hnone
        rw [Slots.held, hslot, Slots.heldIn_none]
      have hforget := hacc.forget
      rw [hheld, hzero, Nat.zero_add, taken_length (s := s) hc fun hw => hne (hret.mpr hw)] at hforget
      exact hforget

/-! ## Unloading -/

/-- `kgpu_cleanup` from first to last. -/
def cleanupOrder : List Resource :=
  registrations ++ caches ++ [.pages, .bitmap, .allocSz, .kva, .vmAllocSz, .vmBitmap]

/-- The caches that `kmem_cache_destroy` leaves. -/
def left (inUse : Resource → Bool) (r : Resource) : Bool := decide (r ∈ caches) && inUse r

theorem foldlM_unregister (rs : List Resource) (h : ∀ r ∈ rs, (s.slot r).isSome = true) :
    rs.foldlM unregister s = rs.foldlM (fun s r => s.release r) s := by
  induction rs generalizing s with
  | nil => rfl
  | cons r rs ih =>
    have hone : unregister s r = s.release r := if_pos (h r List.mem_cons_self)
    rw [List.foldlM_cons, List.foldlM_cons, hone]
    refine Option.bind_congr fun s' hs' => ih fun r' hr' => ?_
    rw [Slots.release_slot hs']
    exact h r' (List.mem_cons_of_mem r hr')

theorem kgpuCleanup_eq (hreg : s.Registered) (inUse : Resource → Bool) :
    s.kgpuCleanup inUse = s.releaseAll (left inUse) cleanupOrder := by
  have hfirst := foldlM_unregister registrations fun r hr =>
    hreg r (List.mem_append_right _ hr)
  rw [kgpuCleanup, hfirst]
  simp [Slots.releaseAll, cleanupOrder, left, registrations, caches, kmemCacheDestroy,
    clearGpuMempool, cleanVm, kfree, Option.bind_assoc]

theorem heldIn_eq (slot : Resource → Option Nat) (hcaches : ∀ r, r ∉ caches → slot r = none) :
    Slots.heldIn slot = (caches.map fun r => (slot r).toList.length).sum := by
  have hsub : ∀ r ∈ (Finset.univ : Finset Resource), r ∉ caches.toFinset →
      (slot r).toList.length = 0 := by
    intro r _ hr
    rw [hcaches r fun hmem => hr (List.mem_toFinset.mpr hmem)]
    rfl
  have hsum := Finset.sum_subset (Finset.subset_univ caches.toFinset) hsub
  rw [Slots.heldIn, ← hsum]
  exact List.sum_toFinset _ (by decide)

/-- `kgpu_cleanup` of a loaded module gives nothing back twice, and leaves the caches that are
    in use. -/
theorem kgpuCleanup_account (h : s.Account n) (hreg : s.Registered) (inUse : Resource → Bool) :
    ∃ s', s.kgpuCleanup inUse = some s' ∧ s'.forget.Account (n + caches.countP inUse) := by
  obtain ⟨s', hs', hacc⟩ := h.releaseAll_forget (left inUse) cleanupOrder (by decide)
  rw [← kgpuCleanup_eq hreg] at hs'
  refine ⟨s', hs', ?_⟩
  have hall : ∀ r, r ∈ cleanupOrder := by
    intro r
    cases r <;> decide
  have hheld : Slots.heldIn (fun r => if r ∈ cleanupOrder ∧ left inUse r = false then none
      else s.slot r) = caches.countP inUse := by
    rw [heldIn_eq _ fun r hr => by simp [hall r, left, hr]]
    have hone : ∀ r ∈ caches, ((if r ∈ cleanupOrder ∧ left inUse r = false then none
        else s.slot r).toList.length) = if inUse r then 1 else 0 := by
      intro r hr
      obtain ⟨a, ha⟩ := Option.isSome_iff_exists.mp (hreg r (List.mem_append_left _ hr))
      cases hu : inUse r <;> simp [hall r, left, hr, hu, ha]
    rw [List.map_congr_left hone]
    simp [caches, List.countP_cons, Nat.add_comm]
  rwa [hheld] at hacc

/-! ## Against the pool -/

/-- The statics name the records and the mapping that the pool has. -/
structure Agrees (s : Statics) (g : GmPool) : Prop where
  pages : (s.slot .pages).isSome = g.pagesCap.isSome
  bitmap : (s.slot .bitmap).isSome = g.bitmapCap.isSome
  allocSz : (s.slot .allocSz).isSome = g.allocSzCap.isSome
  kva : (s.slot .kva).isSome = decide (g.kva ≠ 0)

/-- Both fail, or both go on. -/
def BothAgree (s : Option Statics) (g : Option GmPool) : Prop :=
  (s = none ∧ g = none) ∨ ∃ s' g', s = some s' ∧ g = some g' ∧ s'.Agrees g'

theorem kmallocOnce_agrees {α : Type} {g : GmPool} {g' : Option GmPool} (h : s.Agrees g)
    {cap : Option Nat} (hcap : (s.slot r).isSome = cap.isSome) {mem : Option α}
    (hold : ∀ c, cap = some c → g' = some g) (hfail : cap = none → mem = none → g' = none)
    (hnew : cap = none → ∀ a, mem = some a → ∃ g'', g' = some g'' ∧ Agrees (s.acquire r) g'') :
    BothAgree (s.kmallocOnce r mem.isSome) g' := by
  unfold kmallocOnce
  cases hs : s.slot r with
  | none =>
    have hnone : cap = none := by simpa [hs] using hcap
    cases hmem : mem with
    | none => exact .inl ⟨rfl, hfail hnone hmem⟩
    | some a =>
      obtain ⟨g'', hg, hagrees⟩ := hnew hnone a hmem
      exact .inr ⟨_, g'', rfl, hg, hagrees⟩
  | some a =>
    rw [hs] at hcap
    obtain ⟨c, hc⟩ := Option.isSome_iff_exists.mp hcap.symm
    exact .inr ⟨s, g, rfl, hold c hc, h⟩

theorem allocPages_agrees {g : GmPool} (h : s.Agrees g) (e : SetupEnv) :
    BothAgree (s.kmallocOnce .pages e.pagesMem.isSome) (g.allocPages e) := by
  refine kmallocOnce_agrees h h.pages (fun c hc => ?_) (fun hnone hmem => ?_) fun hnone mem hmem => ?_
  · simp only [GmPool.allocPages, hc]
  · simp only [GmPool.allocPages, hnone, hmem, Option.map_none]
  · simp only [GmPool.allocPages, hnone, hmem, Option.map_some]
    exact ⟨_, rfl, Slots.acquire_self s _, h.bitmap, h.allocSz, h.kva⟩

theorem allocBitmap_agrees {g : GmPool} (h : s.Agrees g) (e : SetupEnv) :
    BothAgree (s.kmallocOnce .bitmap e.bitmapMem.isSome) (g.allocBitmap e) := by
  refine kmallocOnce_agrees h h.bitmap (fun c hc => ?_) (fun hnone hmem => ?_) fun hnone mem hmem => ?_
  · simp only [GmPool.allocBitmap, hc]
  · simp only [GmPool.allocBitmap, hnone, hmem, Option.map_none]
  · simp only [GmPool.allocBitmap, hnone, hmem, Option.map_some]
    exact ⟨_, rfl, h.pages, Slots.acquire_self s _, h.allocSz, h.kva⟩

theorem allocAllocSz_agrees {g : GmPool} (h : s.Agrees g) (e : SetupEnv) :
    BothAgree (s.kmallocOnce .allocSz e.allocSzMem.isSome) (g.allocAllocSz e) := by
  refine kmallocOnce_agrees h h.allocSz (fun c hc => ?_) (fun hnone hmem => ?_) fun hnone mem hmem => ?_
  · simp only [GmPool.allocAllocSz, hc]
  · simp only [GmPool.allocAllocSz, hnone, hmem, Option.map_none]
  · simp only [GmPool.allocAllocSz, hnone, hmem, Option.map_some]
    exact ⟨_, rfl, h.pages, h.bitmap, Slots.acquire_self s _, h.kva⟩

/-- `set_gpu_mempool` returns what it returns on the pool, and has then what the pool has. -/
theorem setGpuMempool_agrees {g : GmPool} (h : s.Agrees g) (e : SetupEnv) (gb : MemInfo) :
    (s.setGpuMempool e).1 = (g.setGpuMempool e gb).1 ∧
      (s.setGpuMempool e).2.Agrees (g.setGpuMempool e gb).2 := by
  have h₀ : s.Agrees { g with uva := gb.uva, npages := (gb.size / pageSize).setWidth 32 } :=
    ⟨h.pages, h.bitmap, h.allocSz, h.kva⟩
  unfold setGpuMempool GmPool.setGpuMempool
  rcases allocPages_agrees h₀ e with ⟨hs, hg⟩ | ⟨s₁, g₁, hs, hg, h₁⟩
  · simp only [hs, hg]
    exact ⟨trivial, h₀⟩
  simp only [hs, hg]
  have h₁' : s₁.Agrees { g₁.setPages e gb.uva with
      nunits := (g₁.setPages e gb.uva).npages / bufNrFramesPerUnit } :=
    ⟨h₁.pages, h₁.bitmap, h₁.allocSz, h₁.kva⟩
  rcases allocBitmap_agrees h₁' e with ⟨hs, hg⟩ | ⟨s₂, g₂, hs, hg, h₂⟩
  · simp only [hs, hg]
    exact ⟨trivial, h₁'⟩
  simp only [hs, hg]
  have h₂' : s₂.Agrees { g₂ with bitmap := g₂.bitmap.clear 0 (bitsToLongs g₂.nunits.toNat) } :=
    ⟨h₂.pages, h₂.bitmap, h₂.allocSz, h₂.kva⟩
  rcases allocAllocSz_agrees h₂' e with ⟨hs, hg⟩ | ⟨s₃, g₃, hs, hg, h₃⟩
  · simp only [hs, hg]
    exact ⟨trivial, h₂'⟩
  simp only [hs, hg]
  by_cases hkva : e.vmap = 0
  · simp only [hkva, if_true]
    exact ⟨trivial, h₃.pages, h₃.bitmap, h₃.allocSz, rfl⟩
  · simp only [hkva, if_false]
    refine ⟨trivial, h₃.pages, h₃.bitmap, h₃.allocSz, ?_⟩
    rw [Slots.acquire_self, eq_comm, decide_eq_true_eq]
    exact hkva

end Statics

namespace ModuleMemory

variable {m m' : ModuleMemory} {n : Nat}

/-! ## Runs -/

/-- `n` objects are out that no static names, and a loaded module has its caches and its
    device. -/
structure Accounted (m : ModuleMemory) (n : Nat) : Prop where
  account : m.statics.Account n
  unloaded : m.loaded = false → ∀ r, m.statics.slot r = none
  registered : m.loaded = true → m.statics.Registered

theorem Accounted.boot : boot.Accounted 0 :=
  ⟨.empty, fun _ _ => rfl, fun h => absurd h (by decide)⟩

theorem Accounted.load (h : m.Accounted n) (hun : m.loaded = false) (e : InitEnv) :
    ∃ m', m.step (.load e) = some m' ∧ m'.Accounted (n + m.lost (.load e)) := by
  obtain ⟨ret, s', hs', hok, hfail⟩ := Statics.kgpuInit_account h.account (h.unloaded hun) e
  by_cases hret : ret = 0
  · obtain ⟨hreg, hacc⟩ := hok hret
    exact ⟨⟨true, s'⟩, by simp [step, hun, hs', hret], hacc, fun hl => (by cases hl),
      fun _ => hreg⟩
  · exact ⟨⟨false, s'.forget⟩, by simp [step, hun, hs', hret], hfail hret, fun _ _ => rfl,
      fun hl => (by cases hl)⟩

theorem Accounted.unload (h : m.Accounted n) (hl : m.loaded = true) (inUse : Resource → Bool) :
    ∃ m', m.step (.unload inUse) = some m' ∧ m'.Accounted (n + m.lost (.unload inUse)) := by
  obtain ⟨s', hs', hacc⟩ := Statics.kgpuCleanup_account h.account (h.registered hl) inUse
  exact ⟨⟨false, s'.forget⟩, by simp [step, hl, hs'], hacc, fun _ _ => rfl, fun hl => by cases hl⟩

/-- A step of a loaded module that does not touch what is registered. -/
theorem Accounted.stay {s s' : Statics} {k : Nat} (h : (⟨true, s⟩ : ModuleMemory).Accounted n)
    (hacc : s'.Account k)
    (hsame : ∀ r ∈ Statics.caches ++ Statics.registrations, s'.slot r = s.slot r) :
    (⟨true, s'⟩ : ModuleMemory).Accounted k := by
  refine ⟨hacc, fun hun => (by cases hun), fun _ r hr => ?_⟩
  rw [hsame r hr]
  exact h.registered rfl r hr

theorem Accounted.step {l : ModuleStep} (h : m.Accounted n) (hs : m.step l = some m') :
    m'.Accounted (n + m.lost l) := by
  obtain ⟨loaded, s⟩ := m
  cases l with
  | load e =>
    cases loaded with
    | true => cases hs
    | false =>
      obtain ⟨m'', hs', hacc⟩ := h.load rfl e
      cases hs'.symm.trans hs
      exact hacc
  | unload inUse =>
    cases loaded with
    | false => cases hs
    | true =>
      obtain ⟨m'', hs', hacc⟩ := h.unload rfl inUse
      cases hs'.symm.trans hs
      exact hacc
  | setGpuBufs e =>
    cases loaded with
    | false => cases hs
    | true =>
      cases hs
      exact h.stay (Statics.setGpuMempool_account h.account e) fun r hr =>
        Statics.setGpuMempool_slot (by revert hr; cases r <;> decide)
  | mmap vmStart vmEnd allocSz bitmap =>
    cases loaded with
    | false => cases hs
    | true =>
      obtain ⟨⟨ret, s'⟩, hs', heq⟩ := Option.map_eq_some_iff.mp hs
      cases heq
      unfold Statics.kgpuMmap at hs'
      by_cases hsize : vmEnd - vmStart = mmapSize
      · rw [if_neg (not_not.mpr hsize)] at hs'
        obtain ⟨s'', hvm, heq⟩ := Option.map_eq_some_iff.mp hs'
        cases heq
        simp only [lost, hsize, if_true]
        exact h.stay (Statics.setVm_account h.account hvm) fun r hr =>
          Statics.setVm_slot hvm (by revert hr; cases r <;> decide)
      · rw [if_pos hsize] at hs'
        cases hs'
        simp only [lost, if_neg hsize]
        exact h

/-- In every history of the module, what is out is what the statics name and what its steps
    have left without a name. Nothing is ever given back twice: a module that is not loaded
    can be loaded, with whatever outcome, and a loaded one can be unloaded. -/
theorem leaks_counted {ls : List ModuleStep} (hrun : Run step Free boot ls m) :
    m.statics.out.length = m.statics.held + spent step lost ls boot ∧
      (m.loaded = false → m.statics.held = 0 ∧ ∀ e, ∃ m', m.step (.load e) = some m') ∧
      (m.loaded = true → ∀ inUse, ∃ m', m.step (.unload inUse) = some m') := by
  have h := hrun.invariant_spent .boot fun _ _ _ _ h _ hs => Accounted.step h hs
  refine ⟨h.account.count, fun hun => ⟨?_, fun e => ?_⟩, fun hl inUse => ?_⟩
  · have hslot : m.statics.slot = fun _ => none := funext (h.unloaded hun)
    rw [Slots.held, hslot, Slots.heldIn_none]
  · obtain ⟨m', hs', -⟩ := h.load hun e
    exact ⟨m', hs'⟩
  · obtain ⟨m', hs', -⟩ := h.unload hl inUse
    exact ⟨m', hs'⟩

/-- The helper is started twice, a cache is in use when the module is unloaded, and the next
    load finds no class. -/
def twoHelpers : List ModuleStep :=
  [.load .works, .setGpuBufs .plenty, .mmap 0x10000 (0x10000 + mmapSize) true true,
    .setGpuBufs .plenty, .mmap 0x10000 (0x10000 + mmapSize) true true,
    .unload (decide <| · = .requestItemCache), .load { InitEnv.works with classCreate := 12 }]

theorem leaks_counted_two_helpers :
    ∃ m, Run step Free boot twoHelpers m ∧ m.statics.out.length = 7 := by
  have hrun : Run step Free boot twoHelpers ((exec step twoHelpers boot).get rfl) :=
    Run.of_exec rfl
  refine ⟨_, hrun, ?_⟩
  obtain ⟨hcount, hun, -⟩ := leaks_counted hrun
  rw [hcount, (hun rfl).1]
  rfl

end ModuleMemory
end Kgpu
