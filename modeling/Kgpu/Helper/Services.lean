-- SUMMARY: The registered services and the libraries they come from: when a registered service's library is open.
import Kgpu.Helper.Request
import Kgpu.Library.Keyed
import Kgpu.Library.Run

/-!
# Services and their libraries

`kh_load_service` opens a library and calls its init function, which registers
services; unloading a service calls the finit function of its library, which
unregisters services by name, and closes the library. Opening and closing count the
references of a handle. What the functions of a library do is decided outside.

An item of the list is named by its address, which is not used again.
-/

namespace Kgpu

open Library

/-- What `dlopen` returns for a library. -/
abbrev Handle := Nat

/-- `struct _kgpu_sitem`, named by its address. -/
structure SItem where
  addr : Nat
  s : ServicePtr
  libhandle : Option Handle
  deriving DecidableEq

/-- A call of `kh_register_service` by an init function: its arguments (`none` for `NULL`)
    and whether `malloc` succeeds. -/
structure Registration where
  s : Option ServicePtr
  libhandle : Option Handle
  malloc : Bool

/-- The call adds an item. -/
def Registration.Adds (reg : Registration) : Prop := reg.s.isSome ∧ reg.malloc = true

/-- What `kh_load_service` finds at a path. -/
inductive Load where
  | openFailed
  | noInit (lh : Handle)
  /-- The init function makes some registrations and returns `ret`. -/
  | init (lh : Handle) (regs : List Registration) (ret : Int)

/-- The finit function of a library, if it has one: the names it passes to
    `kh_unregister_service` (`none` for `NULL`) and the value it returns. -/
abbrev Finit := Option (List (Option ServiceName) × Int)

/-- The list `services`, the references of each handle, the next address `malloc` returns,
    and the item `kh_unload_all_services` comes to next, if it is running. -/
structure Registry where
  services : List SItem
  refs : Handle → Nat
  next : Nat
  walk : Option Nat

namespace Registry

/-! ## Registering -/

def dlopen (r : Registry) (lh : Handle) : Registry :=
  { r with refs := Function.update r.refs lh (r.refs lh + 1) }

def dlclose (r : Registry) (lh : Handle) : Registry :=
  { r with refs := Function.update r.refs lh (r.refs lh - 1) }

/-- `lookup_kgpu_sitem`. -/
def lookupKgpuSitem (service : ServicePtr → Service) (r : Registry) (name : Option ServiceName) :
    Option SItem :=
  match name with
  | none => none
  | some name => r.services.find? fun i => strncmpEq name.toList (service i.s).name.toList

/-- `kh_lookup_service`. -/
def khLookupService (service : ServicePtr → Service) (r : Registry) (name : Option ServiceName) :
    Option ServicePtr :=
  (r.lookupKgpuSitem service name).map (·.s)

/-- `kh_register_service`. -/
def khRegisterService (r : Registry) (reg : Registration) : Int × Registry :=
  match reg.s with
  | none => (1, r)
  | some s =>
    if reg.malloc then
      (0, { r with services := r.services ++ [⟨r.next, s, reg.libhandle⟩], next := r.next + 1 })
    else (1, r)

/-- `__unregister_service` of an item. -/
def unregisterItem (r : Registry) (i : SItem) : Registry :=
  { r with services := r.services.erase i }

/-- `kh_unregister_service`. -/
def khUnregisterService (service : ServicePtr → Service) (r : Registry)
    (name : Option ServiceName) : Int × Registry :=
  match r.lookupKgpuSitem service name with
  | none => (1, r)
  | some i => (0, r.unregisterItem i)

/-! ## Loading and unloading -/

/-- `kh_load_service`. -/
def khLoadService (r : Registry) : Load → Int × Registry
  | .openFailed => (1, r)
  | .noInit lh => (1, (r.dlopen lh).dlclose lh)
  | .init lh regs ret =>
    let r := regs.foldl (fun r reg => (r.khRegisterService reg).2) (r.dlopen lh)
    if ret ≠ 0 then (1, r.dlclose lh) else (0, r)

/-- `kh_load_all_services` with what it finds at each path. -/
def khLoadAllServices (r : Registry) (loads : List Load) : Int × Registry :=
  loads.foldl (fun (e, r) l => (e + (r.khLoadService l).1, (r.khLoadService l).2)) (0, r)

/-- `__unload_service` of an item, less the message about a finit function that failed.
    Nothing can be said of a `dlsym` in a library that is not open. -/
def unloadService (service : ServicePtr → Service) (r : Registry) (i : SItem) (f : Finit) :
    Option (Int × Registry) :=
  match i.libhandle with
  | none => some (0, r.unregisterItem i)
  | some lh =>
    if r.refs lh = 0 then none
    else
      match f with
      | some (names, ret) =>
        let r := names.foldl (fun r name => (r.khUnregisterService service name).2) r
        some (if ret ≠ 0 then 1 else 0, r.dlclose lh)
      | none => some (0, (r.unregisterItem i).dlclose lh)

/-- `kh_unload_service`. -/
def khUnloadService (service : ServicePtr → Service) (r : Registry) (name : Option ServiceName)
    (f : Finit) : Option (Int × Registry) :=
  match r.lookupKgpuSitem service name with
  | none => some (1, r)
  | some i => r.unloadService service i f

/-- The item after one of the list. -/
def following (r : Registry) (i : SItem) : Option SItem :=
  (r.services.dropWhile (· ≠ i)).tail.head?

end Registry

inductive RegistryStep where
  /-- `kh_load_service`, also as called by `kh_load_all_services`. -/
  | load (l : Load)
  | unload (name : Option ServiceName) (f : Finit)
  /-- `kh_unload_all_services` comes to the first item. -/
  | unloadAll
  /-- It unloads an item and goes on to the one that followed it. -/
  | unloadNext (f : Finit)

namespace Registry

/-- One step. `list_for_each_safe` takes the next item down before it calls
    `__unload_service`; nothing can be said when that item has been freed since. -/
def step (service : ServicePtr → Service) (r : Registry) : RegistryStep → Option Registry
  | .load l => if r.walk = none then some (r.khLoadService l).2 else none
  | .unload name f =>
    if r.walk = none then (r.khUnloadService service name f).map (·.2) else none
  | .unloadAll => if r.walk = none then some { r with walk := r.services.head?.map (·.addr) } else none
  | .unloadNext f =>
    match r.walk with
    | none => none
    | some p =>
      match r.services.find? (·.addr = p) with
      | none => none
      | some i =>
        (r.unloadService service i f).map fun (_, r') =>
          { r' with walk := (r.following i).map (·.addr) }

/-- The state in which the helper starts. -/
def boot : Registry where
  services := []
  refs := fun _ => 0
  next := 0
  walk := none

end Registry

/-! ## Names -/

/-- The string in a buffer. -/
def cString (bytes : List UInt8) : List UInt8 := bytes.takeWhile (· ≠ 0)

/-- `strncmp` of whole buffers compares the strings in them. -/
theorem strncmpEq_iff {as bs : List UInt8} (h : as.length = bs.length) :
    strncmpEq as bs = true ↔ cString as = cString bs := by
  induction as generalizing bs with
  | nil =>
    cases bs with
    | nil => simp [strncmpEq]
    | cons b bs => cases h
  | cons a as ih =>
    cases bs with
    | nil => cases h
    | cons b bs =>
      have ih := ih (Nat.succ.inj h)
      simp only [strncmpEq, Bool.and_eq_true, Bool.or_eq_true, beq_iff_eq, ih]
      unfold cString
      by_cases ha : a = 0
      · by_cases hb : b = 0
        · simp [ha, hb]
        · simp [ha, hb, Ne.symm hb]
      · by_cases hb : b = 0
        · simp [ha, hb]
        · simp [ha, hb]

namespace Registry

variable {service : ServicePtr → Service} {r r' : Registry} {i j : SItem}

/-- `kh_unregister_service` and the look-ups compare these. -/
def key (service : ServicePtr → Service) (i : SItem) : Option (List UInt8) :=
  some (cString (service i.s).name.toList)

def keyOf (name : Option ServiceName) : Option (List UInt8) := name.map fun n => cString n.toList

/-- The name is that of the service of an item. -/
def named (service : ServicePtr → Service) (i : SItem) (name : Option ServiceName) : Bool :=
  name.any fun n => strncmpEq n.toList (service i.s).name.toList

theorem named_iff {name : Option ServiceName} :
    named service i name = true ↔ key service i = keyOf name := by
  cases name with
  | none => simp [named, keyOf, key]
  | some n =>
    simp only [named, Option.any_some, keyOf, key, Option.map_some, Option.some.injEq]
    rw [strncmpEq_iff (by simp), eq_comm]

/-- An item is taken off by its name, the first of that name first. -/
theorem khUnregisterService_eq (name : Option ServiceName) :
    (r.khUnregisterService service name).2 =
      { r with services := r.services.eraseP (key service · = keyOf name) } := by
  have hpred : (fun i => named service i name) = fun i => decide (key service i = keyOf name) := by
    funext i
    rw [Bool.eq_iff_iff, named_iff, decide_eq_true_iff]
  have hfind : r.lookupKgpuSitem service name =
      r.services.find? fun i => decide (key service i = keyOf name) := by
    rw [← hpred]
    cases name with
    | none => exact (List.find?_eq_none.mpr fun i _ => Bool.false_ne_true).symm
    | some n => rfl
  simp only [khUnregisterService, hfind]
  split
  next hnone =>
    rw [List.eraseP_of_forall_not (List.find?_eq_none.mp hnone)]
  next i hsome => rw [unregisterItem, erase_of_find? hsome]

theorem unregisterAll_eq (names : List (Option ServiceName)) :
    names.foldl (fun r name => (r.khUnregisterService service name).2) r =
      { r with services := eraseKeys (key service) r.services (names.map keyOf) } := by
  induction names generalizing r with
  | nil => rfl
  | cons name names ih =>
    rw [List.foldl_cons, khUnregisterService_eq, ih]
    rfl

/-! ## What is taken off -/

/-- Unloading `i` with the finit function `f` takes `j` off the list: `f` unregisters the
    name of `j` more often than it stands before `j`, or there is no finit function and `j`
    is `i`. -/
def TakenOff (service : ServicePtr → Service) (r : Registry) (i : SItem) (f : Finit) (j : SItem) :
    Prop :=
  match f with
  | some (names, _) => ∀ pre post, r.services = pre ++ j :: post →
      (pre.countP fun k => named service j (some (service k.s).name)) <
        names.countP (named service j)
  | none => j = i

/-- What unloading an item of a library that is open does. -/
structure Unloaded (service : ServicePtr → Service) (r : Registry) (i : SItem) (f : Finit)
    (lh : Handle) (r' : Registry) : Prop where
  sublist : r'.services.Sublist r.services
  mem_iff : ∀ j ∈ r.services, j ∈ r'.services ↔ ¬ TakenOff service r i f j
  refs : r'.refs = Function.update r.refs lh (r.refs lh - 1)
  next : r'.next = r.next
  walk : r'.walk = r.walk

theorem mem_unregisterAll (hnd : r.services.Nodup) (hj : j ∈ r.services)
    (names : List (Option ServiceName)) (ret : Int) :
    j ∈ eraseKeys (key service) r.services (names.map keyOf) ↔
      ¬ TakenOff service r i (some (names, ret)) j := by
  have hbefore : ∀ pre : List SItem,
      (pre.countP fun k => named service j (some (service k.s).name)) =
        pre.countP (key service · = key service j) := by
    intro pre
    refine List.countP_congr fun k _ => ?_
    rw [named_iff, decide_eq_true_iff, eq_comm]
    rfl
  have hnames : names.countP (named service j) =
      (names.map keyOf).countP (key service j = ·) := by
    rw [List.countP_map]
    refine List.countP_congr fun name _ => ?_
    rw [named_iff, Function.comp_apply, decide_eq_true_iff]
  simp only [TakenOff, hbefore, hnames]
  constructor
  · intro hmem htaken
    obtain ⟨pre, post, heq⟩ := List.append_of_mem hj
    exact Nat.not_le_of_lt (htaken pre post heq) ((mem_eraseKeys hnd heq _).mp hmem)
  · intro hnot
    by_contra hgone
    refine hnot fun pre post heq => Nat.lt_of_not_le fun hle => hgone ?_
    exact (mem_eraseKeys hnd heq _).mpr hle

theorem unloadService_outcome {lh : Handle} (hnd : r.services.Nodup) (hi : i.libhandle = some lh)
    (hopen : 0 < r.refs lh) (f : Finit) :
    ∃ ret r', r.unloadService service i f = some (ret, r') ∧ Unloaded service r i f lh r' := by
  have hne : ¬ r.refs lh = 0 := Nat.ne_of_gt hopen
  simp only [unloadService, hi, hne, if_false]
  cases f with
  | some f =>
    obtain ⟨names, ret⟩ := f
    simp only [unregisterAll_eq]
    refine ⟨_, _, rfl, eraseKeys_sublist _ _ _, fun j hj => ?_, rfl, rfl, rfl⟩
    exact mem_unregisterAll hnd hj names ret
  | none =>
    refine ⟨_, _, rfl, List.erase_sublist, fun j hj => ?_, rfl, rfl, rfl⟩
    change j ∈ r.services.erase i ↔ _
    rw [hnd.mem_erase_iff]
    exact and_iff_left hj

/-! ## What is registered -/

/-- Items have different addresses, all of them used. -/
structure Distinct (r : Registry) : Prop where
  lt_next : ∀ i ∈ r.services, i.addr < r.next
  nodup : (r.services.map (·.addr)).Nodup

/-- What the registrations of an init function do. -/
structure Registered (r : Registry) (regs : List Registration) (r' : Registry) : Prop where
  old : ∀ i ∈ r.services, i ∈ r'.services
  new : ∀ i ∈ r'.services, i ∈ r.services ∨ ∃ reg ∈ regs, reg.Adds ∧ i.libhandle = reg.libhandle
  each : ∀ reg ∈ regs, reg.Adds → ∃ i ∈ r'.services, i.libhandle = reg.libhandle
  walk : r'.walk = r.walk
  distinct : r.Distinct → r'.Distinct

theorem khRegisterService_cases (r : Registry) (reg : Registration) :
    (reg.Adds ∧ ∃ s, (r.khRegisterService reg).2 =
      { r with services := r.services ++ [⟨r.next, s, reg.libhandle⟩], next := r.next + 1 }) ∨
    (¬ reg.Adds ∧ (r.khRegisterService reg).2 = r) := by
  unfold khRegisterService Registration.Adds
  cases hs : reg.s with
  | none => exact .inr ⟨by simp, rfl⟩
  | some s =>
    cases hm : reg.malloc with
    | false => exact .inr ⟨by simp, rfl⟩
    | true => exact .inl ⟨⟨rfl, rfl⟩, s, rfl⟩

theorem Distinct.add {s : ServicePtr} {lh : Option Handle} (h : r.Distinct) :
    Distinct { r with services := r.services ++ [⟨r.next, s, lh⟩], next := r.next + 1 } := by
  refine ⟨fun i hi => ?_, ?_⟩
  · rcases List.mem_append.mp hi with hi | hi
    · exact Nat.lt_succ_of_lt (h.lt_next i hi)
    · rw [List.mem_singleton.mp hi]
      exact Nat.lt_succ_self _
  · simp only [List.map_append, List.map_cons, List.map_nil]
    refine List.nodup_append.mpr ⟨h.nodup, List.nodup_singleton _, ?_⟩
    rintro a ha b hb rfl
    obtain ⟨i, hi, rfl⟩ := List.mem_map.mp ha
    exact Nat.ne_of_lt (h.lt_next i hi) (List.mem_singleton.mp hb)

theorem registerAll_registered (r : Registry) (regs : List Registration) :
    Registered r regs (regs.foldl (fun r reg => (r.khRegisterService reg).2) r) := by
  induction regs generalizing r with
  | nil => exact ⟨fun _ hi => hi, fun _ hi => .inl hi, nofun, rfl, fun h => h⟩
  | cons reg regs ih =>
    rw [List.foldl_cons]
    have hrest := ih (r.khRegisterService reg).2
    rcases khRegisterService_cases r reg with ⟨hadds, s, heq⟩ | ⟨hnot, heq⟩
    · rw [heq] at hrest ⊢
      refine ⟨fun i hi => hrest.old i (List.mem_append_left _ hi), fun i hi => ?_,
        fun reg' hreg' hadds' => ?_, hrest.walk, fun h => hrest.distinct h.add⟩
      · rcases hrest.new i hi with hi | ⟨reg', hreg', h⟩
        · rcases List.mem_append.mp hi with hi | hi
          · exact .inl hi
          · rw [List.mem_singleton.mp hi]
            exact .inr ⟨reg, List.mem_cons_self, hadds, rfl⟩
        · exact .inr ⟨reg', List.mem_cons_of_mem _ hreg', h⟩
      · rcases List.mem_cons.mp hreg' with rfl | hreg'
        · exact ⟨_, hrest.old _ (List.mem_append_right _ (List.mem_singleton_self _)), rfl⟩
        · exact hrest.each reg' hreg' hadds'
    · rw [heq] at hrest ⊢
      refine ⟨hrest.old, fun i hi => ?_, fun reg' hreg' hadds' => ?_, hrest.walk,
        hrest.distinct⟩
      · rcases hrest.new i hi with hi | ⟨reg', hreg', h⟩
        · exact .inl hi
        · exact .inr ⟨reg', List.mem_cons_of_mem _ hreg', h⟩
      · rcases List.mem_cons.mp hreg' with rfl | hreg'
        · exact absurd hadds' hnot
        · exact hrest.each reg' hreg' hadds'

theorem registerAll_refs (r : Registry) (regs : List Registration) :
    (regs.foldl (fun r reg => (r.khRegisterService reg).2) r).refs = r.refs := by
  induction regs generalizing r with
  | nil => rfl
  | cons reg regs ih =>
    rw [List.foldl_cons, ih]
    rcases khRegisterService_cases r reg with ⟨-, s, heq⟩ | ⟨-, heq⟩ <;> rw [heq]

/-! ## Open libraries -/

/-- Every item has the handle of a library that is open. -/
def Opened (r : Registry) : Prop := ∀ i ∈ r.services, ∃ lh, i.libhandle = some lh ∧ 0 < r.refs lh

/-- The item `kh_unload_all_services` comes to next has not been freed. -/
def Walking (r : Registry) : Prop := ∀ p, r.walk = some p → ∃ i ∈ r.services, i.addr = p

/-- When the last reference of the library of `i` is closed, all its items are taken off. -/
def Releases (service : ServicePtr → Service) (r : Registry) (i : SItem) (f : Finit) : Prop :=
  ∀ lh, i.libhandle = some lh → r.refs lh ≤ 1 →
    ∀ j ∈ r.services, j.libhandle = some lh → TakenOff service r i f j

/-- What a step has to meet. An init function registers services with the handle of a
    library that is open already, or with its own handle and returns 0; a library is closed
    when no item of it stays; and `kh_unload_all_services` finds the item after the one it
    unloads still there. -/
def Sound (service : ServicePtr → Service) (r : Registry) : RegistryStep → Prop
  | .load .openFailed | .load (.noInit _) | .unloadAll => True
  | .load (.init lh regs ret) => ∀ reg ∈ regs, reg.Adds →
      ∃ h, reg.libhandle = some h ∧ (0 < r.refs h ∨ (h = lh ∧ ret = 0))
  | .unload name f => ∀ i, r.lookupKgpuSitem service name = some i → Releases service r i f
  | .unloadNext f => ∀ i ∈ r.services, r.walk = some i.addr →
      Releases service r i f ∧ ∀ j, r.following i = some j → ¬ TakenOff service r i f j

theorem khLoadService_registered (r : Registry) (lh : Handle) (regs : List Registration)
    (ret : Int) : Registered r regs (r.khLoadService (.init lh regs ret)).2 := by
  have hreg := registerAll_registered (r.dlopen lh) regs
  have hdistinct : r.Distinct →
      (regs.foldl (fun r reg => (r.khRegisterService reg).2) (r.dlopen lh)).Distinct :=
    fun h => hreg.distinct ⟨h.lt_next, h.nodup⟩
  simp only [khLoadService]
  split
  · exact ⟨hreg.old, hreg.new, hreg.each, hreg.walk,
      fun h => ⟨(hdistinct h).lt_next, (hdistinct h).nodup⟩⟩
  · exact ⟨hreg.old, hreg.new, hreg.each, hreg.walk, hdistinct⟩

/-- A load adds a reference if the init function returns 0. -/
theorem khLoadService_refs (r : Registry) (lh : Handle) (regs : List Registration) (ret : Int) :
    (r.khLoadService (.init lh regs ret)).2.refs =
      Function.update r.refs lh (r.refs lh + if ret = 0 then 1 else 0) := by
  have hrefs := registerAll_refs (r.dlopen lh) regs
  simp only [khLoadService]
  by_cases hret : ret = 0
  · simp only [hret, ne_eq, not_true, if_false, if_true, hrefs]
    rfl
  · simp only [hret, ne_eq, not_false_iff, if_true, if_false, dlclose, hrefs]
    simp only [dlopen, Function.update_self, Nat.add_sub_cancel, Nat.add_zero, Function.update_idem]

theorem refs_load {lh h : Handle} {regs : List Registration} {ret : Int} :
    0 < (r.khLoadService (.init lh regs ret)).2.refs h ↔ 0 < r.refs h ∨ (h = lh ∧ ret = 0) := by
  rw [khLoadService_refs]
  by_cases hh : h = lh
  · subst hh
    rw [Function.update_self]
    split
    next hret => simp [hret]
    next hret => simp [hret]
  · rw [Function.update_of_ne hh]
    simp [hh]

theorem opened_load_iff {lh : Handle} {regs : List Registration} {ret : Int} (h : r.Opened) :
    (r.khLoadService (.init lh regs ret)).2.Opened ↔
      r.Sound service (.load (.init lh regs ret)) := by
  have hrefs := @refs_load r lh
  have hreg := khLoadService_registered r lh regs ret
  simp only [Opened, hrefs, Sound]
  constructor
  · intro hall reg hreg' hadds
    obtain ⟨i, hi, hlib⟩ := hreg.each reg hreg' hadds
    rw [← hlib]
    exact hall i hi
  · intro hsound i hi
    rcases hreg.new i hi with hi | ⟨reg, hreg', hadds, hlib⟩
    · obtain ⟨h', hlib, hpos⟩ := h i hi
      exact ⟨h', hlib, .inl hpos⟩
    · rw [hlib]
      exact hsound reg hreg' hadds

/-- Closing a library leaves its items without one exactly when it had no other reference
    and one of them stays. -/
theorem opened_unload_iff {f : Finit} {lh : Handle} (h : r.Opened) (hi : i.libhandle = some lh)
    (hun : Unloaded service r i f lh r') : r'.Opened ↔ Releases service r i f := by
  constructor
  · intro hopen lh' hlh' hle j hj hjlib
    cases hi.symm.trans hlh'
    by_contra hstays
    obtain ⟨h', hlib, hpos⟩ := hopen j ((hun.mem_iff j hj).mpr hstays)
    cases hjlib.symm.trans hlib
    rw [hun.refs, Function.update_self] at hpos
    omega
  · intro hrel j hj
    have hj' : j ∈ r.services := hun.sublist.subset hj
    obtain ⟨h', hlib, hpos⟩ := h j hj'
    refine ⟨h', hlib, ?_⟩
    rw [hun.refs]
    by_cases hh : h' = lh
    · subst hh
      rw [Function.update_self]
      have hmore : ¬ r.refs h' ≤ 1 := by
        intro hle
        exact (hun.mem_iff j hj').mp hj (hrel h' hi hle j hj' hlib)
      omega
    · rwa [Function.update_of_ne hh]

theorem Distinct.unload {f : Finit} {lh : Handle} (h : r.Distinct)
    (hun : Unloaded service r i f lh r') : r'.Distinct := by
  refine ⟨fun j hj => ?_, h.nodup.sublist (hun.sublist.map _)⟩
  rw [hun.next]
  exact h.lt_next j (hun.sublist.subset hj)

theorem Distinct.services_nodup (h : r.Distinct) : r.services.Nodup := h.nodup.of_map

theorem following_mem (hj : r.following i = some j) : j ∈ r.services := by
  have hmem : j ∈ (r.services.dropWhile (· ≠ i)).tail := List.mem_of_head? hj
  exact (List.dropWhile_sublist _).subset (List.mem_of_mem_tail hmem)

theorem Distinct.inj (h : r.Distinct) (hi : i ∈ r.services) (hj : j ∈ r.services)
    (heq : i.addr = j.addr) : i = j :=
  List.inj_on_of_nodup_map h.nodup hi hj heq

theorem Distinct.find?_addr (h : r.Distinct) (hi : i ∈ r.services) :
    r.services.find? (·.addr = i.addr) = some i := by
  cases hf : r.services.find? (·.addr = i.addr) with
  | none => exact absurd (decide_eq_true rfl) (List.find?_eq_none.mp hf i hi)
  | some j =>
    have haddr : j.addr = i.addr := by simpa using List.find?_some hf
    rw [h.inj (List.mem_of_find?_eq_some hf) hi haddr]

/-! ## Runs -/

structure Kept (r : Registry) : Prop where
  distinct : r.Distinct
  opened : r.Opened
  walking : r.Walking

/-- `kh_unload_all_services` is running, or it is not, as the step has it. -/
def Callable (r : Registry) : RegistryStep → Prop
  | .load _ | .unload _ _ | .unloadAll => r.walk = none
  | .unloadNext _ => r.walk ≠ none

/-- The outcome of a step: a step that was called is defined, and the libraries of the
    items stay open exactly if it is sound. -/
def Meets (service : ServicePtr → Service) (r : Registry) (l : RegistryStep) (r' : Registry) :
    Prop :=
  r'.Distinct ∧ (r'.Opened ∧ r'.Walking ↔ r.Sound service l)

theorem Opened.lookup (h : r.Opened) {name : Option ServiceName}
    (hi : r.lookupKgpuSitem service name = some i) :
    i ∈ r.services ∧ ∃ lh, i.libhandle = some lh ∧ 0 < r.refs lh := by
  have hmem : i ∈ r.services := by
    cases name with
    | none => cases hi
    | some n => exact List.mem_of_find?_eq_some hi
  exact ⟨hmem, h i hmem⟩

theorem khLoadService_noInit (r : Registry) (lh : Handle) : (r.khLoadService (.noInit lh)).2 = r := by
  simp [khLoadService, dlopen, dlclose]

theorem Distinct.load (h : r.Distinct) (l : Load) : (r.khLoadService l).2.Distinct := by
  cases l with
  | openFailed => exact h
  | noInit lh => rwa [khLoadService_noInit]
  | init lh regs ret => exact (khLoadService_registered r lh regs ret).distinct h

theorem Kept.load (h : r.Kept) (hw : r.walk = none) (l : Load) :
    Meets service r (.load l) (r.khLoadService l).2 := by
  have hwalking : ∀ r' : Registry, r'.walk = r.walk → r'.Walking := by
    intro r' heq p hp
    rw [heq, hw] at hp
    cases hp
  refine ⟨h.distinct.load l, ?_⟩
  cases l with
  | openFailed => exact iff_of_true ⟨h.opened, h.walking⟩ trivial
  | noInit lh =>
    rw [khLoadService_noInit]
    exact iff_of_true ⟨h.opened, h.walking⟩ trivial
  | init lh regs ret =>
    rw [and_iff_left (hwalking _ (khLoadService_registered r lh regs ret).walk)]
    exact opened_load_iff h.opened

theorem Kept.unload (h : r.Kept) (hw : r.walk = none) (name : Option ServiceName) (f : Finit) :
    ∃ ret r', r.khUnloadService service name f = some (ret, r') ∧
      Meets service r (.unload name f) r' := by
  unfold khUnloadService
  cases hi : r.lookupKgpuSitem service name with
  | none =>
    refine ⟨_, _, rfl, h.distinct, iff_of_true ⟨h.opened, h.walking⟩ fun i hsome => ?_⟩
    rw [hi] at hsome
    cases hsome
  | some i =>
    obtain ⟨-, lh, hlib, hpos⟩ := h.opened.lookup hi
    obtain ⟨ret, r', heq, hun⟩ :=
      @unloadService_outcome service r i lh h.distinct.services_nodup hlib hpos f
    refine ⟨ret, r', heq, h.distinct.unload hun, ?_⟩
    have hwalking : r'.Walking := by
      intro p hp
      rw [hun.walk, hw] at hp
      cases hp
    rw [and_iff_left hwalking, opened_unload_iff h.opened hlib hun]
    simp only [Sound, hi, Option.some.injEq, forall_eq']

theorem Kept.unloadNext (h : r.Kept) (hi : i ∈ r.services) (hw : r.walk = some i.addr) (f : Finit) :
    ∃ ret r', r.unloadService service i f = some (ret, r') ∧
      Meets service r (.unloadNext f) { r' with walk := (r.following i).map (·.addr) } := by
  obtain ⟨lh, hlib, hpos⟩ := h.opened i hi
  obtain ⟨ret, r', heq, hun⟩ :=
    @unloadService_outcome service r i lh h.distinct.services_nodup hlib hpos f
  have hdis := h.distinct.unload hun
  refine ⟨ret, r', heq, ⟨hdis.lt_next, hdis.nodup⟩, ?_⟩
  have hwalking : Walking { r' with walk := (r.following i).map (·.addr) } ↔
      ∀ j, r.following i = some j → ¬ TakenOff service r i f j := by
    constructor
    · intro hwalk j hj
      obtain ⟨k, hk, haddr⟩ := hwalk j.addr (by simp [hj])
      have hjr := following_mem hj
      have hkj : k = j := h.distinct.inj (hun.sublist.subset hk) hjr haddr
      exact (hun.mem_iff j hjr).mp (hkj ▸ hk)
    · intro hstays p hp
      obtain ⟨j, hj, rfl⟩ := Option.map_eq_some_iff.mp hp
      exact ⟨j, (hun.mem_iff j (following_mem hj)).mpr (hstays j hj), rfl⟩
  rw [hwalking]
  change r'.Opened ∧ _ ↔ _
  rw [opened_unload_iff h.opened hlib hun]
  constructor
  · rintro hboth i' hi' hw'
    have heq : i' = i := h.distinct.inj hi' hi (Option.some.inj (hw'.symm.trans hw))
    rw [heq]
    exact hboth
  · intro hsound
    exact hsound i hi hw

/-- A step that is called is defined when the libraries of all items are open, and they
    stay open exactly if it is sound. -/
theorem Kept.step (h : r.Kept) {l : RegistryStep} (hc : r.Callable l) :
    ∃ r', r.step service l = some r' ∧ Meets service r l r' := by
  cases l with
  | load l => exact ⟨_, if_pos hc, h.load hc l⟩
  | unload name f =>
    obtain ⟨ret, r', heq, hmeets⟩ := @Kept.unload service r h hc name f
    refine ⟨r', ?_, hmeets⟩
    simp only [Registry.step, heq, if_pos (show r.walk = none from hc), Option.map_some]
  | unloadAll =>
    refine ⟨_, if_pos hc, ⟨h.distinct.lt_next, h.distinct.nodup⟩,
      iff_of_true ⟨h.opened, fun p hp => ?_⟩ trivial⟩
    obtain ⟨i, hi, rfl⟩ := Option.map_eq_some_iff.mp hp
    exact ⟨i, List.mem_of_head? hi, rfl⟩
  | unloadNext f =>
    obtain ⟨p, hp⟩ := Option.ne_none_iff_exists'.mp hc
    obtain ⟨i, hi, rfl⟩ := h.walking p hp
    obtain ⟨ret, r', heq, hmeets⟩ := @Kept.unloadNext service r i h hi hp f
    refine ⟨_, ?_, hmeets⟩
    simp only [Registry.step, hp, h.distinct.find?_addr hi, heq, Option.map_some]

theorem callable_of_step {l : RegistryStep} (hs : r.step service l = some r') : r.Callable l := by
  cases l with
  | load | unload | unloadAll =>
    simp only [Registry.step] at hs
    split at hs
    next hw => exact hw
    next => cases hs
  | unloadNext f =>
    intro hw
    simp only [Registry.step, hw] at hs
    cases hs

theorem Kept.of_step (h : r.Kept) {l : RegistryStep} (hs : r.step service l = some r') :
    Meets service r l r' := by
  obtain ⟨r'', heq, hmeets⟩ := @Kept.step service r h l (callable_of_step hs)
  cases heq.symm.trans hs
  exact hmeets

/-- `kh_load_all_services` makes one step for each path. -/
theorem khLoadAllServices_exec (hw : r.walk = none) (loads : List Load) :
    exec (step service) (loads.map .load) r = some (r.khLoadAllServices loads).2 := by
  have hgen : ∀ (e : Int) (r : Registry), r.walk = none →
      exec (step service) (loads.map .load) r = some (loads.foldl
        (fun (e, r) l => (e + (r.khLoadService l).1, (r.khLoadService l).2)) (e, r)).2 := by
    induction loads with
    | nil => exact fun _ _ _ => rfl
    | cons l loads ih =>
      intro e r hw
      have hwalk : (r.khLoadService l).2.walk = none := by
        cases l with
        | openFailed | noInit => exact hw
        | init lh regs ret => rw [(khLoadService_registered r lh regs ret).walk, hw]
      simp only [List.map_cons, exec, Registry.step, if_pos hw, Option.bind_some, List.foldl_cons]
      exact ih _ _ hwalk
  exact hgen 0 r hw

/-- The look-up of the main loop, for the services that are registered. -/
theorem khLookupService_config {c : Config} (hc : c.services = r.services.map (·.s))
    (name : ServiceName) :
    c.khLookupService name = r.khLookupService c.service (some name) := by
  rw [Config.khLookupService, hc, List.find?_map]
  rfl

/-- In every run of sound steps every registered service is one of a library that is open,
    so is what a look-up returns, and every step that is called is defined. A step that is
    not sound leaves an item without a library, or `kh_unload_all_services` without the
    item it goes on with. -/
theorem registered_library_open (service : ServicePtr → Service) {ls : List RegistryStep}
    {r : Registry} (hrun : Run (step service) (Sound service) boot ls r) :
    (∀ i ∈ r.services, ∃ lh, i.libhandle = some lh ∧ 0 < r.refs lh) ∧
    (∀ name p, r.khLookupService service name = some p →
      ∃ i ∈ r.services, i.s = p ∧ ∃ lh, i.libhandle = some lh ∧ 0 < r.refs lh) ∧
    ∀ l, r.Callable l → ∃ r', r.step service l = some r' ∧
      (¬ r.Sound service l → ¬ (r'.Opened ∧ r'.Walking)) := by
  have h : r.Kept := by
    refine hrun.invariant (I := Kept) ⟨⟨nofun, List.nodup_nil⟩, nofun, nofun⟩ ?_
    intro r l r' h hsound hs
    obtain ⟨hdis, hiff⟩ := h.of_step hs
    exact ⟨hdis, (hiff.mpr hsound).1, (hiff.mpr hsound).2⟩
  refine ⟨h.opened, fun name p hp => ?_, fun l hc => ?_⟩
  · obtain ⟨i, hi, rfl⟩ := Option.map_eq_some_iff.mp hp
    obtain ⟨hmem, hopen⟩ := h.opened.lookup hi
    exact ⟨i, hmem, rfl, hopen⟩
  · obtain ⟨r', hs, -, hiff⟩ := @Kept.step service r h l hc
    exact ⟨r', hs, fun hnot hboth => hnot (hiff.mp hboth)⟩

/-- Two libraries register services of one name; the first is unloaded by that name. -/
theorem registered_library_open_equal_names :
    ∃ r, Run (step Config.small.service) (Sound Config.small.service) boot
        [.load (.init 1 [⟨some 0, some 1, true⟩] 0), .load (.init 2 [⟨some 3, some 2, true⟩] 0),
          .unload (some (Vector.replicate 32 65)) none] r ∧
      r.khLookupService Config.small.service (some (Vector.replicate 32 65)) = some 3 ∧
      ∀ i ∈ r.services, ∃ lh, i.libhandle = some lh ∧ 0 < r.refs lh := by
  have hload : ∀ (r : Registry) (p : ServicePtr) (lh : Handle),
      r.Sound Config.small.service (.load (.init lh [⟨some p, some lh, true⟩] 0)) := by
    intro r p lh reg hreg _
    rw [List.mem_singleton.mp hreg]
    exact ⟨lh, rfl, .inr ⟨rfl, rfl⟩⟩
  have hone : ∀ j ∈ [(⟨0, 0, some 1⟩ : SItem), ⟨1, 3, some 2⟩], j.libhandle = some 1 →
      j = ⟨0, 0, some 1⟩ := by decide
  have hrun : Run (step Config.small.service) (Sound Config.small.service) boot
      [.load (.init 1 [⟨some 0, some 1, true⟩] 0), .load (.init 2 [⟨some 3, some 2, true⟩] 0),
        .unload (some (Vector.replicate 32 65)) none] _ :=
    Run.of_along rfl ⟨hload _ _ _, hload _ _ _, fun i hi lh hlh _ j hj hjlib => by
      cases hi
      cases hlh
      exact hone j hj hjlib, trivial⟩
  exact ⟨_, hrun, rfl, (registered_library_open Config.small.service hrun).1⟩

/-- A library is closed while its service stays registered: when its init function fails
    after a registration, when its finit function fails, and when it has no finit function
    and another service. -/
theorem not_registered_library_open :
    (∃ r, Run (step Config.small.service) Free boot
        [.load (.init 1 [⟨some 0, some 1, true⟩] 1)] r ∧
      r.services = [⟨0, 0, some 1⟩] ∧ r.refs 1 = 0) ∧
    (∃ r, Run (step Config.small.service) Free boot
        [.load (.init 1 [⟨some 0, some 1, true⟩] 0),
          .unload (some (Vector.replicate 32 65)) (some ([], 1))] r ∧
      r.services = [⟨0, 0, some 1⟩] ∧ r.refs 1 = 0) ∧
    ∃ r, Run (step Config.small.service) Free boot
        [.load (.init 1 [⟨some 0, some 1, true⟩, ⟨some 3, some 1, true⟩] 0),
          .unload (some (Vector.replicate 32 65)) none] r ∧
      r.services = [⟨1, 3, some 1⟩] ∧ r.refs 1 = 0 :=
  ⟨⟨_, Run.of_exec rfl, rfl, rfl⟩, ⟨_, Run.of_exec rfl, rfl, rfl⟩, ⟨_, Run.of_exec rfl, rfl, rfl⟩⟩

end Registry
end Kgpu
