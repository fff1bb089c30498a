-- SUMMARY: Unloading all services: what the traversal of the list comes to when finit functions take items off.
import Kgpu.Helper.Services

/-!
# Unloading all services

`kh_unload_all_services` goes along the list with `list_for_each_safe`: the item after
the one it unloads is saved before. The finit function of a library takes items off by
their names, any of them, and the library is closed after it although other items may
have its handle. Their services lie in its memory, and every look-up of a name reads the
names of the services it passes.

The loop ends after at most one iteration for each item. It gets through exactly when
each iteration finds its library loaded more often than it was closed before, looks up
names past services in memory only, leaves the saved item where it is, and leaves its own
item and service where they are if the finit function fails.
-/

namespace Kgpu

open Library

/-- What stops `kh_unload_all_services`. -/
inductive Fault where
  /-- An item that has been freed is read, or its link is followed. -/
  | freed
  /-- `dlsym` in a library that is closed. -/
  | closed
  /-- The name of a service is read in a library that is closed. -/
  | unmapped
  deriving DecidableEq

/-- The load leaves its library open. -/
def Load.opens (lh : Handle) : Load → Bool
  | .openFailed | .noInit _ => false
  | .init h _ ret => h = lh ∧ ret = 0

namespace Registry

/-- What `kh_load_service` has built, for any libraries. -/
def loaded (loads : List Load) : Registry :=
  loads.foldl (fun r l => (r.khLoadService l).2) boot

/-- The library of the service is open, or the service does not lie in a library. -/
def readable (home : ServicePtr → Option Handle) (r : Registry) (i : SItem) : Bool :=
  (home i.s).all fun lh => r.refs lh != 0

/-! ## The look-ups of a finit function -/

/-- The loop of `lookup_kgpu_sitem`: the first item of the name, where the name of every item
    it comes to is read. -/
def scan (named readable : SItem → Bool) : List SItem → Except Fault (Option SItem)
  | [] => .ok none
  | i :: rest =>
    if readable i then if named i then .ok (some i) else scan named readable rest
    else .error .unmapped

/-- `kh_unregister_service`. -/
def unregisterName (service : ServicePtr → Service) (home : ServicePtr → Option Handle)
    (r : Registry) (name : Option ServiceName) : Except Fault Registry :=
  match name with
  | none => .ok r
  | some name =>
    match scan (fun i => strncmpEq name.toList (service i.s).name.toList) (r.readable home)
        r.services with
    | .error x => .error x
    | .ok none => .ok r
    | .ok (some i) => .ok (r.unregisterItem i)

/-- The calls of `kh_unregister_service` that a finit function makes. -/
def unregisterNames (service : ServicePtr → Service) (home : ServicePtr → Option Handle) :
    List (Option ServiceName) → Registry → Except Fault Registry
  | [], r => .ok r
  | name :: names, r =>
    match r.unregisterName service home name with
    | .error x => .error x
    | .ok r => unregisterNames service home names r

/-! ## The loop -/

/-- `__unload_service` of an item. The message about a finit function that failed reads
    the name of the service from the item. -/
def unloadItem (service : ServicePtr → Service) (home : ServicePtr → Option Handle) (r : Registry)
    (i : SItem) (f : Finit) : Except Fault (Int × Registry) :=
  match i.libhandle with
  | none => .ok (0, r.unregisterItem i)
  | some lh =>
    if r.refs lh = 0 then .error .closed
    else
      match f with
      | some (names, ret) =>
        match unregisterNames service home names r with
        | .error x => .error x
        | .ok r =>
          if ret = 0 then .ok (0, r.dlclose lh)
          else if i ∉ r.services then .error .freed
          else if r.readable home i then .ok (1, r.dlclose lh)
          else .error .unmapped
      | none => .ok (0, (r.unregisterItem i).dlclose lh)

/-- An iteration of `list_for_each_safe` at the item `p`, whose link is read first. -/
def unloadAt (service : ServicePtr → Service) (home : ServicePtr → Option Handle) (r : Registry)
    (p : Nat) (f : Finit) : Except Fault (Int × Registry) :=
  match r.services.find? (·.addr = p) with
  | none => .error .freed
  | some i =>
    match r.unloadItem service home i f with
    | .error x => .error x
    | .ok (ret, r') => .ok (ret, { r' with walk := (r.following i).map (·.addr) })

/-- The loop from iteration `k` on, with `e` as the sum so far; `fin k` is the finit function
    that iteration `k` finds. It has no result if it takes more than `fuel` iterations. -/
def unloadLoop (service : ServicePtr → Service) (home : ServicePtr → Option Handle)
    (fin : Nat → Finit) :
    (fuel k : Nat) → Int → Registry → Option (Except Fault (Int × Registry))
  | fuel, k, e, r =>
    match fuel, r.walk with
    | _, none => some (.ok (e, r))
    | 0, some _ => none
    | fuel + 1, some p =>
      match r.unloadAt service home p (fin k) with
      | .error x => some (.error x)
      | .ok (ret, r') => unloadLoop service home fin fuel (k + 1) (e + ret) r'

/-- The loop comes to the first item. -/
def startWalk (r : Registry) : Registry := { r with walk := r.services.head?.map (·.addr) }

/-- `kh_unload_all_services`, for at most `fuel` iterations. -/
def khUnloadAllServices (service : ServicePtr → Service) (home : ServicePtr → Option Handle)
    (fin : Nat → Finit) (r : Registry) (fuel : Nat) : Option (Except Fault (Int × Registry)) :=
  unloadLoop service home fin fuel 0 0 r.startWalk

/-- The loop has unloaded the items `past`, with `e` as the sum, and goes on in `s`. -/
inductive Visited (service : ServicePtr → Service) (home : ServicePtr → Option Handle)
    (fin : Nat → Finit) (r : Registry) : List SItem → Int → Registry → Prop where
  | start : Visited service home fin r [] 0 r.startWalk
  | next {past : List SItem} {e ret : Int} {s s' : Registry} {i : SItem} :
      Visited service home fin r past e s → i ∈ s.services → s.walk = some i.addr →
      s.unloadItem service home i (fin past.length) = .ok (ret, s') →
      Visited service home fin r (past ++ [i]) (e + ret)
        { s' with walk := (s.following i).map (·.addr) }

/-- After the items `past` the loop comes to `i` in the state `s`. -/
def ComesTo (service : ServicePtr → Service) (home : ServicePtr → Option Handle)
    (fin : Nat → Finit) (r : Registry) (past : List SItem) (s : Registry) (i : SItem) : Prop :=
  (∃ e, Visited service home fin r past e s) ∧ i ∈ s.services ∧ s.walk = some i.addr

/-! ## What an iteration has to meet -/

/-- Unloading `i` takes `j` off the list. -/
def Takes (service : ServicePtr → Service) (r : Registry) (i : SItem) (f : Finit) (j : SItem) :
    Prop :=
  match i.libhandle with
  | none => j = i
  | some _ => TakenOff service r i f j

/-- A look-up of the name reads the names of services in memory only. -/
def Looked (service : ServicePtr → Service) (home : ServicePtr → Option Handle) (r : Registry)
    (name : Option ServiceName) : Prop :=
  name.isSome → ∀ pre i post, r.services = pre ++ i :: post →
    (∀ j ∈ pre, named service j name = false) → r.readable home i = true

/-- The registry after the calls of `kh_unregister_service` with the names. -/
def unregistered (service : ServicePtr → Service) (r : Registry)
    (names : List (Option ServiceName)) : Registry :=
  names.foldl (fun r name => (r.khUnregisterService service name).2) r

/-- So do the look-ups of all names, each after the calls with those before it. -/
def AllLooked (service : ServicePtr → Service) (home : ServicePtr → Option Handle) (r : Registry)
    (names : List (Option ServiceName)) : Prop :=
  ∀ before name rest, names = before ++ name :: rest →
    Looked service home (unregistered service r before) name

/-- The look-ups of the finit function, if it is called. -/
def FinitLooked (service : ServicePtr → Service) (home : ServicePtr → Option Handle) (r : Registry)
    (i : SItem) (f : Finit) : Prop :=
  ∀ lh names ret, i.libhandle = some lh → f = some (names, ret) → AllLooked service home r names

/-- A finit function that fails has left the item, and its service in memory, for the
    message. -/
def Reported (service : ServicePtr → Service) (home : ServicePtr → Option Handle) (r : Registry)
    (i : SItem) (f : Finit) : Prop :=
  ∀ lh names ret, i.libhandle = some lh → f = some (names, ret) → ret ≠ 0 →
    ¬ Takes service r i f i ∧ r.readable home i = true

/-- What `__unload_service` of an item needs. -/
structure Unloadable (service : ServicePtr → Service) (home : ServicePtr → Option Handle)
    (r : Registry) (i : SItem) (f : Finit) : Prop where
  opened : ∀ lh, i.libhandle = some lh → 0 < r.refs lh
  looked : FinitLooked service home r i f
  reported : Reported service home r i f

/-- The iteration at `i` after the items `past`, for the libraries that `loads` left open. -/
structure Careful (service : ServicePtr → Service) (home : ServicePtr → Option Handle)
    (loads : List Load) (past : List SItem) (r : Registry) (i : SItem) (f : Finit) : Prop where
  loaded : ∀ lh, i.libhandle = some lh →
    (past.countP (·.libhandle = some lh)) < loads.countP (Load.opens lh)
  looked : FinitLooked service home r i f
  saved : ∀ j, r.following i = some j → ¬ Takes service r i f j
  reported : Reported service home r i f

/-- The finit function passes the name of every service of its library. -/
def Unregisters (service : ServicePtr → Service) (r : Registry) (i : SItem) (f : Finit) : Prop :=
  ∀ lh names ret, i.libhandle = some lh → f = some (names, ret) →
    ∀ j ∈ r.services, j.libhandle = some lh → ∃ name ∈ names, named service j name

section

variable {service : ServicePtr → Service} {home : ServicePtr → Option Handle} {fin : Nat → Finit}
  {r s s' : Registry} {i j : SItem}

/-! ## The look-ups -/

theorem scan_cases (named readable : SItem → Bool) (l : List SItem) :
    ((∀ pre i post, l = pre ++ i :: post → (∀ j ∈ pre, named j = false) → readable i = true) ∧
      scan named readable l = .ok (l.find? named)) ∨
    (¬ (∀ pre i post, l = pre ++ i :: post → (∀ j ∈ pre, named j = false) → readable i = true) ∧
      scan named readable l = .error .unmapped) := by
  induction l with
  | nil => exact .inl ⟨fun pre i post h => by simp at h, rfl⟩
  | cons k l ih =>
    cases hk : readable k with
    | false =>
      refine .inr ⟨fun h => ?_, by simp only [scan, hk, Bool.false_eq_true, if_false]⟩
      rw [h [] k l rfl (by simp)] at hk
      cases hk
    | true =>
      cases hn : named k with
      | true =>
        refine .inl ⟨fun pre i post heq hpre => ?_, by simp [scan, hk, hn]⟩
        cases pre with
        | nil =>
          cases heq
          exact hk
        | cons j pre =>
          cases heq
          rw [hpre k List.mem_cons_self] at hn
          cases hn
      | false =>
        have hscan : scan named readable (k :: l) = scan named readable l := by
          simp [scan, hk, hn]
        rw [hscan, List.find?_cons_of_neg (by simp [hn])]
        refine ih.imp (And.imp_left fun h pre i post heq hpre => ?_) (And.imp_left fun h hall => ?_)
        · cases pre with
          | nil =>
            cases heq
            exact hk
          | cons j pre =>
            cases heq
            exact h pre i post rfl fun j hj => hpre j (List.mem_cons_of_mem _ hj)
        · refine h fun pre i post heq hpre => hall (k :: pre) i post (by rw [heq]; rfl) ?_
          exact List.forall_mem_cons.mpr ⟨hn, hpre⟩

/-- A name is unregistered, unless its look-up comes to a service that is not in memory. -/
theorem unregisterName_cases (r : Registry) (name : Option ServiceName) :
    (Looked service home r name ∧
      r.unregisterName service home name = .ok (r.khUnregisterService service name).2) ∨
    (¬ Looked service home r name ∧ r.unregisterName service home name = .error .unmapped) := by
  cases name with
  | none =>
    refine .inl ⟨fun h => ?_, rfl⟩
    cases h
  | some n =>
    have hlooked : Looked service home r (some n) ↔ ∀ pre i post, r.services = pre ++ i :: post →
        (∀ j ∈ pre, named service j (some n) = false) → r.readable home i = true :=
      ⟨fun h => h rfl, fun h _ => h⟩
    rw [hlooked]
    refine (scan_cases (named service · (some n)) (r.readable home) r.services).imp ?_ ?_
    · rintro ⟨h, hscan⟩
      refine ⟨h, ?_⟩
      simp only [named, Option.any_some] at hscan
      simp only [unregisterName, hscan, khUnregisterService, lookupKgpuSitem]
      cases r.services.find? _ <;> rfl
    · rintro ⟨h, hscan⟩
      refine ⟨h, ?_⟩
      simp only [named, Option.any_some] at hscan
      simp only [unregisterName, hscan]

theorem unregisterNames_cases (names : List (Option ServiceName)) (r : Registry) :
    (AllLooked service home r names ∧
      unregisterNames service home names r = .ok (unregistered service r names)) ∨
    (¬ AllLooked service home r names ∧
      unregisterNames service home names r = .error .unmapped) := by
  induction names generalizing r with
  | nil => exact .inl ⟨fun before name rest h => by simp at h, rfl⟩
  | cons name names ih =>
    rcases @unregisterName_cases service home r name with ⟨hone, heq⟩ | ⟨hone, heq⟩
    · simp only [unregisterNames, heq]
      refine (ih (r.khUnregisterService service name).2).imp (And.imp_left fun h => ?_)
        (And.imp_left fun h hall => ?_)
      · intro before name' rest hsplit
        cases before with
        | nil =>
          cases hsplit
          exact hone
        | cons _ before =>
          cases hsplit
          exact h before name' rest rfl
      · exact h fun before name' rest hsplit =>
          hall (name :: before) name' rest (by rw [hsplit]; rfl)
    · refine .inr ⟨fun hall => hone (hall [] name names rfl), ?_⟩
      simp only [unregisterNames, heq]

/-! ## One item -/

/-- What unloading an item does. -/
structure ItemUnloaded (service : ServicePtr → Service) (r : Registry) (i : SItem) (f : Finit)
    (r' : Registry) : Prop where
  sublist : r'.services.Sublist r.services
  mem_iff : ∀ j ∈ r.services, j ∈ r'.services ↔ ¬ Takes service r i f j
  refs : ∀ lh, r'.refs lh + (if i.libhandle = some lh then 1 else 0) = r.refs lh
  next : r'.next = r.next

theorem Unloaded.item {f : Finit} {lh : Handle} (h : Unloaded service r i f lh s)
    (hi : i.libhandle = some lh) (hopen : 0 < r.refs lh) : ItemUnloaded service r i f s where
  sublist := h.sublist
  mem_iff := by
    intro j hj
    rw [h.mem_iff j hj, Takes, hi]
  refs := by
    intro h'
    rw [h.refs, hi]
    by_cases hh : h' = lh
    · subst hh
      rw [Function.update_self, if_pos rfl]
      exact Nat.succ_pred_eq_of_pos hopen
    · rw [Function.update_of_ne hh, if_neg fun heq => hh (Option.some.inj heq).symm]
      rfl
  next := h.next

theorem unregisterItem_item (hd : r.Distinct) (hi : i.libhandle = none) (f : Finit) :
    ItemUnloaded service r i f (r.unregisterItem i) where
  sublist := List.erase_sublist
  mem_iff := by
    intro j hj
    rw [Takes, hi]
    change j ∈ r.services.erase i ↔ _
    rw [hd.services_nodup.mem_erase_iff]
    exact and_iff_left hj
  refs := by
    intro lh
    rw [hi, if_neg nofun]
    rfl
  next := rfl

/-- What the finit function of an open library comes to. -/
theorem unloadItem_some {lh : Handle} {names : List (Option ServiceName)} {ret : Int}
    (hi : i.libhandle = some lh) (hopen : 0 < r.refs lh) :
    r.unloadItem service home i (some (names, ret)) =
      match unregisterNames service home names r with
      | .error x => .error x
      | .ok r =>
        if ret = 0 then .ok (0, r.dlclose lh)
        else if i ∉ r.services then .error .freed
        else if r.readable home i then .ok (1, r.dlclose lh)
        else .error .unmapped := by
  simp only [unloadItem, hi, if_neg (Nat.ne_of_gt hopen)]

theorem unregistered_refs (names : List (Option ServiceName)) :
    (unregistered service r names).refs = r.refs := by
  rw [unregistered, unregisterAll_eq]

/-- A finit function is called, and unless it fails or comes to a service that is not in
    memory, the library is closed. -/
theorem unloadItem_finit {lh : Handle} {names : List (Option ServiceName)} {v : Int}
    (hd : r.Distinct) (hi : i ∈ r.services) (hlib : i.libhandle = some lh) (hopen : 0 < r.refs lh) :
    (Unloadable service home r i (some (names, v)) ∧
      ∃ ret r', r.unloadItem service home i (some (names, v)) = .ok (ret, r') ∧
        r.unloadService service i (some (names, v)) = some (ret, r') ∧
        ItemUnloaded service r i (some (names, v)) r') ∨
    (¬ Unloadable service home r i (some (names, v)) ∧
      ∃ x, r.unloadItem service home i (some (names, v)) = .error x) := by
  obtain ⟨ret, r', hservice, hun⟩ :=
    @unloadService_outcome service r i lh hd.services_nodup hlib hopen (some (names, v))
  have hitem := hun.item hlib hopen
  have hclosed : (if v ≠ 0 then 1 else 0) = ret ∧ (unregistered service r names).dlclose lh = r' := by
    simp only [unloadService, hlib, if_neg (Nat.ne_of_gt hopen), Option.some.injEq,
      Prod.mk.injEq] at hservice
    exact hservice
  obtain ⟨hret, hr'⟩ := hclosed
  have hunloadable : Unloadable service home r i (some (names, v)) ↔
      AllLooked service home r names ∧
        (v ≠ 0 → ¬ Takes service r i (some (names, v)) i ∧ r.readable home i = true) := by
    constructor
    · intro h
      exact ⟨h.looked lh names v hlib rfl, h.reported lh names v hlib rfl⟩
    · rintro ⟨hall, hrep⟩
      refine ⟨fun lh' hlh' => ?_, fun _ _ _ _ hf => ?_, fun _ _ _ _ hf => ?_⟩
      · cases hlib.symm.trans hlh'
        exact hopen
      · cases hf
        exact hall
      · cases hf
        exact hrep
  have hread : (unregistered service r names).readable home i = r.readable home i := by
    simp only [readable, unregistered_refs]
  have hmem : i ∈ (unregistered service r names).services ↔
      ¬ Takes service r i (some (names, v)) i := by
    rw [← hitem.mem_iff i hi, ← hr']
    rfl
  rw [hunloadable, unloadItem_some hlib hopen]
  rcases @unregisterNames_cases service home names r with ⟨hall, heq⟩ | ⟨hall, heq⟩
  · simp only [heq, hread]
    by_cases hv : v = 0
    · refine .inl ⟨⟨hall, absurd hv⟩, ret, r', ?_, hservice, hitem⟩
      rw [if_pos hv, hr', ← hret, if_neg (not_not.mpr hv)]
    · by_cases hin : i ∈ (unregistered service r names).services
      · rw [if_neg hv, if_neg (not_not.mpr hin)]
        by_cases hr : r.readable home i = true
        · refine .inl ⟨⟨hall, fun _ => ⟨hmem.mp hin, hr⟩⟩, ret, r', ?_, hservice, hitem⟩
          rw [if_pos hr, hr', ← hret, if_pos hv]
        · exact .inr ⟨fun h => hr (h.2 hv).2, .unmapped, if_neg hr⟩
      · refine .inr ⟨fun h => hin (hmem.mpr (h.2 hv).1), .freed, ?_⟩
        rw [if_neg hv, if_pos hin]
  · exact .inr ⟨fun h => hall h.1, .unmapped, by simp only [heq]⟩

/-- An item is unloaded when its library is open, its finit function comes to services in
    memory only and the message finds its service; otherwise the helper is stopped. -/
theorem unloadItem_outcome (hd : r.Distinct) (hi : i ∈ r.services) (f : Finit) :
    (Unloadable service home r i f ∧
      ∃ ret r', r.unloadItem service home i f = .ok (ret, r') ∧
        r.unloadService service i f = some (ret, r') ∧ ItemUnloaded service r i f r') ∨
    (¬ Unloadable service home r i f ∧ ∃ x, r.unloadItem service home i f = .error x) := by
  cases hlib : i.libhandle with
  | none =>
    have hnot : ∀ lh, i.libhandle ≠ some lh := by
      intro lh hlh
      rw [hlib] at hlh
      cases hlh
    refine .inl ⟨⟨fun lh hlh => absurd hlh (hnot lh), fun lh _ _ hlh => absurd hlh (hnot lh),
      fun lh _ _ hlh => absurd hlh (hnot lh)⟩, 0, _, ?_, ?_, unregisterItem_item hd hlib f⟩
    · simp only [unloadItem, hlib]
    · simp only [unloadService, hlib]
  | some lh =>
    by_cases hopen : 0 < r.refs lh
    · cases f with
      | some f => exact unloadItem_finit hd hi hlib hopen
      | none =>
        obtain ⟨ret, r', hservice, hun⟩ :=
          @unloadService_outcome service r i lh hd.services_nodup hlib hopen none
        refine .inl ⟨⟨fun lh' hlh' => ?_, fun _ _ _ _ hf => ?_, fun _ _ _ _ hf => ?_⟩,
          ret, r', ?_, hservice, hun.item hlib hopen⟩
        · cases hlib.symm.trans hlh'
          exact hopen
        · cases hf
        · cases hf
        · have hne : ¬ r.refs lh = 0 := Nat.ne_of_gt hopen
          simp only [unloadService, hlib, if_neg hne, Option.some.injEq] at hservice
          simp only [unloadItem, hlib, if_neg hne, hservice]
    · refine .inr ⟨fun h => hopen (h.opened lh hlib), .closed, ?_⟩
      have hzero : r.refs lh = 0 := Nat.eq_zero_of_not_pos hopen
      simp only [unloadItem, hlib, hzero, if_true]

theorem unloadItem_ok {f : Finit} {ret : Int} (hd : r.Distinct) (hi : i ∈ r.services)
    (h : r.unloadItem service home i f = .ok (ret, s)) :
    Unloadable service home r i f ∧ r.unloadService service i f = some (ret, s) ∧
      ItemUnloaded service r i f s := by
  rcases @unloadItem_outcome service home r i hd hi f with ⟨hok, _, _, heq, hun⟩ | ⟨-, _, heq⟩
  · cases heq.symm.trans h
    exact ⟨hok, hun⟩
  · cases heq.symm.trans h

/-! ## The items the loop comes to -/

theorem ItemUnloaded.distinct {f : Finit} (h : r.Distinct) (hun : ItemUnloaded service r i f s)
    (w : Option Nat) : Distinct { s with walk := w } := by
  refine ⟨fun j hj => ?_, h.nodup.sublist (hun.sublist.map _)⟩
  change j.addr < s.next
  rw [hun.next]
  exact h.lt_next j (hun.sublist.subset hj)

/-- The references of a library are those it had less the items of it that were unloaded. -/
theorem Visited.spec {past : List SItem} {e : Int} (hd : r.Distinct)
    (h : Visited service home fin r past e s) :
    s.Distinct ∧ ∀ lh, s.refs lh + past.countP (·.libhandle = some lh) = r.refs lh := by
  induction h with
  | start => exact ⟨⟨hd.lt_next, hd.nodup⟩, fun _ => rfl⟩
  | next _ hi _ hitem ih =>
    obtain ⟨hdis, hrefs⟩ := ih
    obtain ⟨-, -, hun⟩ := unloadItem_ok hdis hi hitem
    refine ⟨hun.distinct hdis _, fun lh => ?_⟩
    have hone := hun.refs lh
    have hall := hrefs lh
    rw [List.countP_append, List.countP_singleton]
    simp only [decide_eq_true_eq]
    omega

/-- The loop makes steps of the registry. -/
theorem Visited.run {past : List SItem} {e : Int} (hd : r.Distinct) (hw : r.walk = none)
    (h : Visited service home fin r past e s) :
    Run (step service) Free r
      (.unloadAll :: (List.range past.length).map fun k => .unloadNext (fin k)) s := by
  induction h with
  | start => exact Run.snoc .nil trivial (if_pos hw)
  | @next past e ret s s' i hprev hi hwalk hitem ih =>
    obtain ⟨hdis, -⟩ := hprev.spec hd
    obtain ⟨-, hun, -⟩ := unloadItem_ok hdis hi hitem
    rw [List.length_append, List.length_singleton, List.range_succ, List.map_append,
      ← List.cons_append]
    refine ih.snoc trivial ?_
    simp only [Registry.step, hwalk, hdis.find?_addr hi, hun, Option.map_some]

theorem following_eq (r : Registry) (i : SItem) : r.following i = (after r.services i).head? := rfl

theorem unloadAt_of_mem {f : Finit} (hd : r.Distinct) (hi : i ∈ r.services) :
    r.unloadAt service home i.addr f =
      match r.unloadItem service home i f with
      | .error x => .error x
      | .ok (ret, r') => .ok (ret, { r' with walk := (r.following i).map (·.addr) }) := by
  simp only [unloadAt, hd.find?_addr hi]

theorem unloadLoop_end {fuel k : Nat} {e : Int} (hw : r.walk = none) :
    unloadLoop service home fin fuel k e r = some (.ok (e, r)) := by
  unfold unloadLoop
  simp only [hw]

theorem unloadLoop_succ {fuel k p : Nat} {e : Int} (hw : r.walk = some p) :
    unloadLoop service home fin (fuel + 1) k e r =
      match r.unloadAt service home p (fin k) with
      | .error x => some (.error x)
      | .ok (ret, r') => unloadLoop service home fin fuel (k + 1) (e + ret) r' := by
  conv => lhs; unfold unloadLoop
  simp only [hw]

/-- The loop as a whole goes on from every state that it comes to. -/
theorem Visited.loop_eq {past : List SItem} {e : Int} (hd : r.Distinct)
    (h : Visited service home fin r past e s) (fuel : Nat) :
    r.khUnloadAllServices service home fin (fuel + past.length) =
      unloadLoop service home fin fuel past.length e s := by
  induction h generalizing fuel with
  | start => rfl
  | @next past e ret s s' i hprev hi hw hitem ih =>
    obtain ⟨hdis, -⟩ := hprev.spec hd
    have hfuel : fuel + (past ++ [i]).length = fuel + 1 + past.length := by
      rw [List.length_append, List.length_singleton]
      omega
    rw [hfuel, ih, List.length_append, List.length_singleton, unloadLoop_succ hw]
    simp only [unloadAt_of_mem hdis hi, hitem]

/-- At most `n` iterations are left. -/
def Within (n : Nat) (r : Registry) : Prop :=
  ∀ p, r.walk = some p → 0 < n ∧ ∀ i ∈ r.services, i.addr = p → (after r.services i).length < n

theorem within_start (hd : r.Distinct) : r.startWalk.Within r.services.length := by
  intro p hp
  obtain ⟨i, hi, -⟩ := Option.map_eq_some_iff.mp hp
  refine ⟨List.length_pos_of_mem (List.mem_of_head? hi), fun j hj _ => ?_⟩
  exact after_length_lt hd.services_nodup hj

/-- The saved item is one iteration nearer to the end, whatever was taken off. -/
theorem Within.next {n : Nat} {f : Finit} (h : r.Within (n + 1)) (hd : r.Distinct)
    (hi : i ∈ r.services) (hw : r.walk = some i.addr) (hun : ItemUnloaded service r i f s) :
    Within n { s with walk := (r.following i).map (·.addr) } := by
  intro p hp
  obtain ⟨j, hj, rfl⟩ := Option.map_eq_some_iff.mp hp
  have hnd := hd.services_nodup
  have hlen := (h _ hw).2 i hi rfl
  rw [after_cons hnd hi hj, List.length_cons] at hlen
  refine ⟨by omega, fun k hk haddr => ?_⟩
  have hkj : k = j := hd.inj (hun.sublist.subset hk) (following_mem hj) haddr
  subst hkj
  have hle := (after_sublist hnd hun.sublist hk).length_le
  change (after s.services k).length < n
  omega

/-- How the loop ends: behind the last item, at an item that has been freed, or at one that
    cannot be unloaded. -/
inductive Ends (service : ServicePtr → Service) (home : ServicePtr → Option Handle)
    (fin : Nat → Finit) (r : Registry) :
    Except Fault (Int × Registry) → Prop where
  | done {past : List SItem} {e : Int} {s : Registry} :
      Visited service home fin r past e s → s.walk = none → Ends service home fin r (.ok (e, s))
  | lost {past : List SItem} {e : Int} {s : Registry} {p : Nat} {x : Fault} :
      Visited service home fin r past e s → s.walk = some p → (∀ i ∈ s.services, i.addr ≠ p) →
      Ends service home fin r (.error x)
  | stopped {past : List SItem} {s : Registry} {i : SItem} {x : Fault} :
      ComesTo service home fin r past s i →
      ¬ Unloadable service home s i (fin past.length) →
      Ends service home fin r (.error x)

theorem Visited.ends {past : List SItem} {e : Int} {n : Nat} (hd : r.Distinct)
    (h : Visited service home fin r past e s) (hn : s.Within n) :
    ∃ out, (∀ fuel, n ≤ fuel → unloadLoop service home fin fuel past.length e s = some out) ∧
      Ends service home fin r out := by
  induction n generalizing past e s with
  | zero =>
    have hw : s.walk = none := Option.eq_none_iff_forall_ne_some.mpr fun p hp =>
      Nat.lt_irrefl 0 (hn p hp).1
    exact ⟨.ok (e, s), fun fuel _ => unloadLoop_end hw, .done h hw⟩
  | succ n ih =>
    obtain ⟨hdis, -⟩ := h.spec hd
    cases hw : s.walk with
    | none => exact ⟨.ok (e, s), fun fuel _ => unloadLoop_end hw, .done h hw⟩
    | some p =>
      by_cases hfound : ∃ i ∈ s.services, i.addr = p
      · obtain ⟨i, hi, rfl⟩ := hfound
        rcases @unloadItem_outcome service home s i hdis hi (fin past.length) with
          ⟨-, ret, s', heq, -, hun⟩ | ⟨hnot, x, heq⟩
        · obtain ⟨out, hout, hends⟩ := ih (Visited.next h hi hw heq) (hn.next hdis hi hw hun)
          refine ⟨out, fun fuel hle => ?_, hends⟩
          obtain ⟨fuel, rfl⟩ := Nat.exists_eq_add_of_lt hle
          have hrest := hout (n + fuel) (Nat.le_add_right _ _)
          rw [List.length_append, List.length_singleton] at hrest
          rw [unloadLoop_succ hw, unloadAt_of_mem hdis hi, heq]
          exact hrest
        · refine ⟨.error x, fun fuel hle => ?_, .stopped ⟨⟨e, h⟩, hi, hw⟩ hnot⟩
          obtain ⟨fuel, rfl⟩ := Nat.exists_eq_add_of_lt hle
          rw [unloadLoop_succ hw, unloadAt_of_mem hdis hi, heq]
      · have hnone : s.services.find? (·.addr = p) = none := by
          refine List.find?_eq_none.mpr fun i hi haddr => ?_
          exact hfound ⟨i, hi, of_decide_eq_true haddr⟩
        refine ⟨.error .freed, fun fuel hle => ?_, .lost h hw fun i hi haddr => ?_⟩
        · obtain ⟨fuel, rfl⟩ := Nat.exists_eq_add_of_lt hle
          rw [unloadLoop_succ hw, unloadAt, hnone]
        · exact hfound ⟨i, hi, haddr⟩

theorem khUnloadAllServices_ends (hd : r.Distinct) :
    ∃ out, (∀ fuel, r.services.length ≤ fuel →
        r.khUnloadAllServices service home fin fuel = some out) ∧
      Ends service home fin r out :=
  Visited.ends hd .start (within_start hd)

/-! ## Getting through -/

/-- An item that the loop comes to and that has been freed was taken off as the saved one. -/
theorem Visited.taken_of_lost {past : List SItem} {e : Int} {p : Nat} (hd : r.Distinct)
    (h : Visited service home fin r past e s) (hw : s.walk = some p)
    (hlost : ∀ i ∈ s.services, i.addr ≠ p) :
    ∃ before s₀ i j, ComesTo service home fin r before s₀ i ∧ s₀.following i = some j ∧
      Takes service s₀ i (fin before.length) j := by
  cases h with
  | start =>
    obtain ⟨i, hi, haddr⟩ := Option.map_eq_some_iff.mp hw
    exact absurd haddr (hlost i (List.mem_of_head? hi))
  | @next before e ret s₀ s' i hprev hi hw₀ hitem =>
    obtain ⟨hdis, -⟩ := hprev.spec hd
    obtain ⟨-, -, hun⟩ := unloadItem_ok hdis hi hitem
    obtain ⟨j, hj, haddr⟩ := Option.map_eq_some_iff.mp hw
    refine ⟨before, s₀, i, j, ⟨⟨_, hprev⟩, hi, hw₀⟩, hj, ?_⟩
    by_contra hstays
    exact hlost j ((hun.mem_iff j (following_mem hj)).mpr hstays) haddr

/-- A loop that gets through has unloaded every item it came to, and found the saved one. -/
theorem ComesTo.of_ok {past : List SItem} {n : Nat} {out : Int × Registry} (hd : r.Distinct)
    (hout : ∀ fuel, n ≤ fuel → r.khUnloadAllServices service home fin fuel = some (.ok out))
    (h : ComesTo service home fin r past s i) :
    Unloadable service home s i (fin past.length) ∧
      ∀ j, s.following i = some j → ¬ Takes service s i (fin past.length) j := by
  obtain ⟨⟨e, hvis⟩, hi, hw⟩ := h
  obtain ⟨hdis, -⟩ := hvis.spec hd
  have hloop : ∀ k, unloadLoop service home fin (n + k) past.length e s = some (.ok out) := by
    intro k
    rw [← hvis.loop_eq hd, hout _ (by omega)]
  rcases @unloadItem_outcome service home s i hdis hi (fin past.length) with
    ⟨hok, ret, s', heq, -, hun⟩ | ⟨-, x, heq⟩
  · refine ⟨hok, fun j hj htakes => ?_⟩
    have hgone : j ∉ s'.services := fun hmem =>
      (hun.mem_iff j (following_mem hj)).mp hmem htakes
    have hnone : s'.services.find? (·.addr = j.addr) = none := by
      refine List.find?_eq_none.mpr fun k hk haddr => hgone ?_
      rwa [← hdis.inj (hun.sublist.subset hk) (following_mem hj) (of_decide_eq_true haddr)]
    have htwo := hloop 2
    have hw' : (s.following i).map (·.addr) = some j.addr := by rw [hj]; rfl
    rw [unloadLoop_succ hw, unloadAt_of_mem hdis hi, heq] at htwo
    change unloadLoop service home fin (n + 1) _ _ { s' with walk := _ } = _ at htwo
    rw [unloadLoop_succ hw', unloadAt] at htwo
    simp only [hnone] at htwo
    cases htwo
  · have hone := hloop 1
    rw [unloadLoop_succ hw, unloadAt_of_mem hdis hi, heq] at hone
    cases hone

/-! ## Leaving nothing -/

/-- The first item of the list is taken off when its finit function passes its name. -/
theorem Unregisters.takes {f : Finit} {post : List SItem} (h : Unregisters service r i f)
    (hnd : r.services.Nodup) (hl : r.services = i :: post) : Takes service r i f i := by
  have hi : i ∈ r.services := hl ▸ List.mem_cons_self
  unfold Takes
  cases hlib : i.libhandle with
  | none => rfl
  | some lh =>
    cases f with
    | none => rfl
    | some f =>
      obtain ⟨names, ret⟩ := f
      intro pre post' hsplit
      have hpre : pre = [] := by
        cases pre with
        | nil => rfl
        | cons k pre =>
          cases hl.symm.trans hsplit
          rw [hl] at hnd
          exact absurd (List.mem_append_right pre List.mem_cons_self) (List.nodup_cons.mp hnd).1
      obtain ⟨name, hname, hnamed⟩ := h lh names ret hlib rfl i hi hlib
      rw [hpre]
      exact List.countP_pos_iff.mpr ⟨name, hname, hnamed⟩

/-- The loop is always at the first item when finit functions pass the names of all
    services of their libraries, so nothing is left behind it. -/
theorem Visited.at_head {past : List SItem} {e : Int} (hd : r.Distinct)
    (hall : ∀ past s i, ComesTo service home fin r past s i →
      Unregisters service s i (fin past.length))
    (h : Visited service home fin r past e s) :
    (s.walk = none → s.services = []) ∧
      ∀ i ∈ s.services, s.walk = some i.addr → ∃ post, s.services = i :: post := by
  induction h with
  | start =>
    refine ⟨fun hw => List.head?_eq_none_iff.mp (Option.map_eq_none_iff.mp hw), fun i hi hw => ?_⟩
    obtain ⟨k, hk, haddr⟩ := Option.map_eq_some_iff.mp hw
    rw [← hd.inj (List.mem_of_head? hk) hi haddr]
    exact List.head?_eq_some_iff.mp hk
  | @next past e ret s s' i hprev hi hw hitem ih =>
    obtain ⟨hdis, -⟩ := hprev.spec hd
    have hnd := hdis.services_nodup
    obtain ⟨-, -, hun⟩ := unloadItem_ok hdis hi hitem
    obtain ⟨post, hpost⟩ := ih.2 i hi hw
    have htakes := (hall past s i ⟨⟨e, hprev⟩, hi, hw⟩).takes hnd hpost
    -- what is left is part of what came after the item
    have hsub : s'.services.Sublist post := by
      have hcons := hun.sublist
      rw [hpost] at hcons
      rcases List.sublist_cons_iff.mp hcons with hsub | ⟨rest, heq, -⟩
      · exact hsub
      · have hmem : i ∈ s'.services := heq ▸ List.mem_cons_self
        exact absurd htakes ((hun.mem_iff i hi).mp hmem)
    have hfol : s.following i = post.head? := by
      rw [following_eq, after_eq hnd (show s.services = [] ++ i :: post from hpost)]
    refine ⟨fun hend => ?_, fun k hk hwk => ?_⟩
    · rw [hfol] at hend
      rw [List.head?_eq_none_iff.mp (Option.map_eq_none_iff.mp hend)] at hsub
      exact List.sublist_nil.mp hsub
    · rw [hfol] at hwk
      obtain ⟨j, hj, haddr⟩ := Option.map_eq_some_iff.mp hwk
      obtain ⟨post, rfl⟩ := List.head?_eq_some_iff.mp hj
      have hjs : j ∈ s.services := hpost ▸ List.mem_cons_of_mem _ List.mem_cons_self
      have hjk : j = k := hdis.inj hjs (hun.sublist.subset hk) haddr
      subst hjk
      rcases List.sublist_cons_iff.mp hsub with hsub | ⟨rest, heq, -⟩
      · rw [hpost] at hnd
        exact absurd (hsub.subset hk) (List.nodup_cons.mp (List.nodup_cons.mp hnd).2).1
      · exact ⟨rest, heq⟩

/-! ## After any loads -/

theorem loaded_distinct (loads : List Load) : (loaded loads).Distinct :=
  List.foldlRecOn loads _ ⟨nofun, List.nodup_nil⟩ fun _ h l _ => h.load l

theorem khLoadService_opens (r : Registry) (l : Load) (lh : Handle) :
    (r.khLoadService l).2.refs lh = r.refs lh + if l.opens lh then 1 else 0 := by
  cases l with
  | openFailed => rfl
  | noInit h =>
    rw [khLoadService_noInit]
    rfl
  | init h regs ret =>
    rw [khLoadService_refs]
    by_cases hh : lh = h
    · subst hh
      simp [Load.opens]
    · rw [Function.update_of_ne hh]
      simp [Load.opens, Ne.symm hh]

/-- A library has a reference for each load of it that succeeded. -/
theorem loaded_refs (loads : List Load) (lh : Handle) :
    (loaded loads).refs lh = loads.countP (Load.opens lh) := by
  have hgen : ∀ r : Registry, (loads.foldl (fun r l => (r.khLoadService l).2) r).refs lh =
      r.refs lh + loads.countP (Load.opens lh) := by
    induction loads with
    | nil => exact fun _ => rfl
    | cons l loads ih =>
      intro r
      rw [List.foldl_cons, ih, khLoadService_opens, List.countP_cons]
      omega
  rw [loaded, hgen]
  exact Nat.zero_add _

end

/-- For any loaded libraries and any finit functions, `kh_unload_all_services` ends after at
    most one iteration for each item. It reads no item that has been freed, looks into no
    library that is closed and reads no name in one exactly when every iteration is careful;
    and when it returns 0 and every finit function passes the names of all services of its
    library, it leaves no service. -/
theorem unload_all_services_safe (service : ServicePtr → Service)
    (home : ServicePtr → Option Handle) (loads : List Load) (fin : Nat → Finit) :
    ∃ out, (∀ fuel, (loaded loads).services.length ≤ fuel →
        (loaded loads).khUnloadAllServices service home fin fuel = some out) ∧
      ((∃ e r, out = .ok (e, r)) ↔ ∀ past s i, ComesTo service home fin (loaded loads) past s i →
        Careful service home loads past s i (fin past.length)) ∧
      ∀ r, out = .ok (0, r) →
        (∀ past s i, ComesTo service home fin (loaded loads) past s i →
          Unregisters service s i (fin past.length)) →
        r.services = [] := by
  have hd := loaded_distinct loads
  obtain ⟨out, hout, hends⟩ := @khUnloadAllServices_ends service home fin _ hd
  -- the references of a library count how often it was loaded and not closed
  have hopen : ∀ past s i, ComesTo service home fin (loaded loads) past s i →
      ((∀ lh, i.libhandle = some lh → 0 < s.refs lh) ↔ ∀ lh, i.libhandle = some lh →
        past.countP (·.libhandle = some lh) < loads.countP (Load.opens lh)) := by
    rintro past s i ⟨⟨e, hvis⟩, -⟩
    refine forall₂_congr fun lh _ => ?_
    have hrefs := (hvis.spec hd).2 lh
    rw [loaded_refs] at hrefs
    omega
  refine ⟨out, hout, ⟨?_, fun hcareful => ?_⟩, ?_⟩
  · rintro ⟨e, r, rfl⟩ past s i hcome
    obtain ⟨hok, hsaved⟩ := hcome.of_ok hd hout
    exact ⟨(hopen past s i hcome).mp hok.opened, hok.looked, hsaved, hok.reported⟩
  · cases hends with
    | done hvis hw => exact ⟨_, _, rfl⟩
    | lost hvis hw hlost =>
      obtain ⟨past, s, i, j, hcome, hj, htakes⟩ := hvis.taken_of_lost hd hw hlost
      exact absurd htakes ((hcareful past s i hcome).saved j hj)
    | stopped hcome hnot =>
      have hc := hcareful _ _ _ hcome
      exact absurd ⟨(hopen _ _ _ hcome).mpr hc.loaded, hc.looked, hc.reported⟩ hnot
  · rintro r rfl hall
    cases hends with
    | done hvis hw => exact (hvis.at_head hd hall).1 hw

/-- Services whose names have one letter, from `A` on. -/
def lettered (p : ServicePtr) : Service :=
  { Config.small.service p with name := (Vector.replicate 32 0).set 0 (UInt8.ofNat (65 + p)) }

-- two libraries of one service each get unloaded
example :
    ∃ r, khUnloadAllServices lettered (fun p => some (p + 1))
        (fun k => some ([some (lettered k).name], 0))
        (loaded [.init 1 [⟨some 0, some 1, true⟩] 0, .init 2 [⟨some 1, some 2, true⟩] 0]) 2 =
      some (.ok (0, r)) ∧ r.services = [] :=
  ⟨_, rfl, rfl⟩

/-- The loop is stopped by a library with two services whose finit function unregisters
    both, by one that has two services and no finit function, by a finit function that
    unregisters its service and fails, and by the one behind a finit function that leaves
    its service on the list. -/
theorem not_unload_all_services_safe :
    (loaded [.init 1 [⟨some 0, some 1, true⟩, ⟨some 1, some 1, true⟩] 0]).khUnloadAllServices
        lettered (fun _ => some 1)
        (fun _ => some ([some (lettered 0).name, some (lettered 1).name], 0)) 2 =
      some (.error .freed) ∧
    (loaded [.init 1 [⟨some 0, some 1, true⟩, ⟨some 1, some 1, true⟩] 0]).khUnloadAllServices
        lettered (fun _ => some 1) (fun _ => none) 2 =
      some (.error .closed) ∧
    (loaded [.init 1 [⟨some 0, some 1, true⟩] 0]).khUnloadAllServices
        lettered (fun _ => some 1) (fun _ => some ([some (lettered 0).name], 1)) 1 =
      some (.error .freed) ∧
    (loaded [.init 1 [⟨some 0, some 1, true⟩] 0,
        .init 2 [⟨some 1, some 2, true⟩] 0]).khUnloadAllServices
        lettered (fun p => some (p + 1))
        (fun k => some (if k = 0 then [] else [some (lettered 1).name], 0)) 2 =
      some (.error .unmapped) :=
  ⟨rfl, rfl, rfl, rfl⟩

end Registry
end Kgpu
