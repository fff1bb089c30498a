-- SUMMARY: The operations of one request on the two memories and how far they have come.
import Kgpu.Gpu.Device

/-!
# The work for one request

The device address of a host byte is its offset in its region, moved to the region
of the device (`Config.deviceByte`). Seen through that map, the three operations of
a request read and write its own host bytes and their images only, so they commute
with the operations of a request that has no byte in common with it.
-/

namespace Kgpu

open Library

/-! ## Host bytes and device bytes -/

instance (m : MemInfo) (x : Nat) : Decidable (m.Has x) := inferInstanceAs (Decidable (_ ∧ _))

namespace Config

variable {c : Config} {sr : ServiceRequest} {x y : Nat}

/-- A byte of one of the two host regions. -/
def HostByte (c : Config) (x : Nat) : Prop := c.hostbuf.Has x ∨ c.hostvma.Has x

/-- Where a host byte is copied to. -/
def deviceByte (c : Config) (x : Nat) : Nat :=
  if c.hostbuf.Has x then c.devbuf.uva.toNat + (x - c.hostbuf.uva.toNat)
  else c.devbuf4vma.uva.toNat + (x - c.hostvma.uva.toNat)

theorem deviceByte_inj (hc : c.Regions) (hx : c.HostByte x) (hy : c.HostByte y)
    (h : c.deviceByte x = c.deviceByte y) : x = y := by
  have hdev := hc.dev
  have hsepx := hc.host x
  have hsepy := hc.host y
  by_cases hbx : c.hostbuf.Has x <;> by_cases hby : c.hostbuf.Has y <;>
    simp only [deviceByte, hbx, hby, if_true, if_false] at h <;>
    simp only [HostByte, MemInfo.Has] at hx hy hsepx hsepy hbx hby <;> omega

/-- An address of `hostbuf` keeps its offset in `devbuf`. -/
theorem deviceAddr_hostbuf (hc : c.Regions) {a : UL} (ha : c.hostbuf.Has a.toNat) :
    (c.deviceAddr a).toNat = c.devbuf.uva.toNat + (a.toNat - c.hostbuf.uva.toNat) := by
  have hdbuf := hc.devbuf
  have hw : c.hostbuf.within a = true := (addrWithin_iff hc.hostbuf).mpr ha
  rw [deviceAddr, if_pos hw]
  unfold MemInfo.Has at ha
  exact addrRebase_toNat ha.1 (by omega)

/-- An address of `hostvma` keeps its offset in `devbuf4vma`. -/
theorem deviceAddr_hostvma (hc : c.Regions) {a : UL} (ha : c.hostvma.Has a.toNat) :
    (c.deviceAddr a).toNat = c.devbuf4vma.uva.toNat + (a.toNat - c.hostvma.uva.toNat) := by
  have hdvma := hc.devbuf4vma
  have hw : ¬ c.hostbuf.within a = true := by
    rw [MemInfo.within, addrWithin_iff hc.hostbuf]
    exact fun hb => hc.host _ ⟨hb, ha⟩
  rw [deviceAddr, if_neg hw]
  unfold MemInfo.Has at ha
  exact addrRebase_toNat ha.1 (by omega)

/-- The addresses of a range in one region are translated byte by byte. -/
theorem deviceAddr_deviceByte (hc : c.Regions) {a n : UL}
    (hin : (∀ x, a.toNat ≤ x ∧ x < a.toNat + n.toNat → c.hostbuf.Has x) ∨
      ∀ x, a.toNat ≤ x ∧ x < a.toNat + n.toNat → c.hostvma.Has x)
    (hx : a.toNat ≤ x ∧ x < a.toNat + n.toNat) :
    (c.deviceAddr a).toNat + (x - a.toNat) = c.deviceByte x := by
  rcases hin with hin | hin
  · have ha : c.hostbuf.Has a.toNat := hin _ ⟨Nat.le_refl _, by omega⟩
    have hxr : c.hostbuf.Has x := hin x hx
    rw [deviceAddr_hostbuf hc ha, deviceByte, if_pos hxr]
    unfold MemInfo.Has at ha
    omega
  · have ha : c.hostvma.Has a.toNat := hin _ ⟨Nat.le_refl _, by omega⟩
    have hxr : c.hostvma.Has x := hin x hx
    have hxb : ¬ c.hostbuf.Has x := fun hb => hc.host x ⟨hb, hxr⟩
    rw [deviceAddr_hostvma hc ha, deviceByte, if_neg hxb]
    unfold MemInfo.Has at ha
    omega

/-- A device byte lies in the translated range exactly when its host byte lies in the
    range. -/
theorem deviceByte_mem (hc : c.Regions) {a n : UL}
    (hin : (∀ x, a.toNat ≤ x ∧ x < a.toNat + n.toNat → c.hostbuf.Has x) ∨
      ∀ x, a.toNat ≤ x ∧ x < a.toNat + n.toNat → c.hostvma.Has x) (hx : c.HostByte x) :
    ((c.deviceAddr a).toNat ≤ c.deviceByte x ∧
      c.deviceByte x < (c.deviceAddr a).toNat + n.toNat) ↔
    (a.toNat ≤ x ∧ x < a.toNat + n.toNat) := by
  constructor
  · rintro ⟨hle, hlt⟩
    have hy : a.toNat ≤ a.toNat + (c.deviceByte x - (c.deviceAddr a).toNat) ∧
        a.toNat + (c.deviceByte x - (c.deviceAddr a).toNat) < a.toNat + n.toNat := by omega
    have heq := deviceAddr_deviceByte hc hin hy
    have hyhost : c.HostByte (a.toNat + (c.deviceByte x - (c.deviceAddr a).toNat)) :=
      hin.imp (fun h => h _ hy) fun h => h _ hy
    have hxy := deviceByte_inj hc hx hyhost (by rw [← heq]; omega)
    rw [hxy]
    exact hy
  · intro hr
    have heq := deviceAddr_deviceByte hc hin hr
    omega

theorem Contained.hostByte (h : c.Contained sr) (hx : sr.Own x) : c.HostByte x := by
  rcases hx with hx | hx
  · exact h.inp.imp (fun h => h x hx) fun h => h x hx
  · exact h.out.imp (fun h => h x hx) fun h => h x hx

/-- The device addresses of a request are those of its host addresses. -/
def Placed (c : Config) (sr : ServiceRequest) : Prop :=
  sr.din = c.deviceAddr sr.hin ∧ sr.dout = c.deviceAddr sr.hout

end Config

/-! ## The operations of a request -/

section Operations

variable {c : Config} {k : Kernels} {p : ServicePtr} {sr : ServiceRequest} {host dev : Memory} {x : Nat}

instance (sr : ServiceRequest) (x : Nat) : Decidable (sr.In x) := inferInstanceAs (Decidable (_ ∧ _))

instance (sr : ServiceRequest) (x : Nat) : Decidable (sr.Out x) := inferInstanceAs (Decidable (_ ∧ _))

theorem prepare_dev (hc : c.Regions) (hin : c.Contained sr) (hp : c.Placed sr)
    (hx : c.HostByte x) :
    ((defaultPrepare sr).exec (host, dev)).2 (c.deviceByte x) =
      if sr.In x then host x else dev (c.deviceByte x) := by
  have hmem := Config.deviceByte_mem hc hin.inp hx
  simp only [defaultPrepare, GpuOp.exec, Memory.copy, hp.1, hmem]
  split
  next hr =>
    have heq := Config.deviceAddr_deviceByte hc hin.inp hr
    rw [if_pos (show sr.In x from hr)]
    congr 1
    omega
  next hr => rw [if_neg (show ¬ sr.In x from hr)]

theorem launch_dev (hc : c.Regions) (hin : c.Contained sr) (hp : c.Placed sr)
    (hx : c.HostByte x) :
    ((launchKernel k p sr).exec (host, dev)).2 (c.deviceByte x) =
      if sr.Out x then
        k p sr.outsize (Memory.bytes (fun y => dev (c.deviceByte y)) sr.hin.toNat sr.insize.toNat)
          (x - sr.hout.toNat)
      else dev (c.deviceByte x) := by
  have hmem := Config.deviceByte_mem hc hin.out hx
  have hbytes : dev.bytes (c.deviceAddr sr.hin).toNat sr.insize.toNat =
      Memory.bytes (fun y => dev (c.deviceByte y)) sr.hin.toNat sr.insize.toNat := by
    refine List.map_congr_left fun i hi => ?_
    have hr : sr.hin.toNat ≤ sr.hin.toNat + i ∧
        sr.hin.toNat + i < sr.hin.toNat + sr.insize.toNat := by
      have := List.mem_range.mp hi
      omega
    have heq := Config.deviceAddr_deviceByte hc hin.inp hr
    change dev _ = dev (c.deviceByte (sr.hin.toNat + i))
    rw [← heq]
    congr 1
    omega
  simp only [launchKernel, GpuOp.exec, hp.1, hp.2, hmem, hbytes]
  split
  next hr =>
    have heq := Config.deviceAddr_deviceByte hc hin.out hr
    rw [if_pos (show sr.Out x from hr)]
    congr 1
    omega
  next hr => rw [if_neg (show ¬ sr.Out x from hr)]

theorem post_host (hc : c.Regions) (hin : c.Contained sr) (hp : c.Placed sr) :
    ((defaultPost sr).exec (host, dev)).1 x = if sr.Out x then dev (c.deviceByte x) else host x := by
  simp only [defaultPost, GpuOp.exec, Memory.copy, hp.2]
  split
  next hr =>
    rw [if_pos (show sr.Out x from hr), Config.deviceAddr_deviceByte hc hin.out hr]
  next hr => rw [if_neg (show ¬ sr.Out x from hr)]

/-- An operation of a request leaves the bytes of others alone. -/
theorem exec_other (hc : c.Regions) (hin : c.Contained sr) (hp : c.Placed sr) {op : GpuOp}
    (hop : op = defaultPrepare sr ∨ op = launchKernel k p sr ∨ op = defaultPost sr)
    (hx : c.HostByte x) (hown : ¬ sr.Own x) :
    (op.exec (host, dev)).1 x = host x ∧
      (op.exec (host, dev)).2 (c.deviceByte x) = dev (c.deviceByte x) := by
  have hnin : ¬ sr.In x := fun h => hown (.inl h)
  have hnout : ¬ sr.Out x := fun h => hown (.inr h)
  rcases hop with rfl | rfl | rfl
  · exact ⟨rfl, by rw [prepare_dev hc hin hp hx, if_neg hnin]⟩
  · exact ⟨rfl, by rw [launch_dev hc hin hp hx, if_neg hnout]⟩
  · exact ⟨by rw [post_host hc hin hp, if_neg hnout], rfl⟩

/-- The byte the output of a request is to have at an address. -/
def resultByte (k : Kernels) (p : ServicePtr) (sr : ServiceRequest) (host₀ : Memory) (x : Nat) :
    UInt8 :=
  k p sr.outsize (host₀.bytes sr.hin.toNat sr.insize.toNat) (x - sr.hout.toNat)

/-- How far the work for a request has come, from the host memory `host₀` it was read
    with, and what is still on its stream. -/
inductive Working (c : Config) (k : Kernels) (sr : ServiceRequest) (host₀ host dev : Memory)
    (ops : List GpuOp) : Prop where
  | waiting (hstate : sr.state.Early) (hhost : ∀ x, sr.Own x → host x = host₀ x) (hops : ops = [])
  | unserved (hs : sr.s = none) (hhost : ∀ x, sr.Own x → host x = host₀ x) (hops : ops = [])
  | toLoad (p : ServicePtr) (hs : sr.s = some p) (hhost : ∀ x, sr.Own x → host x = host₀ x)
      (hops : (sr.state = .prepared ∧ ops = [defaultPrepare sr]) ∨
        (sr.state = .running ∧ ops = [defaultPrepare sr, launchKernel k p sr]))
  | loaded (p : ServicePtr) (hs : sr.s = some p) (hhost : ∀ x, sr.Own x → host x = host₀ x)
      (hdev : ∀ x, sr.In x → dev (c.deviceByte x) = host₀ x)
      (hops : (sr.state = .prepared ∧ ops = []) ∨
        (sr.state = .running ∧ ops = [launchKernel k p sr]))
  | computed (p : ServicePtr) (hs : sr.s = some p) (hhost : ∀ x, sr.Own x → host x = host₀ x)
      (hdev : ∀ x, sr.Out x → dev (c.deviceByte x) = resultByte k p sr host₀ x)
      (hops : (sr.state = .running ∧ ops = []) ∨ (sr.state = .postExec ∧ ops = [defaultPost sr]))
  | stored (p : ServicePtr) (hs : sr.s = some p) (hstate : sr.state = .postExec ∨ sr.state = .done)
      (hhost : ∀ x, sr.Out x → host x = resultByte k p sr host₀ x) (hops : ops = [])

namespace Working

variable {host₀ host' dev' : Memory} {ops : List GpuOp}

/-- The work for a request depends on its own bytes only. -/
theorem frame (h : Working c k sr host₀ host dev ops) (hhost : ∀ x, sr.Own x → host' x = host x)
    (hdev : ∀ x, sr.Own x → dev' (c.deviceByte x) = dev (c.deviceByte x)) :
    Working c k sr host₀ host' dev' ops := by
  cases h with
  | waiting hstate hh hops => exact .waiting hstate (fun x hx => (hhost x hx).trans (hh x hx)) hops
  | unserved hs hh hops => exact .unserved hs (fun x hx => (hhost x hx).trans (hh x hx)) hops
  | toLoad p hs hh hops => exact .toLoad p hs (fun x hx => (hhost x hx).trans (hh x hx)) hops
  | loaded p hs hh hd hops =>
    exact .loaded p hs (fun x hx => (hhost x hx).trans (hh x hx))
      (fun x hx => (hdev x (.inl hx)).trans (hd x hx)) hops
  | computed p hs hh hd hops =>
    exact .computed p hs (fun x hx => (hhost x hx).trans (hh x hx))
      (fun x hx => (hdev x (.inr hx)).trans (hd x hx)) hops
  | stored p hs hstate hh hops =>
    exact .stored p hs hstate (fun x hx => (hhost x (.inr hx)).trans (hh x hx)) hops

/-- The operation at the head of the stream of a request is the next one of its work. -/
theorem exec (hc : c.Regions) (hin : c.Contained sr)
    (hp : sr.state ≠ .init → sr.s ≠ none → c.Placed sr) {op : GpuOp}
    (h : Working c k sr host₀ host dev (op :: ops)) :
    (c.Placed sr ∧ ∃ p, op = defaultPrepare sr ∨ op = launchKernel k p sr ∨ op = defaultPost sr) ∧
      Working c k sr host₀ (op.exec (host, dev)).1 (op.exec (host, dev)).2 ops := by
  cases h with
  | waiting hstate hh hops => cases hops
  | unserved hs hh hops => cases hops
  | toLoad p hs hh hops =>
    have hplaced : c.Placed sr := by
      refine hp (fun hinit => ?_) (by rw [hs]; exact Option.some_ne_none p)
      rcases hops with ⟨hst, -⟩ | ⟨hst, -⟩ <;> rw [hinit] at hst <;> cases hst
    have hload : ∀ x, sr.In x →
        ((defaultPrepare sr).exec (host, dev)).2 (c.deviceByte x) = host₀ x := by
      intro x hx
      rw [prepare_dev hc hin hplaced (hin.hostByte (.inl hx)), if_pos hx]
      exact hh x (.inl hx)
    rcases hops with ⟨hst, he⟩ | ⟨hst, he⟩
    · obtain ⟨rfl, rfl⟩ := List.cons.inj he
      exact ⟨⟨hplaced, p, .inl rfl⟩, .loaded p hs hh hload (.inl ⟨hst, rfl⟩)⟩
    · obtain ⟨rfl, rfl⟩ := List.cons.inj he
      exact ⟨⟨hplaced, p, .inl rfl⟩, .loaded p hs hh hload (.inr ⟨hst, rfl⟩)⟩
  | loaded p hs hh hd hops =>
    rcases hops with ⟨-, he⟩ | ⟨hst, he⟩
    · cases he
    · obtain ⟨rfl, rfl⟩ := List.cons.inj he
      have hplaced : c.Placed sr :=
        hp (by rw [hst]; exact ReqState.noConfusion) (by rw [hs]; exact Option.some_ne_none p)
      refine ⟨⟨hplaced, p, .inr (.inl rfl)⟩, .computed p hs hh (fun x hx => ?_) (.inl ⟨hst, rfl⟩)⟩
      rw [launch_dev hc hin hplaced (hin.hostByte (.inr hx)), if_pos hx, resultByte]
      congr 1
      refine List.map_congr_left fun i hi => hd _ ⟨Nat.le_add_right _ _, ?_⟩
      exact Nat.add_lt_add_left (List.mem_range.mp hi) _
  | computed p hs hh hd hops =>
    rcases hops with ⟨-, he⟩ | ⟨hst, he⟩
    · cases he
    · obtain ⟨rfl, rfl⟩ := List.cons.inj he
      have hplaced : c.Placed sr :=
        hp (by rw [hst]; exact ReqState.noConfusion) (by rw [hs]; exact Option.some_ne_none p)
      refine ⟨⟨hplaced, p, .inr (.inr rfl)⟩, .stored p hs (.inl hst) (fun x hx => ?_) rfl⟩
      rw [post_host hc hin hplaced, if_pos hx]
      exact hd x hx
  | stored p hs hstate hh hops => cases hops

/-- Before its stream is taken, nothing has happened for a request that has a service. -/
theorem early (h : Working c k sr host₀ host dev ops) (hs : sr.s = some p)
    (hx : sr.state = .init ∨ sr.state = .memDone) :
    (∀ x, sr.Own x → host x = host₀ x) ∧ ops = [] := by
  cases h with
  | waiting _ hh hops => exact ⟨hh, hops⟩
  | unserved hn => rw [hs] at hn; cases hn
  | toLoad _ _ _ hops | loaded _ _ _ _ hops | computed _ _ _ _ hops =>
    rcases hops with ⟨hst, -⟩ | ⟨hst, -⟩ <;> rcases hx with hx | hx <;> rw [hx] at hst <;> cases hst
  | stored _ _ hst =>
    rcases hst with hst | hst <;> rcases hx with hx | hx <;> rw [hx] at hst <;> cases hst

theorem launched (h : Working c k sr host₀ host dev ops) (hs : sr.s = some p)
    (hx : sr.state = .prepared) :
    Working c k { sr with state := .running } host₀ host dev (ops ++ [launchKernel k p sr]) := by
  cases h with
  | waiting hst =>
    rw [hx] at hst
    rcases hst with hst | hst <;> cases hst
  | unserved hn => rw [hs] at hn; cases hn
  | toLoad p' hs' hh hops =>
    cases hs.symm.trans hs'
    rcases hops with ⟨-, rfl⟩ | ⟨hst, -⟩
    · exact .toLoad p hs hh (.inr ⟨rfl, rfl⟩)
    · rw [hx] at hst; cases hst
  | loaded p' hs' hh hd hops =>
    cases hs.symm.trans hs'
    rcases hops with ⟨-, rfl⟩ | ⟨hst, -⟩
    · exact .loaded p hs hh hd (.inr ⟨rfl, rfl⟩)
    · rw [hx] at hst; cases hst
  | computed _ _ _ _ hops =>
    rcases hops with ⟨hst, -⟩ | ⟨hst, -⟩ <;> rw [hx] at hst <;> cases hst
  | stored _ _ hst => rcases hst with hst | hst <;> rw [hx] at hst <;> cases hst

/-- With its stream empty, the kernel of a running request is through. -/
theorem posted (h : Working c k sr host₀ host dev []) (hs : sr.s = some p)
    (hx : sr.state = .running) :
    Working c k { sr with state := .postExec } host₀ host dev [defaultPost sr] := by
  cases h with
  | waiting hst =>
    rw [hx] at hst
    rcases hst with hst | hst <;> cases hst
  | unserved hn => rw [hs] at hn; cases hn
  | toLoad _ _ _ hops => rcases hops with ⟨-, he⟩ | ⟨-, he⟩ <;> cases he
  | loaded _ _ _ _ hops =>
    rcases hops with ⟨hst, -⟩ | ⟨-, he⟩
    · rw [hx] at hst; cases hst
    · cases he
  | computed p' hs' hh hd => exact .computed p' hs' hh hd (.inr ⟨rfl, rfl⟩)
  | stored _ _ hst => rcases hst with hst | hst <;> rw [hx] at hst <;> cases hst

/-- With its stream empty, the output of a request in the last stage is back. -/
theorem finished (h : Working c k sr host₀ host dev []) (hs : sr.s = some p)
    (hx : sr.state = .postExec) : Working c k { sr with state := .done } host₀ host dev [] := by
  cases h with
  | waiting hst =>
    rw [hx] at hst
    rcases hst with hst | hst <;> cases hst
  | unserved hn => rw [hs] at hn; cases hn
  | toLoad _ _ _ hops => rcases hops with ⟨-, he⟩ | ⟨-, he⟩ <;> cases he
  | loaded _ _ _ _ hops => rcases hops with ⟨hst, -⟩ | ⟨hst, -⟩ <;> rw [hx] at hst <;> cases hst
  | computed _ _ _ _ hops =>
    rcases hops with ⟨hst, -⟩ | ⟨-, he⟩
    · rw [hx] at hst; cases hst
    · cases he
  | stored p' hs' _ hh => exact .stored p' hs' (.inr rfl) hh rfl

/-- A request that is done has nothing on its stream. -/
theorem done (h : Working c k sr host₀ host dev ops) (hx : sr.state = .done) :
    ops = [] ∧ ((sr.s = none ∧ ∀ x, sr.Own x → host x = host₀ x) ∨
      ∃ p, sr.s = some p ∧ ∀ x, sr.Out x → host x = resultByte k p sr host₀ x) := by
  cases h with
  | waiting hst =>
    rw [hx] at hst
    rcases hst with hst | hst <;> cases hst
  | unserved hs hh hops => exact ⟨hops, .inl ⟨hs, hh⟩⟩
  | toLoad _ _ _ hops | loaded _ _ _ _ hops | computed _ _ _ _ hops =>
    rcases hops with ⟨hst, -⟩ | ⟨hst, -⟩ <;> rw [hx] at hst <;> cases hst
  | stored p hs _ hh hops => exact ⟨hops, .inr ⟨p, hs, hh⟩⟩

end Working
end Operations

/-! ## A request alone -/

section Alone

variable {c : Config} {k : Kernels} {kureq : KuRequest} {host dev : Memory} {x : Nat}

/-- A request without a service changes nothing. -/
theorem runAlone_unserved (hs : (c.ofKuRequest kureq).s = none) :
    runAlone c k kureq host dev x = host x := by
  simp only [runAlone, Config.gpuAllocDeviceMem, hs]

/-- A request alone puts the result for its input in its output. -/
theorem runAlone_served (hc : c.Regions) (hin : c.Contained (c.ofKuRequest kureq))
    {p : ServicePtr} (hs : (c.ofKuRequest kureq).s = some p) (hx : (c.ofKuRequest kureq).Out x) :
    runAlone c k kureq host dev x = resultByte k p (c.ofKuRequest kureq) host x := by
  let sr := (c.gpuAllocDeviceMem (c.ofKuRequest kureq)).1
  have hp : c.Placed sr := ⟨rfl, rfl⟩
  have hcont : c.Contained sr := ⟨hin.inp, hin.out⟩
  have hout : sr.Out x := hx
  -- the three operations one after the other, each looked at through `deviceByte`
  have hload : ∀ y, sr.In y → ((defaultPrepare sr).exec (host, dev)).2 (c.deviceByte y) = host y := by
    intro y hy
    rw [prepare_dev hc hcont hp (hcont.hostByte (.inl hy)), if_pos hy]
  have hrun : runAlone c k kureq host dev = ((defaultPost sr).exec
      ((launchKernel k p sr).exec ((defaultPrepare sr).exec (host, dev)))).1 := by
    simp only [runAlone]
    rw [show (c.gpuAllocDeviceMem (c.ofKuRequest kureq)).1.s = some p from hs]
  rw [hrun, post_host hc hcont hp, if_pos hout,
    launch_dev hc hcont hp (hcont.hostByte (.inr hout)), if_pos hout, resultByte]
  congr 1
  refine List.map_congr_left fun i hi => hload _ ⟨Nat.le_add_right _ _, ?_⟩
  exact Nat.add_lt_add_left (List.mem_range.mp hi) _

end Alone

end Kgpu
