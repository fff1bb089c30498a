-- SUMMARY: Opening and releasing the device: the atomic steps of `kgpu_open` and `kgpu_release` on `kgpudev_av`.
import Kgpu.Library.Run
import Mathlib.Data.Fintype.Card

/-!
# The single-open counter

`kgpudev_av` is 1 when the device is free. `kgpu_open` decrements it and holds
the device if the result is 0; otherwise it increments it again and returns
`-EBUSY`. `kgpu_release` stores 1. The decrement and the increment of a failed
open are separate atomic steps, between which any other process can run.
-/

namespace Kgpu

open Library

variable {P : Type} [DecidableEq P]

/-- Where a process stands with the device. -/
inductive OpenPhase where
  | idle
  /-- `kgpu_open` has decremented the counter to a non-zero value and has not
      incremented it again. -/
  | failing
  | holding
  deriving DecidableEq

/-- `kgpudev_av` and the phase of every process. The counter is an integer here; `av_bounds`
    says why the `atomic_t` does not wrap. -/
structure OpenState (P : Type) where
  av : Int
  phase : P → OpenPhase

inductive OpenStep (P : Type) where
  /-- `atomic_dec_and_test` of `kgpu_open`. -/
  | decAndTest (p : P)
  /-- `atomic_inc` of a failed `kgpu_open`, which then returns `-EBUSY`. -/
  | inc (p : P)
  /-- `atomic_set(&kgpudev_av, 1)` of `kgpu_release`. -/
  | release (p : P)

namespace OpenState

/-- `ATOMIC_INIT(1)`. -/
def init : OpenState P := ⟨1, fun _ => .idle⟩

def step (s : OpenState P) : OpenStep P → Option (OpenState P)
  | .decAndTest p =>
    if s.phase p = .idle then
      some ⟨s.av - 1, Function.update s.phase p (if s.av - 1 = 0 then .holding else .failing)⟩
    else none
  | .inc p =>
    if s.phase p = .failing then some ⟨s.av + 1, Function.update s.phase p .idle⟩ else none
  | .release p =>
    if s.phase p = .holding then some ⟨1, Function.update s.phase p .idle⟩ else none

/-- At most one process holds the device, and when none holds it and no open is
    in progress the counter is 1 and an open by any process succeeds. -/
def SingleOpen (s : OpenState P) : Prop :=
  (∀ p q, s.phase p = .holding → s.phase q = .holding → p = q) ∧
  ((∀ p, s.phase p = .idle) →
    s.av = 1 ∧ ∀ p, ∃ s', s.step (.decAndTest p) = some s' ∧ s'.phase p = .holding)

/-- A release runs while no failed open is between its two steps. -/
def Quiet (s : OpenState P) : OpenStep P → Prop
  | .release _ => ∀ q, s.phase q ≠ .failing
  | _ => True

/-- What the counter records: while nobody holds the device no open has failed;
    while one process holds it the counter is minus the number of failed opens
    in progress. -/
inductive Counted (s : OpenState P) : Prop where
  | closed (hav : s.av = 1) (hidle : ∀ p, s.phase p = .idle)
  | opened (h : P) (F : Finset P) (hh : ∀ p, s.phase p = .holding ↔ p = h)
      (hF : ∀ p, s.phase p = .failing ↔ p ∈ F) (hav : s.av = -(F.card : Int))

theorem Counted.singleOpen {s : OpenState P} (h : s.Counted) : s.SingleOpen := by
  cases h with
  | closed hav hidle =>
    refine ⟨fun p q hp _ => by simp [hidle p] at hp, fun _ => ⟨hav, fun p => ?_⟩⟩
    exact ⟨⟨0, Function.update s.phase p .holding⟩, by simp [step, hidle p, hav], by simp⟩
  | opened h F hh =>
    refine ⟨fun p q hp hq => by rw [(hh p).mp hp, (hh q).mp hq], fun hidle => ?_⟩
    have := (hh h).mpr rfl
    simp [hidle h] at this

namespace Counted

variable {s s' : OpenState P} {p : P}

/-- The holder stays when another process moves and does not get the device. -/
theorem holder_update {h : P} {x : OpenPhase} (hh : ∀ q, s.phase q = .holding ↔ q = h)
    (hp : s.phase p ≠ .holding) (hx : x ≠ .holding) (q : P) :
    Function.update s.phase p x q = .holding ↔ q = h := by
  by_cases hqp : q = p
  · subst hqp
    have hne : q ≠ h := fun heq => hp ((hh q).mpr heq)
    simp [hx, hne]
  · simp [hqp, hh q]

/-- The open of a free device. -/
theorem first_open (hav : s.av = 1) (hidle : ∀ p, s.phase p = .idle) :
    Counted ⟨s.av - 1, Function.update s.phase p (if s.av - 1 = 0 then .holding else .failing)⟩ := by
  refine .opened p ∅ (fun q => ?_) (fun q => ?_) (by simp [hav])
  · by_cases hqp : q = p
    · subst hqp; simp [hav]
    · simp [hqp, hidle q]
  · by_cases hqp : q = p
    · subst hqp; simp [hav]
    · simp [hqp, hidle q]

/-- An open while `h` holds the device. -/
theorem failed_open {h : P} {F : Finset P} (hh : ∀ p, s.phase p = .holding ↔ p = h)
    (hF : ∀ p, s.phase p = .failing ↔ p ∈ F) (hav : s.av = -(F.card : Int))
    (hp : s.phase p = .idle) :
    Counted ⟨s.av - 1, Function.update s.phase p (if s.av - 1 = 0 then .holding else .failing)⟩ := by
  have hpF : p ∉ F := fun hmem => by simp [(hF p).mpr hmem] at hp
  have hne : ¬ (s.av - 1 = 0) := by omega
  rw [if_neg hne]
  refine .opened h (insert p F) (holder_update hh (by simp [hp]) (by simp)) (fun q => ?_) ?_
  · by_cases hqp : q = p
    · subst hqp; simp
    · simp [hqp, hF q]
  · rw [Finset.card_insert_of_notMem hpF]
    push_cast
    omega

/-- A failed open gives back what it took off the counter. -/
theorem inc (h : s.Counted) (hp : s.phase p = .failing) :
    Counted ⟨s.av + 1, Function.update s.phase p .idle⟩ := by
  cases h with
  | closed hav hidle => simp [hidle p] at hp
  | opened h F hh hF hav =>
    have hpF : p ∈ F := (hF p).mp hp
    refine .opened h (F.erase p) (holder_update hh (by simp [hp]) (by simp)) (fun q => ?_) ?_
    · by_cases hqp : q = p
      · subst hqp; simp
      · simp [hqp, hF q]
    · have hcard := Finset.card_erase_add_one hpF
      simp only
      omega

/-- With no failed open in progress, the release leaves every process idle. -/
theorem release (h : s.Counted) (hq : ∀ q, s.phase q ≠ .failing) (hp : s.phase p = .holding) :
    Counted ⟨1, Function.update s.phase p .idle⟩ := by
  cases h with
  | closed hav hidle => simp [hidle p] at hp
  | opened h F hh hF hav =>
    refine .closed rfl fun q => ?_
    by_cases hqp : q = p
    · subst hqp; simp
    · simp only [Function.update_of_ne hqp]
      cases hph : s.phase q with
      | idle => rfl
      | failing => exact absurd hph (hq q)
      | holding => exact absurd (((hh q).mp hph).trans ((hh p).mp hp).symm) hqp

theorem step {l : OpenStep P} (h : s.Counted) (hq : s.Quiet l) (hs : s.step l = some s') :
    s'.Counted := by
  cases l with
  | decAndTest p =>
    simp only [OpenState.step] at hs
    split at hs <;> cases hs
    next hp =>
      cases h with
      | closed hav hidle => exact first_open hav hidle
      | opened h F hh hF hav => exact failed_open hh hF hav hp
  | inc p =>
    simp only [OpenState.step] at hs
    split at hs <;> cases hs
    next hp => exact h.inc hp
  | release p =>
    simp only [OpenState.step] at hs
    split at hs <;> cases hs
    next hp => exact h.release hq hp

end Counted

/-! ## The range of the counter -/

section

variable [Fintype P] {s s' : OpenState P} {p : P}

/-- The processes that hold the device or are between the two steps of a failed open. -/
def active (s : OpenState P) : Finset P := Finset.univ.filter fun p => s.phase p ≠ .idle

theorem active_start (av : Int) {x : OpenPhase} (hp : s.phase p = .idle) (hx : x ≠ .idle) :
    (active ⟨av, Function.update s.phase p x⟩).card = s.active.card + 1 := by
  have hnot : p ∉ s.active := by simp [active, hp]
  rw [← Finset.card_insert_of_notMem hnot]
  congr 1
  ext q
  by_cases hqp : q = p
  · subst hqp
    simp [active, hx]
  · simp [active, hqp]

theorem active_end (av : Int) (hp : s.phase p ≠ .idle) :
    (active ⟨av, Function.update s.phase p .idle⟩).card + 1 = s.active.card := by
  have hmem : p ∈ s.active := by simp [active, hp]
  rw [← Finset.card_erase_add_one hmem]
  congr 2
  ext q
  by_cases hqp : q = p
  · subst hqp
    simp [active]
  · simp [active, hqp]

/-- Each active process has taken at most one off the counter. -/
def Ranged (s : OpenState P) : Prop :=
  1 ≤ s.av + s.active.card ∧ s.av + s.active.card ≤ 1 + Fintype.card P

theorem Ranged.step {l : OpenStep P} (h : s.Ranged) (hs : s.step l = some s') : s'.Ranged := by
  obtain ⟨hlo, hhi⟩ := h
  cases l with
  | decAndTest p =>
    simp only [OpenState.step] at hs
    split at hs <;> cases hs
    next hp =>
      have hx : (if s.av - 1 = 0 then OpenPhase.holding else .failing) ≠ .idle := by
        split <;> simp
      have hcard := active_start (s.av - 1) hp hx
      unfold Ranged
      rw [hcard]
      push_cast
      constructor
      · omega
      · omega
  | inc p =>
    simp only [OpenState.step] at hs
    split at hs <;> cases hs
    next hp =>
      have hcard := active_end (s.av + 1) (show s.phase p ≠ .idle by simp [hp])
      unfold Ranged
      constructor
      · simp only
        omega
      · simp only
        omega
  | release p =>
    simp only [OpenState.step] at hs
    split at hs <;> cases hs
    next hp =>
      unfold Ranged
      have hle := Finset.card_le_univ (active ⟨1, Function.update s.phase p .idle⟩)
      constructor
      · simp only
        omega
      · simp only
        omega

/-- The counter stays within the number of processes of 1, in every run: fewer than 2^31 - 1
    of them do not make a 32-bit counter wrap. -/
theorem av_bounds {ls : List (OpenStep P)} (hrun : Run OpenState.step Free init ls s) :
    1 - (Fintype.card P : Int) ≤ s.av ∧ s.av ≤ 1 + Fintype.card P := by
  have hinit : (init : OpenState P).Ranged := by
    have hnone : (init : OpenState P).active = ∅ := by simp [active, init]
    unfold Ranged
    rw [hnone, Finset.card_empty]
    simp only [init]
    omega
  have hranged : s.Ranged := hrun.invariant hinit fun _ _ _ h _ hs => h.step hs
  have hle := Finset.card_le_univ s.active
  obtain ⟨hlo, hhi⟩ := hranged
  constructor
  · omega
  · omega

end

/-- In every run in which no release falls between the two steps of a failed
    open, the device has at most one holder in every state reached, and a free
    device can be opened. -/
theorem single_open_of_quiet {ls : List (OpenStep P)} {s : OpenState P}
    (hrun : Run step Quiet init ls s) : s.SingleOpen := by
  have hinit : (init : OpenState P).Counted := .closed rfl fun _ => rfl
  have hcount : s.Counted := hrun.invariant hinit fun _ _ _ h hq hs => Counted.step h hq hs
  exact hcount.singleOpen

/-- A failed open that is over before the release. -/
theorem single_open_of_quiet_two_processes :
    ∃ s : OpenState (Fin 2), Run step Quiet init
        [.decAndTest 0, .decAndTest 1, .inc 1, .release 0] s ∧ s.SingleOpen := by
  have hrun : Run step Quiet (init : OpenState (Fin 2))
      [.decAndTest 0, .decAndTest 1, .inc 1, .release 0] _ :=
    .snoc (.snoc (.snoc (.snoc .nil trivial rfl) trivial rfl) trivial rfl)
      (by unfold Quiet; decide) rfl
  exact ⟨_, hrun, single_open_of_quiet hrun⟩

/-- A release between the two steps of a failed open. The late increment leaves
    the free device with the counter at 2, so that no open ever succeeds again;
    or, when the device was opened in between, a second process gets in. -/
theorem not_single_open :
    (∃ s : OpenState Nat, Run step Free init
      [.decAndTest 0, .decAndTest 1, .release 0, .inc 1] s ∧ s.av = 2 ∧ ¬ s.SingleOpen) ∧
    (∃ s : OpenState Nat, Run step Free init
      [.decAndTest 0, .decAndTest 1, .release 0, .decAndTest 2, .inc 1, .decAndTest 3] s ∧
      s.phase 2 = .holding ∧ s.phase 3 = .holding ∧ ¬ s.SingleOpen) := by
  refine ⟨⟨_, Run.of_exec rfl, by decide, fun h => ?_⟩,
    ⟨_, Run.of_exec rfl, by decide, by decide, fun h => ?_⟩⟩
  · have hidle := h.2 fun p => by rcases p with _ | _ | p <;> rfl
    exact absurd hidle.1 (by decide)
  · exact absurd (h.1 2 3 (by decide) (by decide)) (by decide)

end OpenState
end Kgpu
