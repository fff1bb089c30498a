-- SUMMARY: Interruptible waits on a wait queue, and what a wake-up has to come after.
import Kgpu.Library.Run
import Mathlib.Algebra.Order.BigOperators.Group.Finset

/-!
# Wait queues

A task that waits for a condition tests it, puts itself on the queue, tests it again and
only then sleeps. A wake-up ends the sleep of every task on the queue, and a task that
is woken between its second test and its sleep does not go to sleep. No sleeper is
forgotten as long as whoever makes the condition true wakes the queue afterwards.
-/

namespace Library

/-- Where a task stands in `wait_event_interruptible`. -/
inductive WaitPhase where
  /-- At the first test, which is made before the task is on the queue. -/
  | first
  /-- About to put itself on the queue. -/
  | prepare
  /-- On the queue and at the test, with whether a wake-up has come since. -/
  | queued (woken : Bool)
  /-- The test has failed. The task sleeps until it is woken. -/
  | asleep (woken : Bool)
  deriving DecidableEq

/-- How a wait goes on. -/
inductive WaitResult where
  | go (p : WaitPhase)
  /-- The condition was true: 0 is returned. -/
  | fulfilled
  /-- A signal has come: `-ERESTARTSYS` is returned. -/
  | interrupted

namespace WaitPhase

/-- The next step of the task. It has none while it sleeps. -/
def next (cond signal : Bool) : WaitPhase → Option WaitResult
  | first => some (if cond then .fulfilled else .go prepare)
  | prepare => some (.go (queued false))
  | queued woken =>
    some (if cond then .fulfilled else if signal then .interrupted else .go (asleep woken))
  | asleep woken => if woken || signal then some (.go prepare) else none

/-- `wake_up_interruptible` for a task that may be on the queue. -/
def wake : WaitPhase → WaitPhase
  | queued _ => queued true
  | asleep _ => asleep true
  | p => p

variable {p p' : WaitPhase} {cond signal : Bool}

/-- Whoever is woken does not sleep. -/
theorem wake_ne_asleep : p.wake ≠ asleep false := by
  cases p <;> simp [wake]

/-- Only a test that fails lets a task sleep. -/
theorem cond_of_go_asleep (h : p.next cond signal = some (.go (asleep false))) :
    cond = false := by
  cases p with
  | first | prepare => cases cond <;> simp [next] at h
  | queued woken =>
    cases cond with
    | false => rfl
    | true => simp [next] at h
  | asleep woken =>
    simp only [next] at h
    split at h <;> simp at h

/-- A wait ends as fulfilled only when the condition is true. -/
theorem cond_of_fulfilled (h : p.next cond signal = some .fulfilled) : cond = true := by
  cases cond with
  | true => rfl
  | false =>
    cases p with
    | first | prepare => simp [next] at h
    | queued woken => cases signal <;> simp [next] at h
    | asleep woken =>
      simp only [next] at h
      split at h <;> simp at h

/-- The task that cannot go on without a signal. -/
theorem next_eq_none : p.next cond false = none ↔ p = asleep false := by
  cases p with
  | asleep woken => cases woken <;> simp [next]
  | first | prepare | queued => simp [next]

/-- Only a signal ends a wait otherwise. -/
theorem next_ne_interrupted : p.next cond false ≠ some .interrupted := by
  cases p with
  | first | prepare | queued => cases cond <;> simp [next]
  | asleep woken => cases woken <;> simp [next]

/-- The steps a task makes until its wait ends or it sleeps, as long as the condition stays
    as it is. -/
def rank (cond : Bool) : WaitPhase → Nat
  | first => if cond then 1 else 3
  | prepare => 2
  | queued woken => if cond then 1 else if woken then 4 else 1
  | asleep woken => if woken then 3 else 0

theorem rank_le : p.rank cond ≤ 4 := by
  cases p with
  | prepare => simp [rank]
  | first => cases cond <;> simp [rank]
  | queued woken => cases cond <;> cases woken <;> simp [rank]
  | asleep woken => cases woken <;> simp [rank]

theorem rank_pos_of_fulfilled (h : p.next cond signal = some .fulfilled) : 0 < p.rank cond := by
  have hc := cond_of_fulfilled h
  subst hc
  cases p with
  | first | queued => simp [rank]
  | prepare => simp [next] at h
  | asleep woken =>
    simp only [next] at h
    split at h <;> simp at h

theorem rank_lt (h : p.next cond false = some (.go p')) : p'.rank cond < p.rank cond := by
  cases p with
  | first =>
    cases cond <;> simp only [next] at h <;> cases h
    decide
  | prepare =>
    cases h
    cases cond <;> decide
  | queued woken =>
    cases cond <;> simp only [next] at h <;> cases h
    cases woken <;> decide
  | asleep woken =>
    cases woken <;> simp only [next] at h <;> cases h
    simp [rank]

end WaitPhase

/-! ## Runs that end -/

/-- A run every step of which uses up some of a potential is no longer than what there was of
    it. -/
theorem Run.length_le_of_potential {σ ℓ : Type} {step : σ → ℓ → Option σ} {ok : σ → ℓ → Prop}
    {s₀ s : σ} {ls : List ℓ} (Φ : σ → Nat) (hrun : Run step ok s₀ ls s)
    (hstep : ∀ ls s l s', Run step ok s₀ ls s → ok s l → step s l = some s' → Φ s' < Φ s) :
    ls.length + Φ s ≤ Φ s₀ := by
  induction hrun with
  | nil => simp
  | snoc hrun hok hs ih =>
    have hlt := hstep _ _ _ _ hrun hok hs
    rw [List.length_append, List.length_singleton]
    omega

/-- A sum over tasks of which one has changed. -/
theorem sum_update {T : Type} [DecidableEq T] {ts : Finset T} {f g : T → Nat} {t : T}
    (ht : t ∈ ts) (hother : ∀ u ∈ ts, u ≠ t → g u = f u) :
    ∑ u ∈ ts, g u + f t = ∑ u ∈ ts, f u + g t := by
  rw [← Finset.add_sum_erase ts g ht, ← Finset.add_sum_erase ts f ht]
  have hrest : ∑ u ∈ ts.erase t, g u = ∑ u ∈ ts.erase t, f u :=
    Finset.sum_congr rfl fun u hu =>
      hother u (Finset.mem_of_mem_erase hu) (Finset.ne_of_mem_erase hu)
  omega

end Library
