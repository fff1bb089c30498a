-- SUMMARY: Runs of a labelled transition system given by a partial step function, with the invariant and simulation rules.
import Mathlib.Data.List.Basic

/-!
# Runs

A transition system is a partial function `step : σ → ℓ → Option σ`: the label
carries everything the environment decides, so a step with a given label is
deterministic, and `none` means that the label is not enabled. A run may be
restricted by a condition on each state and the label taken from it, which is
how assumptions about the environment are stated.
-/

namespace Library

variable {σ τ ℓ κ : Type}

/-- `Run step ok s₀ ls s`: the labels `ls`, taken in order from `s₀`, lead to
    `s`, and every label satisfied `ok` in the state it was taken from. -/
inductive Run (step : σ → ℓ → Option σ) (ok : σ → ℓ → Prop) (s₀ : σ) : List ℓ → σ → Prop where
  | nil : Run step ok s₀ [] s₀
  | snoc {ls : List ℓ} {s s' : σ} {l : ℓ} :
      Run step ok s₀ ls s → ok s l → step s l = some s' → Run step ok s₀ (ls ++ [l]) s'

/-- The condition that restricts nothing. -/
def Free : σ → ℓ → Prop := fun _ _ => True

namespace Run

variable {step : σ → ℓ → Option σ} {ok : σ → ℓ → Prop} {s₀ s : σ} {ls : List ℓ}

/-- The invariant rule for what is kept by the steps between states that are reached. -/
theorem invariant_reached {I : σ → Prop} (hrun : Run step ok s₀ ls s) (hinit : I s₀)
    (hstep : ∀ ls s l s', Run step ok s₀ ls s → I s → ok s l → step s l = some s' → I s') :
    I s := by
  induction hrun with
  | nil => exact hinit
  | snoc hrun hok hs ih => exact hstep _ _ _ _ hrun ih hok hs

/-- The invariant rule: what holds at the start and is kept by every step that
    meets the condition holds after every run. -/
theorem invariant {I : σ → Prop} (hrun : Run step ok s₀ ls s) (hinit : I s₀)
    (hstep : ∀ s l s', I s → ok s l → step s l = some s' → I s') : I s :=
  hrun.invariant_reached hinit fun _ _ _ _ _ hI hok hs => hstep _ _ _ hI hok hs

/-- A run under a condition is a run. -/
theorem free (hrun : Run step ok s₀ ls s) : Run step Free s₀ ls s := by
  induction hrun with
  | nil => exact .nil
  | snoc _ _ hs ih => exact ih.snoc trivial hs

/-- A run under a condition is a run under a weaker one. -/
theorem mono {ok' : σ → ℓ → Prop} (hrun : Run step ok s₀ ls s) (h : ∀ s l, ok s l → ok' s l) :
    Run step ok' s₀ ls s := by
  induction hrun with
  | nil => exact .nil
  | snoc _ hok hs ih => exact ih.snoc (h _ _ hok) hs

theorem trans {ls' : List ℓ} {s' : σ} (hrun : Run step ok s₀ ls s)
    (hrun' : Run step ok s ls' s') : Run step ok s₀ (ls ++ ls') s' := by
  induction hrun' with
  | nil => simpa using hrun
  | snoc _ hok hs ih => simpa using Run.snoc ih hok hs

/-- The projection rule: when every step of a system leaves one of its parts alone or
    is a step of it, that part makes a run of its own. -/
theorem project {part : τ → κ → Option τ} (f : σ → τ) (hrun : Run step ok s₀ ls s)
    (hstep : ∀ s l s', step s l = some s' → f s' = f s ∨ ∃ k, part (f s) k = some (f s')) :
    ∃ ks, Run part Free (f s₀) ks (f s) := by
  induction hrun with
  | nil => exact ⟨[], .nil⟩
  | snoc _ _ hs ih =>
    obtain ⟨ks, ih⟩ := ih
    rcases hstep _ _ _ hs with heq | ⟨k, hk⟩
    · exact ⟨ks, heq ▸ ih⟩
    · exact ⟨ks ++ [k], ih.snoc trivial hk⟩

/-- The projection rule for a part that has a condition of its own to meet. -/
theorem project_under {part : τ → κ → Option τ} {ok' : τ → κ → Prop} (f : σ → τ)
    (hrun : Run step ok s₀ ls s)
    (hstep : ∀ s l s', ok s l → step s l = some s' →
      f s' = f s ∨ ∃ k, ok' (f s) k ∧ part (f s) k = some (f s')) :
    ∃ ks, Run part ok' (f s₀) ks (f s) := by
  induction hrun with
  | nil => exact ⟨[], .nil⟩
  | snoc _ hok hs ih =>
    obtain ⟨ks, ih⟩ := ih
    rcases hstep _ _ _ hok hs with heq | ⟨k, hk, hpart⟩
    · exact ⟨ks, heq ▸ ih⟩
    · exact ⟨ks ++ [k], ih.snoc hk hpart⟩

/-- The simulation rule: when every step of a system, taken from related states, is
    matched by a step of another with the label that stands for it, every run is
    matched by a run. -/
theorem simulate {step' : τ → κ → Option τ} {t₀ : τ} (f : ℓ → κ) (R : σ → τ → Prop)
    (hrun : Run step ok s₀ ls s) (hinit : R s₀ t₀)
    (hstep : ∀ s l s' t, R s t → step s l = some s' → ∃ t', step' t (f l) = some t' ∧ R s' t') :
    ∃ t, Run step' Free t₀ (ls.map f) t ∧ R s t := by
  induction hrun with
  | nil => exact ⟨t₀, .nil, hinit⟩
  | @snoc ls s s' l _ _ hs ih =>
    obtain ⟨t, hrun', hR⟩ := ih
    obtain ⟨t', hs', hR'⟩ := hstep s l s' t hR hs
    refine ⟨t', ?_, hR'⟩
    rw [List.map_append]
    exact hrun'.snoc trivial hs'

end Run

/-- The final state of a list of labels, when every one of them is enabled. -/
def exec (step : σ → ℓ → Option σ) : List ℓ → σ → Option σ
  | [], s => some s
  | l :: ls, s => (step s l).bind (exec step ls)

/-- Every label of a list meets the condition in the state it is taken from. -/
def Along (step : σ → ℓ → Option σ) (ok : σ → ℓ → Prop) : List ℓ → σ → Prop
  | [], _ => True
  | l :: ls, s => ok s l ∧ match step s l with
    | some s' => Along step ok ls s'
    | none => True

theorem Run.of_along {step : σ → ℓ → Option σ} {ok : σ → ℓ → Prop} {ls : List ℓ} {s s' : σ}
    (h : exec step ls s = some s') (hok : Along step ok ls s) : Run step ok s ls s' := by
  induction ls generalizing s with
  | nil => cases h; exact .nil
  | cons l ls ih =>
    obtain ⟨t, ht, h⟩ := Option.bind_eq_some_iff.mp h
    obtain ⟨hfirst, hrest⟩ := hok
    rw [ht] at hrest
    have hone : Run step ok s [l] t := Run.snoc .nil hfirst ht
    exact hone.trans (ih h hrest)

/-- A run of labels that meet the condition in every state. -/
theorem Run.of_forall {step : σ → ℓ → Option σ} {ok : σ → ℓ → Prop} {ls : List ℓ} {s s' : σ}
    (h : exec step ls s = some s') (hok : ∀ l ∈ ls, ∀ s, ok s l) : Run step ok s ls s' := by
  refine Run.of_along h ?_
  clear h
  induction ls generalizing s with
  | nil => trivial
  | cons l ls ih =>
    obtain ⟨hfirst, hrest⟩ := List.forall_mem_cons.mp hok
    refine ⟨hfirst s, ?_⟩
    split
    · exact ih hrest
    · trivial

/-- A run whose labels pass a check that implies the condition. -/
theorem Run.of_checked {step : σ → ℓ → Option σ} {ok : σ → ℓ → Prop} {check : σ → ℓ → Bool}
    {ls : List ℓ} {s s' : σ}
    (h : exec (fun s l => bif check s l then step s l else none) ls s = some s')
    (hcheck : ∀ s l, check s l = true → ok s l) : Run step ok s ls s' := by
  induction ls generalizing s with
  | nil => cases h; exact .nil
  | cons l ls ih =>
    obtain ⟨t, ht, h⟩ := Option.bind_eq_some_iff.mp h
    cases hc : check s l with
    | false => simp [hc] at ht
    | true =>
      have hone : Run step ok s [l] t := Run.snoc .nil (hcheck s l hc) (by simpa [hc] using ht)
      exact hone.trans (ih h)

theorem Run.of_exec {step : σ → ℓ → Option σ} {ls : List ℓ} {s s' : σ}
    (h : exec step ls s = some s') : Run step Free s ls s' :=
  Run.of_forall h fun _ _ _ => trivial

/-! ## Costs -/

/-- The sum of what the labels of a list cost, each in the state it is taken from. -/
def spent (step : σ → ℓ → Option σ) (cost : σ → ℓ → Nat) : List ℓ → σ → Nat
  | [], _ => 0
  | l :: ls, s => cost s l + match step s l with
    | some s' => spent step cost ls s'
    | none => 0

theorem Run.spent_snoc {step : σ → ℓ → Option σ} {ok : σ → ℓ → Prop} {cost : σ → ℓ → Nat}
    {ls : List ℓ} {s₀ s : σ} (hrun : Run step ok s₀ ls s) (ls' : List ℓ) :
    spent step cost (ls ++ ls') s₀ = spent step cost ls s₀ + spent step cost ls' s := by
  induction hrun generalizing ls' with
  | nil => simp [spent]
  | @snoc ls s s' l _ _ hs ih =>
    rw [List.append_assoc, ih, ih [l]]
    simp only [List.singleton_append, spent, hs, Nat.add_zero, Nat.add_assoc]

/-- The invariant rule with an account of the costs. -/
theorem Run.invariant_spent {step : σ → ℓ → Option σ} {ok : σ → ℓ → Prop} {cost : σ → ℓ → Nat}
    {ls : List ℓ} {s₀ s : σ} {I : σ → Nat → Prop} (hrun : Run step ok s₀ ls s) (hinit : I s₀ 0)
    (hstep : ∀ s n l s', I s n → ok s l → step s l = some s' → I s' (n + cost s l)) :
    I s (spent step cost ls s₀) := by
  induction hrun with
  | nil => exact hinit
  | snoc hrun hok hs ih =>
    have hnext := hstep _ _ _ _ ih hok hs
    rw [hrun.spent_snoc]
    simpa only [spent, hs, Nat.add_zero] using hnext

/-! ## Histories -/

/-- Every element of a history has what it needs among those before it. -/
def Preceded {α : Type} (need : List α → α → Prop) (h : List α) : Prop :=
  ∀ pre e post, h = pre ++ e :: post → need pre e

/-- The elements of the second list, added to the history one by one, have what they need. -/
def Supplied {α : Type} (need : List α → α → Prop) : List α → List α → Prop
  | _, [] => True
  | h, e :: es => need h e ∧ Supplied need (h ++ [e]) es

namespace Preceded

variable {α : Type} {need : List α → α → Prop} {h : List α}

theorem nil : Preceded need [] := by
  rintro (_ | _) e post heq <;> cases heq

theorem snoc (hh : Preceded need h) {e : α} (he : need h e) : Preceded need (h ++ [e]) := by
  intro pre e' post heq
  rcases List.eq_nil_or_concat post with rfl | ⟨post, last, rfl⟩
  · obtain ⟨rfl, hlast⟩ := List.append_inj' heq rfl
    cases hlast
    exact he
  · rw [List.concat_eq_append, ← List.cons_append, ← List.append_assoc] at heq
    exact hh pre e' post (List.append_inj' heq rfl).1

theorem append (hh : Preceded need h) {es : List α} (hes : Supplied need h es) :
    Preceded need (h ++ es) := by
  induction es generalizing h with
  | nil => simpa using hh
  | cons e es ih =>
    obtain ⟨he, hes⟩ := hes
    have hrest := ih (hh.snoc he) hes
    rwa [List.append_assoc] at hrest

theorem of_mem (hh : Preceded need h) {e : α} (he : e ∈ h) :
    ∃ pre post, h = pre ++ e :: post ∧ need pre e := by
  obtain ⟨pre, post, heq⟩ := List.append_of_mem he
  exact ⟨pre, post, heq, hh pre e post heq⟩

end Preceded

end Library
