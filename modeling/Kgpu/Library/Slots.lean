-- SUMMARY: Named slots that hold what an allocator gave out, and the account of what no slot holds any more.
import Kgpu.Library.WaitQueue
import Mathlib.Algebra.BigOperators.Group.Finset.Piecewise
import Mathlib.Data.Fintype.BigOperators
import Mathlib.Data.List.Nodup

/-!
# Slots

A program keeps the objects that it has from an allocator in named slots. An object that
no slot holds any more is stray: nothing can give it back. Overwriting a slot and clearing
it make strays. Giving back what the slots hold makes none, and has no result when an
object is given back twice.
-/

namespace Library

/-- The slots, the objects that are out, and the name of the next one. -/
structure Slots (κ : Type) where
  slot : κ → Option Nat
  out : List Nat
  next : Nat

namespace Slots

variable {κ : Type}

/-- Nothing is out. -/
def empty : Slots κ := ⟨fun _ => none, [], 0⟩

/-- Every slot is cleared. -/
def forget (s : Slots κ) : Slots κ := { s with slot := fun _ => none }

/-- What a slot holds is given back. The slot keeps naming it. There is no result when the
    object is not out. -/
def release (k : κ) (s : Slots κ) : Option (Slots κ) :=
  match s.slot k with
  | none => some s
  | some a => if a ∈ s.out then some { s with out := s.out.erase a } else none

/-- What the slots of a list hold is given back, but for those that are kept. -/
def releaseAll (keep : κ → Bool) (ks : List κ) (s : Slots κ) : Option (Slots κ) :=
  ks.foldlM (fun s k => if keep k then some s else s.release k) s

theorem release_slot {s s' : Slots κ} {k : κ} (h : s.release k = some s') : s'.slot = s.slot := by
  unfold release at h
  split at h
  · cases h
    rfl
  · split at h
    · cases h
      rfl
    · cases h

section
variable [DecidableEq κ]

/-- A new object is put in a slot. -/
def acquire (k : κ) (s : Slots κ) : Slots κ where
  slot := Function.update s.slot k (some s.next)
  out := s.out ++ [s.next]
  next := s.next + 1

/-- Some slots are cleared. -/
def clear (ks : List κ) (s : Slots κ) : Slots κ :=
  { s with slot := fun k => if k ∈ ks then none else s.slot k }

@[simp] theorem acquire_self (s : Slots κ) (k : κ) : ((s.acquire k).slot k).isSome = true := by
  simp [acquire]

theorem acquire_of_ne (s : Slots κ) {k k' : κ} (h : k' ≠ k) :
    (s.acquire k).slot k' = s.slot k' := by
  simp only [acquire, Function.update_of_ne h]

theorem acquire_isSome {s : Slots κ} {k k' : κ} (h : (s.slot k').isSome = true) :
    ((s.acquire k).slot k').isSome = true := by
  by_cases hk : k' = k
  · subst hk
    exact acquire_self s k'
  · rwa [acquire_of_ne s hk]

/-- New objects are put in the slots of a list. -/
def acquireAll (ks : List κ) (s : Slots κ) : Slots κ := ks.foldl (fun s k => s.acquire k) s

theorem acquireAll_isSome {s : Slots κ} {ks : List κ} {k : κ}
    (h : k ∈ ks ∨ (s.slot k).isSome = true) : ((s.acquireAll ks).slot k).isSome = true := by
  induction ks generalizing s with
  | nil =>
    rcases h with hk | hk
    · cases hk
    · exact hk
  | cons k' ks ih =>
    apply ih
    rcases h with hk | hk
    · rcases List.mem_cons.mp hk with rfl | hk
      · exact .inr (acquire_self s k)
      · exact .inl hk
    · exact .inr (acquire_isSome hk)

theorem acquireAll_of_notMem {s : Slots κ} {ks : List κ} {k : κ} (h : k ∉ ks) :
    (s.acquireAll ks).slot k = s.slot k := by
  induction ks generalizing s with
  | nil => rfl
  | cons k' ks ih =>
    rw [List.mem_cons, not_or] at h
    obtain ⟨hne, hks⟩ := h
    exact (ih hks).trans (acquire_of_ne s hne)

theorem clear_of_none {s : Slots κ} {ks : List κ} (h : ∀ k ∈ ks, s.slot k = none) :
    s.clear ks = s := by
  have hslot : (fun k => if k ∈ ks then none else s.slot k) = s.slot := by
    funext k
    split
    · exact (h k ‹_›).symm
    · rfl
  simp only [clear, hslot]

end

variable [Fintype κ]

/-- How many objects some slots hold. -/
def heldIn (slot : κ → Option Nat) : Nat := ∑ k, (slot k).toList.length

def held (s : Slots κ) : Nat := heldIn s.slot

/-- The objects that are out are those in the slots, each in one of them, and `n` strays. -/
structure Account (s : Slots κ) (n : Nat) : Prop where
  nodup : s.out.Nodup
  fresh : ∀ a ∈ s.out, a < s.next
  mem : ∀ k a, s.slot k = some a → a ∈ s.out
  apart : ∀ k k' a, s.slot k = some a → s.slot k' = some a → k = k'
  count : s.out.length = s.held + n

theorem heldIn_none : heldIn (fun _ : κ => none) = 0 := by
  simp [heldIn]

@[simp] theorem forget_held (s : Slots κ) : s.forget.held = 0 := heldIn_none

theorem heldIn_update [DecidableEq κ] (slot : κ → Option Nat) (k : κ) (o : Option Nat) :
    heldIn (Function.update slot k o) + (slot k).toList.length = heldIn slot + o.toList.length := by
  have h := sum_update (f := fun k => (slot k).toList.length)
    (g := fun k' => (Function.update slot k o k').toList.length) (Finset.mem_univ k)
    fun u _ hu => by simp only [Function.update_of_ne hu]
  simpa only [heldIn, Function.update_self] using h

namespace Account

variable {s : Slots κ} {n : Nat}

theorem empty : (Slots.empty : Slots κ).Account 0 where
  nodup := .nil
  fresh := by simp [Slots.empty]
  mem := by simp [Slots.empty]
  apart := by simp [Slots.empty]
  count := heldIn_none.symm

/-- Slots that hold less. -/
theorem of_le (h : s.Account n) (slot : κ → Option Nat)
    (hle : ∀ k a, slot k = some a → s.slot k = some a) :
    ({ s with slot := slot } : Slots κ).Account (s.out.length - heldIn slot) := by
  have hcount : heldIn slot ≤ s.held := by
    refine Finset.sum_le_sum fun k _ => ?_
    cases hk : slot k with
    | none => exact Nat.zero_le _
    | some a => rw [hle k a hk]
  refine ⟨h.nodup, h.fresh, fun k a ha => h.mem k a (hle k a ha),
    fun k k' a hk hk' => h.apart k k' a (hle k a hk) (hle k' a hk'), ?_⟩
  have hlen := h.count
  have hheld : ({ s with slot := slot } : Slots κ).held = heldIn slot := rfl
  rw [hheld]
  show s.out.length = _
  omega

/-- What the slots hold is lost with them. -/
theorem forget (h : s.Account n) : s.forget.Account (n + s.held) := by
  have hle := h.of_le (fun _ => none) (by simp)
  rw [heldIn_none, h.count] at hle
  rw [Nat.add_comm]
  exact hle

variable [DecidableEq κ]

/-- What a slot held before it is filled again is lost. -/
theorem acquire (h : s.Account n) (k : κ) :
    (s.acquire k).Account (n + (s.slot k).toList.length) := by
  have hnew : s.next ∉ s.out := fun hmem => Nat.lt_irrefl _ (h.fresh _ hmem)
  have hother : ∀ k', k' ≠ k → (s.acquire k).slot k' ≠ some s.next := by
    intro k' hk hb
    rw [acquire_of_ne s hk] at hb
    exact hnew (h.mem k' _ hb)
  have hself : (s.acquire k).slot k = some s.next := by simp [Slots.acquire]
  refine ⟨?_, ?_, ?_, ?_, ?_⟩
  · refine List.nodup_append.mpr ⟨h.nodup, List.nodup_singleton _, fun b hb c hc heq => ?_⟩
    rw [heq, List.mem_singleton.mp hc] at hb
    exact hnew hb
  · intro a ha
    rcases List.mem_append.mp ha with ha | ha
    · exact Nat.lt_succ_of_lt (h.fresh a ha)
    · rw [List.mem_singleton.mp ha]
      exact Nat.lt_succ_self _
  · intro k' b hb
    by_cases hk : k' = k
    · subst hk
      cases hself.symm.trans hb
      exact List.mem_append_right _ (List.mem_singleton_self _)
    · rw [acquire_of_ne s hk] at hb
      exact List.mem_append_left _ (h.mem k' b hb)
  · intro k₁ k₂ b h₁ h₂
    by_cases hk₁ : k₁ = k <;> by_cases hk₂ : k₂ = k
    · rw [hk₁, hk₂]
    · subst hk₁
      cases hself.symm.trans h₁
      exact absurd h₂ (hother k₂ hk₂)
    · subst hk₂
      cases hself.symm.trans h₂
      exact absurd h₁ (hother k₁ hk₁)
    · rw [acquire_of_ne s hk₁] at h₁
      rw [acquire_of_ne s hk₂] at h₂
      exact h.apart k₁ k₂ b h₁ h₂
  · have hsum := heldIn_update s.slot k (some s.next)
    have hlen := h.count
    simp only [Option.toList_some, List.length_singleton] at hsum
    simp only [Slots.acquire, held, List.length_append, List.length_singleton] at hlen ⊢
    omega

/-- An empty slot is filled without a loss. -/
theorem acquire_new (h : s.Account n) {k : κ} (hnone : s.slot k = none) :
    (s.acquire k).Account n := by
  have hnew := h.acquire k
  rwa [hnone] at hnew

/-- What a slot that is cleared held is lost. -/
theorem clear (h : s.Account n) (k : κ) :
    (s.clear [k]).Account (n + (s.slot k).toList.length) := by
  have hslot : (s.clear [k]).slot = Function.update s.slot k none := by
    funext k'
    by_cases hk : k' = k
    · simp [Slots.clear, hk]
    · simp [Slots.clear, hk]
  have hle : ∀ k' a, (s.clear [k]).slot k' = some a → s.slot k' = some a := by
    intro k' a ha
    simp only [Slots.clear] at ha
    split at ha
    · cases ha
    · exact ha
  have hcleared := h.of_le _ hle
  have hsum := heldIn_update s.slot k none
  have hlen := h.count
  rw [← hslot] at hsum
  simp only [Option.toList_none, List.length_nil, Nat.add_zero] at hsum
  have hn : s.out.length - heldIn (s.clear [k]).slot = n + (s.slot k).toList.length := by
    rw [held, ← hsum] at hlen
    omega
  rw [hn] at hcleared
  exact hcleared

/-- What a slot holds is given back. -/
theorem erase (h : s.Account n) {k : κ} {a : Nat} (hk : s.slot k = some a) :
    ({ s with slot := Function.update s.slot k none, out := s.out.erase a } : Slots κ).Account
      n := by
  have hle : ∀ k' b, Function.update s.slot k none k' = some b → s.slot k' = some b ∧ b ≠ a := by
    intro k' b hb
    by_cases hk' : k' = k
    · subst hk'
      rw [Function.update_self] at hb
      cases hb
    · rw [Function.update_of_ne hk'] at hb
      refine ⟨hb, fun heq => hk' (h.apart k' k a (heq ▸ hb) hk)⟩
  refine ⟨h.nodup.erase a, fun b hb => h.fresh b (List.mem_of_mem_erase hb), ?_, ?_, ?_⟩
  · intro k' b hb
    obtain ⟨hb, hne⟩ := hle k' b hb
    exact (h.nodup.mem_erase_iff).mpr ⟨hne, h.mem k' b hb⟩
  · intro k₁ k₂ b h₁ h₂
    exact h.apart k₁ k₂ b (hle k₁ b h₁).1 (hle k₂ b h₂).1
  · have hsum := heldIn_update s.slot k none
    have hlen := h.count
    have hpos := List.length_pos_of_mem (h.mem k a hk)
    rw [hk] at hsum
    simp only [Option.toList_some, Option.toList_none, List.length_singleton, List.length_nil]
      at hsum
    simp only [held, List.length_erase_of_mem (h.mem k a hk)] at hlen ⊢
    omega

theorem acquireAll (h : s.Account n) {ks : List κ} (hks : ks.Nodup)
    (hnone : ∀ k ∈ ks, s.slot k = none) :
    (s.acquireAll ks).Account n ∧ (s.acquireAll ks).held = s.held + ks.length := by
  induction ks generalizing s with
  | nil => exact ⟨h, rfl⟩
  | cons k ks ih =>
    obtain ⟨hk, hks⟩ := List.nodup_cons.mp hks
    have hfree : s.slot k = none := hnone k List.mem_cons_self
    have hone := h.acquire_new hfree
    have hrest : ∀ k' ∈ ks, (s.acquire k).slot k' = none := by
      intro k' hk'
      have hne : k' ≠ k := fun heq => hk (heq ▸ hk')
      rw [acquire_of_ne s hne]
      exact hnone k' (List.mem_cons_of_mem k hk')
    obtain ⟨hall, hheld⟩ := ih hone hks hrest
    refine ⟨hall, ?_⟩
    have hsum : (s.acquire k).held = s.held + 1 := by
      have hupd := heldIn_update s.slot k (some s.next)
      rwa [hfree] at hupd
    rw [List.length_cons, Nat.add_comm ks.length, ← Nat.add_assoc, ← hsum]
    exact hheld

omit [Fintype κ] in
/-- The slots that still count after the first of a list. -/
theorem counted_cons {slot slot' : κ → Option Nat} {keep : κ → Bool} {k : κ} {ks : List κ}
    (hk : k ∉ ks) (hother : ∀ k', k' ≠ k → slot' k' = slot k')
    (hself : slot' k = if keep k = false then none else slot k) :
    (fun k' => if k' ∈ ks ∧ keep k' = false then none else slot' k') =
      fun k' => if k' ∈ k :: ks ∧ keep k' = false then none else slot k' := by
  funext k'
  by_cases heq : k' = k
  · subst heq
    simp [hk, hself]
  · simp [heq, hother k' heq]

/-- Giving back always has a result. The induction is over what is left of the list, and
    `slot` are the slots that still count. -/
theorem releaseAll_counting {slot : κ → Option Nat}
    (h : ({ s with slot := slot } : Slots κ).Account n) (keep : κ → Bool) {ks : List κ}
    (hks : ks.Nodup) (hsame : ∀ k ∈ ks, slot k = s.slot k) :
    ∃ s', s.releaseAll keep ks = some s' ∧
      ({ s' with slot := fun k => if k ∈ ks ∧ keep k = false then none else slot k } :
        Slots κ).Account n := by
  induction ks generalizing s slot with
  | nil => exact ⟨s, rfl, by simpa using h⟩
  | cons k ks ih =>
    obtain ⟨hk, hks⟩ := List.nodup_cons.mp hks
    have hrest : ∀ k' ∈ ks, slot k' = s.slot k' := fun k' hk' =>
      hsame k' (List.mem_cons_of_mem k hk')
    have hslot := hsame k List.mem_cons_self
    cases hkk : keep k with
    | true =>
      obtain ⟨s', hs', hacc⟩ := ih h hks hrest
      refine ⟨s', by simpa [Slots.releaseAll, hkk] using hs', ?_⟩
      rwa [counted_cons hk (fun _ _ => rfl) (by simp [hkk])] at hacc
    | false =>
      cases ha : s.slot k with
      | none =>
        obtain ⟨s', hs', hacc⟩ := ih h hks hrest
        refine ⟨s', by simpa [Slots.releaseAll, hkk, release, ha] using hs', ?_⟩
        rwa [counted_cons hk (fun _ _ => rfl) (by simp [hslot, ha])] at hacc
      | some a =>
        have hout : a ∈ s.out := h.mem k a (hslot.trans ha)
        have hupd : ∀ k' ∈ ks, Function.update slot k none k' = s.slot k' := by
          intro k' hk'
          have hne : k' ≠ k := fun heq => hk (heq ▸ hk')
          rw [Function.update_of_ne hne]
          exact hrest k' hk'
        obtain ⟨s', hs', hacc⟩ := ih (s := { s with out := s.out.erase a })
          (h.erase (hslot.trans ha)) hks hupd
        refine ⟨s', by simpa [Slots.releaseAll, hkk, release, ha, hout] using hs', ?_⟩
        rwa [counted_cons hk (fun k' hk' => Function.update_of_ne hk' _ _) (by simp [hkk])] at hacc

/-- Giving back what some slots hold always has a result. What the others hold is lost when
    the slots are forgotten. -/
theorem releaseAll_forget (h : s.Account n) (keep : κ → Bool) (ks : List κ) (hks : ks.Nodup) :
    ∃ s', s.releaseAll keep ks = some s' ∧
      s'.forget.Account
        (n + heldIn fun k => if k ∈ ks ∧ keep k = false then none else s.slot k) := by
  obtain ⟨s', hs', hacc⟩ := h.releaseAll_counting keep hks fun _ _ => rfl
  exact ⟨s', hs', hacc.forget⟩

/-- What has been put in empty slots can be given back, and nothing is lost. -/
theorem acquireAll_releaseAll (h : s.Account n) (hnone : ∀ k, s.slot k = none) (ks : List κ)
    (hks : ks.Nodup) :
    ∃ s', (s.acquireAll ks).releaseAll (fun _ => false) ks = some s' ∧ s'.forget.Account n := by
  obtain ⟨hall, -⟩ := h.acquireAll hks fun k _ => hnone k
  obtain ⟨s', hs', hacc⟩ := hall.releaseAll_forget (fun _ => false) ks hks
  have hrest : (fun k => if k ∈ ks ∧ false = false then none else (s.acquireAll ks).slot k) =
      fun _ => none := by
    funext k
    split
    · rfl
    · rename_i hk
      have hmem : k ∉ ks := fun hmem => hk ⟨hmem, rfl⟩
      rw [acquireAll_of_notMem hmem, hnone k]
  rw [hrest, heldIn_none, Nat.add_zero] at hacc
  exact ⟨s', hs', hacc⟩

end Account
end Slots
end Library
