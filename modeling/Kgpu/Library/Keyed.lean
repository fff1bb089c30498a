-- SUMMARY: Taking elements off a list by a key, which of them stay, and going along the list meanwhile.
import Mathlib.Data.List.Nodup

/-!
# Lists with keys

The elements of a list have keys, not necessarily different ones. Taking a key off
removes the first element that has it. After any number of keys an element is gone
exactly when its key was taken off more often than it stands before the element.

What comes after an element of a list without repetitions only gets less when others are
taken off, so going along such a list comes to an end.
-/

namespace Library

variable {α κ : Type}

/-- What `find?` finds is what `eraseP` takes off. -/
theorem erase_of_find? [DecidableEq α] {p : α → Bool} {l : List α} {a : α}
    (h : l.find? p = some a) : l.erase a = l.eraseP p := by
  induction l with
  | nil => cases h
  | cons b l ih =>
    by_cases hb : p b = true
    · rw [List.find?_cons_of_pos hb] at h
      cases h
      rw [List.erase_cons_head, List.eraseP_cons_of_pos hb]
    · rw [List.find?_cons_of_neg hb] at h
      have hne : b ≠ a := by
        rintro rfl
        exact hb (List.find?_some h)
      rw [List.erase_cons_tail (by simpa using hne), List.eraseP_cons_of_neg hb, ih h]

variable [DecidableEq κ] (k : α → κ)

/-- Take off the first element with each of the keys, one key after the other. -/
def eraseKeys (l : List α) (ks : List κ) : List α := ks.foldl (fun l n => l.eraseP (k · = n)) l

theorem eraseKeys_sublist (l : List α) (ks : List κ) : (eraseKeys k l ks).Sublist l := by
  induction ks generalizing l with
  | nil => exact List.Sublist.refl l
  | cons n ks ih => exact (ih _).trans List.eraseP_sublist

variable {k}

/-- How often a key occurs after the first occurrence of some key is taken off. -/
theorem countP_eraseP {l : List α} {n m : κ} (h : ∃ a ∈ l, k a = n) :
    (l.eraseP (k · = n)).countP (k · = m) + (if n = m then 1 else 0) = l.countP (k · = m) := by
  obtain ⟨a, ha, hka⟩ := h
  obtain ⟨b, l₁, l₂, -, hb, rfl, heq⟩ :=
    List.exists_of_eraseP (p := fun a => decide (k a = n)) ha (by simpa using hka)
  rw [heq, List.countP_append, List.countP_append, List.countP_cons]
  rw [show k b = n from of_decide_eq_true hb]
  simp only [decide_eq_true_eq]
  omega

theorem mem_eraseKeys {l pre post : List α} {j : α} (hnd : l.Nodup) (hl : l = pre ++ j :: post)
    (ks : List κ) :
    j ∈ eraseKeys k l ks ↔ ks.countP (k j = ·) ≤ pre.countP (k · = k j) := by
  induction ks generalizing l pre post with
  | nil =>
    subst hl
    simp [eraseKeys]
  | cons n ks ih =>
    change j ∈ eraseKeys k (l.eraseP (k · = n)) ks ↔ _
    have hnd' := hnd.eraseP (k · = n)
    rw [List.countP_cons]
    by_cases hpre : ∃ a ∈ pre, k a = n
    · have hcount := @countP_eraseP _ _ _ _ _ _ (k j) hpre
      obtain ⟨a, ha, hka⟩ := hpre
      have heq : l.eraseP (k · = n) = pre.eraseP (k · = n) ++ j :: post := by
        rw [hl, List.eraseP_append_left (by simpa using hka) _ ha]
      rw [ih hnd' heq, ← hcount]
      simp only [decide_eq_true_eq, @eq_comm κ n (k j)]
      omega
    · have hnone : ∀ a ∈ pre, ¬ decide (k a = n) = true := by
        intro a ha hka
        exact hpre ⟨a, ha, of_decide_eq_true hka⟩
      have heq : l.eraseP (k · = n) = pre ++ (j :: post).eraseP (k · = n) := by
        rw [hl, List.eraseP_append_right _ hnone]
      by_cases hj : k j = n
      · rw [List.eraseP_cons_of_pos (by simpa using hj)] at heq
        have hout : j ∉ pre ++ post := by
          rw [hl] at hnd
          exact (List.nodup_middle.mp hnd).notMem
        have hzero : pre.countP (k · = k j) = 0 := by
          rw [hj]
          exact List.countP_eq_zero.mpr hnone
        have hgone : j ∉ eraseKeys k (l.eraseP (k · = n)) ks := by
          rw [heq]
          exact fun hmem => hout ((eraseKeys_sublist k _ ks).subset hmem)
        rw [hzero, if_pos (by simpa using hj)]
        exact iff_of_false hgone (Nat.not_succ_le_zero _)
      · rw [List.eraseP_cons_of_neg (by simpa using hj)] at heq
        rw [ih hnd' heq, if_neg (by simpa using hj)]
        rfl

/-! ## Going along a list -/

section After

variable [DecidableEq α] {l l' pre post : List α} {a b : α}

/-- The elements after one of the list. -/
def after (l : List α) (a : α) : List α := (l.dropWhile (· ≠ a)).tail

theorem after_eq (hnd : l.Nodup) (hl : l = pre ++ a :: post) : after l a = post := by
  subst hl
  have hout : a ∉ pre := fun h => (List.nodup_middle.mp hnd).notMem (List.mem_append_left _ h)
  have hskip : ∀ x ∈ pre, decide (x ≠ a) = true := fun x hx =>
    decide_eq_true fun heq => hout (heq ▸ hx)
  rw [after, List.dropWhile_append_of_pos hskip, List.dropWhile_cons_of_neg (by simp), List.tail_cons]

theorem after_cons (hnd : l.Nodup) (ha : a ∈ l) (h : (after l a).head? = some b) :
    after l a = b :: after l b := by
  obtain ⟨pre, post, hl⟩ := List.append_of_mem ha
  rw [after_eq hnd hl] at h ⊢
  obtain ⟨rest, rfl⟩ := List.head?_eq_some_iff.mp h
  have hl' : l = (pre ++ [a]) ++ b :: rest := by
    rw [hl, List.append_assoc]
    rfl
  rw [after_eq hnd hl']

theorem after_length_lt (hnd : l.Nodup) (ha : a ∈ l) : (after l a).length < l.length := by
  obtain ⟨pre, post, hl⟩ := List.append_of_mem ha
  rw [after_eq hnd hl, hl, List.length_append, List.length_cons]
  omega

/-- Taking off elements other than `a` leaves no more after `a`. -/
theorem after_sublist (hnd : l.Nodup) (hsub : l'.Sublist l) (ha : a ∈ l') :
    (after l' a).Sublist (after l a) := by
  obtain ⟨pre, post, heq⟩ := List.append_of_mem ha
  rw [after_eq (hnd.sublist hsub) heq]
  have hcons : (a :: post).Sublist l := by
    rw [heq] at hsub
    exact (List.sublist_append_right pre _).trans hsub
  obtain ⟨l₁, l₂, hl, hmem, hpost⟩ := List.cons_sublist_iff.mp hcons
  obtain ⟨s, t, rfl⟩ := List.append_of_mem hmem
  have hl' : l = s ++ a :: (t ++ l₂) := by
    rw [hl, List.append_assoc]
    rfl
  rw [after_eq hnd hl']
  exact hpost.trans (List.sublist_append_right t l₂)

end After

end Library
