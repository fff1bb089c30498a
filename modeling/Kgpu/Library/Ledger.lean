-- SUMMARY: The objects that an allocator has given out, against those that someone holds.
import Mathlib.Data.List.Nodup

/-!
# Ledgers

An allocator gives objects out and takes them back. The list of those that are out is
right when it has exactly the objects that are held somewhere, each of them once: a held
object that is not in it was freed too early, and one in it that is not held is lost.
-/

namespace Library

variable {α : Type}

/-- The list has the objects that are held, each of them once. -/
structure Ledger (out : List α) (held : α → Prop) : Prop where
  nodup : out.Nodup
  mem_iff : ∀ a, a ∈ out ↔ held a

namespace Ledger

variable {out : List α} {held held' : α → Prop} {a : α}

theorem congr (h : Ledger out held) (hsame : ∀ a, held' a ↔ held a) : Ledger out held' :=
  ⟨h.nodup, fun a => (h.mem_iff a).trans (hsame a).symm⟩

/-- An object that nobody holds is given out. -/
theorem give (h : Ledger out held) (hnew : ¬ held a) (hsame : ∀ b, held' b ↔ b = a ∨ held b) :
    Ledger (a :: out) held' := by
  refine ⟨List.nodup_cons.mpr ⟨fun hmem => hnew ((h.mem_iff a).mp hmem), h.nodup⟩, fun b => ?_⟩
  rw [List.mem_cons, h.mem_iff b, hsame b]

/-- An object is taken back. -/
theorem take [DecidableEq α] (h : Ledger out held) (hsame : ∀ b, held' b ↔ b ≠ a ∧ held b) :
    Ledger (out.erase a) held' := by
  refine ⟨h.nodup.erase a, fun b => ?_⟩
  rw [h.nodup.mem_erase_iff, h.mem_iff b, hsame b]

end Ledger
end Library
