import Mathlib.Algebra.Group.Fin.Basic
import Mathlib.Logic.Function.Basic
import Mathlib.Order.Fin.Basic

/-!
# Linear probing

A table whose last cell is followed by its first.  `Before i x k` says that a search that
begins at `i` meets `x` before `k`.  In a `Probed` table no search for an element meets an
empty cell before the element's own, and no element is in two cells; one cell is exempt, for
something that is never searched for.  `put` and `clear` are the rules for writing one cell:
an element goes to an empty cell that a search for it has led to, and a cell is emptied when
it is on no other's path.
-/

namespace Rtai.Lib

open Function

section

variable {n : Nat} {i x k : Fin (n + 1)}

/-- A search that begins at `i` meets `x` before `k`. -/
def Before (i x k : Fin (n + 1)) : Prop := x - i < k - i

instance : Decidable (Before i x k) := inferInstanceAs (Decidable (_ < _))

theorem not_before_start : ¬Before i x i := by
  intro h
  rw [Before, sub_self] at h
  exact Fin.not_lt_zero _ h

theorem before_trichotomy (i x k : Fin (n + 1)) : Before i x k ∨ x = k ∨ Before i k x := by
  rcases lt_trichotomy (x - i) (k - i) with less | same | more
  · exact .inl less
  · exact .inr (.inl (sub_left_inj.mp same))
  · exact .inr (.inr more)

/-- How many cells a search that begins at `i` has met before `k`. -/
def reads (i k : Fin (n + 1)) : Nat := (k - i).val

theorem reads_lt : reads i k < n + 1 := (k - i).isLt

theorem reads_succ (more : k + 1 ≠ i) : reads i (k + 1) = reads i k + 1 := by
  have inner : k - i ≠ Fin.last n := by
    intro last
    apply more
    rw [← sub_eq_zero, add_sub_right_comm, last, Fin.last_add_one]
  rw [reads, reads, add_sub_right_comm, Fin.val_add_one, if_neg inner]

theorem before_iff : Before i x k ↔ reads i x < reads i k := Iff.rfl

theorem reads_inj : reads i x = reads i k ↔ x = k := by
  rw [reads, reads, Fin.val_inj, sub_left_inj]

theorem before_succ (more : k + 1 ≠ i) : Before i x (k + 1) ↔ Before i x k ∨ x = k := by
  rw [before_iff, before_iff, reads_succ more, ← reads_inj (i := i)]
  omega

theorem reads_last (last : k + 1 = i) : reads i k = n := by
  have difference : k - i = Fin.last n := by
    rw [← last, sub_add_cancel_left]
    exact neg_eq_iff_eq_neg.mpr (Fin.neg_last n).symm
  rw [reads, difference, Fin.val_last]

/-- A search that comes round has met every cell. -/
theorem before_last (last : k + 1 = i) (x : Fin (n + 1)) : Before i x k ∨ x = k := by
  have less := reads_lt (i := i) (k := x)
  rw [before_iff, ← reads_inj (i := i), reads_last last]
  omega

end

variable {n : Nat} {α : Type} {empty a : α} {home : α → Fin (n + 1)} {exempt k : Fin (n + 1)}
  {cell : Fin (n + 1) → α}

/-- Every element is on its own path, in one cell. -/
structure Probed (empty : α) (home : α → Fin (n + 1)) (exempt : Fin (n + 1))
    (cell : Fin (n + 1) → α) : Prop where
  path : ∀ {m}, m ≠ exempt → cell m ≠ empty → ∀ {x}, Before (home (cell m)) x m → cell x ≠ empty
  once : ∀ {k m}, cell k = cell m → cell k ≠ empty → k = m
  kept : cell exempt ≠ empty

namespace Probed

/-- An empty cell on its path that is met before an element ends the search for it. -/
theorem absent (h : Probed empty home exempt cell) (free : cell k = empty) (ne : a ≠ empty)
    (out : cell exempt ≠ a) (unmet : ∀ x, Before (home a) x k → cell x ≠ a) :
    ∀ x, cell x ≠ a := by
  intro x found
  rcases before_trichotomy (home a) x k with met | same | beyond
  · exact unmet x met found
  · subst same
    exact ne (found.symm.trans free)
  · have other : x ≠ exempt := by
      intro same
      subst same
      exact out found
    subst found
    exact h.path other ne beyond free

/-- Only the exempt cell is not empty. -/
theorem of_empty (kept : cell exempt ≠ empty) (rest : ∀ x, x ≠ exempt → cell x = empty) :
    Probed empty home exempt cell where
  path other used := absurd (rest _ other) used
  once := by
    intro x m same used
    have only {x : Fin (n + 1)} (used : cell x ≠ empty) : x = exempt := by
      by_contra other
      exact used (rest x other)
    exact (only used).trans (only (same ▸ used)).symm
  kept := kept

/-- An element is put into an empty cell that a search for it has led to. -/
theorem put (h : Probed empty home exempt cell) (free : cell k = empty) (ne : a ≠ empty)
    (met : ∀ x, Before (home a) x k → cell x ≠ empty) (new : ∀ x, cell x ≠ a) :
    Probed empty home exempt (update cell k a) where
  path := by
    intro m other used x before
    have full (old : cell x ≠ empty) : update cell k a x ≠ empty := by
      by_cases here : x = k
      · rw [here, update_self]
        exact ne
      · rwa [update_of_ne here]
    by_cases here : m = k
    · subst here
      rw [update_self] at before
      exact full (met x before)
    · rw [update_of_ne here] at used before
      exact full (h.path other used before)
  once := by
    intro x m same used
    by_cases hx : x = k <;> by_cases hm : m = k
    · rw [hx, hm]
    · rw [hx, update_self, update_of_ne hm] at same
      exact absurd same.symm (new m)
    · rw [hm, update_self, update_of_ne hx] at same
      exact absurd same (new x)
    · rw [update_of_ne hx] at same used
      rw [update_of_ne hm] at same
      exact h.once same used
  kept := by
    by_cases here : exempt = k
    · rw [here, update_self]
      exact ne
    · rw [update_of_ne here]
      exact h.kept

/-- A cell that is on no other element's path is emptied. -/
theorem clear (h : Probed empty home exempt cell) (other : k ≠ exempt)
    (unused : ∀ m, m ≠ exempt → cell m ≠ empty → ¬Before (home (cell m)) k m) :
    Probed empty home exempt (update cell k empty) where
  path := by
    intro m fixed used x before
    have there : m ≠ k := by
      intro same
      subst same
      exact used (update_self ..)
    rw [update_of_ne there] at used before
    have apart : x ≠ k := by
      intro same
      subst same
      exact unused m fixed used before
    rw [update_of_ne apart]
    exact h.path fixed used before
  once := by
    intro x m same used
    have hx : x ≠ k := by
      intro here
      subst here
      exact used (update_self ..)
    have hm : m ≠ k := by
      intro here
      subst here
      exact used (same.trans (update_self ..))
    rw [update_of_ne hx] at same used
    rw [update_of_ne hm] at same
    exact h.once same used
  kept := by
    rw [update_of_ne other.symm]
    exact h.kept

end Probed

end Rtai.Lib
