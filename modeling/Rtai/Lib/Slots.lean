import Mathlib.Data.Finset.Card
import Mathlib.Logic.Function.Basic

/-!
# Tables with empty cells

`Slots n empty cell s` says that the first `n` cells of a table hold the elements of the
finite set `s`, each in one cell, and that the rest of these cells are empty.  `put` and
`clear` are the rules for writing one cell, and `card_used` counts the cells in use.
-/

namespace Rtai.Lib

open Function

variable {α : Type}

/-- The first `n` cells hold the elements of `s`, each in one cell. -/
structure Slots (n : Nat) (empty : α) (cell : Nat → α) (s : Finset α) : Prop where
  mem : ∀ {a}, a ∈ s ↔ a ≠ empty ∧ ∃ i < n, cell i = a
  once : ∀ {i j}, i < n → j < n → cell i = cell j → cell i ≠ empty → i = j

namespace Slots

variable {n i : Nat} {empty a : α} {cell : Nat → α} {s : Finset α}

/-- A table of empty cells. -/
theorem clean (h : ∀ i < n, cell i = empty) : Slots n empty cell ∅ where
  mem := by
    intro a
    constructor
    · intro ha
      cases ha
    · rintro ⟨ne, i, hi, rfl⟩
      exact absurd (h i hi) ne
  once := fun hi _ _ ne => absurd (h _ hi) ne

variable (h : Slots n empty cell s)
include h

theorem cell_mem (hi : i < n) (ne : cell i ≠ empty) : cell i ∈ s :=
  h.mem.mpr ⟨ne, i, hi, rfl⟩

variable [DecidableEq α]

/-- An empty cell takes a new element. -/
theorem put (hi : i < n) (free : cell i = empty) (ne : a ≠ empty) (new : a ∉ s) :
    Slots n empty (update cell i a) (insert a s) where
  mem := by
    intro b
    rw [Finset.mem_insert]
    constructor
    · rintro (rfl | hb)
      · exact ⟨ne, i, hi, update_self i b cell⟩
      · obtain ⟨nb, j, hj, rfl⟩ := h.mem.mp hb
        have other : j ≠ i := by
          rintro rfl
          exact nb free
        exact ⟨nb, j, hj, update_of_ne other a cell⟩
    · rintro ⟨nb, j, hj, rfl⟩
      rcases eq_or_ne j i with rfl | other
      · exact .inl (update_self j a cell)
      · rw [update_of_ne other] at nb ⊢
        exact .inr (h.cell_mem hj nb)
  once := by
    have fresh {j : Nat} (hj : j < n) : cell j ≠ a := by
      rintro rfl
      exact new (h.cell_mem hj ne)
    intro j k hj hk same nj
    rcases eq_or_ne j i with rfl | hji <;> rcases eq_or_ne k j with rfl | hkj
    · rfl
    · rw [update_self, update_of_ne hkj] at same
      exact absurd same.symm (fresh hk)
    · rfl
    · rw [update_of_ne hji] at same nj
      rcases eq_or_ne k i with rfl | hki
      · rw [update_self] at same
        exact absurd same (fresh hj)
      · rw [update_of_ne hki] at same
        exact h.once hj hk same nj

/-- A cell is emptied. -/
theorem clear (hi : i < n) (used : cell i ≠ empty) :
    Slots n empty (update cell i empty) (s.erase (cell i)) where
  mem := by
    intro b
    rw [Finset.mem_erase]
    constructor
    · rintro ⟨other, hb⟩
      obtain ⟨nb, j, hj, rfl⟩ := h.mem.mp hb
      have hji : j ≠ i := by
        rintro rfl
        exact other rfl
      exact ⟨nb, j, hj, update_of_ne hji empty cell⟩
    · rintro ⟨nb, j, hj, rfl⟩
      rcases eq_or_ne j i with rfl | hji
      · exact absurd (update_self j empty cell) nb
      · rw [update_of_ne hji] at nb ⊢
        exact ⟨fun same => hji (h.once hj hi same nb), h.cell_mem hj nb⟩
  once := by
    intro j k hj hk same nj
    have other {l : Nat} (nl : update cell i empty l ≠ empty) : l ≠ i := by
      rintro rfl
      exact nl (update_self l empty cell)
    have hji := other nj
    have hki := other (same ▸ nj)
    rw [update_of_ne hji, update_of_ne hki] at same
    exact h.once hj hk same (update_of_ne hji empty cell ▸ nj)

/-- As many cells are in use as there are elements. -/
theorem card_used : ((Finset.range n).filter fun i => cell i ≠ empty).card = s.card := by
  refine Finset.card_bij (fun i _ => cell i) ?_ ?_ ?_
  · intro i hi
    obtain ⟨hi, used⟩ := Finset.mem_filter.mp hi
    exact h.cell_mem (Finset.mem_range.mp hi) used
  · intro i hi j hj same
    obtain ⟨hi, used⟩ := Finset.mem_filter.mp hi
    obtain ⟨hj, -⟩ := Finset.mem_filter.mp hj
    exact h.once (Finset.mem_range.mp hi) (Finset.mem_range.mp hj) same used
  · intro a ha
    obtain ⟨ne, i, hi, rfl⟩ := h.mem.mp ha
    exact ⟨i, Finset.mem_filter.mpr ⟨Finset.mem_range.mpr hi, ne⟩, rfl⟩

end Slots

end Rtai.Lib
