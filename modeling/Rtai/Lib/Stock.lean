import Mathlib.Data.Finset.Card
import Mathlib.Order.Interval.Finset.Nat
import Mathlib.Logic.Function.Basic

/-!
# Stacks of free items

The cells from `sp` on to the end of an array hold the items that are free, each in one cell,
and the cells in front of them are of no account.  `pop` and `push` are the moves.  An item
that is not among the free ones leaves a cell for it: `room`.
-/

namespace Rtai.Lib

open Function

/-- The items from `lo` to `hi` that are free are in the cells from `sp` on. -/
structure Stock (lo hi sp : Nat) (cell : Nat → Nat) (free : Finset Nat) : Prop where
  low : lo ≤ sp
  high : sp ≤ hi
  range : free ⊆ Finset.Ico lo hi
  mem : ∀ {x}, x ∈ free ↔ ∃ i, sp ≤ i ∧ i < hi ∧ cell i = x
  once : ∀ {i j}, sp ≤ i → i < hi → sp ≤ j → j < hi → cell i = cell j → i = j

namespace Stock

variable {lo hi sp x : Nat} {cell : Nat → Nat} {free : Finset Nat}

/-- All items, each in its own cell. -/
theorem full (le : lo ≤ hi) : Stock lo hi lo id (Finset.Ico lo hi) where
  low := Nat.le_refl lo
  high := le
  range := Finset.Subset.refl _
  mem := by
    intro x
    rw [Finset.mem_Ico]
    exact ⟨fun ⟨low, high⟩ => ⟨x, low, high, rfl⟩, fun ⟨i, low, high, same⟩ => same ▸ ⟨low, high⟩⟩
  once := fun _ _ _ _ same => same

variable (s : Stock lo hi sp cell free)
include s

theorem card_eq : free.card = hi - sp := by
  have image : free = (Finset.Ico sp hi).image cell := by
    ext x
    simp only [s.mem, Finset.mem_image, Finset.mem_Ico, and_assoc]
  rw [image, Finset.card_image_of_injOn, Nat.card_Ico]
  intro i hi j hj same
  rw [Finset.coe_Ico, Set.mem_Ico] at hi hj
  exact s.once hi.1 hi.2 hj.1 hj.2 same

/-- An item that is not free has left a cell behind. -/
theorem room (item : x ∈ Finset.Ico lo hi) (taken : x ∉ free) : lo < sp := by
  have proper : free ⊂ Finset.Ico lo hi :=
    ⟨s.range, fun all => taken (all item)⟩
  have less := Finset.card_lt_card proper
  rw [s.card_eq, Nat.card_Ico] at less
  omega

/-- With all items free the stack is full. -/
theorem sp_eq (all : ∀ x ∈ Finset.Ico lo hi, x ∈ free) : sp = lo := by
  have same : free = Finset.Ico lo hi := Finset.Subset.antisymm s.range all
  have count := s.card_eq
  have low := s.low
  have high := s.high
  rw [same, Nat.card_Ico] at count
  omega

theorem top_mem (some : sp < hi) : cell sp ∈ free :=
  s.mem.mpr ⟨sp, Nat.le_refl sp, some, rfl⟩

theorem pop (some : sp < hi) : Stock lo hi (sp + 1) cell (free.erase (cell sp)) where
  low := Nat.le_succ_of_le s.low
  high := some
  range := (Finset.erase_subset _ _).trans s.range
  mem := by
    intro x
    rw [Finset.mem_erase, s.mem]
    constructor
    · rintro ⟨other, i, low, high, rfl⟩
      have : i ≠ sp := fun same => other (same ▸ rfl)
      exact ⟨i, by omega, high, rfl⟩
    · rintro ⟨i, low, high, rfl⟩
      refine ⟨fun same => ?_, i, by omega, high, rfl⟩
      have := s.once (by omega) high (Nat.le_refl sp) some same
      omega
  once := fun hi' hi hj' hj same => s.once (by omega) hi (by omega) hj same

theorem push (item : x ∈ Finset.Ico lo hi) (taken : x ∉ free) :
    Stock lo hi (sp - 1) (update cell (sp - 1) x) (insert x free) := by
  have room := s.room item taken
  have high := s.high
  have old {i : Nat} (le : sp ≤ i) : update cell (sp - 1) x i = cell i :=
    update_of_ne (by omega) x cell
  have fresh {i : Nat} (le : sp ≤ i) (lt : i < hi) : cell i ≠ x :=
    fun same => taken (s.mem.mpr ⟨i, le, lt, same⟩)
  refine ⟨by omega, by omega, Finset.insert_subset item s.range, ?_, ?_⟩
  · intro y
    rw [Finset.mem_insert, s.mem]
    constructor
    · rintro (rfl | ⟨i, le, lt, rfl⟩)
      · exact ⟨sp - 1, Nat.le_refl _, by omega, update_self _ _ _⟩
      · exact ⟨i, by omega, lt, old le⟩
    · rintro ⟨i, le, lt, rfl⟩
      rcases Nat.lt_or_ge i sp with new | beyond
      · obtain rfl : i = sp - 1 := by omega
        exact .inl (update_self _ _ _)
      · exact .inr ⟨i, beyond, lt, (old beyond).symm⟩
  · intro i j hi hi' hj hj' same
    rcases Nat.lt_or_ge i sp with newI | beyondI <;> rcases Nat.lt_or_ge j sp with newJ | beyondJ
    · omega
    · obtain rfl : i = sp - 1 := by omega
      rw [update_self, old beyondJ] at same
      exact absurd same.symm (fresh beyondJ hj')
    · obtain rfl : j = sp - 1 := by omega
      rw [update_self, old beyondI] at same
      exact absurd same (fresh beyondI hi')
    · rw [old beyondI, old beyondJ] at same
      exact s.once beyondI hi' beyondJ hj' same

end Stock

end Rtai.Lib
