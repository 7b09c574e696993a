import Mathlib.Data.List.Range
import Mathlib.Logic.Function.Basic

/-!
# The end of a stream in a ring

`Recent n mem l` says that a ring of `n` cells has the last `n` entries of `l`, each in the cell
of its number.  It says so of all that has ever been written, so nothing is assumed about what
has been read meanwhile, and a ring that has been overwritten is not excluded.

`cells` is read from the ring, and `Recent.cells` says what is read.
-/

namespace Rtai.Lib

variable {α : Type} {n m first t g : Nat} {mem : Nat → α} {l : List α} {a : α}

def Recent (n : Nat) (mem : Nat → α) (l : List α) : Prop :=
  ∀ k (here : k < l.length), l.length ≤ k + n → mem (k % n) = l[k]

/-- The `m` cells from `first` on, around the ring. -/
def cells (n : Nat) (mem : Nat → α) (first m : Nat) : List α :=
  (List.range m).map fun k => mem ((first + k) % n)

/-- The number of cells from `tail` to before `head`. -/
def span (n head tail : Nat) : Nat := (head + n - tail) % n

@[simp] theorem cells_length : (cells n mem first m).length = m := by
  simp [cells]

@[simp] theorem cells_zero : cells n mem first 0 = [] := rfl

theorem cells_succ : cells n mem first (m + 1) =
    mem (first % n) :: cells n mem (first + 1) m := by
  simp only [cells, List.range_succ_eq_map, List.map_cons, List.map_map, Nat.add_zero]
  congr 1
  refine List.map_congr_left fun k _ => ?_
  rw [Function.comp_apply, Nat.succ_eq_add_one, Nat.add_comm k 1, Nat.add_assoc]

/-- Only the place of the first cell counts. -/
theorem cells_mod : cells n mem (first % n) m = cells n mem first m := by
  refine List.map_congr_left fun k _ => ?_
  rw [Nat.mod_add_mod]

theorem span_mod (le : g ≤ t) (pos : 0 < n) : span n (t % n) (g % n) = (t - g) % n := by
  obtain ⟨d, rfl⟩ := Nat.exists_eq_add_of_le le
  have small := Nat.mod_lt g pos
  have shift : (g + d) % n + n - g % n = (g + d) % n + (n - g % n) := by omega
  rw [span, shift, Nat.mod_add_mod, Nat.add_sub_cancel_left]
  have whole : g + d + (n - g % n) = d + n * (g / n + 1) := by
    have split := Nat.mod_add_div g n
    rw [Nat.mul_add, Nat.mul_one]
    omega
  rw [whole, Nat.add_mul_mod_self_left]

theorem span_lt (pos : 0 < n) (head tail : Nat) : span n head tail < n := Nat.mod_lt _ pos

namespace Recent

theorem nil : Recent n mem [] := fun _ here => absurd here (Nat.not_lt_zero _)

/-- An entry is written to the cell of its number. -/
theorem put (recent : Recent n mem l) :
    Recent n (Function.update mem (l.length % n) a) (l ++ [a]) := by
  intro k here near
  rw [List.length_append, List.length_singleton] at here near
  rcases Nat.lt_or_eq_of_le (Nat.lt_succ_iff.mp here) with before | rfl
  · have other : k % n ≠ l.length % n := fun same => by
      have whole := Nat.dvd_of_mod_eq_zero (Nat.sub_mod_eq_zero_of_mod_eq same.symm)
      have := Nat.le_of_dvd (by omega) whole
      omega
    rw [Function.update_of_ne other, List.getElem_append_left before]
    exact recent k before (by omega)
  · simp

/-- What is read up to the end of the stream. -/
theorem cells (recent : Recent n mem l) (round : m ≤ n) (there : m ≤ l.length) :
    cells n mem (l.length - m) m = l.drop (l.length - m) := by
  refine List.ext_getElem (by simp; omega) fun k here _ => ?_
  rw [cells_length] at here
  simp only [Lib.cells, List.getElem_map, List.getElem_range, List.getElem_drop]
  exact recent _ (by omega) (by omega)

end Recent

end Rtai.Lib
