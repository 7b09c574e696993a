import Mathlib.Algebra.Order.Group.Unbundled.Int
import Mathlib.Algebra.Order.Ring.Abs
import Mathlib.Data.Int.Order.Basic
import Mathlib.Tactic.Ring
import Mathlib.Tactic.Linarith

/-!
# Quotients rounded to the nearest

`nearest n d` is the integer next to `n / d`, and the lower one in the middle between two.
On the integers it is an odd function.  Two roundings, by a ratio and by its inverse, lead
back to where they started up to one: `nearestInt_back`.
-/

namespace Rtai.Lib

/-- `n / d` rounded to the nearest, down in the middle. -/
def nearest (n d : Nat) : Nat := (2 * n + d - 1) / (2 * d)

variable {n n' d k : Nat}

/-- Rounding looks at twice the remainder. -/
theorem nearest_eq (pos : 0 < d) :
    nearest n d = n / d + if d < 2 * (n % d) then 1 else 0 := by
  have split := Nat.div_add_mod n d
  have small := Nat.mod_lt n pos
  unfold nearest
  generalize n / d = q at split ⊢
  generalize n % d = r at split small ⊢
  have multiple (k : Nat) : (q + k) * (2 * d) = 2 * (d * q) + k * (2 * d) := by ring
  split_ifs with up
  · refine Nat.div_eq_of_lt_le ?_ ?_
    · rw [multiple]
      omega
    · rw [Nat.add_assoc, multiple]
      omega
  · refine Nat.div_eq_of_lt_le ?_ ?_
    · rw [multiple]
      omega
    · rw [Nat.add_assoc, multiple]
      omega

theorem nearest_mono (le : n ≤ n') : nearest n d ≤ nearest n' d :=
  Nat.div_le_div_right (by omega)

@[simp] theorem nearest_zero : nearest 0 d = 0 := by
  rcases Nat.eq_zero_or_pos d with rfl | pos
  · rfl
  · exact Nat.div_eq_of_lt (by omega)

/-- The error is half a unit. -/
theorem nearest_error (pos : 0 < d) : 2 * |(nearest n d : Int) * d - n| ≤ d := by
  have split := Nat.div_add_mod n d
  have small := Nat.mod_lt n pos
  rw [nearest_eq pos]
  generalize n / d = q at split ⊢
  generalize n % d = r at split small ⊢
  have value : (n : Int) = d * q + r := by exact_mod_cast split.symm
  rw [value]
  split_ifs with up
  · have error : ((q + 1 : Nat) : Int) * d - (d * q + r) = d - r := by
      push_cast
      ring
    rw [error, abs_of_nonneg (by omega)]
    omega
  · have error : ((q + 0 : Nat) : Int) * d - (d * q + r) = -r := by
      push_cast
      ring
    rw [error, abs_neg, abs_of_nonneg (by omega)]
    omega

theorem nearest_lt (pos : 0 < d) (fits : 2 * n + d ≤ 2 * k * d) : nearest n d < k :=
  Nat.div_lt_of_lt_mul (by rw [Nat.mul_right_comm] at fits; omega)

/-! ## Integers -/

/-- The magnitude is rounded. -/
def nearestInt (x : Int) (d : Nat) : Int :=
  if x > 0 then nearest x.toNat d else -nearest (-x).toNat d

variable {x y : Int} {m : Nat}

theorem nearestInt_mul :
    nearestInt (x * m) d =
      if x > 0 then (nearest (x.natAbs * m) d : Int) else -nearest (x.natAbs * m) d := by
  rcases Nat.eq_zero_or_pos m with rfl | pos
  · simp [nearestInt]
  · have abs : (x * m).natAbs = x.natAbs * m := by simp [Int.natAbs_mul]
    have sign : x * m > 0 ↔ x > 0 := mul_pos_iff_of_pos_right (by omega)
    rw [nearestInt, ← abs]
    simp only [sign]
    split_ifs with positive
    · have := sign.mpr positive
      rw [show (x * m).toNat = (x * m).natAbs by omega]
    · have := mt sign.mp positive
      rw [show (-(x * m)).toNat = (x * m).natAbs by omega]

theorem nearestInt_neg : nearestInt (-x) d = -nearestInt x d := by
  unfold nearestInt
  rcases lt_trichotomy x 0 with neg | rfl | pos
  · rw [if_pos (by omega), if_neg (by omega), neg_neg]
  · simp
  · rw [if_neg (by omega), if_pos pos, neg_neg]

theorem nearestInt_mono (le : x ≤ y) : nearestInt x d ≤ nearestInt y d := by
  unfold nearestInt
  split_ifs with hx hy hy
  · exact_mod_cast nearest_mono (Int.toNat_le_toNat le)
  · omega
  · omega
  · have := nearest_mono (d := d) (Int.toNat_le_toNat (neg_le_neg le))
    omega

theorem nearestInt_error (pos : 0 < d) : 2 * |nearestInt x d * d - x| ≤ d := by
  unfold nearestInt
  split_ifs with hx
  · have bound := nearest_error (n := x.toNat) pos
    rwa [Int.toNat_of_nonneg hx.le] at bound
  · have bound := nearest_error (n := (-x).toNat) pos
    rw [Int.toNat_of_nonneg (by omega)] at bound
    rw [← abs_neg]
    have error : -(-(nearest (-x).toNat d : Int) * d - x) = nearest (-x).toNat d * d - -x := by ring
    rwa [error]

/-- From `x` by `m / d` and back. -/
theorem nearestInt_back (hm : 0 < m) (hd : 0 < d) (small : d < 3 * m) :
    |nearestInt (nearestInt (x * m) d * d) m - x| ≤ 1 := by
  have out := nearestInt_error (x := x * m) hd
  have back := nearestInt_error (x := nearestInt (x * m) d * d) hm
  generalize nearestInt (x * m) d = n at out back ⊢
  generalize nearestInt (n * d) m = x' at back ⊢
  have sum : (x' - x) * m = (x' * m - n * d) + (n * d - x * m) := by ring
  have bound : 2 * |(x' - x) * m| ≤ m + d := by
    rw [sum]
    have := abs_add_le (x' * m - n * d) (n * d - x * m)
    omega
  rw [abs_mul, abs_of_nonneg (Int.natCast_nonneg m)] at bound
  by_contra far
  have two : 2 ≤ |x' - x| := by omega
  have : 2 * (m : Int) ≤ |x' - x| * m := Int.mul_le_mul_of_nonneg_right two (by omega)
  omega

end Rtai.Lib
