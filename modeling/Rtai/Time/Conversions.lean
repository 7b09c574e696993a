import Rtai.Lib.Rounding
import Rtai.Time.Llimd
import Mathlib.Data.Int.GCD

/-!
# Counts and nanoseconds

`count2nano` and `nano2count` of `rtai_sched.c` keep the sign apart and pass the magnitude
through `llimd`.  The frequency is a divisor of `count2nano`, and the remainders of its
divisions are the multiples of its greatest common divisor with `10 ^ 9`.  When the largest of
them is below `2 ^ 30` both functions give the nearest number.
-/

namespace Rtai.Time

open Rtai.Lib

/-- The frequencies, and the mode of the timer. -/
structure Timing where
  oneshot_timer : Bool
  cpu_freq : UInt32
  TIMER_FREQ : UInt32
  cpu_pos : 0 < cpu_freq
  timer_pos : 0 < TIMER_FREQ

namespace Timing

variable (t : Timing)

/-- The frequency of the counts. -/
def freq : UInt32 := if t.oneshot_timer then t.cpu_freq else t.TIMER_FREQ

/-- `scaled` of the magnitude, with the sign of the argument. -/
def signed (scaled : UInt64 → Option UInt64) (x : Int64) : Option Int64 := do
  let sign := x > 0
  let x := if sign then x else -x
  let x ← scaled x.toUInt64
  return if sign then x.toInt64 else -x.toInt64

def count2nano : Int64 → Option Int64 := signed fun counts =>
  if t.oneshot_timer then llimd counts 1000000000 t.cpu_freq
  else llimd counts 1000000000 t.TIMER_FREQ

def nano2count : Int64 → Option Int64 := signed fun ns =>
  if t.oneshot_timer then llimd ns t.cpu_freq 1000000000
  else llimd ns t.TIMER_FREQ 1000000000

/-! ## Signs -/

theorem toInt_toInt64 (x : UInt64) :
    x.toInt64.toInt = if x.toNat < 2 ^ 63 then (x.toNat : Int) else x.toNat - 2 ^ 64 := by
  have := BitVec.toInt_eq_toNat_cond x.toBitVec
  rw [← Int64.toInt_toBitVec, UInt64.toBitVec_toInt64, this, UInt64.toNat_toBitVec]
  split_ifs <;> omega

theorem toNat_toUInt64 (x : Int64) :
    (x.toUInt64.toNat : Int) = if 0 ≤ x.toInt then x.toInt else x.toInt + 2 ^ 64 := by
  have := toInt_toInt64 x.toUInt64
  have small := x.toUInt64.toNat_lt
  rw [Int64.toInt64_toUInt64] at this
  split_ifs at * <;> omega

end Timing

variable {scaled : UInt64 → Option UInt64} {c : Int64} {mult div : UInt32}

theorem magnitude (c : Int64) :
    (if c > 0 then c else -c).toUInt64.toNat = c.toInt.natAbs := by
  have low := c.le_toInt
  have high := c.toInt_lt
  have positive : c > 0 ↔ 0 < c.toInt := Int64.lt_iff_toInt_lt
  have unsigned := Timing.toNat_toUInt64
  have neg : (-c).toInt = (-c.toInt).bmod (2 ^ 64) := Int64.toInt_neg c
  split_ifs with pos
  · have value := unsigned c
    have pos := positive.mp pos
    rw [if_pos pos.le] at value
    omega
  · have value := unsigned (-c)
    have pos := mt positive.mpr pos
    rw [neg, Int.bmod_def] at value
    split_ifs at value <;> omega

theorem signed_eq (scaled : UInt64 → Option UInt64) {k : Nat}
    (value : ∀ ll : UInt64, ll.toNat = c.toInt.natAbs → scaled ll = some (UInt64.ofNat k))
    (small : k < 2 ^ 63) :
    ∃ y, Timing.signed scaled c = some y ∧ y.toInt = if c.toInt > 0 then (k : Int) else -k := by
  have whole : (UInt64.ofNat k).toInt64.toInt = k := by
    rw [Timing.toInt_toInt64, UInt64.toNat_ofNat', Nat.mod_eq_of_lt (by omega), if_pos small]
  have positive : c > 0 ↔ 0 < c.toInt := Int64.lt_iff_toInt_lt
  refine ⟨if c > 0 then (UInt64.ofNat k).toInt64 else -(UInt64.ofNat k).toInt64, ?_, ?_⟩
  · simp [Timing.signed, value _ (magnitude c)]
  · split_ifs with pos pos' pos'
    · exact whole
    · exact absurd (positive.mp pos) pos'
    · exact absurd (positive.mpr pos') pos
    · rw [Int64.toInt_neg, whole, Int.bmod_def]
      omega

/-! ## The nearest number -/

/-- `c * mult / div`, rounded, is below `2 ^ 63`. -/
def Fits (mult div : UInt32) (c : Int64) : Prop :=
  2 * (c.toInt.natAbs * mult.toNat) ≤ (2 ^ 64 - 1) * div.toNat

/-- No remainder by `div` is doubled beyond 31 bits. -/
def Rounds (mult div : UInt32) : Prop := div.toNat - Nat.gcd div.toNat mult.toNat < 2 ^ 30

theorem div_pos (positive : 0 < div) : 0 < div.toNat := UInt32.lt_iff_toNat_lt.mp positive

theorem nearest_fits (positive : 0 < div) (fits : Fits mult div c) :
    nearest (c.toInt.natAbs * mult.toNat) div.toNat < 2 ^ 63 := by
  have pos := div_pos positive
  have half : (2 ^ 64 - 1) * div.toNat + div.toNat = 2 * 2 ^ 63 * div.toNat := by ring
  unfold Fits at fits
  exact nearest_lt pos (by omega)

/-- The remainders are multiples of the divisor in common. -/
theorem rem_le (positive : 0 < div) (n : Nat) :
    n * mult.toNat % div.toNat ≤ div.toNat - Nat.gcd div.toNat mult.toNat := by
  have pos := div_pos positive
  have common : Nat.gcd div.toNat mult.toNat ∣ div.toNat - n * mult.toNat % div.toNat :=
    Nat.dvd_sub (Nat.gcd_dvd_left _ _)
      ((Nat.dvd_mod_iff (Nat.gcd_dvd_left _ _)).mpr ((Nat.gcd_dvd_right _ _).mul_left n))
  have small := Nat.mod_lt (n * mult.toNat) pos
  have := Nat.le_of_dvd (by omega) common
  omega

section

variable (positive : 0 < div) (rounds : Rounds mult div) (small : div.toNat < 2 ^ 31)
include positive rounds small

theorem llimd_nearest {ll : UInt64} (fits : nearest (ll.toNat * mult.toNat) div.toNat < 2 ^ 63) :
    llimd ll mult div = some (UInt64.ofNat (nearest (ll.toNat * mult.toNat) div.toNat)) := by
  have pos := div_pos positive
  have rest := Nat.mod_lt (ll.toNat * mult.toNat) pos
  have low := (rem_le positive ll.toNat).trans_lt rounds
  have up := roundsUp_iff small rest
  rw [nearest_eq pos] at fits ⊢
  rw [llimd_eq (fun zero => by simp [zero] at pos) (by omega)]
  congr 3
  simp only [up, low, true_and]

theorem signed_nearest (fits : Fits mult div c) :
    ∃ y, Timing.signed (llimd · mult div) c = some y ∧
      y.toInt = nearestInt (c.toInt * mult.toNat) div.toNat := by
  have bound := nearest_fits positive fits
  obtain ⟨y, result, value⟩ := signed_eq (llimd · mult div) (c := c)
    (k := nearest (c.toInt.natAbs * mult.toNat) div.toNat)
    (fun ll same => by rw [← same] at bound ⊢; exact llimd_nearest positive rounds small bound) bound
  refine ⟨y, result, ?_⟩
  rw [value, nearestInt_mul]

/-- A conversion to the nearest number: it has the sign of its argument, and keeps the order. -/
structure Converts (mult div : UInt32) (f : Int64 → Option Int64) : Prop where
  near : ∀ c, Fits mult div c →
    ∃ y, f c = some y ∧ 2 * |y.toInt * div.toNat - c.toInt * mult.toNat| ≤ div.toNat
  odd : ∀ c c' y y', Fits mult div c → c'.toInt = -c.toInt → f c = some y → f c' = some y' →
    y'.toInt = -y.toInt
  mono : ∀ c c' y y', Fits mult div c → Fits mult div c' → c.toInt ≤ c'.toInt →
    f c = some y → f c' = some y' → y.toInt ≤ y'.toInt

theorem converts : Converts mult div (Timing.signed (llimd · mult div)) := by
  have value {c y : Int64} (fits : Fits mult div c)
      (result : Timing.signed (llimd · mult div) c = some y) :
      y.toInt = nearestInt (c.toInt * mult.toNat) div.toNat := by
    obtain ⟨y', result', value⟩ := signed_nearest positive rounds small fits
    rw [Option.some.inj (result.symm.trans result'), value]
  refine ⟨fun c fits => ?_, fun c c' y y' fits opposite result result' => ?_,
    fun c c' y y' fits fits' le result result' => ?_⟩
  · obtain ⟨y, result, value⟩ := signed_nearest positive rounds small fits
    have error := nearestInt_error (x := c.toInt * mult.toNat) (div_pos positive)
    exact ⟨y, result, by rwa [value]⟩
  · have fits' : Fits mult div c' := by rwa [Fits, opposite, Int.natAbs_neg]
    rw [value fits result, value fits' result', opposite, neg_mul, nearestInt_neg]
  · rw [value fits result, value fits' result']
    exact nearestInt_mono (Int.mul_le_mul_of_nonneg_right le (Int.natCast_nonneg _))

end

/-- The error is the remainder, or what it lacks. -/
theorem error_eq {y : Int64} (positive : 0 < div)
    (fits : c.toInt.natAbs * mult.toNat / div.toNat + 1 < 2 ^ 63)
    (result : Timing.signed (llimd · mult div) c = some y) :
    |y.toInt * div.toNat - c.toInt * mult.toNat| =
      if roundsUp div (c.toInt.natAbs * mult.toNat % div.toNat)
      then div.toNat - (c.toInt.natAbs * mult.toNat % div.toNat : Nat)
      else (c.toInt.natAbs * mult.toNat % div.toNat : Nat) := by
  have pos := div_pos positive
  have rest := Nat.mod_lt (c.toInt.natAbs * mult.toNat) pos
  obtain ⟨y', result', value⟩ := signed_eq (llimd · mult div) (c := c)
    (k := c.toInt.natAbs * mult.toNat / div.toNat +
      if roundsUp div (c.toInt.natAbs * mult.toNat % div.toNat) then 1 else 0)
    (fun ll same => by
      rw [← same] at fits ⊢
      exact llimd_eq (fun zero => by simp [zero] at pos) (by omega))
    (by split_ifs <;> omega)
  rw [Option.some.inj (result.symm.trans result'), value]
  have split := Nat.div_add_mod (c.toInt.natAbs * mult.toNat) div.toNat
  -- Both sides of the difference change their sign with `c`.
  have error (k : Nat) : |(if c.toInt > 0 then (k : Int) else -k) * div.toNat - c.toInt * mult.toNat| =
      |(k : Int) * div.toNat - (c.toInt.natAbs * mult.toNat : Nat)| := by
    split_ifs with sign
    · rw [Nat.cast_mul, Int.natAbs_of_nonneg sign.le]
    · rw [← abs_neg, Nat.cast_mul, Int.ofNat_natAbs_of_nonpos (not_lt.mp sign)]
      congr 1
      ring
  rw [error]
  generalize c.toInt.natAbs * mult.toNat % div.toNat = r at split rest ⊢
  generalize c.toInt.natAbs * mult.toNat / div.toNat = q at split ⊢
  rw [← split]
  split_ifs with up
  · have lacks : ((q + 1 : Nat) : Int) * div.toNat - (div.toNat * q + r : Nat) = div.toNat - r := by
      push_cast
      ring
    rw [lacks, abs_of_nonneg (by omega)]
    omega
  · have exceeds : ((q + 0 : Nat) : Int) * div.toNat - (div.toNat * q + r : Nat) = -r := by
      push_cast
      ring
    rw [exceeds, abs_neg, Nat.abs_cast]

/-! ## The frequencies -/

namespace Timing

/-- Both conversions are to the nearest number, and one leads back from the other. -/
structure Nearest (t : Timing) : Prop where
  counts : Converts 1000000000 t.freq t.count2nano
  nanos : Converts t.freq 1000000000 t.nano2count
  back : t.cpu_freq.toNat ≤ 10 ^ 9 → ∀ c n, Fits 1000000000 t.freq c →
    t.count2nano c = some n → Fits t.freq 1000000000 n →
      ∃ c', t.nano2count n = some c' ∧ |c'.toInt - c.toInt| ≤ 1

variable (t : Timing)

theorem freq_pos : 0 < t.freq := by
  unfold freq
  split_ifs
  · exact t.cpu_pos
  · exact t.timer_pos

theorem count2nano_eq : t.count2nano = signed (llimd · 1000000000 t.freq) := by
  unfold count2nano freq
  split_ifs <;> rfl

theorem nano2count_eq : t.nano2count = signed (llimd · t.freq 1000000000) := by
  unfold nano2count freq
  split_ifs <;> rfl

theorem nearest_of_rounds (rounds : Rounds 1000000000 t.freq) : t.Nearest := by
  have unit : (1000000000 : UInt32).toNat = 1000000000 := rfl
  have common : Nat.gcd t.freq.toNat (1000000000 : UInt32).toNat ≤ 1000000000 :=
    Nat.gcd_le_right _ (by rw [unit]; norm_num)
  have small : t.freq.toNat < 2 ^ 31 := by
    unfold Rounds at rounds
    omega
  have second : Rounds t.freq 1000000000 := by
    unfold Rounds
    omega
  refine ⟨?_, ?_, fun _ c n fits result fits' => ?_⟩
  · rw [count2nano_eq]
    exact converts t.freq_pos rounds small
  · rw [nano2count_eq]
    exact converts (by decide) second (by decide)
  · rw [count2nano_eq] at result
    rw [nano2count_eq]
    obtain ⟨n', result', value⟩ := signed_nearest t.freq_pos rounds small fits
    obtain ⟨c', back, value'⟩ := signed_nearest (by decide) second (by decide) fits'
    refine ⟨c', back, ?_⟩
    rw [value', Option.some.inj (result.symm.trans result'), value]
    exact nearestInt_back (by rw [unit]; norm_num) (div_pos t.freq_pos) (by omega)

/-- A count below the frequency whose remainder is the largest. -/
theorem largest_remainder (common : Nat.gcd t.freq.toNat (10 ^ 9) < t.freq.toNat) :
    ∃ c : Nat, c < t.freq.toNat ∧
      c * 10 ^ 9 % t.freq.toNat = t.freq.toNat - Nat.gcd t.freq.toNat (10 ^ 9) := by
  have pos := div_pos t.freq_pos
  have unit : 0 < Nat.gcd t.freq.toNat (10 ^ 9) := Nat.gcd_pos_of_pos_left _ pos
  obtain ⟨m, -, inverse⟩ := Nat.exists_mul_mod_eq_gcd (Nat.gcd_comm _ _ ▸ common)
  rw [Nat.gcd_comm] at inverse
  generalize Nat.gcd t.freq.toNat (10 ^ 9) = g at *
  generalize t.freq.toNat = d at *
  refine ⟨m * (d - 1) % d, Nat.mod_lt _ pos, ?_⟩
  obtain ⟨e, rfl⟩ : ∃ e, d = e + 1 := ⟨d - 1, by omega⟩
  obtain ⟨h, rfl⟩ : ∃ h, g = h + 1 := ⟨g - 1, by omega⟩
  have rearranged : m * e * 10 ^ 9 = 10 ^ 9 * m * e := by ring
  have multiple : (h + 1) * e = (e - h) + (e + 1) * h := by
    obtain ⟨k, rfl⟩ : ∃ k, e = h + k := ⟨e - h, by omega⟩
    rw [Nat.add_sub_cancel_left]
    ring
  rw [Nat.add_sub_cancel, Nat.mod_mul_mod, rearranged, ← Nat.mod_mul_mod, inverse, multiple,
    Nat.add_mul_mod_self_left, Nat.mod_eq_of_lt (by omega)]
  omega

/-- Both conversions are to the nearest number at the frequencies without a remainder of
`2 ^ 30` or more. -/
theorem nearest_iff : t.Nearest ↔ t.freq.toNat - Nat.gcd t.freq.toNat (10 ^ 9) < 2 ^ 30 := by
  refine ⟨fun nearest => ?_, t.nearest_of_rounds⟩
  by_contra high
  have pos := div_pos t.freq_pos
  have unit : (1000000000 : UInt32).toNat = 10 ^ 9 := rfl
  have word := t.freq.toNat_lt
  -- A count whose remainder is rounded the wrong way.
  obtain ⟨c, small, wrong⟩ : ∃ c : Nat, c < t.freq.toNat ∧
      (if roundsUp t.freq (c * 10 ^ 9 % t.freq.toNat)
        then t.freq.toNat < 2 * (t.freq.toNat - c * 10 ^ 9 % t.freq.toNat)
        else t.freq.toNat < 2 * (c * 10 ^ 9 % t.freq.toNat)) := by
    rcases Nat.lt_or_ge t.freq.toNat (2 ^ 31) with less | more
    · obtain ⟨c, small, remainder⟩ := t.largest_remainder (by omega)
      have up := roundsUp_iff less (Nat.mod_lt (c * 10 ^ 9) pos)
      refine ⟨c, small, ?_⟩
      rw [if_neg (by rw [up]; omega)]
      omega
    · refine ⟨0, pos, ?_⟩
      rw [Nat.zero_mul, Nat.zero_mod, if_pos (roundsUp_zero more)]
      omega
  have count : (Int64.ofNat c).toInt = c := Int64.toInt_ofNat_of_lt (by omega)
  have magnitude : (Int64.ofNat c).toInt.natAbs = c := by rw [count, Int.natAbs_natCast]
  have quotient : c * 10 ^ 9 / t.freq.toNat < 10 ^ 9 :=
    Nat.div_lt_of_lt_mul (Nat.mul_lt_mul_of_pos_right small (by norm_num))
  have fits : Fits 1000000000 t.freq (Int64.ofNat c) := by
    have := Nat.mul_lt_mul_of_pos_right small (show 0 < 10 ^ 9 by norm_num)
    rw [Fits, magnitude, unit]
    omega
  obtain ⟨y, result, error⟩ := nearest.counts.near _ fits
  rw [count2nano_eq] at result
  rw [error_eq t.freq_pos (by rw [magnitude, unit]; omega) result, magnitude, unit] at error
  split_ifs at wrong error <;> omega

/-- At 1.6 GHz three counts are 1.875 ns, and converted to 1 ns. -/
theorem not_nearest : ¬ ∀ t : Timing, t.Nearest := by
  intro nearest
  obtain ⟨y, result, error⟩ := (nearest ⟨true, 1600000000, 1193180, by decide, by decide⟩).counts.near
    3 (by unfold Fits; decide)
  have value : y = 1 := Option.some.inj (result.symm.trans (by decide))
  rw [value] at error
  exact absurd error (by decide)

end Timing

end Rtai.Time
