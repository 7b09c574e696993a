import Rtai.Time.Conversions

/-!
# `ulldiv`

A quotient of 64 bits by 32 without a division of 64 bits.  `2 ^ 32` is `qf * uld + rf`, and an
iteration replaces the high word of `p` by its remainder times `rf`, until `p` is below the
divisor.  `Parts.Divides` is the invariant, and `Exact` says that an iteration does not wrap.

`count2timespec` and `count2timeval` take the seconds from the quotient.
-/

namespace Rtai.Time

def high (x : UInt64) : UInt32 := (x >>> 32).toUInt32

def low (x : UInt64) : UInt32 := x.toUInt32

def join (h l : UInt32) : UInt64 := UInt64.ofNat (h.toNat * 2 ^ 32 + l.toNat)

/-- The unions `p` and `q`. -/
structure Parts where
  p : UInt64
  q : UInt64

def qf (uld : UInt32) : UInt64 := (0xFFFFFFFF / uld).toUInt64

def rf (uld : UInt32) : UInt64 := 0x100000000 - qf uld * uld.toUInt64

/-- The body of the loop. -/
def Parts.divide (uld : UInt32) (s : Parts) : Parts :=
  let tq := high s.p / uld
  let q := join (high s.q + tq) (low s.q)
  let rh := high s.p - tq * uld
  let tq := low s.p / uld
  { p := rh.toUInt64 * rf uld + (low s.p - tq * uld).toUInt64
    q := q + (rh.toUInt64 * qf uld + tq.toUInt64) }

def loop (uld : UInt32) : Nat → Parts → Option Parts
  | 0, _ => none
  | fuel + 1, s => if s.p ≥ uld.toUInt64 then loop uld fuel (s.divide uld) else some s

/-- The quotient and the remainder. -/
def ulldiv (fuel : Nat) (ull : UInt64) (uld : UInt32) : Option (UInt64 × UInt32) := do
  let s ← loop uld fuel { p := ull, q := 0 }
  return (s.q, s.p.toUInt32)

/-! ## Words -/

variable {uld : UInt32}

theorem high_low (x : UInt64) : (high x).toNat * 2 ^ 32 + (low x).toNat = x.toNat := by
  have bound := x.toNat_lt
  simp [high, low, Nat.shiftRight_eq_div_pow]
  omega

theorem join_toNat (h l : UInt32) : (join h l).toNat = h.toNat * 2 ^ 32 + l.toNat := by
  have := h.toNat_lt
  have := l.toNat_lt
  simp [join]
  omega

/-- A subtraction of the multiple leaves the remainder. -/
theorem rest_toNat (x : UInt32) : (x - x / uld * uld).toNat = x.toNat % uld.toNat := by
  have bound := x.toNat_lt
  have multiple := Nat.div_mul_le_self x.toNat uld.toNat
  have split := Nat.div_add_mod' x.toNat uld.toNat
  rw [UInt32.toNat_sub, UInt32.toNat_mul, UInt32.toNat_div]
  omega

/-- `2 ^ 32` is divided by the divisor, with a remainder that may be the divisor itself. -/
theorem factors (pos : 0 < uld) :
    (qf uld).toNat * uld.toNat + (rf uld).toNat = 2 ^ 32 ∧ 0 < (rf uld).toNat ∧
      (rf uld).toNat ≤ uld.toNat := by
  have pos' := div_pos pos
  have bound := uld.toNat_lt
  have split := Nat.div_add_mod' (2 ^ 32 - 1) uld.toNat
  have rest := Nat.mod_lt (2 ^ 32 - 1) pos'
  have quotient : (qf uld).toNat = (2 ^ 32 - 1) / uld.toNat := by
    simp [qf]
  have below : (qf uld).toNat * uld.toNat < 2 ^ 32 := by
    rw [quotient]
    omega
  have product : (qf uld * uld.toUInt64).toNat = (qf uld).toNat * uld.toNat := by
    rw [UInt64.toNat_mul, UInt32.toNat_toUInt64, Nat.mod_eq_of_lt (by omega)]
  have remainder : (rf uld).toNat = 2 ^ 32 - (qf uld).toNat * uld.toNat := by
    rw [rf, UInt64.toNat_sub_of_le, product]
    · rfl
    · rw [UInt64.le_iff_toNat_le, product]
      exact below.le
  rw [remainder]
  rw [quotient] at below ⊢
  omega

/-! ## An iteration -/

/-- The words multiply the divisor to the number, with `p` left over. -/
def Parts.Divides (ull : UInt64) (uld : UInt32) (s : Parts) : Prop :=
  s.q.toNat * uld.toNat + s.p.toNat = ull.toNat

/-- The additions, subtractions and multiplications of an iteration stay within their words. -/
structure Exact (uld : UInt32) (s : Parts) : Prop where
  factor : (qf uld).toNat * uld.toNat ≤ 2 ^ 32
  highQuotient : (high s.q).toNat + (high s.p / uld).toNat < 2 ^ 32
  highMultiple : (high s.p / uld).toNat * uld.toNat ≤ (high s.p).toNat
  lowMultiple : (low s.p / uld).toNat * uld.toNat ≤ (low s.p).toNat
  quotient : (join (high s.q + high s.p / uld) (low s.q)).toNat +
    ((high s.p).toNat % uld.toNat * (qf uld).toNat + (low s.p / uld).toNat) < 2 ^ 64
  number : (high s.p).toNat % uld.toNat * (rf uld).toNat + (low s.p).toNat % uld.toNat < 2 ^ 64

theorem number_split {h l u f r : Nat} (factor : f * u + r = 2 ^ 32) :
    h * 2 ^ 32 + l = (h / u * 2 ^ 32 + (h % u * f + l / u)) * u + (h % u * r + l % u) := by
  have high := Nat.div_add_mod' h u
  have low := Nat.div_add_mod' l u
  generalize h / u = hq at *
  generalize h % u = hr at *
  generalize l / u = lq at *
  generalize l % u = lr at *
  rw [← high, ← low, ← factor]
  ring

namespace Parts

variable {ull : UInt64} {s : Parts}

theorem Divides.bounds (pos : 0 < uld) (divides : s.Divides ull uld) :
    s.q.toNat + (high s.p).toNat / uld.toNat * 2 ^ 32 +
        ((high s.p).toNat % uld.toNat * (qf uld).toNat + (low s.p).toNat / uld.toNat) < 2 ^ 64 ∧
      (high s.p).toNat % uld.toNat * (rf uld).toNat + (low s.p).toNat % uld.toNat < 2 ^ 64 := by
  have bound := ull.toNat_lt
  have split := number_split (h := (high s.p).toNat) (l := (low s.p).toNat) (factors pos).1
  rw [high_low] at split
  rw [Divides, split, ← Nat.add_assoc, ← Nat.add_mul] at divides
  have multiple := Nat.le_mul_of_pos_right (s.q.toNat + ((high s.p).toNat / uld.toNat * 2 ^ 32 +
    ((high s.p).toNat % uld.toNat * (qf uld).toNat + (low s.p).toNat / uld.toNat))) (div_pos pos)
  rw [Nat.add_assoc]
  omega

/-- The high word of `q` takes the first partial quotient. -/
theorem high_add (room : s.q.toNat + (high s.p).toNat / uld.toNat * 2 ^ 32 < 2 ^ 64) :
    (high s.q).toNat + (high s.p / uld).toNat < 2 ^ 32 ∧
      (join (high s.q + high s.p / uld) (low s.q)).toNat =
        s.q.toNat + (high s.p).toNat / uld.toNat * 2 ^ 32 := by
  have words := high_low s.q
  rw [join_toNat, UInt32.toNat_add, UInt32.toNat_div]
  generalize (high s.p).toNat / uld.toNat = tq at *
  omega

variable (pos : 0 < uld) (divides : s.Divides ull uld)
include pos divides

theorem Divides.exact : Exact uld s := by
  obtain ⟨total, number⟩ := divides.bounds pos
  obtain ⟨highQuotient, joined⟩ := high_add (Nat.lt_of_le_of_lt (Nat.le_add_right _ _) total)
  refine ⟨by have := factors pos; omega, highQuotient, ?_, ?_, ?_, number⟩
  · rw [UInt32.toNat_div]
    exact Nat.div_mul_le_self _ _
  · rw [UInt32.toNat_div]
    exact Nat.div_mul_le_self _ _
  · rw [joined, UInt32.toNat_div]
    exact total

theorem Divides.divide_toNat :
    (s.divide uld).p.toNat = (high s.p).toNat % uld.toNat * (rf uld).toNat +
        (low s.p).toNat % uld.toNat ∧
      (s.divide uld).q.toNat = s.q.toNat + (high s.p).toNat / uld.toNat * 2 ^ 32 +
        ((high s.p).toNat % uld.toNat * (qf uld).toNat + (low s.p).toNat / uld.toNat) := by
  obtain ⟨total, number⟩ := divides.bounds pos
  obtain ⟨-, joined⟩ := high_add (Nat.lt_of_le_of_lt (Nat.le_add_right _ _) total)
  simp only [divide, UInt64.toNat_add, UInt64.toNat_mul, UInt32.toNat_toUInt64, rest_toNat,
    UInt32.toNat_div, joined]
  generalize (high s.p).toNat / uld.toNat = tq at *
  generalize (low s.p).toNat / uld.toNat = tq' at *
  generalize (low s.p).toNat % uld.toNat = rest at *
  omega

theorem Divides.divide : (s.divide uld).Divides ull uld := by
  obtain ⟨p, q⟩ := divides.divide_toNat pos
  have split := number_split (h := (high s.p).toNat) (l := (low s.p).toNat) (factors pos).1
  rw [high_low] at split
  unfold Divides at divides ⊢
  rw [split] at divides
  rw [p, q, ← divides]
  ring

theorem Divides.divide_lt (above : uld.toNat ≤ s.p.toNat) : (s.divide uld).p.toNat < s.p.toNat := by
  obtain ⟨factor, rfPos, rfLe⟩ := factors pos
  have small := uld.toNat_lt
  rw [(divides.divide_toNat pos).1]
  rw [← high_low s.p] at above ⊢
  have highSplit := Nat.div_add_mod' (high s.p).toNat uld.toNat
  have lowSplit := Nat.div_add_mod' (low s.p).toNat uld.toNat
  have lowRest := Nat.mod_lt (low s.p).toNat (div_pos pos)
  rcases Nat.eq_zero_or_pos (high s.p).toNat with zero | positive
  · simp only [zero, Nat.zero_mod, Nat.zero_mul, Nat.zero_add] at above ⊢
    omega
  · rcases Nat.eq_zero_or_pos ((high s.p).toNat % uld.toNat) with none | some
    · rw [none]
      omega
    · have := Nat.mul_lt_mul_of_pos_left (show (rf uld).toNat < 2 ^ 32 by omega) some
      have := Nat.mul_le_mul_right (2 ^ 32) (Nat.mod_le (high s.p).toNat uld.toNat)
      omega

end Parts

/-! ## The loop -/

/-- The states in which the loop tests its condition. -/
inductive Iterated (uld : UInt32) (ull : UInt64) : Parts → Prop where
  | start : Iterated uld ull { p := ull, q := 0 }
  | body {s : Parts} : Iterated uld ull s → s.p ≥ uld.toUInt64 → Iterated uld ull (s.divide uld)

variable {ull : UInt64} {s : Parts} {fuel : Nat}

theorem divides_start : Parts.Divides ull uld { p := ull, q := 0 } := by
  simp [Parts.Divides]

theorem Iterated.divides (pos : 0 < uld) (iterated : Iterated uld ull s) : s.Divides ull uld := by
  induction iterated with
  | start => exact divides_start
  | body _ _ ih => exact ih.divide pos

theorem above_iff : s.p ≥ uld.toUInt64 ↔ uld.toNat ≤ s.p.toNat := by
  rw [ge_iff_le, UInt64.le_iff_toNat_le, UInt32.toNat_toUInt64]

/-- The value of `p` bounds the iterations. -/
theorem loop_ends (pos : 0 < uld) (enough : s.p.toNat < fuel) (divides : s.Divides ull uld) :
    ∃ s', loop uld fuel s = some s' ∧ s'.Divides ull uld ∧ s'.p.toNat < uld.toNat := by
  induction fuel generalizing s with
  | zero => omega
  | succ fuel ih =>
    rw [loop]
    split_ifs with above
    · have less := divides.divide_lt pos (above_iff.mp above)
      exact ih (by omega) (divides.divide pos)
    · exact ⟨s, rfl, divides, Nat.lt_of_not_le (mt above_iff.mpr above)⟩

theorem ulldiv_ends (pos : 0 < uld) (enough : ull.toNat < fuel) :
    ∃ q r, ulldiv fuel ull uld = some (q, r) ∧
      ull.toNat = q.toNat * uld.toNat + r.toNat ∧ r.toNat < uld.toNat := by
  obtain ⟨s, ends, divides, below⟩ := loop_ends pos (s := { p := ull, q := 0 }) enough divides_start
  have small := uld.toNat_lt
  have word : s.p.toUInt32.toNat = s.p.toNat := by
    rw [UInt64.toNat_toUInt32, Nat.mod_eq_of_lt (by omega)]
  refine ⟨s.q, s.p.toUInt32, by simp [ulldiv, ends], ?_, by rw [word]; exact below⟩
  rw [word]
  exact divides.symm

/-! ## Seconds -/

structure Timespec where
  tv_sec : Int32
  tv_nsec : Int32
deriving DecidableEq

structure Timeval where
  tv_sec : Int32
  tv_usec : Int32
deriving DecidableEq

namespace Timing

def count2timespec (fuel : Nat) (t : Timing) (rt : Int64) : Option Timespec := do
  let n ← t.count2nano rt
  let (q, r) ← ulldiv fuel n.toUInt64 1000000000
  return { tv_sec := q.toUInt32.toInt32, tv_nsec := r.toInt32 }

def count2timeval (fuel : Nat) (t : Timing) (rt : Int64) : Option Timeval := do
  let n ← t.count2nano rt
  let (q, r) ← ulldiv fuel n.toUInt64 1000000000
  return { tv_sec := q.toUInt32.toInt32, tv_usec := r.toInt32 / 1000 }

end Timing

/-- The fractions are below one second, and the whole is the time in nanoseconds, or in
microseconds, as long as the seconds fit. -/
structure Splits (n : Int64) (ts : Timespec) (tv : Timeval) : Prop where
  nsec : 0 ≤ ts.tv_nsec.toInt ∧ ts.tv_nsec.toInt < 10 ^ 9
  usec : 0 ≤ tv.tv_usec.toInt ∧ tv.tv_usec.toInt < 10 ^ 6
  timespec : 0 ≤ n.toInt → n.toInt < 2 ^ 31 * 10 ^ 9 →
    ts.tv_sec.toInt * 10 ^ 9 + ts.tv_nsec.toInt = n.toInt
  timeval : 0 ≤ n.toInt → n.toInt < 2 ^ 31 * 10 ^ 9 →
    tv.tv_sec.toInt * 10 ^ 6 + tv.tv_usec.toInt = n.toInt / 1000

theorem splits (q : UInt64) (r : UInt32) (n : Int64)
    (divides : n.toUInt64.toNat = q.toNat * 10 ^ 9 + r.toNat) (below : r.toNat < 10 ^ 9) :
    Splits n { tv_sec := q.toUInt32.toInt32, tv_nsec := r.toInt32 }
      { tv_sec := q.toUInt32.toInt32, tv_usec := r.toInt32 / 1000 } := by
  have nsec : r.toInt32.toInt = r.toNat := by
    rw [toInt_toInt32, if_pos (by omega)]
  have usec : (r.toInt32 / 1000).toInt = (r.toNat / 1000 : Nat) := by
    rw [Int32.toInt_div_of_ne_right _ _ (by decide), nsec]
    rfl
  have value := Timing.toNat_toUInt64 n
  have sec (nonneg : 0 ≤ n.toInt) (small : n.toInt < 2 ^ 31 * 10 ^ 9) :
      q.toUInt32.toInt32.toInt = q.toNat := by
    rw [if_pos nonneg] at value
    rw [toInt_toInt32, UInt64.toNat_toUInt32, if_pos (by omega), Nat.mod_eq_of_lt (by omega)]
  refine ⟨?_, ?_, fun nonneg small => ?_, fun nonneg small => ?_⟩
  · simp only [nsec]
    omega
  · simp only [usec]
    omega
  · simp only [nsec, sec nonneg small]
    rw [if_pos nonneg] at value
    omega
  · simp only [usec, sec nonneg small]
    rw [if_pos nonneg] at value
    omega

/-- What a positive divisor makes of every number, with enough fuel. -/
structure Ulldiv (uld : UInt32) : Prop where
  ends : ∀ ull fuel, ull.toNat < fuel → ∃ q r, ulldiv fuel ull uld = some (q, r) ∧
    ull.toNat = q.toNat * uld.toNat + r.toNat ∧ r.toNat < uld.toNat
  noWrap : ∀ ull s, Iterated uld ull s → s.p ≥ uld.toUInt64 → Exact uld s

/-- The long division and the times of it. -/
theorem ulldiv_exact (uld : UInt32) (pos : 0 < uld) :
    Ulldiv uld ∧ ∀ (t : Timing) (rt n : Int64) (fuel : Nat),
      t.count2nano rt = some n → n.toUInt64.toNat < fuel →
        ∃ ts tv, t.count2timespec fuel rt = some ts ∧ t.count2timeval fuel rt = some tv ∧
          Splits n ts tv := by
  refine ⟨⟨fun _ _ => ulldiv_ends pos, fun _ _ iterated _ => (iterated.divides pos).exact pos⟩,
    fun t rt n fuel counted enough => ?_⟩
  obtain ⟨q, r, divided, divides, below⟩ := ulldiv_ends (by decide : 0 < (1000000000 : UInt32)) enough
  exact ⟨_, _, by simp [Timing.count2timespec, counted, divided],
    by simp [Timing.count2timeval, counted, divided], splits q r n divides below⟩

/-- A clock of 1 GHz. -/
def gigahertz : Timing := ⟨true, 1000000000, 1193180, by decide, by decide⟩

theorem ulldiv_exact_second : (0 : UInt32) < 7 ∧
    gigahertz.count2nano 1500000000 = some 1500000000 ∧
    (∃ q r, ulldiv 101 100 7 = some (q, r) ∧ (100 : UInt64).toNat = q.toNat * 7 + r.toNat ∧
      r.toNat < 7) ∧
    ∃ ts tv, gigahertz.count2timespec 1500000001 1500000000 = some ts ∧
      gigahertz.count2timeval 1500000001 1500000000 = some tv ∧ Splits 1500000000 ts tv :=
  have result := ulldiv_exact 7 (by decide)
  ⟨by decide, by decide, result.1.ends 100 101 (by decide),
    result.2 gigahertz 1500000000 1500000000 1500000001 (by decide) (by decide)⟩

/-- The seconds of 68 years are negative, and one nanosecond is lost in microseconds. -/
theorem not_splits :
    (¬ ∀ (t : Timing) (rt n : Int64) (fuel : Nat) (ts : Timespec), 0 ≤ rt →
      t.count2nano rt = some n → t.count2timespec fuel rt = some ts →
        ts.tv_sec.toInt * 10 ^ 9 + ts.tv_nsec.toInt = n.toInt) ∧
    ¬ ∀ (t : Timing) (rt n : Int64) (fuel : Nat) (tv : Timeval), 0 ≤ rt →
      t.count2nano rt = some n → t.count2timeval fuel rt = some tv →
        tv.tv_sec.toInt * 10 ^ 9 + tv.tv_usec.toInt * 1000 = n.toInt := by
  constructor
  · intro adds
    have sum := adds gigahertz 2147483648000000000 2147483648000000000 20 ⟨-2147483648, 0⟩
      (by decide) (by decide) (by decide)
    exact absurd sum (by decide)
  · intro adds
    have sum := adds gigahertz 1 1 2 ⟨0, 0⟩ (by decide) (by decide) (by decide)
    exact absurd sum (by decide)

end Rtai.Time
