import Mathlib.Tactic.Ring
import Mathlib.Tactic.Linarith

/-!
# The instructions of `llimd`

`llimd` multiplies 64 bits by 32 and divides by 32, with the remainder rounded.  Two divisions
of 32 bits make the quotient, the second with the remainder of the first above the low word.

The last remainder is doubled in a register of 32 bits, and compared with a jump for signed
numbers.  `llimd_eq` says what comes out for every divisor, and the lemmas on `roundsUp` when
it is the nearest quotient.
-/

namespace Rtai.Time

structure Regs where
  eax : UInt32
  edx : UInt32
  ecx : UInt32
  ebx : UInt32

namespace Regs

/-- `%edx:%eax`. -/
def pair (r : Regs) : Nat := r.edx.toNat * 2 ^ 32 + r.eax.toNat

def mull (src : UInt32) (r : Regs) : Regs :=
  let product := r.eax.toNat * src.toNat
  { r with eax := UInt32.ofNat product, edx := UInt32.ofNat (product / 2 ^ 32) }

/-- A division by 0, or with a quotient of more than 32 bits, is a fault. -/
def divl (src : UInt32) (r : Regs) : Option Regs :=
  if src = 0 ∨ 2 ^ 32 ≤ r.pair / src.toNat then none
  else some { r with
    eax := UInt32.ofNat (r.pair / src.toNat), edx := UInt32.ofNat (r.pair % src.toNat) }

/-- `addl src,%eax; adcl $0,%edx`. -/
def addl (src : UInt32) (r : Regs) : Regs :=
  let sum := r.eax.toNat + src.toNat
  { r with eax := UInt32.ofNat sum, edx := r.edx + UInt32.ofNat (sum / 2 ^ 32) }

end Regs

/-- The jump of `cmpl %edx,%edi; jge`. -/
def jge (edi edx : UInt32) : Bool := edx.toInt32.toInt ≤ edi.toInt32.toInt

/-- The product of the low word, with its own low word in `%ebx`. -/
def lowProduct (ll : UInt64) (mult : UInt32) : Regs :=
  let r : Regs := { eax := ll.toUInt32, edx := (ll >>> 32).toUInt32, ecx := 0, ebx := 0 }
  -- movl %edx,%ecx; mull %esi; movl %eax,%ebx
  let r := { r with ecx := r.edx }.mull mult
  { r with ebx := r.eax }

/-- The product of the high word, and the high words of the whole product in `%edx:%eax`. -/
def Regs.highProduct (mult : UInt32) (r : Regs) : Regs :=
  -- movl %ecx,%eax; movl %edx,%ecx; mull %esi
  let r := { r with eax := r.ecx, ecx := r.edx }.mull mult
  -- addl %ecx,%eax; adcl $0,%edx
  r.addl r.ecx

/-- Behind the last `divl`: the quotient is in `%ecx:%eax`, the remainder in `%edx`. -/
def Regs.round (div : UInt32) (r : Regs) : Regs :=
  -- sal $1,%edx; cmpl %edx,%edi; movl %ecx,%edx
  let twice := r.edx <<< (1 : UInt32)
  let r := { r with edx := r.ecx }
  -- jge 1f; addl $1,%eax; adcl $0,%edx
  if jge div twice then r else r.addl 1

/-- From the first `divl` on. -/
def quotient (div : UInt32) (r : Regs) : Option UInt64 := do
  -- divl %edi
  let r ← r.divl div
  -- movl %eax,%ecx; movl %ebx,%eax; divl %edi
  let r ← { r with ecx := r.eax, eax := r.ebx }.divl div
  return UInt64.ofNat (r.round div).pair

def llimd (ll : UInt64) (mult div : UInt32) : Option UInt64 :=
  quotient div ((lowProduct ll mult).highProduct mult)

/-- The remainder `r` by `div` is rounded up. -/
def roundsUp (div : UInt32) (r : Nat) : Bool := !jge div (UInt32.ofNat r <<< (1 : UInt32))

/-! ## Instructions -/

namespace Regs

variable {r : Regs} {src : UInt32}

theorem mull_pair : (r.mull src).pair = r.eax.toNat * src.toNat := by
  have e := r.eax.toNat_lt
  have s := src.toNat_lt
  have bound : r.eax.toNat * src.toNat < 2 ^ 32 * 2 ^ 32 := Nat.mul_lt_mul'' e s
  simp only [pair, mull, UInt32.toNat_ofNat']
  omega

theorem mull_eax : (r.mull src).eax.toNat = r.eax.toNat * src.toNat % 2 ^ 32 := by
  simp [mull]

theorem mull_edx : (r.mull src).edx.toNat = r.eax.toNat * src.toNat / 2 ^ 32 := by
  have sum : (r.mull src).edx.toNat * 2 ^ 32 + (r.mull src).eax.toNat = _ := mull_pair
  rw [mull_eax] at sum
  omega

theorem addl_pair (room : r.pair + src.toNat < 2 ^ 64) :
    (r.addl src).pair = r.pair + src.toNat := by
  have e := r.eax.toNat_lt
  have s := src.toNat_lt
  simp only [pair, addl, UInt32.toNat_ofNat', UInt32.toNat_add] at room ⊢
  omega

theorem divl_eq (pos : src ≠ 0) (small : r.pair / src.toNat < 2 ^ 32) :
    r.divl src = some { r with
      eax := UInt32.ofNat (r.pair / src.toNat), edx := UInt32.ofNat (r.pair % src.toNat) } :=
  if_neg (by simp [pos]; omega)

end Regs

/-! ## The quotient -/

/-- A division of two words, the high part first. -/
theorem div_words (t l d : Nat) (pos : 0 < d) :
    (t * 2 ^ 32 + l) / d = t / d * 2 ^ 32 + (t % d * 2 ^ 32 + l) / d ∧
      (t * 2 ^ 32 + l) % d = (t % d * 2 ^ 32 + l) % d := by
  have split := Nat.div_add_mod t d
  have sum : t * 2 ^ 32 + l = d * (t / d * 2 ^ 32) + (t % d * 2 ^ 32 + l) := by
    conv_lhs => rw [← split]
    ring
  rw [sum]
  exact ⟨by rw [Nat.mul_add_div pos], by rw [Nat.mul_add_mod]⟩

theorem mul_words (h l m : Nat) : (h * 2 ^ 32 + l) * m / 2 ^ 32 = h * m + l * m / 2 ^ 32 := by
  rw [Nat.add_mul, Nat.mul_right_comm, Nat.add_comm, Nat.add_mul_div_right _ _ (by norm_num),
    Nat.add_comm]

/-- The high words of the product do not overflow. -/
theorem product_pair (ll : UInt64) (mult : UInt32) :
    ((lowProduct ll mult).highProduct mult).pair = ll.toNat * mult.toNat / 2 ^ 32 ∧
      ((lowProduct ll mult).highProduct mult).ebx.toNat = ll.toNat * mult.toNat % 2 ^ 32 := by
  have l := ll.toNat_lt
  have m := mult.toNat_lt
  have high : (lowProduct ll mult).ecx.toNat = ll.toNat / 2 ^ 32 := by
    simp [lowProduct, Regs.mull, Nat.shiftRight_eq_div_pow]
    omega
  have carry : (lowProduct ll mult).edx.toNat = ll.toNat % 2 ^ 32 * mult.toNat / 2 ^ 32 := by
    rw [lowProduct, Regs.mull_edx]
    simp
  have low : (lowProduct ll mult).ebx.toNat = ll.toNat * mult.toNat % 2 ^ 32 := by
    rw [lowProduct, Regs.mull_eax]
    simp [Nat.mod_mul_mod]
  have total : ll.toNat * mult.toNat / 2 ^ 32 =
      ll.toNat / 2 ^ 32 * mult.toNat + ll.toNat % 2 ^ 32 * mult.toNat / 2 ^ 32 := by
    conv_lhs => rw [← Nat.div_add_mod' ll.toNat (2 ^ 32)]
    rw [mul_words]
  have room : ll.toNat * mult.toNat / 2 ^ 32 < 2 ^ 64 :=
    Nat.div_lt_of_lt_mul ((Nat.mul_lt_mul'' l m).trans_le (by norm_num))
  generalize lowProduct ll mult = r at high carry low ⊢
  rw [total, ← high, ← carry] at room ⊢
  have mulled : (Regs.mull mult { r with eax := r.ecx, ecx := r.edx }).pair =
      r.ecx.toNat * mult.toNat := Regs.mull_pair
  refine ⟨?_, low⟩
  rw [Regs.highProduct, Regs.addl_pair]
  · rw [mulled]
    rfl
  · rw [mulled]
    exact room

variable {div : UInt32}

theorem Regs.round_pair {ebx : UInt32} {h q rest : Nat} (low : q < 2 ^ 32)
    (room : h * 2 ^ 32 + q + 1 < 2 ^ 64) :
    (Regs.round div ⟨UInt32.ofNat q, UInt32.ofNat rest, UInt32.ofNat h, ebx⟩).pair =
      h * 2 ^ 32 + q + if roundsUp div rest then 1 else 0 := by
  have words : (UInt32.ofNat h).toNat = h ∧ (UInt32.ofNat q).toNat = q := by
    simp only [UInt32.toNat_ofNat']
    omega
  have down : Regs.pair ⟨UInt32.ofNat q, UInt32.ofNat h, UInt32.ofNat h, ebx⟩ = h * 2 ^ 32 + q := by
    rw [pair, words.1, words.2]
  have up := @Regs.addl_pair ⟨UInt32.ofNat q, UInt32.ofNat h, UInt32.ofNat h, ebx⟩ 1
    (by rw [down]; exact room)
  by_cases jump : jge div (UInt32.ofNat rest <<< (1 : UInt32)) = true
  · simpa [round, roundsUp, jump] using down
  · simpa [round, roundsUp, jump, down] using up

theorem quotient_eq {r : Regs} (pos : div ≠ 0)
    (fits : (r.pair * 2 ^ 32 + r.ebx.toNat) / div.toNat + 1 < 2 ^ 64) :
    quotient div r = some (UInt64.ofNat ((r.pair * 2 ^ 32 + r.ebx.toNat) / div.toNat +
      if roundsUp div ((r.pair * 2 ^ 32 + r.ebx.toNat) % div.toNat) then 1 else 0)) := by
  have pos' : 0 < div.toNat := Nat.pos_of_ne_zero fun zero => pos (UInt32.toNat_inj.mp zero)
  have small := div.toNat_lt
  have low := r.ebx.toNat_lt
  have r_lt := Nat.mod_lt r.pair pos'
  have second : (r.pair % div.toNat * 2 ^ 32 + r.ebx.toNat) / div.toNat < 2 ^ 32 :=
    Nat.div_lt_of_lt_mul (by nlinarith)
  obtain ⟨quot, rem⟩ := div_words r.pair r.ebx.toNat div.toNat pos'
  rw [quot] at fits ⊢
  rw [rem]
  have first : r.pair / div.toNat < 2 ^ 32 := by
    generalize (r.pair % div.toNat * 2 ^ 32 + r.ebx.toNat) / div.toNat = q at fits
    omega
  have pair (ecx ebx : UInt32) : Regs.pair ⟨r.ebx, UInt32.ofNat (r.pair % div.toNat), ecx, ebx⟩ =
      r.pair % div.toNat * 2 ^ 32 + r.ebx.toNat := by
    rw [Regs.pair, UInt32.toNat_ofNat', Nat.mod_eq_of_lt (r_lt.trans small)]
  simp only [quotient, Regs.divl_eq pos first, Option.bind_eq_bind, Option.bind_some]
  rw [Regs.divl_eq pos (by rw [pair]; exact second), pair]
  simp only [Option.bind_some]
  rw [Regs.round_pair second fits]
  rw [Option.pure_def]

/-- The quotient, with its remainder rounded as the jump has it. -/
theorem llimd_eq {ll : UInt64} {mult : UInt32} (pos : div ≠ 0)
    (fits : ll.toNat * mult.toNat / div.toNat + 1 < 2 ^ 64) :
    llimd ll mult div = some (UInt64.ofNat (ll.toNat * mult.toNat / div.toNat +
      if roundsUp div (ll.toNat * mult.toNat % div.toNat) then 1 else 0)) := by
  obtain ⟨high, low⟩ := product_pair ll mult
  have divided := quotient_eq (r := (lowProduct ll mult).highProduct mult) pos
  rw [high, low, Nat.div_add_mod'] at divided
  exact divided fits

/-! ## Rounding -/

theorem toInt_toInt32 (x : UInt32) :
    x.toInt32.toInt = if x.toNat < 2 ^ 31 then (x.toNat : Int) else x.toNat - 2 ^ 32 := by
  have := BitVec.toInt_eq_toNat_cond x.toBitVec
  rw [← Int32.toInt_toBitVec, UInt32.toBitVec_toInt32, this, UInt32.toNat_toBitVec]
  split_ifs <;> omega

/-- A remainder of `2 ^ 30` or more is negative when doubled. -/
theorem roundsUp_iff {r : Nat} (positive : div.toNat < 2 ^ 31) (small : r < div.toNat) :
    roundsUp div r = true ↔ r < 2 ^ 30 ∧ div.toNat < 2 * r := by
  have twice : (UInt32.ofNat r <<< (1 : UInt32)).toNat = 2 * r := by
    simp [Nat.shiftLeft_eq]
    omega
  simp only [roundsUp, jge, toInt_toInt32, twice, Bool.not_eq_true', decide_eq_false_iff_not]
  split_ifs <;> omega

/-- A divisor of `2 ^ 31` or more is negative itself. -/
theorem roundsUp_zero (negative : 2 ^ 31 ≤ div.toNat) : roundsUp div 0 = true := by
  have d := div.toNat_lt
  have twice : (UInt32.ofNat 0 <<< (1 : UInt32)).toNat = 0 := rfl
  simp only [roundsUp, jge, toInt_toInt32, twice, Bool.not_eq_true', decide_eq_false_iff_not]
  split_ifs <;> omega

end Rtai.Time
