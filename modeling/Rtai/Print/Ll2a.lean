import Rtai.Lib.Decimal
import Rtai.Time.LongDivision
import Mathlib.Logic.Function.Basic

/-!
# `ll2a`

The digits of a number are put into the work array `a` from its second place on, those above
32 bits by `ulldiv` and the others by divisions of 32 bits, and copied to `s` from the last one
back to the 0 in the first place.  `places` are what has been put there and what is left.

The sign is a flag in `s[0]` until then.  The lowest number has no negative, so its digits are
those of its low word, 0.
-/

namespace Rtai.Print

open Function Rtai.Lib Rtai.Lib.Decimal Rtai.Time

/-- `char a[20]`. -/
abbrev Work := Nat → Int8

/-- An assignment in `a`, with none outside. -/
def Work.put (i : UInt32) (c : Int8) (a : Work) : Option Work :=
  if i.toNat < 20 then some (update a i.toNat c) else none

def Work.get (i : UInt32) (a : Work) : Option Int8 :=
  if i.toNat < 20 then some (a i.toNat) else none

/-- `k + '0'` as a `char`. -/
def charOf (k : UInt32) : Int8 := (k + 48).toUInt8.toInt8

/-- The loop over what is above 32 bits, up to `ul`. -/
def longDigits : Nat → Int64 → UInt32 → Work → Option (UInt32 × UInt32 × Work)
  | 0, _, _, _ => none
  | fuel + 1, ll, i, a =>
      if ll > 0xFFFFFFFF then do
        let (q, k) ← ulldiv (fuel + 1) ll.toUInt64 10
        let i := i + 1
        let a ← a.put i (charOf k)
        longDigits fuel q.toInt64 i a
      else some (low ll.toUInt64, i, a)

/-- The loop over `ul`. -/
def shortDigits : Nat → UInt32 → UInt32 → Work → Option (UInt32 × Work)
  | 0, _, _, _ => none
  | fuel + 1, ul, i, a => do
      let k := ul
      let ul := k / 10
      let i := i + 1
      let a ← a.put i (charOf (k - ul * 10))
      if ul ≠ 0 then shortDigits fuel ul i a else some (i, a)

/-- The last loop. -/
def copyBack : Nat → UInt32 → UInt32 → Work → (Nat → Int8) → Option (Nat → Int8)
  | 0, _, _, _, _ => none
  | fuel + 1, k, i, a, s => do
      let c ← a.get i
      let s := update s k.toNat c
      if c ≠ 0 then copyBack fuel (k + 1) (i - 1) a s else some s

def ll2a (fuel : Nat) (ll : Int64) (a : Work) (s : Nat → Int8) : Option (Nat → Int8) := do
  let (ll, s) := if ll < 0 then (-ll, update s 0 1) else (ll, update s 0 0)
  let (ul, i, a) ← longDigits fuel ll 0 a
  let (i, a) ← shortDigits fuel ul i a
  let (k, s) := if s 0 ≠ 0 then ((1 : UInt32), update s 0 45) else (0, s)
  let a ← a.put 0 0
  copyBack fuel k i a s

/-! ## The work array -/

/-- The characters from the second place on. -/
def Out (a : Work) (i : UInt32) (l : List Int8) : Prop :=
  l.length = i.toNat ∧ (List.range l.length).map (fun j => a (j + 1)) = l

variable {a : Work} {i k : UInt32} {l : List Int8}

theorem Out.nil (a : Work) : Out a 0 [] := ⟨rfl, rfl⟩

theorem next_toNat (room : i.toNat < 19) : (i + 1).toNat = i.toNat + 1 := by
  rw [UInt32.toNat_add, UInt32.toNat_one]
  exact Nat.mod_eq_of_lt (by omega)

/-- A character is put behind the others. -/
theorem Out.put (out : Out a i l) (room : i.toNat < 19) (c : Int8) :
    ∃ a', a.put (i + 1) c = some a' ∧ Out a' (i + 1) (l ++ [c]) ∧ a' 0 = a 0 := by
  obtain ⟨len, chars⟩ := out
  have next := next_toNat room
  refine ⟨update a (i + 1).toNat c, if_pos (by omega), ⟨by simp [len, next], ?_⟩,
    update_of_ne (by omega) _ _⟩
  have before : (List.range l.length).map (fun j => update a (i + 1).toNat c (j + 1)) = l := by
    refine (List.map_congr_left fun j mem => ?_).trans chars
    exact update_of_ne (by have := List.mem_range.mp mem; omega) _ _
  rw [List.length_append, List.length_singleton, List.range_succ, List.map_append, before]
  simp [next, len]

theorem charOf_eq (small : k.toNat < 10) : charOf k = digitChar k.toNat := by
  have all : ∀ n < 10, charOf (UInt32.ofNat n) = digitChar n := by decide
  simpa using all k.toNat small

/-! ## The loops -/

/-- The work array has its 0 and, behind it, all that is not among `rest`. -/
structure Digits (a : Work) (i : UInt32) (n : Nat) (rest : List Nat) : Prop where
  out : ∃ l, Out a i l ∧ l ++ rest.map digitChar = (places n).map digitChar
  room : i.toNat + rest.length ≤ 19

variable {n fuel : Nat} {d : Nat} {rest : List Nat} {ll : Int64} {s : Nat → Int8}

theorem Digits.put (digits : Digits a i n (k.toNat :: rest)) (small : k.toNat < 10) :
    ∃ a', a.put (i + 1) (charOf k) = some a' ∧ Digits a' (i + 1) n rest ∧ a' 0 = a 0 := by
  obtain ⟨⟨l, out, all⟩, room⟩ := digits
  rw [List.length_cons] at room
  obtain ⟨a', put, out', first⟩ := out.put (by omega) (charOf k)
  refine ⟨a', put, ⟨⟨_, out', ?_⟩, ?_⟩, first⟩
  · rw [charOf_eq small, ← all, List.append_assoc]
    rfl
  · rw [next_toNat (by omega)]
    omega

theorem above_iff : ll > 0xFFFFFFFF ↔ 2 ^ 32 ≤ ll.toInt := by
  rw [gt_iff_lt, Int64.lt_iff_toInt_lt]
  exact Int.add_one_le_iff.symm

/-- The number shrinks below 32 bits. -/
theorem longDigits_eq (nonneg : 0 ≤ ll.toInt) (enough : ll.toInt < fuel)
    (digits : Digits a i n (places ll.toInt.toNat)) :
    ∃ ul i' a', longDigits fuel ll i a = some (ul, i', a') ∧
      Digits a' i' n (places ul.toNat) ∧ a' 0 = a 0 ∧ ul.toNat ≤ ll.toInt := by
  induction fuel generalizing ll i a with
  | zero => omega
  | succ fuel ih =>
      have unsigned := Timing.toNat_toUInt64 ll
      rw [if_pos nonneg] at unsigned
      rw [longDigits]
      split_ifs with above
      · have large := above_iff.mp above
        have ten : 0 < (10 : UInt32) := by decide
        have steps : ll.toUInt64.toNat < fuel + 1 := by omega
        obtain ⟨q, k, divided, value, below⟩ := ulldiv_ends ten steps
        replace below : k.toNat < 10 := below
        replace value : ll.toUInt64.toNat = q.toNat * 10 + k.toNat := value
        have quotient : q.toInt64.toInt = q.toNat := by
          rw [Timing.toInt_toInt64, if_pos]
          have := ll.toInt_lt
          omega
        have same : places ll.toInt.toNat = k.toNat :: places q.toInt64.toInt.toNat := by
          rw [places_more (by omega)]
          congr 1
          · omega
          · congr 1
            omega
        rw [same] at digits
        obtain ⟨a₁, put, digits₁, first₁⟩ := digits.put below
        obtain ⟨ul, i', a', rest, digits', first', less⟩ :=
          ih (by omega) (by omega) digits₁
        refine ⟨ul, i', a', ?_, digits', first'.trans first₁, by omega⟩
        simp [divided, put, rest]
      · have small : ll.toInt < 2 ^ 32 := Int.not_le.mp (mt above_iff.mpr above)
        have word : (low ll.toUInt64).toNat = ll.toInt.toNat := by
          rw [low, UInt64.toNat_toUInt32]
          omega
        exact ⟨_, _, _, rfl, word ▸ digits, rfl, by omega⟩

theorem shortDigits_eq {ul : UInt32} (enough : ul.toNat < fuel)
    (digits : Digits a i n (places ul.toNat)) :
    ∃ i' a', shortDigits fuel ul i a = some (i', a') ∧ Digits a' i' n [] ∧ a' 0 = a 0 := by
  induction fuel generalizing ul i a with
  | zero => omega
  | succ fuel ih =>
      have quotient : (ul / 10).toNat = ul.toNat / 10 := UInt32.toNat_div ul 10
      have rem : (ul - ul / 10 * 10).toNat = ul.toNat % 10 := rest_toNat ul
      rw [places_eq, ← rem] at digits
      obtain ⟨a₁, put, digits₁, first₁⟩ := digits.put (by omega)
      have zero : ul / 10 = 0 ↔ ul.toNat / 10 = 0 := by
        rw [← UInt32.toNat_inj, quotient]
        rfl
      have step : shortDigits (fuel + 1) ul i a =
          if ul / 10 ≠ 0 then shortDigits fuel (ul / 10) (i + 1) a₁ else some (i + 1, a₁) := by
        rw [shortDigits, put]
        rfl
      by_cases last : ul / 10 = 0
      · rw [if_pos (zero.mp last)] at digits₁
        exact ⟨i + 1, a₁, step.trans (if_neg (not_not.mpr last)), digits₁, first₁⟩
      · have more := mt zero.mpr last
        rw [if_neg more, ← quotient] at digits₁
        obtain ⟨i', a', rest, digits', first'⟩ := ih (by omega) digits₁
        exact ⟨i', a', step.trans ((if_pos last).trans rest), digits', first'.trans first₁⟩

/-- The characters at `k` and behind, with what is at no place of them left alone. -/
structure Copied (k : Nat) (l : List Int8) (s s' : Nat → Int8) : Prop where
  chars : (List.range l.length).map (fun j => s' (k + j)) = l
  others : ∀ j, j < k ∨ k + l.length ≤ j → s' j = s j

theorem Copied.cons {k : Nat} {c : Int8} {s' : Nat → Int8}
    (copied : Copied (k + 1) l (update s k c) s') : Copied k (c :: l) s s' := by
  refine ⟨?_, fun j outside => ?_⟩
  · rw [List.length_cons, List.range_succ_eq_map, List.map_cons, List.map_map]
    congr 1
    · exact (copied.others k (Or.inl (Nat.lt_succ_self k))).trans (update_self _ _ _)
    · refine (List.map_congr_left fun j _ => ?_).trans copied.chars
      exact congrArg s' (by simp; omega)
  · rw [List.length_cons] at outside
    rw [copied.others j (by omega), update_of_ne (by omega)]

/-- The characters are copied from the last one on. -/
theorem copyBack_eq (enough : i.toNat < fuel) (out : Out a i l) (room : i.toNat ≤ 19)
    (low : k.toNat + i.toNat < 2 ^ 32) (real : ∀ c ∈ l, c ≠ 0) (first : a 0 = 0) :
    ∃ s', copyBack fuel k i a s = some s' ∧ Copied k.toNat (l.reverse ++ [0]) s s' := by
  induction fuel generalizing k i l s with
  | zero => omega
  | succ fuel ih =>
      obtain ⟨len, chars⟩ := out
      have got : a.get i = some (a i.toNat) := if_pos (by omega)
      have step : copyBack (fuel + 1) k i a s = if a i.toNat ≠ 0
          then copyBack fuel (k + 1) (i - 1) a (update s k.toNat (a i.toNat))
          else some (update s k.toNat (a i.toNat)) := by
        rw [copyBack, got]
        rfl
      rcases List.eq_nil_or_concat l with rfl | ⟨l, c, rfl⟩
      · have none : i.toNat = 0 := len.symm
        rw [none, first, if_neg (not_not.mpr rfl)] at step
        refine ⟨_, step, Copied.cons ⟨rfl, fun j _ => rfl⟩⟩
      · rw [List.concat_eq_append, List.length_append, List.length_singleton] at len chars
        rw [List.range_succ, List.map_append] at chars
        obtain ⟨before, last⟩ := List.append_inj' chars rfl
        have last : a i.toNat = c := by
          rw [← len]
          exact List.singleton_inj.mp last
        rw [last, if_pos (real c (by simp))] at step
        have prev : (i - 1).toNat = i.toNat - 1 := by
          rw [UInt32.toNat_sub_of_le _ _ (UInt32.le_iff_toNat_le.mpr (by rw [UInt32.toNat_one]; omega)),
            UInt32.toNat_one]
        have next : (k + 1).toNat = k.toNat + 1 := by
          rw [UInt32.toNat_add, UInt32.toNat_one]
          exact Nat.mod_eq_of_lt (by omega)
        obtain ⟨s', rest, copied⟩ := ih (k := k + 1) (i := i - 1) (l := l)
          (s := update s k.toNat c) (by omega) ⟨by omega, before⟩ (by omega) (by omega)
          fun c mem => real c (by simp [mem])
        rw [next] at copied
        refine ⟨s', step.trans rest, ?_⟩
        rw [List.concat_eq_append, List.reverse_append, List.reverse_singleton, List.append_assoc]
        exact copied.cons

/-! ## The text -/

/-- The work array holds the digits of the number from the first one on when it is copied. -/
theorem digits_copied (nonneg : 0 ≤ ll.toInt) (enough : ll.toInt < fuel) (more : 20 ≤ fuel)
    (sign : k.toNat ≤ 1) :
    ∃ ul i a₁ i' a₂ a₃ s', longDigits fuel ll 0 a = some (ul, i, a₁) ∧
      shortDigits fuel ul i a₁ = some (i', a₂) ∧ a₂.put 0 0 = some a₃ ∧
      copyBack fuel k i' a₃ s = some s' ∧
      Copied k.toNat (digitsOf ll.toInt.toNat ++ [0]) s s' := by
  have bound := ll.toInt_lt
  have few : (places ll.toInt.toNat).length ≤ 19 :=
    places_length_le (by omega) (by decide)
  have start : Digits a 0 ll.toInt.toNat (places ll.toInt.toNat) := by
    refine ⟨⟨[], Out.nil a, rfl⟩, ?_⟩
    rw [UInt32.toNat_zero]
    omega
  obtain ⟨ul, i, a₁, long, digits, -, less⟩ := longDigits_eq nonneg enough start
  have steps : ul.toNat < fuel := by omega
  obtain ⟨i', a₂, short, ⟨⟨l, out, all⟩, room⟩, -⟩ := shortDigits_eq steps digits
  rw [List.map_nil, List.append_nil] at all
  obtain ⟨len, chars⟩ := out
  have out : Out (update a₂ 0 0) i' l := by
    refine ⟨len, (List.map_congr_left fun j _ => ?_).trans chars⟩
    exact update_of_ne (Nat.succ_ne_zero j) _ _
  have real : ∀ c ∈ l, c ≠ 0 := by
    rintro c mem rfl
    rw [all] at mem
    obtain ⟨d, there, zero⟩ := List.mem_map.mp mem
    have code := digitChar_toInt (places_lt there)
    rw [zero] at code
    exact absurd code (by simp; omega)
  rw [List.length_nil, Nat.add_zero] at room
  have steps : i'.toNat < fuel := by omega
  obtain ⟨s', copy, copied⟩ := copyBack_eq (k := k) (s := s) steps out room (by omega) real
    (update_self _ _ _)
  refine ⟨ul, i, a₁, i', a₂, _, s', long, short, rfl, copy, ?_⟩
  rw [digitsOf, ← all]
  exact copied

/-- The call ends, for all contents of the buffers, without an access outside the work array, and
`s` has the canonical text of the number and a 0. -/
def Meets (ll : Int64) : Prop :=
  ∀ (a : Work) (s : Nat → Int8), ∃ n, ∀ fuel, n ≤ fuel → ∃ s' sign digits,
    ll2a fuel ll a s = some s' ∧ Canonical ll.toInt sign digits ∧
      Copied 0 (sign ++ digits ++ [0]) s s' ∧ read (sign ++ digits) = ll.toInt

theorem toInt_neg (ne : ll ≠ Int64.minValue) : (-ll).toInt = -ll.toInt := by
  have low := ll.le_toInt
  have high := ll.toInt_lt
  have ne' : ll.toInt ≠ -2 ^ 63 := fun same => ne (Int64.toInt_inj.mp same)
  rw [Int64.toInt_neg]
  exact Int.bmod_eq_of_le (by omega) (by omega)

theorem meets_of_ne (ne : ll ≠ Int64.minValue) : Meets ll := by
  intro a s
  refine ⟨ll.toInt.natAbs + 20, fun fuel enough => ?_⟩
  have negative_iff : ll < 0 ↔ ll.toInt < 0 := Int64.lt_iff_toInt_lt
  have canonical := canonical_text ll.toInt
  have back := read_text ll.toInt
  unfold text at back
  by_cases negative : ll < 0
  · have below := negative_iff.mp negative
    have neg := toInt_neg ne
    have nonneg : 0 ≤ (-ll).toInt := by omega
    have steps : (-ll).toInt < fuel := by omega
    obtain ⟨ul, i, a₁, i', a₂, a₃, s', long, short, put, copy, copied⟩ :=
      digits_copied (a := a) (s := update (update s 0 1) 0 45) (k := 1) nonneg steps
        (by omega) (by decide)
    rw [neg, show (-ll.toInt).toNat = ll.toInt.natAbs by omega, update_idem] at copied
    rw [if_pos below] at canonical back
    rw [update_idem] at copy
    refine ⟨s', [minus], digitsOf ll.toInt.natAbs, ?_, canonical, copied.cons, back⟩
    simp [ll2a, negative, long, short, put, copy]
  · have above : 0 ≤ ll.toInt := Int.not_lt.mp (mt negative_iff.mpr negative)
    have steps : ll.toInt < fuel := by omega
    obtain ⟨ul, i, a₁, i', a₂, a₃, s', long, short, put, copy, copied⟩ :=
      digits_copied (a := a) (s := update s 0 0) (k := 0) above steps (by omega) (by decide)
    rw [show ll.toInt.toNat = ll.toInt.natAbs by omega] at copied
    rw [if_neg (Int.not_lt.mpr above)] at canonical back
    refine ⟨s', [], digitsOf ll.toInt.natAbs, ?_, canonical, ⟨copied.chars, fun j outside => ?_⟩, back⟩
    · simpa [ll2a, negative, long, short, put] using copy
    · rw [copied.others j outside, update_of_ne]
      rw [List.length_append, List.length_singleton] at outside
      omega

/-- The negative of the lowest number is the number itself. -/
theorem ll2a_minValue (fuel : Nat) (a : Work) (s : Nat → Int8) :
    ∃ s', ll2a (fuel + 3) Int64.minValue a s = some s' ∧ s' 2 = 0 := by
  have negative : Int64.minValue < 0 := by decide
  have neg : -Int64.minValue = Int64.minValue := rfl
  have long : longDigits (fuel + 3) Int64.minValue 0 a = some (0, 0, a) := rfl
  have short : shortDigits (fuel + 3) 0 0 a = some (1, update a 1 48) := rfl
  have put : Work.put 0 0 (update a 1 48) = some (update (update a 1 48) 0 0) := rfl
  have copy (s : Nat → Int8) : copyBack (fuel + 3) 1 1 (update (update a 1 48) 0 0) s =
      some (update (update s 1 48) 2 0) := rfl
  refine ⟨update (update (update s 0 45) 1 48) 2 0, ?_, update_self _ _ _⟩
  simp [ll2a, negative, neg, long, short, put, copy]

theorem not_meets_minValue : ¬Meets Int64.minValue := by
  intro meets
  obtain ⟨n, ends⟩ := meets (fun _ => 0) fun _ => 0
  obtain ⟨s', sign, digits, written, canonical, copied, back⟩ := ends (n + 3) (Nat.le_add_right n 3)
  obtain ⟨s'', written', third⟩ := ll2a_minValue n (fun _ => 0) fun _ => 0
  obtain rfl := Option.some.inj (written.symm.trans written')
  obtain rfl : sign = [minus] := canonical.signed
  have chars := copied.chars
  -- The second character is the last one.
  match digits, canonical with
  | [], canonical => exact canonical.nonempty rfl
  | [c], canonical =>
      obtain ⟨-, high⟩ := canonical.isDigit c List.mem_cons_self
      have abs : value [c] = 2 ^ 63 := canonical.abs
      rw [value, List.map_singleton, List.reverse_singleton, Nat.ofDigits_singleton, digit] at abs
      omega
  | c :: d :: rest, canonical =>
      obtain ⟨low, -⟩ := canonical.isDigit d (by simp)
      have same : (some d : Option Int8) = some (s' 2) := by
        have third := congrArg (·[2]?) chars
        simpa using third.symm
      rw [Option.some.inj same, third] at low
      exact absurd low (by decide)

/-- The call does what it should for every number but the lowest. -/
theorem decimal_text (ll : Int64) : Meets ll ↔ ll ≠ Int64.minValue := by
  constructor
  · rintro meets rfl
    exact not_meets_minValue meets
  · exact meets_of_ne

theorem not_all_meet : ¬∀ ll : Int64, Meets ll := fun all => not_meets_minValue (all _)

end Rtai.Print
