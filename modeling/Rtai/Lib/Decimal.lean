import Mathlib.Data.Nat.Digits.Lemmas

/-!
# Decimal texts

`places` are the digits of a number from the last to the first, as a loop that tests its
condition at the end finds them: 0 has one.  `text` is the canonical text of an integer, and
`read_text` reads it back.  Characters are signed bytes.
-/

namespace Rtai.Lib.Decimal

/-- The digits from the last to the first. -/
def places (n : Nat) : List Nat := if n = 0 then [0] else Nat.digits 10 n

variable {n : Nat}

theorem places_of_ne_zero (ne : n ≠ 0) : places n = Nat.digits 10 n := if_neg ne

theorem places_eq (n : Nat) :
    places n = n % 10 :: if n / 10 = 0 then [] else places (n / 10) := by
  by_cases zero : n = 0
  · subst zero
    rfl
  · rw [places_of_ne_zero zero, Nat.digits_eq_cons_digits_div (by decide) zero]
    split_ifs with last
    · rw [last, Nat.digits_zero]
    · rw [places_of_ne_zero last]

theorem places_more (more : 10 ≤ n) : places n = n % 10 :: places (n / 10) := by
  rw [places_eq n, if_neg (by omega)]

theorem places_ne_nil (n : Nat) : places n ≠ [] := by
  rw [places_eq]
  exact List.cons_ne_nil _ _

theorem ofDigits_places (n : Nat) : Nat.ofDigits 10 (places n) = n := by
  unfold places
  split_ifs with zero
  · exact zero.symm
  · exact Nat.ofDigits_digits 10 n

variable {d : Nat}

theorem places_lt (mem : d ∈ places n) : d < 10 := by
  unfold places at mem
  split_ifs at mem with zero
  · rw [List.mem_singleton.mp mem]
    decide
  · exact Nat.digits_lt_base (by decide) mem

theorem places_length_le {k : Nat} (small : n < 10 ^ k) (some : 0 < k) : (places n).length ≤ k := by
  unfold places
  split_ifs
  · exact some
  · exact (Nat.digits_length_le_iff (by decide) n).mpr small

/-- Only a number of one digit begins with a zero. -/
theorem places_leading (n : Nat) (zero : (places n).getLast (places_ne_nil n) = 0) :
    (places n).length = 1 := by
  by_cases none : n = 0
  · subst none
    rfl
  · simp only [places_of_ne_zero none] at zero
    exact absurd zero (Nat.getLast_digit_ne_zero 10 none)

/-! ## Texts -/

def minus : Int8 := 45

def digitChar (d : Nat) : Int8 := Int8.ofNat (48 + d)

def digit (c : Int8) : Nat := (c.toInt - 48).toNat

def IsDigit (c : Int8) : Prop := 48 ≤ c.toInt ∧ c.toInt ≤ 57

theorem digitChar_toInt (small : d < 10) : (digitChar d).toInt = 48 + d := by
  rw [digitChar, Int8.toInt_ofNat_of_lt (by omega)]
  omega

theorem isDigit_digitChar (small : d < 10) : IsDigit (digitChar d) := by
  unfold IsDigit
  rw [digitChar_toInt small]
  omega

theorem digit_digitChar (small : d < 10) : digit (digitChar d) = d := by
  rw [digit, digitChar_toInt small]
  omega

theorem minus_not_digit : ¬IsDigit minus := by
  unfold IsDigit
  decide

/-- The number that a text of digits stands for. -/
def value (digits : List Int8) : Nat := Nat.ofDigits 10 (digits.map digit).reverse

/-- A text of an integer: a sign for the negative ones and digits, the first of which is 0 only
when it is the last. -/
structure Canonical (x : Int) (sign digits : List Int8) : Prop where
  signed : sign = if x < 0 then [minus] else []
  isDigit : ∀ c ∈ digits, IsDigit c
  leading : digits.head? = some (digitChar 0) → digits.length = 1
  abs : value digits = x.natAbs
  nonempty : digits ≠ []

/-- Reading a text back. -/
def read : List Int8 → Int
  | [] => 0
  | c :: digits => if c = minus then -value digits else value (c :: digits)

theorem map_digit {l : List Nat} (small : ∀ d ∈ l, d < 10) : (l.map digitChar).map digit = l := by
  rw [List.map_map]
  exact (List.map_congr_left fun d mem => digit_digitChar (small d mem)).trans (List.map_id l)

/-- The digits of the canonical text. -/
def digitsOf (n : Nat) : List Int8 := ((places n).map digitChar).reverse

theorem value_digitsOf (n : Nat) : value (digitsOf n) = n := by
  rw [value, digitsOf, List.map_reverse, List.reverse_reverse, map_digit fun _ => places_lt,
    ofDigits_places]

theorem isDigit_digitsOf {c : Int8} (mem : c ∈ digitsOf n) : IsDigit c := by
  obtain ⟨d, there, rfl⟩ := List.mem_map.mp (List.mem_reverse.mp mem)
  exact isDigit_digitChar (places_lt there)

theorem digitsOf_ne_nil (n : Nat) : digitsOf n ≠ [] := by
  simpa [digitsOf] using places_ne_nil n

theorem canonical_text (x : Int) :
    Canonical x (if x < 0 then [minus] else []) (digitsOf x.natAbs) where
  signed := rfl
  isDigit _ mem := isDigit_digitsOf mem
  leading zero := by
    rw [digitsOf, List.head?_reverse, List.getLast?_map, List.getLast?_eq_some_getLast
      (places_ne_nil _)] at zero
    have last := places_lt (List.getLast_mem (places_ne_nil x.natAbs))
    have none := congrArg digit (Option.some.inj zero)
    rw [digit_digitChar last] at none
    simpa [digitsOf] using places_leading _ none
  abs := value_digitsOf _
  nonempty := digitsOf_ne_nil _

/-- The canonical text. -/
def text (x : Int) : List Int8 := (if x < 0 then [minus] else []) ++ digitsOf x.natAbs

theorem read_text (x : Int) : read (text x) = x := by
  unfold text
  split_ifs with negative
  · rw [List.singleton_append, read, if_pos rfl]
    have := value_digitsOf x.natAbs
    omega
  · obtain ⟨c, rest, eq⟩ := List.exists_cons_of_ne_nil (digitsOf_ne_nil x.natAbs)
    have first : c ≠ minus := by
      rintro rfl
      exact minus_not_digit (isDigit_digitsOf (eq ▸ List.mem_cons_self))
    have := value_digitsOf x.natAbs
    rw [eq] at this
    rw [List.nil_append, eq, read, if_neg first]
    omega

end Rtai.Lib.Decimal
