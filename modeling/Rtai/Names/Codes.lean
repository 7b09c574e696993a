import Rtai.Lib.CString
import Mathlib.Data.Nat.Digits.Lemmas
import Mathlib.Logic.Function.Basic

/-!
# Names of objects as numbers

`nam2num` reads the first six characters of a name as a number of base 39, with digits from 1
on, and `num2nam` writes them back.  A digit is never 0, so the length need not be stored: the
name is where the quotients end.  The decoder fills its buffer from the right and shifts what
it has found to the left.
-/

namespace Rtai.Names

open Function Rtai.Lib

/-- What is added to `retval` for a character. -/
def code (c : Int) : Int :=
  if c ≥ ch 'a' ∧ c ≤ ch 'z' then c + (11 - ch 'a')
  else if c ≥ ch 'A' ∧ c ≤ ch 'Z' then c + (11 - ch 'A')
  else if c ≥ ch '0' ∧ c ≤ ch '9' then c - (ch '0' - 1)
  else if c = ch '_' then 37 else 38

/-- The loop of `nam2num` with `n` turns left: `retval` and `i`. -/
def nam2numLoop : Nat → List Int8 → UInt32 → Nat → UInt32 × Nat
  | 0, _, retval, i => (retval, i)
  | _ + 1, [], retval, i => (retval, i)
  | n + 1, c :: name, retval, i =>
      nam2numLoop n name (retval * 39 + UInt32.ofInt (code c.toInt)) (i + 1)

def nam2num (name : CString) : UInt32 :=
  let (retval, i) := nam2numLoop 6 name.chars 0 0
  if i > 0 then retval else 0xFFFFFFFF

/-- The buffer of `num2nam`, with the places that have been written to. -/
structure Buffer where
  name : Int → Int8
  written : List Int := []

def Buffer.store (i : Int) (c : Int8) (b : Buffer) : Buffer where
  name := update b.name i c
  written := i :: b.written

/-- The character of a digit. -/
def letter (c : Int) : Int8 :=
  if c < 37 then Int8.ofInt (if c > 10 then c + ch 'A' - 11 else c + ch '0' - 1)
  else Int8.ofInt (if c = 37 then ch '_' else ch '$')

/-- The first loop of `num2nam`, where `i` is `n - 1`. -/
def fill : Nat → UInt32 → Buffer → Int × Buffer
  | 0, _, b => (-1, b)
  | n + 1, num, b =>
      if num = 0 then (n, b)
      else
        let q := num / 39
        let c := num - q * 39
        fill n q (b.store n (letter c.toNat))

/-- The second one, with the turns from `i` to 5: `k` and the buffer. -/
def shift : Nat → Int → Int → Buffer → Int × Buffer
  | 0, k, _, b => (k, b)
  | n + 1, k, i, b => shift n (k + 1) (i + 1) (b.store k (b.name (i + 1)))

def num2nam (num : UInt32) (b : Buffer) : Buffer :=
  if num = 0xFFFFFFFF then b.store 0 0
  else
    let (i, b) := fill 6 num b
    let (k, b) := shift (5 - i).toNat 0 i b
    b.store k 0

/-! ## Normal forms -/

/-- A letter in upper case, a digit, an underscore, or a dollar sign. -/
def normal (c : Int8) : Int8 :=
  if c.toInt ≥ ch 'a' ∧ c.toInt ≤ ch 'z' then Int8.ofInt (c.toInt - ch 'a' + ch 'A')
  else if c.toInt ≥ ch 'A' ∧ c.toInt ≤ ch 'Z' ∨ c.toInt ≥ ch '0' ∧ c.toInt ≤ ch '9' ∨
    c.toInt = ch '_' then c
  else Int8.ofInt (ch '$')

def normalForm (name : CString) : List Int8 := (name.chars.take 6).map normal

/-! ## Digits -/

/-- The digit of a character. -/
def digit (c : Int8) : Nat := (code c.toInt).toNat

theorem ch_values : ch 'a' = 97 ∧ ch 'z' = 122 ∧ ch 'A' = 65 ∧ ch 'Z' = 90 ∧ ch '0' = 48 ∧
    ch '9' = 57 ∧ ch '_' = 95 ∧ ch '$' = 36 := by decide

theorem code_bounds (c : Int) : 1 ≤ code c ∧ code c ≤ 38 := by
  unfold code
  simp only [ch_values]
  split_ifs <;> omega

theorem digit_bounds (c : Int8) : 1 ≤ digit c ∧ digit c < 39 := by
  have := code_bounds c.toInt
  unfold digit
  omega

variable {x : Int}

theorem ofInt_self {c : Int8} (same : x = c.toInt) : Int8.ofInt x = c := by
  rw [same, Int8.ofInt_toInt]

theorem letter_digit (c : Int8) : letter (digit c) = normal c := by
  have bounds := code_bounds c.toInt
  have digit : ((digit c : Nat) : Int) = code c.toInt := Int.toNat_of_nonneg (by omega)
  rw [digit]
  unfold code letter normal
  simp only [ch_values]
  split_ifs <;> first
    | omega
    | rfl
    | exact ofInt_self (by omega)
    | exact congrArg Int8.ofInt (by omega)

theorem ofInt_ne (low : 0 < x) (high : x < 128) : Int8.ofInt x ≠ 0 := by
  intro zero
  have value := congrArg Int8.toInt zero
  rw [Int8.toInt_ofInt_of_le (by omega) (by omega)] at value
  have none : (0 : Int8).toInt = 0 := rfl
  omega

theorem normal_ne (c : Int8) : normal c ≠ 0 := by
  unfold normal
  simp only [ch_values]
  split_ifs with lower kept
  · exact ofInt_ne (by omega) (by omega)
  · rintro rfl
    have none : (0 : Int8).toInt = 0 := rfl
    omega
  · decide

/-- The number that a name stands for. -/
def value (l : List Int8) : Nat := Nat.ofDigits 39 (l.map digit).reverse

@[simp] theorem value_nil : value [] = 0 := rfl

theorem value_concat (l : List Int8) (c : Int8) : value (l ++ [c]) = digit c + 39 * value l := by
  simp [value, Nat.ofDigits_cons]

theorem value_lt (l : List Int8) : value l < 39 ^ l.length := by
  have bound := Nat.ofDigits_lt_base_pow_length (b := 39) (l := (l.map digit).reverse) (by decide)
    fun d mem => by
      obtain ⟨c, -, rfl⟩ := List.mem_map.mp (List.mem_reverse.mp mem)
      exact (digit_bounds c).2
  simpa [value] using bound

variable {l : List Int8}

/-- A name of six characters is not the code of the empty name. -/
theorem value_lt_code (short : l.length ≤ 6) : value l < 0xFFFFFFFF :=
  (value_lt l).trans_le ((Nat.pow_le_pow_right (by decide) short).trans (by decide))

theorem value_pos (some : l ≠ []) : 0 < value l := by
  obtain ⟨l, c, rfl⟩ := List.eq_nil_or_concat l |>.resolve_left some
  rw [List.concat_eq_append, value_concat]
  have := digit_bounds c
  omega

/-! ## Encoding -/

variable {n : Nat} {num : UInt32}

/-- Every turn of the loop counts on without a carry out of 32 bits. -/
theorem nam2numLoop_eq (name l : List Int8) {retval : UInt32} {i : Nat}
    (so_far : retval.toNat = value l) (short : l.length + n ≤ 6) :
    (nam2numLoop n name retval i).1.toNat = value (l ++ name.take n) ∧
      (nam2numLoop n name retval i).2 = i + (name.take n).length := by
  induction n generalizing name l retval i with
  | zero => simpa [nam2numLoop] using so_far
  | succ n ih =>
      cases name with
      | nil => simpa [nam2numLoop] using so_far
      | cons c name =>
          have next : (retval * 39 + UInt32.ofInt (code c.toInt)).toNat = value (l ++ [c]) := by
            have bound := value_lt_code (l := l ++ [c]) (by simp; omega)
            have bounds := digit_bounds c
            have added : (UInt32.ofInt (code c.toInt)).toNat = digit c := by
              unfold digit at bounds ⊢
              simp [UInt32.ofInt]
              omega
            rw [value_concat] at bound ⊢
            rw [UInt32.toNat_add, UInt32.toNat_mul, so_far, added]
            show (_ * 39 % 2 ^ 32 + _) % 2 ^ 32 = _
            omega
          have rest := ih name (l ++ [c]) (i := i + 1) next (by simp; omega)
          simp only [nam2numLoop, List.take_succ_cons, List.length_cons]
          rw [rest.1, rest.2]
          simp
          omega

theorem nam2num_eq (name : CString) : (nam2num name).toNat =
    if name.chars = [] then 0xFFFFFFFF else value (name.chars.take 6) := by
  have loop := nam2numLoop_eq name.chars [] (i := 0) (n := 6)
    (rfl : (0 : UInt32).toNat = value []) (by simp)
  unfold nam2num
  split_ifs with none
  · simp [none, nam2numLoop]
  · have some : 0 < (name.chars.take 6).length := by
      rw [List.length_take]
      have := List.length_pos_iff.mpr none
      omega
    have read : (nam2numLoop 6 name.chars 0 0).2 > 0 := by omega
    simp only [read, if_true, loop.1, List.nil_append]

/-! ## Decoding -/

namespace Buffer

@[simp] theorem store_name (b : Buffer) (i : Int) (c : Int8) :
    (b.store i c).name = update b.name i c := rfl

@[simp] theorem store_written (b : Buffer) (i : Int) (c : Int8) :
    (b.store i c).written = i :: b.written := rfl

end Buffer

/-- The digits of a name come to the end of the first `n` places. -/
theorem fill_name (l : List Int8) (b : Buffer) (is : num.toNat = value l) (room : l.length ≤ n) :
    (fill n num b).1 = n - 1 - l.length ∧
      (∀ k (hk : k < l.length), (fill n num b).2.name (n - l.length + k) = normal l[k]) ∧
      ∀ x : Int, n ≤ x → (fill n num b).2.name x = b.name x := by
  induction l using List.reverseRecOn generalizing n num b with
  | nil =>
      have zero : num = 0 := UInt32.toNat_inj.mp is
      cases n with
      | zero => simp [fill]
      | succ n => simp [fill, zero]
  | append_singleton l c ih =>
      rw [value_concat] at is
      rw [List.length_append, List.length_singleton] at room
      obtain ⟨m, rfl⟩ := Nat.exists_eq_succ_of_ne_zero (show n ≠ 0 by omega)
      have bounds := digit_bounds c
      have more : num ≠ 0 := by
        rintro rfl
        rw [UInt32.toNat_zero] at is
        omega
      have quotient : (num / 39).toNat = value l := by
        rw [UInt32.toNat_div]
        show num.toNat / 39 = _
        omega
      have rest : (num - num / 39 * 39).toNat = digit c := by
        rw [UInt32.toNat_sub, UInt32.toNat_mul, quotient]
        show (2 ^ 32 - value l * 39 % 2 ^ 32 + num.toNat) % 2 ^ 32 = _
        have := num.toNat_lt
        omega
      obtain ⟨i, names, frame⟩ := ih (b.store m (normal c)) quotient (Nat.le_of_succ_le_succ room)
      have turn : fill (m + 1) num b = fill m (num / 39) (b.store m (normal c)) := by
        rw [fill, if_neg more]
        dsimp only
        rw [rest, letter_digit]
      rw [turn]
      refine ⟨?_, fun k hk => ?_, fun x hx => ?_⟩
      · rw [i, List.length_append, List.length_singleton]
        push_cast
        omega
      · rcases Nat.lt_or_ge k l.length with inside | last
        · have place : ((m + 1 : Nat) : Int) - (l ++ [c]).length + k = m - l.length + k := by
            simp
          rw [place, names k inside, List.getElem_append_left inside]
        · have same : k = l.length := by
            rw [List.length_append, List.length_singleton] at hk
            omega
          subst same
          have place : ((m + 1 : Nat) : Int) - (l ++ [c]).length + l.length = m := by
            simp
          rw [place, frame m le_rfl]
          simp
      · push_cast at hx
        rw [frame x (by omega)]
        exact update_of_ne (by omega) _ _

theorem shift_count (n : Nat) (k i : Int) (b : Buffer) : (shift n k i b).1 = k + n := by
  induction n generalizing k i b with
  | zero => simp [shift]
  | succ n ih =>
      rw [shift, ih]
      push_cast
      omega

/-- The second loop moves the characters to the left. -/
theorem shift_name {k i : Int} (b : Buffer) (left : k ≤ i + 1) (x : Int) :
    (shift n k i b).2.name x =
      if k ≤ x ∧ x < k + n then b.name (x - k + i + 1) else b.name x := by
  induction n generalizing k i b with
  | zero =>
      have none : ¬(k ≤ x ∧ x < k + (0 : Nat)) := by omega
      rw [if_neg none]
      rfl
  | succ n ih =>
      rw [shift, ih _ (by omega)]
      simp only [Buffer.store_name]
      push_cast
      rcases lt_trichotomy x k with below | rfl | above
      · rw [if_neg (by omega), if_neg (by omega), update_of_ne (by omega)]
      · rw [if_neg (by omega), if_pos (by omega), update_self]
        congr 1
        omega
      · by_cases inside : x < k + (n + 1)
        · rw [if_pos (by omega), if_pos (by omega), update_of_ne (by omega)]
          congr 1
          omega
        · rw [if_neg (by omega), if_neg (by omega), update_of_ne (by omega)]

theorem num2nam_name (short : l.length ≤ 6) (is : num.toNat = value l) (b : Buffer) :
    stringAt (num2nam num b).name 7 = l.map normal := by
  have other : num ≠ 0xFFFFFFFF := by
    rintro rfl
    exact (value_lt_code short).ne' is
  obtain ⟨i, names, -⟩ := fill_name l b is short
  have turns : (5 - (fill 6 num b).1).toNat = l.length := by
    rw [i]
    push_cast
    omega
  have left : 0 ≤ (fill 6 num b).1 + 1 := by
    rw [i]
    push_cast
    omega
  have result : (num2nam num b).name =
      update (shift l.length 0 (fill 6 num b).1 (fill 6 num b).2).2.name l.length 0 := by
    rw [num2nam, if_neg other]
    dsimp only
    rw [turns, shift_count, zero_add, Buffer.store_name]
  rw [result]
  refine stringAt_eq (by simpa using Nat.lt_succ_of_le short) ?_ (fun k hk => ?_) ?_
  · intro c mem
    obtain ⟨c, -, rfl⟩ := List.mem_map.mp mem
    exact normal_ne c
  · rw [List.length_map] at hk
    rw [update_of_ne (by omega), shift_name _ left, if_pos (by omega), List.getElem_map, ← names k hk]
    congr 1
    rw [i]
    push_cast
    omega
  · rw [List.length_map, update_self]

/-! ## What is written to -/

theorem fill_written (n : Nat) (num : UInt32) (b : Buffer) :
    -1 ≤ (fill n num b).1 ∧ (fill n num b).1 < n ∧
      ∀ p ∈ (fill n num b).2.written, p ∈ b.written ∨ 0 ≤ p ∧ p < n := by
  induction n generalizing num b with
  | zero => exact ⟨by simp [fill], by simp [fill], fun p mem => .inl mem⟩
  | succ n ih =>
      rw [fill]
      split
      next => exact ⟨by omega, by simp, fun p mem => .inl mem⟩
      next =>
        obtain ⟨low, high, writes⟩ := ih (num / 39) (b.store n (letter (num - num / 39 * 39).toNat))
        refine ⟨low, by push_cast; omega, fun p mem => ?_⟩
        rcases writes p mem with old | inside
        · rcases List.mem_cons.mp old with rfl | old
          · exact .inr (by push_cast; omega)
          · exact .inl old
        · exact .inr (by push_cast; omega)

theorem shift_written (n : Nat) (k i : Int) (b : Buffer) :
    ∀ p ∈ (shift n k i b).2.written, p ∈ b.written ∨ k ≤ p ∧ p < k + n := by
  induction n generalizing k i b with
  | zero => exact fun p mem => .inl mem
  | succ n ih =>
      intro p mem
      rcases ih (k + 1) (i + 1) (b.store k (b.name (i + 1))) p mem with old | inside
      · rcases List.mem_cons.mp old with rfl | old
        · exact .inr (by push_cast; omega)
        · exact .inl old
      · exact .inr (by push_cast; omega)

/-- Only the first seven characters of the buffer are written to. -/
theorem num2nam_written (num : UInt32) (b : Buffer) :
    ∀ p ∈ (num2nam num b).written, p ∈ b.written ∨ 0 ≤ p ∧ p < 7 := by
  unfold num2nam
  split
  next =>
    intro p mem
    rcases List.mem_cons.mp mem with rfl | old
    · exact .inr (by decide)
    · exact .inl old
  next =>
    have fills := fill_written 6 num b
    generalize fill 6 num b = filled at fills
    obtain ⟨low, high, fills⟩ := fills
    push_cast at high fills
    intro p mem
    rcases List.mem_cons.mp mem with rfl | mem
    · rw [shift_count]
      exact .inr (by omega)
    · rcases shift_written _ _ _ _ p mem with mem | inside
      · exact (fills p mem).imp_right fun inside => by omega
      · exact .inr (by omega)

/-! ## Names and codes -/

/-- The code of a character is that of its normal form. -/
theorem digit_normal (c : Int8) : digit (normal c) = digit c := by
  unfold normal
  split_ifs with lower kept
  · simp only [ch_values] at lower
    have upper : (Int8.ofInt (c.toInt - ch 'a' + ch 'A')).toInt = c.toInt - 32 := by
      simp only [ch_values]
      rw [Int8.toInt_ofInt_of_le (by omega) (by omega)]
      omega
    unfold digit code
    rw [upper]
    simp only [ch_values]
    split_ifs <;> omega
  · rfl
  · have other : code c.toInt = 38 := by
      unfold code
      simp only [ch_values] at lower kept ⊢
      split_ifs <;> omega
    rw [digit, digit, other]
    decide

theorem value_normal (l : List Int8) : value (l.map normal) = value l := by
  have digits : digit ∘ normal = digit := funext digit_normal
  rw [value, List.map_map, digits, value]

theorem num2nam_nam2num (s : CString) (b : Buffer) :
    stringAt (num2nam (nam2num s) b).name 7 = normalForm s := by
  have is := nam2num_eq s
  by_cases none : s.chars = []
  · rw [if_pos none] at is
    have empty : nam2num s = 0xFFFFFFFF := UInt32.toNat_inj.mp is
    rw [empty, normalForm, none]
    refine stringAt_eq (by decide) (by simp) (by simp) ?_
    rw [num2nam, if_pos rfl]
    exact update_self (0 : Int) (0 : Int8) b.name
  · rw [if_neg none] at is
    exact num2nam_name (by simp) is b

/-- The normal forms of names and their codes are the same thing, all codes are numbers of 32
bits apart from 0, the last one is that of the empty name, and decoding stays in its buffer. -/
theorem names_coded (s t : CString) (num : UInt32) (b : Buffer) :
    stringAt (num2nam (nam2num s) b).name 7 = normalForm s ∧
      (nam2num s = nam2num t ↔ normalForm s = normalForm t) ∧
      (∀ k ≤ 6, (nam2numLoop k s.chars 0 0).1.toNat = value (s.chars.take k)) ∧
      nam2num s ≠ 0 ∧ (nam2num s = 0xFFFFFFFF ↔ s.chars = []) ∧
      ∀ p ∈ (num2nam num b).written, p ∈ b.written ∨ 0 ≤ p ∧ p < 7 := by
  have code (s : CString) : (nam2num s).toNat =
      if normalForm s = [] then 0xFFFFFFFF else value (normalForm s) := by
    rw [nam2num_eq, normalForm, value_normal]
    by_cases none : s.chars = [] <;> simp [none]
  refine ⟨num2nam_nam2num s b, ⟨fun same => ?_, fun same => ?_⟩, fun k hk => ?_, fun zero => ?_,
    ⟨fun empty => ?_, fun none => ?_⟩, num2nam_written num b⟩
  · rw [← num2nam_nam2num s b, same, num2nam_nam2num]
  · exact UInt32.toNat_inj.mp (by rw [code, code, same])
  · have so_far : (0 : UInt32).toNat = value [] := rfl
    simpa using (nam2numLoop_eq s.chars [] (i := 0) so_far (by simpa using hk)).1
  · have is := nam2num_eq s
    rw [zero, UInt32.toNat_zero] at is
    split_ifs at is with none
    have := value_pos (l := s.chars.take 6) (by simpa using none)
    omega
  · by_contra some
    have is := nam2num_eq s
    rw [empty, if_neg some] at is
    exact (value_lt_code (l := s.chars.take 6) (by simp)).ne' is
  · exact UInt32.toNat_inj.mp ((nam2num_eq s).trans (if_pos none))

end Rtai.Names
