import Rtai.Lib.CString
import Mathlib.Algebra.Ring.Nat
import Mathlib.Logic.Function.Basic

/-!
# Dotted addresses

`ddn2nl` of `net_rpc.c` adds up the number in front of a dot and stores it as an octet.  What it
does depends on the numbers alone: `stored_eq`.

A number is compared with 255 in front of a dot only.  Neither the last number is compared, nor
the characters with the digits, nor the dots counted, and the octets have no initial value.
-/

namespace Rtai.NetRpc.Dotted

open Function Rtai.Lib

/-- The union `u`, whose member `c` has the first four octets. -/
abbrev Octets := Nat → UInt8

/-- The member `l` of the union, with the first octet in its low byte. -/
def Octets.l (u : Octets) : UInt32 :=
  UInt32.ofNat ((u 0).toNat + (u 1).toNat * 2 ^ 8 + (u 2).toNat * 2 ^ 16 + (u 3).toNat * 2 ^ 24)

/-- An `int` stored as a `char`. -/
def octet (n : Int32) : UInt8 := n.toUInt32.toUInt8

def dot : Int8 := 46

/-- The loop, and the two lines behind it.  There is no result when it writes behind the
union. -/
def ddn2nlLoop : List Int8 → Nat → Int32 → Octets → Option UInt32
  | [], _, n, u => some (Octets.l (update u 3 (octet n)))
  | c :: ddn, p, n, u =>
      if c ≠ dot then ddn2nlLoop ddn p (n * 10 + c.toInt32 - 48) u
      else if n > 0xFF then some 0
      else if p < 4 then ddn2nlLoop ddn (p + 1) 0 (update u p (octet n))
      else none

/-- `u` is what the stack holds in the place of the union. -/
def ddn2nl (u : Octets) (ddn : CString) : Option UInt32 := ddn2nlLoop ddn.chars 0 0 u

/-! ## Numbers -/

/-- What is between the dots. -/
def fields (ddn : CString) : List (List Int8) := ddn.chars.splitOn dot

/-- The number that characters make as digits. -/
def number (n : Int) (f : List Int8) : Int := f.foldl (fun n c => n * 10 + (c.toInt - 48)) n

/-- The same in 32 bits. -/
def word (f : List Int8) : Int32 := Int32.ofInt (number 0 f)

/-- The effect of the numbers. -/
def stored : List Int32 → Nat → Octets → Option UInt32
  | [], _, u => some u.l
  | [n], _, u => some (Octets.l (update u 3 (octet n)))
  | n :: ns, p, u =>
      if n > 0xFF then some 0
      else if p < 4 then stored ns (p + 1) (update u p (octet n))
      else none

theorem stored_eq (chars : List Int8) (p : Nat) (n : Int) (u : Octets) :
    ∃ f fs, chars.splitOn dot = f :: fs ∧
      ddn2nlLoop chars p (Int32.ofInt n) u =
        stored (Int32.ofInt (number n f) :: fs.map word) p u := by
  induction chars generalizing p n u with
  | nil => exact ⟨[], [], by simp, rfl⟩
  | cons c chars ih =>
    rw [ddn2nlLoop, List.splitOn_cons_eq_if_modifyHead]
    by_cases here : c = dot
    · obtain ⟨f, fs, split, rest⟩ := ih (p + 1) 0 (update u p (octet (Int32.ofInt n)))
      refine ⟨[], f :: fs, by simp [here, split], ?_⟩
      simp only [here, ne_eq, not_true_eq_false, if_false, List.map_cons, stored, number,
        List.foldl_nil]
      have zero : Int32.ofInt 0 = 0 := rfl
      rw [← zero, rest]
      rfl
    · obtain ⟨f, fs, split, rest⟩ := ih p (n * 10 + (c.toInt - 48)) u
      refine ⟨c :: f, fs, by simp [here, split], ?_⟩
      have digit : Int32.ofInt n * 10 + c.toInt32 - 48 = Int32.ofInt (n * 10 + (c.toInt - 48)) := by
        simp only [Int32.ofInt_add, Int32.ofInt_sub, Int32.ofInt_mul, Int32.ofInt_int8ToInt]
        rw [Int32.sub_eq_add_neg, Int32.add_assoc, ← Int32.sub_eq_add_neg]
        rfl
      rw [if_pos here, digit, rest]
      rfl

theorem ddn2nl_eq (u : Octets) (ddn : CString) :
    ddn2nl u ddn = stored ((fields ddn).map word) 0 u := by
  obtain ⟨f, fs, split, result⟩ := stored_eq ddn.chars 0 0 u
  rw [fields, split]
  exact result

/-! ## The answer 0 -/

/-- One of the numbers in front of the first five dots is too large. -/
def Rejected (ns : List Int32) : Prop := ∃ n ∈ ns.dropLast.take 5, n > 0xFF

/-- All octets are written, with zeros. -/
def Zeroed (ns : List Int32) : Prop :=
  (ns.length = 4 ∨ ns.length = 5) ∧ (∀ n ∈ ns.take 3, octet n = 0) ∧ ∀ n ∈ ns.getLast?, octet n = 0

variable {u : Octets}

theorem l_zero : u.l = 0 ↔ u 0 = 0 ∧ u 1 = 0 ∧ u 2 = 0 ∧ u 3 = 0 := by
  have b0 := (u 0).toNat_lt
  have b1 := (u 1).toNat_lt
  have b2 := (u 2).toNat_lt
  have b3 := (u 3).toNat_lt
  simp only [Octets.l, ← UInt32.toNat_inj, ← UInt8.toNat_inj, UInt32.toNat_ofNat']
  simp
  omega

/-- With an octet that is not written to, the answer depends on the stack. -/
theorem not_always_zero {v : Octets → Octets} {i : Nat} (small : i < 4) (kept : ∀ u, v u i = u i) :
    ¬ ∀ u, some (v u).l = some 0 := by
  intro zero
  have all := l_zero.mp (Option.some.inj (zero fun _ => 1))
  have here := kept fun _ => 1
  obtain rfl | rfl | rfl | rfl : i = 0 ∨ i = 1 ∨ i = 2 ∨ i = 3 := by omega
  all_goals simp_all

variable {ns : List Int32}

/-- The comparison comes before the store, so the number in front of the fifth dot counts. -/
theorem stored_rejected {p : Nat} (inside : p ≤ 4)
    (large : ∃ n ∈ ns.dropLast.take (5 - p), n > 0xFF) : stored ns p u = some 0 := by
  induction ns generalizing p u with
  | nil => simp at large
  | cons n ns ih =>
    cases ns with
    | nil => simp at large
    | cons m ns =>
      simp only [stored]
      split_ifs with here room
      · rfl
      · refine ih (by omega) ?_
        obtain ⟨l, mem, big⟩ := large
        rw [show 5 - p = (5 - (p + 1)) + 1 by omega, List.dropLast_cons_cons, List.take_succ_cons,
          List.mem_cons] at mem
        exact ⟨l, mem.resolve_left fun same => here (same ▸ big), big⟩
      · obtain ⟨l, mem, big⟩ := large
        obtain rfl : p = 4 := by omega
        simp at mem
        exact absurd (mem ▸ big) here

/-- Without a number that is too large, an octet in the place of each dot and of the end. -/
theorem zero_iff_zeroed : ∀ ns : List Int32, ns ≠ [] → ¬Rejected ns →
    ((∀ u, stored ns 0 u = some 0) ↔ Zeroed ns)
  | [a], _, _ => by
      have unwritten := not_always_zero (v := fun u => update u 3 (octet a)) (i := 1) (by decide)
      simpa [stored, Zeroed] using unwritten
  | [a, b], _, small => by
      have unwritten := not_always_zero (i := 1)
        (v := fun u => update (update u 0 (octet a)) 3 (octet b)) (by decide)
      simp [Rejected] at small
      simpa [stored, Zeroed, small] using unwritten
  | [a, b, c], _, small => by
      have unwritten := not_always_zero (i := 2)
        (v := fun u => update (update (update u 0 (octet a)) 1 (octet b)) 3 (octet c)) (by decide)
      simp [Rejected] at small
      simpa [stored, Zeroed, small] using unwritten
  | [a, b, c, d], _, small => by
      simp [Rejected] at small
      simp [stored, Zeroed, small, l_zero, and_assoc]
  | [a, b, c, d, e], _, small => by
      simp [Rejected] at small
      simp [stored, Zeroed, small, l_zero, and_assoc]
  | a :: b :: c :: d :: e :: f :: ns, _, small => by
      simp [Rejected] at small
      simp [stored, Zeroed, small]

theorem zero_iff (nonempty : ns ≠ []) :
    (∀ u, stored ns 0 u = some 0) ↔ Rejected ns ∨ Zeroed ns := by
  by_cases large : Rejected ns
  · exact iff_of_true (fun _ => stored_rejected (Nat.zero_le 4) large) (.inl large)
  · rw [zero_iff_zeroed ns nonempty large, or_iff_right large]

/-! ## Addresses -/

/-- A decimal number of an octet. -/
structure IsOctet (f : List Int8) (n : Nat) : Prop where
  nonempty : f ≠ []
  digits : ∀ c ∈ f, 48 ≤ c.toInt ∧ c.toInt ≤ 57
  value : number 0 f = n
  small : n ≤ 255

/-- Four decimal numbers with single dots. -/
structure Address (ddn : CString) (a b c d : Nat) : Prop where
  four : ∃ f g h i, fields ddn = [f, g, h, i] ∧ IsOctet f a ∧ IsOctet g b ∧ IsOctet h c ∧ IsOctet i d

/-- The octets of an address in network order, on a machine with the low byte first. -/
def network (a b c d : Nat) : UInt32 :=
  UInt32.ofNat (a + b * 2 ^ 8 + c * 2 ^ 16 + d * 2 ^ 24)

/-- What is said of `ddn2nl`, whatever is on the stack. -/
structure Meets (ddn : CString) : Prop where
  address : ∀ a b c d, Address ddn a b c d → ∀ u, ddn2nl u ddn = some (network a b c d)
  none : (¬∃ a b c d, Address ddn a b c d) → ∀ u, ddn2nl u ddn = some 0

theorem IsOctet.word {f : List Int8} {n : Nat} (is : IsOctet f n) :
    ¬word f > 0xFF ∧ (octet (word f)).toNat = n := by
  have small := is.small
  rw [Dotted.word, is.value]
  constructor
  · rw [gt_iff_lt, Int32.lt_iff_toInt_lt, Int32.toInt_ofInt_of_le (by omega) (by omega)]
    have : (255 : Int32).toInt = 255 := rfl
    omega
  · rw [octet, Int32.ofInt_eq_ofNat]
    simp
    omega

theorem stored_address {ddn : CString} {a b c d : Nat} (address : Address ddn a b c d)
    (u : Octets) : ddn2nl u ddn = some (network a b c d) := by
  obtain ⟨f, g, h, i, split, isA, isB, isC, isD⟩ := address.four
  rw [ddn2nl_eq, split]
  simp [stored, isA.word, isB.word, isC.word, Octets.l, isD.word, network]

/-- The addresses are converted; of the other strings, 0 is the answer to those with a number
that is too large in front of one of the first five dots, or with zeros in all places. -/
theorem meets_iff (ddn : CString) :
    Meets ddn ↔ (∃ a b c d, Address ddn a b c d) ∨
      Rejected ((fields ddn).map word) ∨ Zeroed ((fields ddn).map word) := by
  have nonempty : (fields ddn).map word ≠ [] := by
    simp [fields]
  rw [← zero_iff nonempty]
  simp only [← ddn2nl_eq]
  refine ⟨fun meets => or_iff_not_imp_left.mpr meets.none, fun holds => ?_⟩
  exact ⟨fun _ _ _ _ address => stored_address address, fun no => holds.resolve_left no⟩

/-- `1.2.3.4.5.6`. -/
def sixNumbers : CString := ⟨[49, 46, 50, 46, 51, 46, 52, 46, 53, 46, 54], by simp⟩

/-- The fifth number is stored behind the union. -/
theorem not_meets : ¬ ∀ ddn : CString, Meets ddn := by
  intro meets
  have six : (fields sixNumbers).length = 6 := by decide
  have zero := (meets sixNumbers).none (fun ⟨_, _, _, _, ⟨_, _, _, _, split, _⟩⟩ => by
    rw [split] at six
    exact absurd six (by simp)) fun _ => 0
  exact absurd zero (by decide)

end Rtai.NetRpc.Dotted
