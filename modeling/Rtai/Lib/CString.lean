import Mathlib.Data.List.Basic

/-!
# C strings

The characters of a string before its terminator, on a machine whose `char` is signed.
-/

namespace Rtai.Lib

/-- A string without its terminator. -/
structure CString where
  chars : List Int8
  real : ∀ c ∈ chars, c ≠ 0
deriving DecidableEq

/-- A character constant, which is an `int`. -/
def ch (c : Char) : Int := c.toNat

/-- The string that a buffer of `n` characters holds. -/
def stringAt (buffer : Int → Int8) (n : Nat) : List Int8 :=
  ((List.range n).map fun k : Nat => buffer k).takeWhile (· ≠ 0)

/-- A terminator behind characters that are none. -/
theorem stringAt_eq {buffer : Int → Int8} {n : Nat} {l : List Int8} (room : l.length < n)
    (real : ∀ c ∈ l, c ≠ 0) (here : ∀ k (hk : k < l.length), buffer k = l[k])
    (terminator : buffer l.length = 0) : stringAt buffer n = l := by
  obtain ⟨m, rfl⟩ := Nat.exists_eq_add_of_lt room
  have head : (List.range l.length).map (fun k : Nat => buffer k) = l := by
    refine List.ext_getElem (by simp) fun k h₁ h₂ => ?_
    simpa using here k h₂
  unfold stringAt
  rw [Nat.add_assoc, List.range_add, List.map_append, head, List.takeWhile_append_of_pos]
  · simp [List.range_succ_eq_map, terminator]
  · simpa using real

end Rtai.Lib
