import Mathlib.Data.List.Basic

/-!
# Bytes in memory

A memory is a function from addresses to bytes.  `read` and `write` are a copy out of it and
one into it; `read_write` says what a copy in can be read as, and `read_write_apart` that
other regions keep their bytes.
-/

namespace Rtai.Lib

/-- A memory of bytes. -/
abbrev Memory := Nat → UInt8

namespace Memory

variable {m : Memory} {p q n : Nat} {bytes : List UInt8}

/-- The `n` bytes from `p` on. -/
def read (m : Memory) (p n : Nat) : List UInt8 := (List.range n).map fun i => m (p + i)

/-- The bytes are stored from `p` on. -/
def write (m : Memory) (p : Nat) (bytes : List UInt8) : Memory := fun x =>
  if p ≤ x then (bytes[x - p]?).getD (m x) else m x

@[simp] theorem length_read : (m.read p n).length = n := by simp [read]

/-- Two copies that are equal agree at each place. -/
theorem apply_of_read {m' : Memory} (same : m.read p n = m'.read q n) {i : Nat} (small : i < n) :
    m (p + i) = m' (q + i) := by
  have at_i := congrArg (fun bytes => bytes[i]?) same
  simpa [read, small] using at_i

theorem write_apply_apart {x : Nat} (apart : x < p ∨ p + bytes.length ≤ x) :
    m.write p bytes x = m x := by
  rw [write]
  split
  · rw [List.getElem?_eq_none (by omega)]
    rfl
  · rfl

theorem read_write : (m.write p bytes).read p bytes.length = bytes := by
  apply List.ext_getElem
  · rw [length_read]
  · intro i low high
    simp [read, write, high]

/-- A copy of a whole region. -/
theorem read_write_length (h : bytes.length = n) : (m.write p bytes).read p n = bytes := by
  subst h
  exact read_write

/-- A copy changes nothing if and only if the bytes are there already. -/
theorem write_eq_self : m.write p bytes = m ↔ m.read p bytes.length = bytes := by
  constructor
  · intro same
    have copied : (m.write p bytes).read p bytes.length = bytes := read_write
    rwa [same] at copied
  · intro there
    funext x
    rw [write]
    split
    next inside =>
      rw [← there, read, List.getElem?_map]
      by_cases small : x - p < bytes.length
      · rw [List.getElem?_range small]
        simp [Nat.add_sub_cancel' inside]
      · rw [List.getElem?_eq_none (by simpa using small)]
        rfl
    next => rfl

theorem read_write_apart (apart : q + n ≤ p ∨ p + bytes.length ≤ q) :
    (m.write p bytes).read q n = m.read q n := by
  apply List.map_congr_left
  intro i mem
  have small := List.mem_range.mp mem
  exact write_apply_apart (by omega)

end Memory

end Rtai.Lib
