import Mathlib.Data.Fintype.Card

/-!
# Counting semaphores

A counting semaphore is a number and the processes that wait.  A wait that finds
the number positive takes one from it; one that does not takes one from it too,
and waits.  A signal adds one, and lets a waiting process go on if there is one.
A process that gives up its wait adds one back.

`Move` lists these moves, each with the numbers of signals and of granted waits
it adds.  `Balanced` is the account that all of them keep.

`tally` is the number of processes that are at a place.
-/

namespace Rtai.Lib

/-- A counting semaphore. -/
structure Counter (P : Type) where
  count : Int
  waiters : Finset P

namespace Counter

variable {P : Type} [DecidableEq P]

/-- A move of the semaphore, with the signals and the granted waits in it. -/
inductive Move (c : Counter P) : Nat → Nat → Counter P → Prop
  | rest : Move c 0 0 c
  | take (free : 0 < c.count) : Move c 0 1 ⟨c.count - 1, c.waiters⟩
  | wait {p : P} (taken : c.count ≤ 0) (out : p ∉ c.waiters) :
      Move c 0 0 ⟨c.count - 1, insert p c.waiters⟩
  | signal (nobody : c.waiters = ∅) : Move c 1 0 ⟨c.count + 1, c.waiters⟩
  | grant {p : P} (waits : p ∈ c.waiters) : Move c 1 1 ⟨c.count + 1, c.waiters.erase p⟩
  | leave {p : P} (waits : p ∈ c.waiters) : Move c 0 0 ⟨c.count + 1, c.waiters.erase p⟩

/-- The account of a semaphore that started at `v`. -/
structure Balanced (v : Int) (signals grants : Nat) (c : Counter P) : Prop where
  count : c.count = v + signals - grants - c.waiters.card
  waiters : c.waiters.card = (-c.count).toNat

variable {c c' : Counter P} {v : Int} {signals grants a b : Nat}

omit [DecidableEq P] in
/-- A semaphore starts with nobody waiting. -/
theorem Balanced.init (positive : 0 ≤ v) : Balanced v 0 0 (⟨v, ∅⟩ : Counter P) := by
  constructor
  · simp
  · simp only [Finset.card_empty]
    omega

theorem Move.balanced (h : Balanced v signals grants c) (move : Move c a b c') :
    Balanced v (signals + a) (grants + b) c' := by
  obtain ⟨count, waiters⟩ := h
  cases move with
  | rest => exact ⟨count, waiters⟩
  | take free => constructor <;> simp only <;> omega
  | wait taken out =>
      have more := Finset.card_insert_of_notMem out
      constructor <;> simp only [more] <;> omega
  | signal nobody =>
      have none : c.waiters.card = 0 := by simp [nobody]
      constructor <;> simp only [none] at waiters count ⊢ <;> omega
  | grant waits =>
      have less := Finset.card_erase_of_mem waits
      have some := Finset.card_pos.mpr ⟨_, waits⟩
      constructor <;> simp only [less] <;> omega
  | leave waits =>
      have less := Finset.card_erase_of_mem waits
      have some := Finset.card_pos.mpr ⟨_, waits⟩
      constructor <;> simp only [less] <;> omega

end Counter

section

open Function

variable {P α : Type} [Fintype P] [DecidableEq P] [DecidableEq α]

/-- The processes at a place. -/
def tally (place : P → α) (a : α) : Nat := (Finset.univ.filter fun p => place p = a).card

variable {place : P → α} {p : P} {a b : α}

section

omit [DecidableEq P]

theorem tally_eq_zero (none : ∀ p, place p ≠ a) : tally place a = 0 := by
  rw [tally, Finset.card_eq_zero]
  exact Finset.filter_eq_empty_iff.mpr fun p _ => none p

theorem card_le_tally {ps : Finset P} (there : ∀ p ∈ ps, place p = a) : ps.card ≤ tally place a :=
  Finset.card_le_card fun p hp => Finset.mem_filter.mpr ⟨Finset.mem_univ p, there p hp⟩

theorem tally_pos (here : place p = a) : 0 < tally place a :=
  Finset.card_pos.mpr ⟨p, Finset.mem_filter.mpr ⟨Finset.mem_univ p, here⟩⟩

end

/-- A process goes to another place. -/
theorem tally_update (place : P → α) : tally (update place p b) a + (if place p = a then 1 else 0) =
    tally place a + (if b = a then 1 else 0) := by
  have rest : ∀ g : P → α, tally g a =
      ((Finset.univ.erase p).filter fun q => g q = a).card + if g p = a then 1 else 0 := by
    intro g
    rw [tally, ← Finset.insert_erase (Finset.mem_univ p), Finset.filter_insert]
    split
    next => rw [Finset.card_insert_of_notMem (by simp), Finset.insert_erase (Finset.mem_univ p)]
    next => rw [Finset.insert_erase (Finset.mem_univ p), Nat.add_zero]
  have same : ((Finset.univ.erase p).filter fun q => update place p b q = a) =
      (Finset.univ.erase p).filter fun q => place q = a := by
    refine Finset.filter_congr fun q hq => ?_
    rw [update_of_ne (Finset.ne_of_mem_erase hq)]
  rw [rest, rest, same, update_self]
  omega

end

end Rtai.Lib
