import Mathlib.Data.List.Basic
import Mathlib.Logic.Function.Basic
import Mathlib.Algebra.Order.Group.Int
import Mathlib.Algebra.Ring.Int.Defs

/-!
# Lists of differences

A queue of dates that keeps for each element how much later it is than the one before it, and
for the first how much later than the present.  `Deltas` relates the differences to the dates.
`Deltas.pass` is the rule for time that goes by, `Deltas.insert` the one for a new element
behind those that are not later, and `Deltas.remove` the one for an element that is taken out.
-/

namespace Rtai.Lib

open Function

variable {α : Type} {date gap : α → Int} {t now d : Int} {l before after : List α} {a b : α}

/-- The gaps of a list lead from `t` to the dates of its elements. -/
def Deltas (date gap : α → Int) : Int → List α → Prop
  | _, [] => True
  | t, a :: rest => date a = t + gap a ∧ Deltas date gap (date a) rest

namespace Deltas

theorem congr {date' gap' : α → Int} (h : Deltas date gap t l)
    (same : ∀ a ∈ l, date' a = date a ∧ gap' a = gap a) : Deltas date' gap' t l := by
  induction l generalizing t with
  | nil => trivial
  | cons a rest ih =>
      have ⟨sameDate, sameGap⟩ := same a (.head _)
      refine ⟨by rw [sameDate, sameGap]; exact h.1, ?_⟩
      rw [sameDate]
      exact ih h.2 fun b mem => same b (.tail _ mem)

/-- The gaps up to an element add up to its date. -/
theorem sum (h : Deltas date gap t (before ++ a :: after)) :
    ((before ++ [a]).map gap).sum = date a - t := by
  induction before generalizing t with
  | nil =>
      have first := h.1
      simp
      omega
  | cons b before ih =>
      have first := h.1
      have rest := ih h.2
      simp only [List.cons_append, List.map_cons, List.sum_cons, rest]
      omega

/-- Gaps between dates of less than `n` are less than `2 * n`. -/
theorem bounded {n : ℕ} (h : Deltas date gap t l) (first : t.natAbs < n)
    (dates : ∀ a ∈ l, (date a).natAbs < n) : ∀ a ∈ l, (gap a).natAbs < 2 * n := by
  induction l generalizing t with
  | nil => exact fun a mem => absurd mem List.not_mem_nil
  | cons b rest ih =>
      have next := dates b (.head _)
      intro a mem
      cases mem with
      | head =>
          have gap := h.1
          omega
      | tail _ mem => exact ih h.2 next (fun c mem => dates c (.tail _ mem)) a mem

variable [DecidableEq α]

/-- What is left when `elapsed` has gone by, and the gaps then. -/
def passed (elapsed : Int) : List α → (α → Int) → List α × (α → Int)
  | [], gap => ([], gap)
  | a :: rest, gap =>
      if elapsed < gap a then (a :: rest, update gap a (gap a - elapsed))
      else passed (elapsed - gap a) rest (update gap a 0)

theorem passed_of_notMem (out : a ∉ l) : (passed d l gap).2 a = gap a := by
  induction l generalizing d gap with
  | nil => rfl
  | cons b rest ih =>
      have ⟨other, out⟩ := List.ne_and_not_mem_of_not_mem_cons out
      simp only [passed]
      split
      · exact update_of_ne other _ _
      · rw [ih out, update_of_ne other]

/-- Time goes by: the elements whose dates have come are passed. -/
theorem pass (h : Deltas date gap t l) (unique : l.Nodup) :
    ∃ gone, l = gone ++ (passed (now - t) l gap).1 ∧ (∀ a ∈ gone, date a ≤ now) ∧
      (∀ a ∈ gone, (passed (now - t) l gap).2 a = 0) ∧
      (∀ a ∈ (passed (now - t) l gap).1.head?, now < date a) ∧
      Deltas date (passed (now - t) l gap).2 now (passed (now - t) l gap).1 := by
  induction l generalizing t gap with
  | nil => exact ⟨[], rfl, by simp, by simp, by simp [passed], trivial⟩
  | cons a rest ih =>
      have ⟨first, more⟩ := h
      have ⟨out, unique⟩ := List.nodup_cons.mp unique
      simp only [passed]
      split
      next later =>
        refine ⟨[], rfl, by simp, by simp, ?_, ?_, ?_⟩
        · intro b mem
          cases mem
          omega
        · simp only [update_self]
          omega
        · refine more.congr fun b mem => ⟨rfl, update_of_ne ?_ _ _⟩
          rintro rfl
          exact out mem
      next come =>
        have next : Deltas date (update gap a 0) (date a) rest := by
          refine more.congr fun b mem => ⟨rfl, update_of_ne ?_ _ _⟩
          rintro rfl
          exact out mem
        have elapsed : now - t - gap a = now - date a := by omega
        obtain ⟨gone, split, come', zero, head, deltas⟩ := ih next unique
        rw [elapsed]
        refine ⟨a :: gone, congrArg (a :: ·) split, ?_, ?_, head, deltas⟩
        · intro b mem
          cases mem with
          | head => omega
          | tail _ mem => exact come' b mem
        · intro b mem
          cases mem with
          | head => rw [passed_of_notMem out, update_self]
          | tail _ mem => exact zero b mem

/-- How far behind the last element that is not later, and the elements that are later. -/
def seek (d : Int) : List α → (α → Int) → Int × List α
  | [], _ => (d, [])
  | a :: rest, gap => if d ≥ gap a then seek (d - gap a) rest gap else (d, a :: rest)

/-- The gap of the element behind a new one. -/
def closer (d : Int) (after : List α) (gap : α → Int) : α → Int :=
  match after with
  | [] => gap
  | b :: _ => update gap b (gap b - d)

theorem closer_of_notMem (out : a ∉ after) : closer d after gap a = gap a := by
  cases after with
  | nil => rfl
  | cons b rest => exact update_of_ne (List.ne_and_not_mem_of_not_mem_cons out).1 _ _

/-- A new element goes behind those that are not later. -/
theorem insert (h : Deltas date gap t l) (unique : l.Nodup) (new : a ∉ l) :
    ∃ before, l = before ++ (seek d l gap).2 ∧ (∀ b ∈ before, date b ≤ t + d) ∧
      (∀ b ∈ (seek d l gap).2.head?, t + d < date b) ∧
      Deltas (update date a (t + d))
        (update (closer (seek d l gap).1 (seek d l gap).2 gap) a (seek d l gap).1) t
        (before ++ a :: (seek d l gap).2) := by
  induction l generalizing t d with
  | nil => exact ⟨[], rfl, by simp, by simp [seek], by simp [seek], trivial⟩
  | cons b rest ih =>
      have ⟨first, more⟩ := h
      have ⟨out, unique⟩ := List.nodup_cons.mp unique
      have ⟨other, new⟩ := List.ne_and_not_mem_of_not_mem_cons new
      simp only [seek]
      split
      next reaches =>
        have date' : t + d = date b + (d - gap b) := by omega
        obtain ⟨before, split, come, later, deltas⟩ := ih (d := d - gap b) more unique new
        have inner : b ∉ (seek (d - gap b) rest gap).2 := by
          intro mem
          apply out
          rw [split]
          exact List.mem_append_right _ mem
        rw [date']
        refine ⟨b :: before, congrArg (b :: ·) split, ?_, later, ?_, ?_⟩
        · intro c mem
          cases mem with
          | head => omega
          | tail _ mem => exact come c mem
        · rw [update_of_ne other.symm, update_of_ne other.symm, closer_of_notMem inner]
          exact first
        · rw [update_of_ne other.symm]
          exact deltas
      next short =>
        refine ⟨[], rfl, by simp, ?_, ?_, ?_, ?_⟩
        · intro c mem
          cases mem
          omega
        · rw [update_self, update_self]
        · simp only [closer, update_self, update_of_ne other.symm]
          omega
        · simp only [update_self, update_of_ne other.symm]
          refine more.congr fun c mem => ?_
          have apart : c ≠ a := by
            rintro rfl
            exact new mem
          have behind : c ≠ b := by
            rintro rfl
            exact out mem
          simp only [closer, update_of_ne apart, update_of_ne behind, and_self]

/-- An element is taken out, and the one behind it gets its gap. -/
theorem remove (h : Deltas date gap t (before ++ a :: after)) (unique : (a :: after).Nodup)
    (apart : ∀ b ∈ before, b ∉ after) :
    Deltas date (closer (-gap a) after gap) t (before ++ after) := by
  induction before generalizing t with
  | nil =>
      have ⟨first, more⟩ := h
      cases after with
      | nil => trivial
      | cons b rest =>
          have ⟨second, more⟩ := more
          have ⟨out, _⟩ := List.nodup_cons.mp (List.nodup_cons.mp unique).2
          refine ⟨?_, more.congr fun c mem => ⟨rfl, update_of_ne ?_ _ _⟩⟩
          · simp only [closer, update_self]
            omega
          · rintro rfl
            exact out mem
  | cons b before ih =>
      have ⟨first, more⟩ := h
      refine ⟨?_, ih more fun c mem => apart c (.tail _ mem)⟩
      rw [closer_of_notMem (apart b (.head _))]
      exact first

end Deltas

end Rtai.Lib
