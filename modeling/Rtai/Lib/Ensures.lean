import Mathlib.Logic.Basic

/-!
# Postconditions of fallible computations

`Ensures x Q` says that a value the computation `x : Option α` returns has the
property `Q`; of a computation that returns none it says nothing.  The rules
follow the shape of the program: one for each of `some`, `>>=`, `map`, `if`,
and the rule of consequence.
-/

namespace Rtai.Lib

variable {α β : Type}

/-- Every value `x` returns has the property `Q`. -/
def Ensures (x : Option α) (Q : α → Prop) : Prop := ∀ a, x = some a → Q a

namespace Ensures

variable {x y : Option α} {P Q : α → Prop} {R : β → Prop} {f : α → Option β} {a : α}

theorem some (h : Q a) : Ensures (some a) Q := by
  rintro _ ⟨⟩
  exact h

theorem none : Ensures (none : Option α) Q := by
  rintro _ ⟨⟩

theorem mono (h : Ensures x P) (hq : ∀ a, P a → Q a) : Ensures x Q :=
  fun a e => hq a (h a e)

theorem and (h : Ensures x P) (h' : Ensures x Q) : Ensures x fun a => P a ∧ Q a :=
  fun a e => ⟨h a e, h' a e⟩

/-- Sequencing: what the first computation ensures, the second may assume. -/
theorem bind (h : Ensures x P) (hf : ∀ a, P a → Ensures (f a) R) : Ensures (x >>= f) R := by
  intro b e
  obtain ⟨a, ea, eb⟩ := Option.bind_eq_some_iff.mp e
  exact hf a (h a ea) b eb

theorem map {g : α → β} (h : Ensures x fun a => R (g a)) : Ensures (x.map g) R := by
  intro b e
  obtain ⟨a, ea, rfl⟩ := Option.map_eq_some_iff.mp e
  exact h a ea

theorem ite {c : Prop} [Decidable c] (ht : c → Ensures x Q) (he : ¬c → Ensures y Q) :
    Ensures (if c then x else y) Q := by
  by_cases h : c
  · rw [if_pos h]; exact ht h
  · rw [if_neg h]; exact he h

end Ensures

end Rtai.Lib
