import Mathlib.Logic.Basic

/-!
# A single token

Something that is free or somebody's, and then one party's only.  `free` says that
the shared state marks it as free, `has p` that the party `p` has it.  The lemmas
are the moves: a party takes the free token, hands it to another, gives it back.
-/

namespace Rtai.Lib

variable {α : Type} {free free' : Prop} {has has' : α → Prop} {p q : α}

/-- The token is marked free and nobody has it, or it is not and one has it. -/
def Token (free : Prop) (has : α → Prop) : Prop :=
  (free ∧ ∀ p, ¬has p) ∨ (¬free ∧ ∃ owner, ∀ p, has p ↔ p = owner)

namespace Token

variable (t : Token free has)
include t

theorem unique (hp : has p) (hq : has q) : p = q := by
  rcases t with ⟨-, none⟩ | ⟨-, owner, only⟩
  · exact absurd hp (none p)
  · rw [(only p).mp hp, (only q).mp hq]

theorem not_free (hp : has p) : ¬free := by
  rcases t with ⟨-, none⟩ | ⟨taken, -⟩
  · exact absurd hp (none p)
  · exact taken

theorem none (f : free) (p : α) : ¬has p := by
  rcases t with ⟨-, none⟩ | ⟨taken, -⟩
  · exact none p
  · exact absurd f taken

theorem free_of_none (none : ∀ p, ¬has p) : free := by
  rcases t with ⟨f, -⟩ | ⟨-, owner, only⟩
  · exact f
  · exact absurd ((only owner).mpr rfl) (none owner)

theorem exists_of_not_free (taken : ¬free) : ∃ p, has p := by
  rcases t with ⟨f, -⟩ | ⟨-, owner, only⟩
  · exact absurd f taken
  · exact ⟨owner, (only owner).mpr rfl⟩

theorem congr (f : free' ↔ free) (h : ∀ p, has' p ↔ has p) : Token free' has' := by
  rcases t with ⟨isFree, none⟩ | ⟨taken, owner, only⟩
  · exact .inl ⟨f.mpr isFree, fun p hp => none p ((h p).mp hp)⟩
  · exact .inr ⟨fun hf => taken (f.mp hf), owner, fun p => (h p).trans (only p)⟩

/-- A party takes the free token. -/
theorem take (f : free) (taken : ¬free') (h : ∀ q, has' q ↔ has q ∨ q = p) : Token free' has' :=
  .inr ⟨taken, p, fun q => (h q).trans ⟨fun hq => hq.resolve_left (t.none f q), .inr⟩⟩

/-- A party hands the token to another, or keeps it. -/
theorem pass (hp : has p) (taken : ¬free') (h : ∀ r, has' r ↔ has r ∧ r ≠ p ∨ r = q) :
    Token free' has' := by
  refine .inr ⟨taken, q, fun r => (h r).trans ⟨fun hr => ?_, .inr⟩⟩
  exact hr.resolve_left fun ⟨hr, other⟩ => other (t.unique hr hp)

/-- A party gives the token back. -/
theorem release (hp : has p) (f : free') (h : ∀ q, has' q ↔ has q ∧ q ≠ p) : Token free' has' :=
  .inl ⟨f, fun q hq => ((h q).mp hq).2 (t.unique ((h q).mp hq).1 hp)⟩

end Token

end Rtai.Lib
