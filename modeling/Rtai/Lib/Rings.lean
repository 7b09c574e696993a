import Rtai.Lib.Ring

/-!
# Families of rings

`Rings L head l` says that the pair of link functions `L` holds one ring for
every index, that of index `i` with head `head i` and nodes `l i`, and that no
node is on two of them.  Each operation acts on one ring: `Rings.insert`,
`Rings.erase` and `Rings.clear` say what the family is afterwards, and by
disjointness no other ring is touched.
-/

namespace Rtai.Lib

open Function

variable {ι α : Type}

/-- Disjoint rings, one for every index. -/
structure Rings (L : Links α) (head : ι → α) (l : ι → List α) : Prop where
  ring : ∀ i, Ring L (head i) (l i)
  disjoint : ∀ i j x, x ∈ head i :: l i → x ∈ head j :: l j → i = j

namespace Rings

variable {L : Links α} {head : ι → α} {l : ι → List α} {i : ι} {a x : α}

variable [DecidableEq ι] [DecidableEq α]

omit [DecidableEq α] in
/-- Replacing one ring by one with the same nodes or fewer. -/
theorem replace {L' : Links α} {m : List α} (h : Rings L head l) (r : Ring L' (head i) m)
    (sub : ∀ x ∈ m, x ∈ l i) (frame : ∀ j, j ≠ i → Ring L' (head j) (l j)) :
    Rings L' head (update l i m) := by
  have old : ∀ {j x}, x ∈ head j :: update l i m j → x ∈ head j :: l j := by
    intro j x hx
    by_cases e : j = i
    · subst e
      rw [update_self] at hx
      rcases List.mem_cons.mp hx with rfl | hx
      · simp
      · simp [sub x hx]
    · rwa [update_of_ne e] at hx
  refine ⟨fun j => ?_, fun j k x hj hk => h.disjoint j k x (old hj) (old hk)⟩
  by_cases e : j = i
  · subst e
    rwa [update_self]
  · rw [update_of_ne e]
    exact frame j e

/-- Taking a node out of its ring. -/
theorem erase (h : Rings L head l) (ha : a ∈ l i) :
    Rings (L.unlink a) head (update l i ((l i).erase a)) := by
  have hm : a ∈ head i :: l i := by simp [ha]
  refine h.replace ((h.ring i).erase ha) (fun x hx => List.mem_of_mem_erase hx) fun j hj => ?_
  refine (h.ring j).unlink_frame (fun m => ?_) fun m => ?_
  · exact hj (h.disjoint j i _ m ((h.ring i).next_mem hm))
  · exact hj (h.disjoint j i _ m ((h.ring i).prev_mem hm))

/-- Putting a node that is on no ring before a node of one. -/
theorem insertBefore {l₁ l₂ : List α} (h : Rings L head l) (ha : ∀ j, a ∉ head j :: l j)
    (split : l i = l₁ ++ l₂) (hx : l₂.headD (head i) = x) :
    Rings (L.insertBefore a x) head (update l i (l₁ ++ a :: l₂)) := by
  have r : Ring L (head i) (l₁ ++ l₂) := split ▸ h.ring i
  have mem : x ∈ head i :: l i := by
    rw [split, ← hx]
    cases l₂ <;> simp
  have old : ∀ {j y}, y ∈ head j :: update l i (l₁ ++ a :: l₂) j →
      y = a ∧ j = i ∨ y ∈ head j :: l j := by
    intro j y hy
    by_cases e : j = i
    · subst e
      rw [update_self] at hy
      rcases List.mem_cons.mp hy with rfl | hy
      · exact Or.inr (by simp)
      · rcases List.mem_cons.mp (List.perm_middle.mem_iff.mp hy) with rfl | hy
        · exact Or.inl ⟨rfl, rfl⟩
        · exact Or.inr (List.mem_cons_of_mem _ (split ▸ hy))
    · rw [update_of_ne e] at hy
      exact Or.inr hy
  refine ⟨fun j => ?_, fun j k y hj hk => ?_⟩
  · by_cases e : j = i
    · subst e
      rw [update_self]
      exact r.insertBefore (split ▸ ha j) hx
    · rw [update_of_ne e]
      refine (h.ring j).insertBefore_frame (ha j) (fun m => ?_) fun m => ?_
      · exact e (h.disjoint j i _ m mem)
      · exact e (h.disjoint j i _ m ((h.ring i).prev_mem mem))
  · rcases old hj with ⟨rfl, rfl⟩ | hj'
    · rcases old hk with ⟨-, rfl⟩ | hk'
      · rfl
      · exact absurd hk' (ha k)
    · rcases old hk with ⟨rfl, -⟩ | hk'
      · exact absurd hj' (ha j)
      · exact h.disjoint j k y hj' hk'

/-- The same with the new ring up to the order of its nodes. -/
theorem insert (h : Rings L head l) (ha : ∀ j, a ∉ head j :: l j) (hx : x ∈ head i :: l i) :
    ∃ m, m.Perm (a :: l i) ∧ Rings (L.insertBefore a x) head (update l i m) := by
  obtain ⟨l₁, l₂, split, first⟩ := Ring.exists_split hx
  refine ⟨l₁ ++ a :: l₂, ?_, h.insertBefore ha split first⟩
  rw [split]
  exact List.perm_middle

omit [DecidableEq ι] in
/-- Resetting a node that is on no ring. -/
theorem reset (h : Rings L head l) (ha : ∀ j, a ∉ head j :: l j) : Rings (L.reset a) head l :=
  ⟨fun j => (h.ring j).reset_frame (ha j), h.disjoint⟩

/-- Resetting a head empties its ring. -/
theorem clear (h : Rings L head l) (i : ι) : Rings (L.reset (head i)) head (update l i []) := by
  refine h.replace Ring.reset_self (fun x hx => absurd hx (by simp)) fun j hj => ?_
  exact (h.ring j).reset_frame fun m => hj (h.disjoint j i _ m (by simp))

end Rings

end Rtai.Lib
