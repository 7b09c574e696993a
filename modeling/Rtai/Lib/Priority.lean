import Mathlib.Data.List.Sort
import Mathlib.Data.List.Induction

/-!
# Queues in order of priority

`Ahead a b` says that `a` may stand before `b`.  `enqueue x` puts `x` behind everything
that may stand before it, so that among equals the older one comes first, and `arrange`
is the queue that results when the elements of a list arrive in its order.

`arrange_cons` says what the first element of the queue is: of all that arrived, the
oldest of those that may stand before every other.  Taking it away is as if it had never
arrived.
-/

namespace Rtai.Lib

variable {α : Type} {Ahead : α → α → Prop} [DecidableRel Ahead] {a x y : α} {l rest : List α}

/-- `x` is put before the first element that may not stand before it. -/
def enqueue (Ahead : α → α → Prop) [DecidableRel Ahead] (x : α) (l : List α) : List α :=
  l.orderedInsert (fun a b => ¬Ahead b a) x

@[simp] theorem enqueue_nil : enqueue Ahead x [] = [x] := rfl

theorem enqueue_behind (h : Ahead y x) : enqueue Ahead x (y :: l) = y :: enqueue Ahead x l :=
  if_neg (not_not.mpr h)

theorem enqueue_before (h : ¬Ahead y x) : enqueue Ahead x (y :: l) = x :: y :: l := if_pos h

theorem enqueue_perm : (enqueue Ahead x l).Perm (x :: l) := List.perm_orderedInsert _ x l

theorem mem_enqueue : y ∈ enqueue Ahead x l ↔ y = x ∨ y ∈ l := List.mem_orderedInsert _

/-- Behind a queue of elements that may all stand before it, `x` is the last one. -/
theorem enqueue_last (h : ∀ y ∈ l, Ahead y x) : enqueue Ahead x l = l ++ [x] := by
  induction l with
  | nil => rfl
  | cons y l ih =>
      rw [enqueue_behind (h y List.mem_cons_self), ih fun z hz => h z (List.mem_cons_of_mem y hz)]
      rfl

/-- Only the comparisons with `x` matter. -/
theorem enqueue_congr {Ahead' : α → α → Prop} [DecidableRel Ahead']
    (h : ∀ y ∈ l, Ahead y x ↔ Ahead' y x) : enqueue Ahead x l = enqueue Ahead' x l := by
  induction l with
  | nil => rfl
  | cons y l ih =>
      have same := h y List.mem_cons_self
      by_cases ahead : Ahead y x
      · rw [enqueue_behind ahead, enqueue_behind (same.mp ahead),
          ih fun z hz => h z (List.mem_cons_of_mem y hz)]
      · rw [enqueue_before ahead, enqueue_before (mt same.mpr ahead)]

theorem enqueue_head (h : y ∈ (enqueue Ahead x l).head?) : y = x ∨ y ∈ l.head? := by
  cases l with
  | nil => exact .inl (Option.some.inj h).symm
  | cons z l =>
      by_cases ahead : Ahead z x
      · rw [enqueue_behind ahead] at h
        exact .inr h
      · rw [enqueue_before ahead] at h
        exact .inl (Option.some.inj h).symm

/-- The queue is in order. -/
abbrev InOrder (Ahead : α → α → Prop) (l : List α) : Prop := l.Pairwise Ahead

/-- The place of `x`: behind `front`, before `back`. -/
theorem enqueue_split (Ahead : α → α → Prop) [DecidableRel Ahead] (x : α) (l : List α) :
    ∃ front back, l = front ++ back ∧ enqueue Ahead x l = front ++ x :: back ∧
      (∀ y ∈ front, Ahead y x) ∧ ∀ y ∈ back.head?, ¬Ahead y x := by
  induction l with
  | nil => exact ⟨[], [], rfl, rfl, nofun, nofun⟩
  | cons y l ih =>
      by_cases h : Ahead y x
      · obtain ⟨front, back, split, placed, before, behind⟩ := ih
        refine ⟨y :: front, back, by rw [split]; rfl, ?_, ?_, behind⟩
        · rw [enqueue_behind h, placed]
          rfl
        · rintro z (_ | ⟨_, hz⟩)
          · exact h
          · exact before z hz
      · refine ⟨[], y :: l, rfl, enqueue_before h, nofun, ?_⟩
        rintro z ⟨⟩
        exact h

section Total

variable (total : ∀ a b, Ahead a b ∨ Ahead b a)
  (trans : ∀ {a b c : α}, Ahead a b → Ahead b c → Ahead a c)

include total trans

theorem InOrder.enqueue (h : InOrder Ahead l) : InOrder Ahead (enqueue Ahead x l) := by
  induction l with
  | nil => exact List.pairwise_singleton _ _
  | cons y l ih =>
      obtain ⟨first, tail⟩ := List.pairwise_cons.mp h
      by_cases ahead : Ahead y x
      · rw [enqueue_behind ahead]
        refine List.pairwise_cons.mpr ⟨fun z hz => ?_, ih tail⟩
        rcases mem_enqueue.mp hz with rfl | hz
        · exact ahead
        · exact first z hz
      · have behind : Ahead x y := (total y x).resolve_left ahead
        rw [enqueue_before ahead]
        refine List.pairwise_cons.mpr ⟨fun z hz => ?_, h⟩
        rcases List.mem_cons.mp hz with rfl | hz
        · exact behind
        · exact trans behind (first z hz)

omit total trans

/-- The queue of what arrived in the order of the list. -/
def arrange (Ahead : α → α → Prop) [DecidableRel Ahead] (l : List α) : List α :=
  l.foldl (fun queue x => enqueue Ahead x queue) []

@[simp] theorem arrange_nil : arrange Ahead [] = [] := rfl

@[simp] theorem arrange_snoc : arrange Ahead (l ++ [x]) = enqueue Ahead x (arrange Ahead l) := by
  rw [arrange, List.foldl_append]
  rfl

theorem arrange_perm : (arrange Ahead l).Perm l := by
  induction l using List.reverseRecOn with
  | nil => exact .nil
  | append_singleton l x ih =>
      rw [arrange_snoc]
      exact enqueue_perm.trans ((ih.cons x).trans (List.perm_append_singleton x l).symm)

include total trans

theorem arrange_inOrder : InOrder Ahead (arrange Ahead l) := by
  induction l using List.reverseRecOn with
  | nil => exact .nil
  | append_singleton l x ih =>
      rw [arrange_snoc]
      exact ih.enqueue total trans

/-- Of two that may stand in the order they arrived in, the older one stands before. -/
theorem arrange_stable (arrived : [x, y].Sublist l) (ahead : Ahead x y) :
    [x, y].Sublist (arrange Ahead l) := by
  induction l using List.reverseRecOn with
  | nil => cases arrived
  | append_singleton l a ih =>
      rw [arrange_snoc]
      obtain ⟨before, last, split, earlier, tail⟩ := List.sublist_append_iff.mp arrived
      rcases List.sublist_singleton.mp tail with rfl | rfl
      · rw [List.append_nil] at split
        subst split
        exact (ih earlier).trans (List.sublist_orderedInsert a _)
      · obtain ⟨rfl, e⟩ : [x] = before ∧ [y] = [a] := List.append_inj' split rfl
        obtain rfl : y = a := List.singleton_inj.mp e
        -- `x` stands before the place of `y`, where the queue is no longer ahead of it
        obtain ⟨front, back, queue, placed, -, behind⟩ := enqueue_split Ahead y (arrange Ahead l)
        have mem : x ∈ front ++ back := by
          rw [← queue]
          exact arrange_perm.mem_iff.mpr (List.singleton_sublist.mp earlier)
        have here : x ∈ front := by
          refine (List.mem_append.mp mem).resolve_right fun hx => ?_
          cases back with
          | nil => cases hx
          | cons z back =>
              have sorted := arrange_inOrder total trans (l := l)
              rw [queue] at sorted
              have tail := (List.pairwise_append.mp sorted).2.1
              have first : ¬Ahead z y := behind z rfl
              rcases List.mem_cons.mp hx with rfl | hx
              · exact first ahead
              · exact first (trans ((List.pairwise_cons.mp tail).1 x hx) ahead)
        rw [placed]
        exact (List.singleton_sublist.mpr here).append
          (List.singleton_sublist.mpr List.mem_cons_self)

/-- The first of the queue, and what is left without it. -/
theorem arrange_cons (h : arrange Ahead l = x :: rest) :
    ∃ older newer, l = older ++ x :: newer ∧ (∀ y ∈ older, ¬Ahead y x) ∧
      (∀ y ∈ newer, Ahead x y) ∧ arrange Ahead (older ++ newer) = rest := by
  induction l using List.reverseRecOn generalizing x rest with
  | nil => cases h
  | append_singleton l a ih =>
      rw [arrange_snoc] at h
      rcases queue : arrange Ahead l with _ | ⟨y, ys⟩
      · rw [queue] at h
        cases h
        obtain rfl : l = [] := by
          have perm : (arrange Ahead l).Perm l := arrange_perm
          rw [queue] at perm
          exact perm.symm.eq_nil
        exact ⟨[], [], rfl, nofun, nofun, rfl⟩
      · rw [queue] at h
        by_cases ahead : Ahead y a
        · rw [enqueue_behind ahead] at h
          cases h
          obtain ⟨older, newer, rfl, strict, weak, left⟩ := ih queue
          refine ⟨older, newer ++ [a], by simp, strict, fun z hz => ?_, ?_⟩
          · rcases List.mem_append.mp hz with hz | hz
            · exact weak z hz
            · rwa [List.mem_singleton.mp hz]
          · rw [← List.append_assoc, arrange_snoc, left]
        · rw [enqueue_before ahead] at h
          cases h
          refine ⟨l, [], rfl, fun z hz above => ahead ?_, nofun, ?_⟩
          · have mem : z ∈ y :: ys := by
              rw [← queue]
              exact arrange_perm.mem_iff.mpr hz
            have sorted := arrange_inOrder total trans (l := l)
            rw [queue] at sorted
            rcases List.mem_cons.mp mem with rfl | mem
            · exact above
            · exact trans ((List.pairwise_cons.mp sorted).1 z mem) above
          · rw [List.append_nil, queue]

end Total

end Rtai.Lib
