import Mathlib.Data.Fintype.Card
import Mathlib.Data.List.Nodup

/-!
# Lists that end in `NULL`

`Listed next a l` says that the links `next` run from `a` through the nodes of
`l` and end behind the last.  A node has one successor, so the list is
determined by where it starts and meets no node twice (`Listed.nodup`); over a
finite type of nodes its length is bounded by their number.

`follow` is the loop `while ((a = a->next))`.  On a list it is a fold
(`Listed.follow`), for any fuel that exceeds the length.

`Chain next p l` says so of a pointer to the first node, and `walk` is a loop from there that
may stop at a node.  On a chain it stops somewhere (`Chain.walk`).
-/

namespace Rtai.Lib

variable {α σ : Type} {next : α → Option α} {a : α} {l l' : List α} {body : σ → α → σ}

/-- From `a` the links run through `l` and end. -/
def Listed (next : α → Option α) : α → List α → Prop
  | a, [] => next a = none
  | a, x :: l => next a = some x ∧ Listed next x l

namespace Listed

theorem unique : ∀ {l l' : List α} {a : α}, Listed next a l → Listed next a l' → l = l'
  | [], [], _, _, _ => rfl
  | [], x :: l', a, h, h' => by
      have e : none = some x := (show next a = none from h).symm.trans h'.1
      cases e
  | x :: l, [], a, h, h' => by
      have e : none = some x := (show next a = none from h').symm.trans h.1
      cases e
  | x :: l, y :: l', a, h, h' => by
      obtain rfl : x = y := Option.some.inj (h.1.symm.trans h'.1)
      rw [unique h.2 h'.2]

/-- Behind a node of the list the links run through a shorter list. -/
theorem behind : ∀ {l : List α} {a x : α}, Listed next a l → x ∈ l →
    ∃ l', Listed next x l' ∧ l'.length < l.length
  | y :: l, a, x, h, hx => by
      rcases List.mem_cons.mp hx with rfl | hx
      · exact ⟨l, h.2, Nat.lt_succ_self _⟩
      · obtain ⟨l', listed, shorter⟩ := behind h.2 hx
        exact ⟨l', listed, shorter.trans (Nat.lt_succ_self _)⟩

theorem nodup : ∀ {l : List α} {a : α}, Listed next a l → (a :: l).Nodup
  | [], _, _ => List.nodup_singleton _
  | x :: l, a, h => by
      refine List.nodup_cons.mpr ⟨fun ha => ?_, nodup h.2⟩
      obtain ⟨l', listed, shorter⟩ := behind h ha
      rw [unique listed h] at shorter
      exact Nat.lt_irrefl _ shorter

theorem length_lt [Fintype α] (h : Listed next a l) : l.length < Fintype.card α :=
  h.nodup.length_le_card

end Listed

/-- `while ((a = a->next)) body(a)`. -/
def follow (next : α → Option α) (body : σ → α → σ) : Nat → α → σ → Option σ
  | 0, _, _ => none
  | k + 1, a, s =>
      match next a with
      | none => some s
      | some b => follow next body k b (body s b)

theorem Listed.follow {k : Nat} {s : σ} (h : Listed next a l) (hk : l.length < k) :
    follow next body k a s = some (l.foldl body s) := by
  induction l generalizing k a s with
  | nil =>
      cases k with
      | zero => exact absurd hk (Nat.not_lt_zero _)
      | succ k =>
          have e : next a = none := h
          simp only [Lib.follow, e, List.foldl_nil]
  | cons x l ih =>
      cases k with
      | zero => exact absurd hk (Nat.not_lt_zero _)
      | succ k =>
          simp only [Lib.follow, h.1, List.foldl_cons]
          exact ih h.2 (Nat.lt_of_succ_lt_succ hk)

/-- The list that the pointer `p` leads to. -/
def Chain (next : α → Option α) : Option α → List α → Prop
  | p, [] => p = none
  | p, a :: l => p = some a ∧ Chain next (next a) l

theorem listed_iff : ∀ {l : List α} {a : α}, Listed next a l ↔ Chain next (next a) l
  | [], _ => Iff.rfl
  | _ :: _, _ => and_congr_right fun _ => listed_iff

namespace Chain

variable {p : Option α} {l₁ l₂ : List α}

theorem head (h : Chain next p l) : p = l.head? := by
  cases l with
  | nil => exact h
  | cons a l => exact h.1

theorem nodup (h : Chain next p l) : l.Nodup := by
  cases l with
  | nil => exact List.nodup_nil
  | cons a l => exact (listed_iff.mpr h.2).nodup

theorem length_le [Fintype α] (h : Chain next p l) : l.length ≤ Fintype.card α :=
  h.nodup.length_le_card

theorem unique (h : Chain next p l) (h' : Chain next p l') : l = l' := by
  cases l with
  | nil =>
      have e : l'.head? = none := h'.head.symm.trans h
      exact (List.head?_eq_none_iff.mp e).symm
  | cons a l =>
      have first := h.1
      cases l' with
      | nil => cases first.symm.trans h'
      | cons b l' =>
          obtain rfl : a = b := Option.some.inj (first.symm.trans h'.1)
          rw [(listed_iff.mpr h.2).unique (listed_iff.mpr h'.2)]

/-- Other nodes may be linked differently. -/
theorem frame {next' : α → Option α} : ∀ {l : List α} {p : Option α}, Chain next p l →
    (∀ a ∈ l, next' a = next a) → Chain next' p l
  | [], _, h, _ => h
  | a :: l, _, h, same => by
      refine ⟨h.1, ?_⟩
      rw [same a (.head _)]
      exact h.2.frame fun b mem => same b (.tail _ mem)

end Chain

/-- `while (p && !stop) { body; p = p->next; }` -/
def walk (next : α → Option α) (stop : σ → α → Bool) (body : σ → α → σ) :
    Nat → Option α → σ → Option (Option α × σ)
  | 0, _, _ => none
  | _ + 1, none, s => some (none, s)
  | k + 1, some a, s =>
      if stop s a then some (some a, s) else walk next stop body k (next a) (body s a)

/-- The loop ends at the first node it stops at, or behind the last. -/
theorem Chain.walk (stop : σ → α → Bool) (body : σ → α → σ) : ∀ {l : List α} {p : Option α}
    {k : Nat} {s : σ}, Chain next p l → l.length < k →
    ∃ l₁ l₂, l = l₁ ++ l₂ ∧ Chain next l₂.head? l₂ ∧
      walk next stop body k p s = some (l₂.head?, l₁.foldl body s) ∧
      ∀ a, l₂.head? = some a → stop (l₁.foldl body s) a = true
  | _, _, 0, _, _, hk => absurd hk (Nat.not_lt_zero _)
  | [], p, k + 1, s, h, _ => by
      obtain rfl : p = none := h
      exact ⟨[], [], rfl, rfl, rfl, fun a e => by cases e⟩
  | a :: l, p, k + 1, s, h, hk => by
      obtain ⟨rfl, rest⟩ := h
      by_cases stops : stop s a = true
      · refine ⟨[], a :: l, rfl, ⟨rfl, rest⟩, if_pos stops, fun b e => ?_⟩
        rw [← Option.some.inj e]
        exact stops
      · obtain ⟨l₁, l₂, rfl, chain, walked, ends⟩ :=
          Chain.walk stop body (s := body s a) rest (Nat.lt_of_succ_lt_succ hk)
        exact ⟨a :: l₁, l₂, rfl, chain, (if_neg stops).trans walked, ends⟩

/-- A loop that only searches finds the first node it looks for. -/
theorem Chain.search (wanted : α → Bool) : ∀ {l : List α} {p : Option α} {k : Nat} {s : σ},
    Chain next p l → l.length < k →
    Lib.walk next (fun _ a => wanted a) (fun s _ => s) k p s = some (l.find? wanted, s)
  | _, _, 0, _, _, hk => absurd hk (Nat.not_lt_zero _)
  | [], p, k + 1, s, h, _ => by
      obtain rfl : p = none := h
      rfl
  | a :: l, p, k + 1, s, h, hk => by
      obtain ⟨rfl, rest⟩ := h
      rw [Lib.walk, List.find?_cons]
      cases wanted a with
      | true => rfl
      | false => exact Chain.search wanted rest (Nat.lt_of_succ_lt_succ hk)

/-- A node that is its own successor holds up a search for another. -/
theorem walk_loop {stop : σ → α → Bool} (loops : next a = some a) (goes : ∀ s, stop s a = false)
    (k : Nat) (s : σ) : Lib.walk next stop body k (some a) s = none := by
  induction k generalizing s with
  | zero => rfl
  | succ k ih => simpa [Lib.walk, goes, loops] using ih (body s a)

end Rtai.Lib
