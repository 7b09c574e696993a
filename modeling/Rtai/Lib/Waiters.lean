import Rtai.Lib.Rings

/-!
# Waiters on rings

Rings whose nodes belong to waiters.  `OnRings L head node b` says that the links `L` hold
one ring for every queue, and that the node of a waiter is on the ring of `q` exactly when
`b t = some q`: the links and what the waiters know of their queues are kept together.
-/

namespace Rtai.Lib

open Function

variable {ι τ α : Type}

/-- The nodes of two waiters are different, and no head is the node of a waiter. -/
structure Separate (head : ι → α) (node : τ → α) : Prop where
  head : ∀ q t, head q ≠ node t
  node : Injective node

/-- One ring for every queue, with the waiters that are on it. -/
def OnRings (L : Links α) (head : ι → α) (node : τ → α) (b : τ → Option ι) : Prop :=
  ∃ l, Rings L head l ∧ ∀ q x, x ∈ l q ↔ ∃ t, x = node t ∧ b t = some q

/-- A node of the ring of `q`, the head included. -/
def AtRing (head : ι → α) (node : τ → α) (b : τ → Option ι) (q : ι) (x : α) : Prop :=
  x = head q ∨ ∃ t, x = node t ∧ b t = some q

namespace OnRings

variable {L : Links α} {head : ι → α} {node : τ → α} {b b' : τ → Option ι} {q : ι} {t : τ} {x y : α}
  {l : ι → List α}

theorem congr (h : OnRings L head node b) (e : ∀ t, b' t = b t) : OnRings L head node b' := by
  obtain rfl : b' = b := funext e
  exact h

theorem mem_of_at (mem : ∀ q x, x ∈ l q ↔ ∃ t, x = node t ∧ b t = some q)
    (hx : AtRing head node b q x) : x ∈ head q :: l q := by
  rcases hx with rfl | hx
  · exact List.mem_cons_self
  · exact List.mem_cons_of_mem _ ((mem q x).mpr hx)

theorem next (h : OnRings L head node b) (hx : AtRing head node b q x) :
    AtRing head node b q (L.next x) := by
  obtain ⟨l, r, mem⟩ := h
  rcases List.mem_cons.mp ((r.ring q).next_mem (mem_of_at mem hx)) with e | m
  · exact Or.inl e
  · exact Or.inr ((mem q _).mp m)

theorem seek {stop : α → Bool} (h : OnRings L head node b) :
    ∀ {k : Nat} {x : α}, AtRing head node b q x → seek L.next stop k x = some y →
      AtRing head node b q y
  | 0, x, _, e => by simp [Lib.seek] at e
  | k + 1, x, hx, e => by
      simp only [Lib.seek] at e
      split at e
      · cases e
        exact hx
      · exact h.seek (h.next hx) e

/-- The first node of a queue is that of a waiter on it, or the head. -/
theorem first (h : OnRings L head node b) (q : ι) : AtRing head node b q (L.next (head q)) :=
  h.next (Or.inl rfl)

/-- Nobody waits on a queue whose head is its own successor. -/
theorem empty (h : OnRings L head node b) (e : L.next (head q) = head q) (t : τ) :
    b t ≠ some q := by
  obtain ⟨l, r, mem⟩ := h
  intro ht
  have hm : node t ∈ l q := (mem q _).mpr ⟨t, rfl, ht⟩
  have hn := (r.ring q).next_head
  cases hl : l q with
  | nil => simp [hl] at hm
  | cons y m =>
      rw [hl, e] at hn
      exact (r.ring q).head_notMem (by simp [hl, show head q = y from hn])

/-- The head of a queue on which nobody waits is its own neighbour. -/
theorem of_empty (h : OnRings L head node b) (e : ∀ t, b t ≠ some q) :
    L.next (head q) = head q ∧ L.prev (head q) = head q := by
  obtain ⟨l, r, mem⟩ := h
  have hl : l q = [] := by
    refine List.eq_nil_iff_forall_not_mem.mpr fun x hx => ?_
    obtain ⟨t, -, ht⟩ := (mem q x).mp hx
    exact e t ht
  have := (r.ring q).segment
  rw [hl] at this
  exact this

theorem notMem (separate : Separate head node)
    (mem : ∀ q x, x ∈ l q ↔ ∃ t, x = node t ∧ b t = some q) (ht : b t = none) (q : ι) :
    node t ∉ head q :: l q := by
  rw [List.mem_cons, mem]
  rintro (e | ⟨u, e, hu⟩)
  · exact separate.head q t e.symm
  · rw [separate.node e, hu] at ht
    cases ht

/-- The ring of a queue holds its waiters, each once. -/
theorem waiters (h : OnRings L head node b) (separate : Separate head node) (q : ι) :
    ∃ ts : List τ, Ring L (head q) (ts.map node) ∧ ts.Nodup ∧ ∀ t, t ∈ ts ↔ b t = some q := by
  obtain ⟨l, r, mem⟩ := h
  have nodes : ∀ xs : List α, (∀ x ∈ xs, ∃ t, x = node t) → ∃ ts : List τ, xs = ts.map node := by
    intro xs hx
    induction xs with
    | nil => exact ⟨[], rfl⟩
    | cons x xs ih =>
        obtain ⟨t, rfl⟩ := hx x (List.mem_cons_self ..)
        obtain ⟨ts, rfl⟩ := ih fun y hy => hx y (List.mem_cons_of_mem _ hy)
        exact ⟨t :: ts, rfl⟩
  obtain ⟨ts, e⟩ := nodes (l q) fun x hx => by
    obtain ⟨t, rfl, -⟩ := (mem q x).mp hx
    exact ⟨t, rfl⟩
  have ring := r.ring q
  rw [e] at ring
  refine ⟨ts, ring, (List.nodup_cons.mp ring.nodup).2.of_map _, fun t => ?_⟩
  rw [← List.mem_map_of_injective separate.node, ← e, mem]
  constructor
  · rintro ⟨u, e', hu⟩
    rw [separate.node e']
    exact hu
  · exact fun ht => ⟨t, rfl, ht⟩

variable [DecidableEq ι] [DecidableEq τ] [DecidableEq α]

theorem enqueue (h : OnRings L head node b) (separate : Separate head node) (ht : b t = none)
    (hx : AtRing head node b q x) :
    OnRings (L.insertBefore (node t) x) head node (update b t (some q)) := by
  obtain ⟨l, r, mem⟩ := h
  obtain ⟨m, p, r'⟩ := r.insert (notMem separate mem ht) (mem_of_at mem hx)
  refine ⟨_, r', fun q' y => ?_⟩
  by_cases e : q' = q
  · subst e
    rw [update_self, p.mem_iff, List.mem_cons, mem]
    constructor
    · rintro (rfl | ⟨u, rfl, hu⟩)
      · exact ⟨t, rfl, update_self _ _ _⟩
      · refine ⟨u, rfl, ?_⟩
        by_cases e : u = t
        · subst e; simp
        · rw [update_of_ne e, hu]
    · rintro ⟨u, rfl, hu⟩
      by_cases e : u = t
      · exact Or.inl (congrArg _ e)
      · rw [update_of_ne e] at hu
        exact Or.inr ⟨u, rfl, hu⟩
  · rw [update_of_ne e, mem]
    refine exists_congr fun u => and_congr_right fun _ => ?_
    by_cases hu : u = t
    · subst hu
      simp [ht, Ne.symm e]
    · rw [update_of_ne hu]

theorem dequeue (h : OnRings L head node b) (separate : Separate head node) (ht : b t = some q) :
    OnRings (L.unlink (node t)) head node (update b t none) := by
  obtain ⟨l, r, mem⟩ := h
  have hm : node t ∈ l q := (mem q _).mpr ⟨t, rfl, ht⟩
  refine ⟨_, r.erase hm, fun q' y => ?_⟩
  have nd := (List.nodup_cons.mp (r.ring q).nodup).2
  by_cases e : q' = q
  · subst e
    rw [update_self, nd.mem_erase_iff, mem]
    constructor
    · rintro ⟨hne, u, rfl, hu⟩
      have : u ≠ t := by rintro rfl; exact hne rfl
      exact ⟨u, rfl, by rw [update_of_ne this, hu]⟩
    · rintro ⟨u, rfl, hu⟩
      have : u ≠ t := by rintro rfl; simp at hu
      rw [update_of_ne this] at hu
      exact ⟨fun e => this (separate.node e), u, rfl, hu⟩
  · rw [update_of_ne e, mem]
    refine exists_congr fun u => and_congr_right fun _ => ?_
    by_cases hu : u = t
    · subst hu
      simp [ht, Ne.symm e]
    · rw [update_of_ne hu]

omit [DecidableEq ι] [DecidableEq τ] in
theorem reset (h : OnRings L head node b) (separate : Separate head node) (ht : b t = none) :
    OnRings (L.reset (node t)) head node b := by
  obtain ⟨l, r, mem⟩ := h
  exact ⟨l, r.reset (notMem separate mem ht), mem⟩

omit [DecidableEq τ] in
/-- Resetting the head of a queue on which nobody waits. -/
theorem resetHead (h : OnRings L head node b) (e : ∀ t, b t ≠ some q) :
    OnRings (L.reset (head q)) head node b := by
  obtain ⟨l, r, mem⟩ := h
  refine ⟨_, r.clear q, fun q' y => ?_⟩
  by_cases hq : q' = q
  · subst hq
    rw [update_self]
    simp [e]
  · rw [update_of_ne hq, mem]

end OnRings

end Rtai.Lib
