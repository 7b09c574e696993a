import Mathlib.Data.List.Sort
import Mathlib.Logic.Function.Basic

/-!
# Circular doubly linked lists

A pair of link functions over an arbitrary type of nodes, the two pointer
operations on it (`Links.insertBefore`, `Links.unlink`), and the predicate
`Ring L h l`: starting at the head `h`, the links run through the nodes of `l`
in order and come back to `h`.

Several rings may live in one pair of link functions.  `Ring.frame` says that
links which agree on the nodes of a ring leave it alone, so an operation on one
ring is local as soon as its nodes are not on the other.

`seek` is the loop that follows one link until a test succeeds.  It carries
fuel because on ill-formed links the loop need not stop; on a ring it returns a
node of the ring (`Ring.seek_mem`), and when the head stops it, the first node
that does (`Ring.seek_split`).
-/

namespace Rtai.Lib

open Function

/-- The two links of every node. -/
structure Links (α : Type) where
  /-- The successor link. -/
  next : α → α
  /-- The predecessor link. -/
  prev : α → α

namespace Links

variable {α : Type} [DecidableEq α]

/-- `x->prev = (a->prev = x->prev)->next = a; a->next = x`. -/
def insertBefore (L : Links α) (a x : α) : Links α :=
  let L₁ := { L with prev := update L.prev a (L.prev x) }
  let L₂ := { L₁ with next := update L₁.next (L₁.prev a) a }
  let L₃ := { L₂ with prev := update L₂.prev x a }
  { L₃ with next := update L₃.next a x }

/-- `(a->prev)->next = a->next; (a->next)->prev = a->prev`. -/
def unlink (L : Links α) (a : α) : Links α :=
  let L₁ := { L with next := update L.next (L.prev a) (L.next a) }
  { L₁ with prev := update L₁.prev (L₁.next a) (L₁.prev a) }

/-- `h->next = x; x->prev = h`: the nodes between `h` and `x` drop out. -/
def cut (L : Links α) (h x : α) : Links α :=
  { next := update L.next h x, prev := update L.prev x h }

/-- `a->prev = a->next = a`. -/
def reset (L : Links α) (a : α) : Links α :=
  { next := update L.next a a, prev := update L.prev a a }

/-- A node that is unlinked keeps its own successor. -/
theorem unlink_next (L : Links α) (a : α) : (L.unlink a).next a = L.next a := by
  show update L.next (L.prev a) (L.next a) a = L.next a
  by_cases h : a = L.prev a
  · rw [update_apply, if_pos h]
  · rw [update_apply, if_neg h]

/-- The first statement of `unlink` leaves the successor of `a` as it was. -/
theorem unlink_eq (L : Links α) (a : α) :
    L.unlink a =
      { next := update L.next (L.prev a) (L.next a)
        prev := update L.prev (L.next a) (L.prev a) } := by
  have same : update L.next (L.prev a) (L.next a) a = L.next a := L.unlink_next a
  simp only [unlink, same]

theorem insertBefore_eq (L : Links α) (a x : α) :
    L.insertBefore a x =
      { next := update (update L.next (L.prev x) a) a x
        prev := update (update L.prev a (L.prev x)) x a } := by
  simp only [insertBefore, update_self]

end Links

/-! ## Segments -/

section Segments

variable {α : Type} {b : α}

/-- From `a` the links run through the nodes of `l` to `b`. -/
def Segment (L : Links α) : α → List α → α → Prop
  | a, [], b => L.next a = b ∧ L.prev b = a
  | a, x :: l, b => L.next a = x ∧ L.prev x = a ∧ Segment L x l b

theorem segment_append {L : Links α} {x : α} {l₂ : List α} :
    ∀ {l₁ : List α} {a : α},
      Segment L a (l₁ ++ x :: l₂) b ↔ Segment L a l₁ x ∧ Segment L x l₂ b := by
  intro l₁
  induction l₁ with
  | nil => simp [Segment, and_assoc]
  | cons y l₁ ih => simp [Segment, ih, and_assoc]

/-- A segment reads the successors of all its nodes but the last and the
predecessors of all but the first. -/
theorem Segment.frame {L L' : Links α} :
    ∀ {l : List α} {a : α}, (∀ y ∈ a :: l, L'.next y = L.next y) →
      (∀ y ∈ l ++ [b], L'.prev y = L.prev y) → Segment L a l b → Segment L' a l b
  | [], a, hn, hp, h => by
      refine ⟨?_, ?_⟩
      · rw [hn a (by simp)]; exact h.1
      · rw [hp b (by simp)]; exact h.2
  | x :: l, a, hn, hp, h => by
      refine ⟨?_, ?_, ?_⟩
      · rw [hn a (by simp)]; exact h.1
      · rw [hp x (by simp)]; exact h.2.1
      · exact Segment.frame (fun y hy => hn y (by simp [hy]))
          (fun y hy => hp y (List.mem_cons_of_mem _ hy)) h.2.2

theorem Segment.next_mem {L : Links α} :
    ∀ {l : List α} {a y : α}, Segment L a l b → y ∈ a :: l → L.next y ∈ l ++ [b]
  | [], a, y, h, hy => by
      obtain rfl : y = a := by simpa using hy
      simp [h.1]
  | x :: l, a, y, h, hy => by
      rcases List.mem_cons.mp hy with rfl | hy
      · simp [h.1]
      · exact List.mem_cons_of_mem _ (h.2.2.next_mem hy)

theorem Segment.prev_mem {L : Links α} :
    ∀ {l : List α} {a y : α}, Segment L a l b → y ∈ l ++ [b] → L.prev y ∈ a :: l
  | [], a, y, h, hy => by
      obtain rfl : y = b := by simpa using hy
      simp [h.2]
  | x :: l, a, y, h, hy => by
      rcases List.mem_cons.mp hy with rfl | hy
      · simp [h.2.1]
      · exact List.mem_cons_of_mem _ (h.2.2.prev_mem hy)

theorem Segment.prev_next {L : Links α} :
    ∀ {l : List α} {a y : α}, Segment L a l b → y ∈ a :: l → L.prev (L.next y) = y
  | [], a, y, h, hy => by
      obtain rfl : y = a := by simpa using hy
      rw [h.1, h.2]
  | x :: l, a, y, h, hy => by
      rcases List.mem_cons.mp hy with rfl | hy
      · rw [h.1, h.2.1]
      · exact h.2.2.prev_next hy

/-- Pointing the last node of a segment somewhere else. -/
theorem Segment.redirect {L L' : Links α} {x x' : α} :
    ∀ {l : List α} {a : α}, (a :: l).Nodup → Segment L a l x →
      (∀ y ∈ a :: l, y ≠ L.prev x → L'.next y = L.next y) →
      (∀ y ∈ l, L'.prev y = L.prev y) →
      L'.next (L.prev x) = x' → L'.prev x' = L.prev x → Segment L' a l x'
  | [], a, _, h, _, _, hn', hp' => by
      have ha : L.prev x = a := h.2
      exact ⟨ha ▸ hn', ha ▸ hp'⟩
  | y :: l, a, nd, h, hn, hp, hn', hp' => by
      obtain ⟨hay, nd'⟩ := List.nodup_cons.mp nd
      have hlast : L.prev x ∈ y :: l := h.2.2.prev_mem (by simp)
      have hne : a ≠ L.prev x := by rintro rfl; exact hay hlast
      refine ⟨?_, ?_, ?_⟩
      · rw [hn a (by simp) hne]; exact h.1
      · rw [hp y (by simp)]; exact h.2.1
      · exact h.2.2.redirect nd' (fun z hz => hn z (List.mem_cons_of_mem _ hz))
          (fun z hz => hp z (List.mem_cons_of_mem _ hz)) hn' hp'

/-- The successors determine a segment that does not meet its end before. -/
theorem Segment.unique {L : Links α} :
    ∀ {l l' : List α} {a : α}, b ∉ l → b ∉ l' → Segment L a l b → Segment L a l' b → l = l'
  | [], [], _, _, _, _, _ => rfl
  | [], x :: l', a, _, hb', h, h' => by
      have : x = b := by rw [← h'.1, h.1]
      exact absurd (by simp [this]) hb'
  | x :: l, [], a, hb, _, h, h' => by
      have : x = b := by rw [← h.1, h'.1]
      exact absurd (by simp [this]) hb
  | x :: l, y :: l', a, hb, hb', h, h' => by
      have hxy : x = y := by rw [← h.1, h'.1]
      subst hxy
      rw [Segment.unique (fun m => hb (by simp [m])) (fun m => hb' (by simp [m])) h.2.2 h'.2.2]

end Segments

/-! ## Rings -/

section Rings

variable {α : Type}

/-- The links run from `h` through the nodes of `l`, each once, back to `h`. -/
structure Ring (L : Links α) (h : α) (l : List α) : Prop where
  /-- No node is met twice. -/
  nodup : (h :: l).Nodup
  /-- The links close up. -/
  segment : Segment L h l h

namespace Ring

variable {L L' : Links α} {h a x y : α} {l l₁ l₂ : List α}

theorem frame (r : Ring L h l) (hn : ∀ y ∈ h :: l, L'.next y = L.next y)
    (hp : ∀ y ∈ h :: l, L'.prev y = L.prev y) : Ring L' h l :=
  ⟨r.nodup, r.segment.frame hn fun y hy => hp y (by
    rcases List.mem_append.mp hy with hy | hy
    · simp [hy]
    · simp [List.mem_singleton.mp hy])⟩

theorem mem_end (hy : y ∈ h :: l) : y ∈ l ++ [h] := by
  rcases List.mem_cons.mp hy with rfl | hy
  · simp
  · simp [hy]

theorem of_mem_end (hy : y ∈ l ++ [h]) : y ∈ h :: l := by
  rcases List.mem_append.mp hy with hy | hy
  · simp [hy]
  · simp [List.mem_singleton.mp hy]

theorem next_mem (r : Ring L h l) (hy : y ∈ h :: l) : L.next y ∈ h :: l :=
  of_mem_end (r.segment.next_mem hy)

theorem prev_mem (r : Ring L h l) (hy : y ∈ h :: l) : L.prev y ∈ h :: l :=
  r.segment.prev_mem (mem_end hy)

theorem prev_next (r : Ring L h l) (hy : y ∈ h :: l) : L.prev (L.next y) = y :=
  r.segment.prev_next hy

theorem head_notMem (r : Ring L h l) : h ∉ l := (List.nodup_cons.mp r.nodup).1

theorem unique (r : Ring L h l) (r' : Ring L h l₁) : l = l₁ :=
  r.segment.unique r.head_notMem r'.head_notMem r'.segment

/-- The node after `h` is the first of the list, or `h` on an empty ring. -/
theorem next_head (r : Ring L h l) : L.next h = l.headD h := by
  cases l with
  | nil => exact r.segment.1
  | cons x l => exact r.segment.1

/-! ### Insertion and removal -/

variable [DecidableEq α]

/-- `insertBefore` puts the new node where its argument stood: between `l₁`
and `l₂` when `x` is the first node of `l₂`, or the head if there is none. -/
theorem insertBefore (r : Ring L h (l₁ ++ l₂)) (ha : a ∉ h :: (l₁ ++ l₂))
    (hx : l₂.headD h = x) : Ring (L.insertBefore a x) h (l₁ ++ a :: l₂) := by
  have nd := r.nodup
  simp only [List.nodup_cons, List.nodup_append, List.mem_append, not_or] at nd
  obtain ⟨⟨hh₁, hh₂⟩, nd₁, nd₂, disj⟩ := nd
  simp only [List.mem_cons, List.mem_append, not_or] at ha
  obtain ⟨hah, ha₁, ha₂⟩ := ha
  refine ⟨?_, segment_append.mpr ?_⟩
  · simp only [List.nodup_cons, List.nodup_append, List.mem_append, List.mem_cons, not_or]
    exact ⟨⟨hh₁, Ne.symm hah, hh₂⟩, nd₁, ⟨ha₂, nd₂⟩, fun y hy z hz => by
      rcases hz with rfl | hz
      · rintro rfl; exact ha₁ hy
      · exact disj y hy z hz⟩
  rw [Links.insertBefore_eq]
  cases l₂ with
  | nil =>
      obtain rfl : h = x := hx
      rw [List.append_nil] at r
      have hpm : L.prev h ∈ h :: l₁ := r.prev_mem (by simp)
      have hpa : L.prev h ≠ a := by
        rintro rfl
        rcases List.mem_cons.mp hpm with e | m
        · exact hah e
        · exact ha₁ m
      refine ⟨r.segment.redirect r.nodup ?_ ?_ ?_ ?_, ?_, ?_⟩
      · intro y hy hyp
        have hya : y ≠ a := by rintro rfl; simp [hah, ha₁] at hy
        simp only [update_of_ne hya, update_of_ne hyp]
      · intro y hy
        have hya : y ≠ a := by rintro rfl; exact ha₁ hy
        have hyh : y ≠ h := by rintro rfl; exact hh₁ hy
        simp only [update_of_ne hya, update_of_ne hyh]
      · simp only [update_of_ne hpa, update_self]
      · simp only [update_of_ne hah, update_self]
      · simp only [update_self]
      · simp only [update_self]
  | cons z l₂ =>
      obtain rfl : z = x := hx
      obtain ⟨s₁, s₂⟩ := segment_append.mp r.segment
      simp only [List.mem_cons, not_or] at hh₂ ha₂
      have hz₁ : z ∉ h :: l₁ := by
        intro m
        rcases List.mem_cons.mp m with e | m
        · exact hh₂.1 e.symm
        · exact disj z m z (by simp) rfl
      have hpm : L.prev z ∈ h :: l₁ := s₁.prev_mem (by simp)
      have hpa : L.prev z ≠ a := by
        rintro rfl
        rcases List.mem_cons.mp hpm with e | m
        · exact hah e
        · exact ha₁ m
      refine ⟨s₁.redirect (List.nodup_cons.mpr ⟨hh₁, nd₁⟩) ?_ ?_ ?_ ?_, ?_, ?_, ?_⟩
      · intro y hy hyp
        have hya : y ≠ a := by rintro rfl; simp [hah, ha₁] at hy
        simp only [update_of_ne hya, update_of_ne hyp]
      · intro y hy
        have hya : y ≠ a := by rintro rfl; exact ha₁ hy
        have hyz : y ≠ z := by rintro rfl; exact hz₁ (List.mem_cons_of_mem _ hy)
        simp only [update_of_ne hya, update_of_ne hyz]
      · simp only [update_of_ne hpa, update_self]
      · simp only [update_of_ne ha₂.1, update_self]
      · simp only [update_self]
      · simp only [update_self]
      · refine s₂.frame ?_ ?_
        · intro y hy
          have hya : y ≠ a := by rintro rfl; simp [ha₂] at hy
          have hyp : y ≠ L.prev z := by
            rintro rfl
            rcases List.mem_cons.mp hpm with e | m
            · rw [e] at hy; simp [hh₂] at hy
            · exact disj _ m _ hy rfl
          simp only [update_of_ne hya, update_of_ne hyp]
        · intro y hy
          have hya : y ≠ a := by
            rintro rfl
            rcases List.mem_append.mp hy with m | m
            · exact ha₂.2 m
            · exact hah (List.mem_singleton.mp m)
          have hyz : y ≠ z := by
            rintro rfl
            rcases List.mem_append.mp hy with m | m
            · exact (List.nodup_cons.mp nd₂).1 m
            · exact hh₂.1 (List.mem_singleton.mp m).symm
          simp only [update_of_ne hya, update_of_ne hyz]

/-- `unlink` takes a node other than the head out of the ring. -/
theorem unlink (r : Ring L h (l₁ ++ a :: l₂)) : Ring (L.unlink a) h (l₁ ++ l₂) := by
  have nd := r.nodup
  simp only [List.nodup_cons, List.nodup_append, List.mem_append, List.mem_cons, not_or] at nd
  obtain ⟨⟨hh₁, hha, hh₂⟩, nd₁, ⟨ha₂, nd₂⟩, disj⟩ := nd
  have ha₁ : a ∉ h :: l₁ := by
    intro m
    rcases List.mem_cons.mp m with e | m
    · exact hha e.symm
    · exact disj a m a (Or.inl rfl) rfl
  have nd' : (h :: (l₁ ++ l₂)).Nodup := by
    simp only [List.nodup_cons, List.nodup_append, List.mem_append, not_or]
    exact ⟨⟨hh₁, hh₂⟩, nd₁, nd₂, fun y hy z hz => disj y hy z (Or.inr hz)⟩
  obtain ⟨s₁, s₂⟩ := segment_append.mp r.segment
  have hpm : L.prev a ∈ h :: l₁ := s₁.prev_mem (by simp)
  rw [Links.unlink_eq]
  refine ⟨nd', ?_⟩
  cases l₂ with
  | nil =>
      have hx : L.next a = h := s₂.1
      rw [List.append_nil, hx]
      refine s₁.redirect (List.nodup_cons.mpr ⟨hh₁, nd₁⟩) ?_ ?_ ?_ ?_
      · intro y _ hyp
        simp only [update_of_ne hyp]
      · intro y hy
        have hyh : y ≠ h := by rintro rfl; exact hh₁ hy
        simp only [update_of_ne hyh]
      · simp only [update_self]
      · simp only [update_self]
  | cons x l₂ =>
      have hx : L.next a = x := s₂.1
      rw [hx]
      have hx₁ : x ∉ h :: l₁ := by
        intro m
        rcases List.mem_cons.mp m with e | m
        · exact hh₂ (by simp [e])
        · exact disj x m x (by simp) rfl
      refine segment_append.mpr ⟨s₁.redirect (List.nodup_cons.mpr ⟨hh₁, nd₁⟩) ?_ ?_ ?_ ?_, ?_⟩
      · intro y _ hyp
        simp only [update_of_ne hyp]
      · intro y hy
        have hyx : y ≠ x := by rintro rfl; exact hx₁ (List.mem_cons_of_mem _ hy)
        simp only [update_of_ne hyx]
      · simp only [update_self]
      · simp only [update_self]
      · refine s₂.2.2.frame ?_ ?_
        · intro y hy
          have hyp : y ≠ L.prev a := by
            rintro rfl
            rcases List.mem_cons.mp hpm with e | m
            · rw [e] at hy; exact hh₂ hy
            · exact disj _ m _ (Or.inr hy) rfl
          simp only [update_of_ne hyp]
        · intro y hy
          have hyx : y ≠ x := by
            rintro rfl
            rcases List.mem_append.mp hy with m | m
            · exact (List.nodup_cons.mp nd₂).1 m
            · exact hh₂ (by simp [List.mem_singleton.mp m])
          simp only [update_of_ne hyx]

/-- `cut` drops the nodes before its second argument. -/
theorem cut (r : Ring L h (l₁ ++ l₂)) (hx : l₂.headD h = x) : Ring (L.cut h x) h l₂ := by
  have nd := r.nodup
  simp only [List.nodup_cons, List.nodup_append, List.mem_append, not_or] at nd
  obtain ⟨⟨_, hh₂⟩, _, nd₂, _⟩ := nd
  refine ⟨List.nodup_cons.mpr ⟨hh₂, nd₂⟩, ?_⟩
  cases l₂ with
  | nil =>
      obtain rfl : h = x := hx
      exact ⟨by simp [Links.cut], by simp [Links.cut]⟩
  | cons z l₂ =>
      obtain rfl : z = x := hx
      simp only [List.mem_cons, not_or] at hh₂
      obtain ⟨_, s₂⟩ := segment_append.mp r.segment
      refine ⟨by simp [Links.cut], by simp [Links.cut], s₂.frame ?_ ?_⟩
      · intro y hy
        have hyh : y ≠ h := by rintro rfl; simp [hh₂] at hy
        simp only [Links.cut, update_of_ne hyh]
      · intro y hy
        have hyz : y ≠ z := by
          rintro rfl
          rcases List.mem_append.mp hy with m | m
          · exact (List.nodup_cons.mp nd₂).1 m
          · exact hh₂.1 (List.mem_singleton.mp m).symm
        simp only [Links.cut, update_of_ne hyz]

/-! ### Operations at a node given by membership -/

/-- Removing a member of the ring. -/
theorem erase (r : Ring L h l) (ha : a ∈ l) : Ring (L.unlink a) h (l.erase a) := by
  obtain ⟨l₁, l₂, _, rfl, e⟩ := List.exists_erase_eq ha
  rw [e]
  exact r.unlink

omit [DecidableEq α] in
theorem exists_split (hx : x ∈ h :: l) : ∃ l₁ l₂, l = l₁ ++ l₂ ∧ l₂.headD h = x := by
  rcases List.mem_cons.mp hx with rfl | hx
  · exact ⟨l, [], by simp, rfl⟩
  · obtain ⟨l₁, l₂, rfl⟩ := List.append_of_mem hx
    exact ⟨l₁, x :: l₂, rfl, rfl⟩

/-- Inserting before any node of the ring adds the new node to it. -/
theorem insert_perm (r : Ring L h l) (ha : a ∉ h :: l) (hx : x ∈ h :: l) :
    ∃ l', Ring (L.insertBefore a x) h l' ∧ l'.Perm (a :: l) := by
  obtain ⟨l₁, l₂, rfl, e⟩ := exists_split hx
  exact ⟨l₁ ++ a :: l₂, r.insertBefore ha e, List.perm_middle⟩

/-- An insertion whose nodes are off a ring leaves that ring alone. -/
theorem insertBefore_frame (r : Ring L h l) (ha : a ∉ h :: l) (hx : x ∉ h :: l)
    (hp : L.prev x ∉ h :: l) : Ring (L.insertBefore a x) h l := by
  rw [Links.insertBefore_eq]
  refine r.frame ?_ ?_
  · intro y hy
    have hya : y ≠ a := by rintro rfl; exact ha hy
    have hyp : y ≠ L.prev x := by rintro rfl; exact hp hy
    simp only [update_of_ne hya, update_of_ne hyp]
  · intro y hy
    have hya : y ≠ a := by rintro rfl; exact ha hy
    have hyx : y ≠ x := by rintro rfl; exact hx hy
    simp only [update_of_ne hya, update_of_ne hyx]

/-- A removal whose neighbours are off a ring leaves that ring alone. -/
theorem unlink_frame (r : Ring L h l) (hn : L.next a ∉ h :: l) (hp : L.prev a ∉ h :: l) :
    Ring (L.unlink a) h l := by
  rw [Links.unlink_eq]
  refine r.frame ?_ ?_
  · intro y hy
    have hyp : y ≠ L.prev a := by rintro rfl; exact hp hy
    simp only [update_of_ne hyp]
  · intro y hy
    have hyn : y ≠ L.next a := by rintro rfl; exact hn hy
    simp only [update_of_ne hyn]

/-- Unlinking a node of another ring leaves the ring alone. -/
theorem unlink_apart {h₀ : α} {l₀ : List α} (r : Ring L h l) (r₀ : Ring L h₀ l₀) (ha : a ∈ l₀)
    (apart : ∀ x ∈ h :: l, x ∉ h₀ :: l₀) : Ring (L.unlink a) h l := by
  have here : a ∈ h₀ :: l₀ := List.mem_cons_of_mem _ ha
  exact r.unlink_frame (fun m => apart _ m (r₀.next_mem here)) fun m => apart _ m (r₀.prev_mem here)

/-- Resetting a node off the ring leaves the ring alone. -/
theorem reset_frame (r : Ring L h l) (ha : a ∉ h :: l) : Ring (L.reset a) h l := by
  refine r.frame ?_ ?_ <;> intro y hy
  · have hya : y ≠ a := by rintro rfl; exact ha hy
    simp only [Links.reset, update_of_ne hya]
  · have hya : y ≠ a := by rintro rfl; exact ha hy
    simp only [Links.reset, update_of_ne hya]

/-- A node that is its own neighbour is an empty ring. -/
theorem reset_self : Ring (L.reset h) h [] :=
  ⟨by simp, by simp [Links.reset], by simp [Links.reset]⟩

end Ring

end Rings

/-! ## Following one link -/

/-- `while (!stop(x)) x = next(x);`, with fuel. -/
def seek {α : Type} (next : α → α) (stop : α → Bool) : Nat → α → Option α
  | 0, _ => none
  | k + 1, x => if stop x then some x else seek next stop k (next x)

section Seek

variable {α : Type} {L : Links α} {h x y : α} {l l₁ l₂ : List α} {stop : α → Bool}

theorem seek_stop {next : α → α} : ∀ {k : Nat} {x : α}, seek next stop k x = some y → stop y = true
  | 0, x, e => by simp [seek] at e
  | k + 1, x, e => by
      simp only [seek] at e
      split at e
      next hs => cases e; exact hs
      next hs => exact seek_stop e

/-- On a ring the loop stays on the ring. -/
theorem Ring.seek_mem (r : Ring L h l) :
    ∀ {k : Nat} {x : α}, x ∈ h :: l → seek L.next stop k x = some y → y ∈ h :: l
  | 0, x, _, e => by simp [seek] at e
  | k + 1, x, hx, e => by
      simp only [seek] at e
      split at e
      next hs => cases e; exact hx
      next hs => exact r.seek_mem (r.next_mem hx) e

theorem Ring.next_headD (r : Ring L h (l₁ ++ x :: l₂)) : L.next x = l₂.headD h := by
  obtain ⟨_, s₂⟩ := segment_append.mp r.segment
  cases l₂ with
  | nil => exact s₂.1
  | cons z l₂ => exact s₂.1

/-- When the head stops the loop, it returns the first node that stops it. -/
theorem Ring.seek_split (r : Ring L h (l₁ ++ l₂)) (hs : stop h = true) :
    ∀ {k : Nat}, seek L.next stop k (l₂.headD h) = some y →
      ∃ m₁ m₂, l₂ = m₁ ++ m₂ ∧ (∀ z ∈ m₁, stop z = false) ∧ y = m₂.headD h := by
  intro k
  induction k generalizing l₁ l₂ with
  | zero => intro e; simp [seek] at e
  | succ k ih =>
      intro e
      cases l₂ with
      | nil =>
          refine ⟨[], [], rfl, by simp, ?_⟩
          simp only [List.headD_nil, seek, hs, if_true, Option.some.injEq] at e ⊢
          exact e.symm
      | cons x l₂ =>
          rw [List.headD_cons, seek] at e
          by_cases hx : stop x = true
          · rw [if_pos hx] at e
            exact ⟨[], x :: l₂, rfl, by simp, (Option.some.inj e).symm⟩
          · rw [if_neg hx, r.next_headD] at e
            rw [List.append_cons] at r
            obtain ⟨m₁, m₂, rfl, hm, hy⟩ := ih r e
            refine ⟨x :: m₁, m₂, rfl, ?_, hy⟩
            intro z hz
            rcases List.mem_cons.mp hz with rfl | hz
            · simpa using hx
            · exact hm z hz

/-- When the head stops the loop, it ends after as many iterations as there are nodes left. -/
theorem Ring.seek_total (r : Ring L h (l₁ ++ l₂)) (hs : stop h = true) {k : Nat}
    (hk : l₂.length < k) : ∃ y, seek L.next stop k (l₂.headD h) = some y := by
  induction l₂ generalizing l₁ k with
  | nil =>
      obtain ⟨k, rfl⟩ := Nat.exists_eq_add_one_of_ne_zero (Nat.ne_of_gt hk)
      exact ⟨h, if_pos hs⟩
  | cons x l₂ ih =>
      obtain ⟨k, rfl⟩ := Nat.exists_eq_add_one_of_ne_zero (Nat.ne_of_gt (Nat.zero_lt_of_lt hk))
      rw [List.headD_cons, seek]
      split
      next => exact ⟨x, rfl⟩
      next =>
        rw [r.next_headD]
        rw [List.append_cons] at r
        exact ih r (Nat.lt_of_succ_lt_succ hk)

/-! ### What is inserted where a loop stops -/

section Inserted

variable [DecidableEq α] {a : α}

/-- If the links behind an insertion form a ring, a node before which the insertion took
place is on it only together with the new one. -/
theorem Ring.inserted_before (r : Ring (L.insertBefore a x) h l) (hx : x ∈ h :: l) : a ∈ h :: l := by
  have back := r.prev_mem hx
  rw [Links.insertBefore_eq] at back
  dsimp only at back
  rwa [update_self] at back

/-- The walk along the old links stays on the ring until it meets the new node. -/
theorem Ring.inserted_next (r : Ring (L.insertBefore a x) h l) (hy : y ∈ h :: l) :
    a ∈ h :: l ∨ L.next y ∈ h :: l := by
  by_cases own : y = a
  · exact .inl (own ▸ hy)
  · have step := r.next_mem hy
    rw [Links.insertBefore_eq] at step
    dsimp only at step
    rw [update_of_ne own] at step
    by_cases pred : y = L.prev x
    · rw [pred, update_self] at step
      exact .inl step
    · rw [update_of_ne pred] at step
      exact .inr step

theorem Ring.inserted_seek (r : Ring (L.insertBefore a x) h l) :
    ∀ {k : Nat} {y : α}, y ∈ h :: l → seek L.next stop k y = some x → a ∈ h :: l
  | 0, _, _, e => by simp [seek] at e
  | k + 1, y, hy, e => by
      simp only [seek] at e
      split at e
      next =>
        cases e
        exact r.inserted_before hy
      next =>
        rcases r.inserted_next hy with new | next
        · exact new
        · exact r.inserted_seek next e

end Inserted

end Seek

/-- Inserting before the first element the relation puts after the new one. -/
theorem orderedInsert_split {α : Type} {R : α → α → Prop} [DecidableRel R] {a : α} :
    ∀ {m₁ m₂ : List α}, (∀ z ∈ m₁, ¬R a z) → (∀ z, m₂.head? = some z → R a z) →
      (m₁ ++ m₂).orderedInsert R a = m₁ ++ a :: m₂
  | [], [], _, _ => rfl
  | [], z :: m₂, _, h => by simp [h z rfl]
  | z :: m₁, m₂, hm, h => by
      have tail : ∀ y ∈ m₁, ¬R a y := fun y hy => hm y (List.mem_cons_of_mem _ hy)
      simp [hm z (by simp), orderedInsert_split tail h]

end Rtai.Lib
