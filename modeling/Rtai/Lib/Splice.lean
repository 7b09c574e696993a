import Mathlib.Data.List.Basic
import Rtai.Lib.Rings

/-!
# A ring put into another

`Links.splice` puts all nodes of one ring into another, before a node or at its end, and
leaves the head of the first alone in its own.  `Rings.splice` is the rule for a family.
-/

namespace Rtai.Lib

open Function

namespace Links

variable {α : Type} [DecidableEq α]

/-- The nodes of the ring at `h` go before `x`. -/
def splice (L : Links α) (h x : α) : Links α where
  next := update (update (update L.next (L.prev h) x) (L.prev x) (L.next h)) h h
  prev := update (update (update L.prev (L.next h) (L.prev x)) x (L.prev h)) h h

end Links

section

variable {α : Type} {L : Links α} {a b g h x : α} {l l₁ l₂ m : List α}

/-- Two neighbours in a segment. -/
theorem Segment.adjacent : ∀ {l₁ : List α} {a : α}, Segment L a (l₁ ++ l₂) b →
    L.next (l₁.getLastD a) = l₂.headD b ∧ L.prev (l₂.headD b) = l₁.getLastD a
  | [], _, s => by
      cases l₂ with
      | nil => exact s
      | cons x l₂ => exact ⟨s.1, s.2.1⟩
  | x :: l₁, a, s => by
      rw [List.getLastD_cons]
      exact Segment.adjacent s.2.2

variable [DecidableEq α]

theorem Ring.splice (r : Ring L g (l₁ ++ l₂)) (r' : Ring L h m)
    (apart : ∀ y ∈ g :: (l₁ ++ l₂), y ∉ h :: m) (some : m ≠ []) (hx : l₂.headD g = x) :
    Ring (L.splice h x) g (l₁ ++ (m ++ l₂)) := by
  obtain ⟨f, m, rfl⟩ := List.exists_cons_of_ne_nil some
  obtain ⟨first, -, s⟩ : L.next h = f ∧ L.prev f = h ∧ Segment L f m h := r'.segment
  have s₁ : Segment L g l₁ x := by
    cases l₂ with
    | nil =>
        obtain rfl : g = x := hx
        simpa using r.segment
    | cons z l₂ =>
        obtain rfl : z = x := hx
        exact (segment_append.mp r.segment).1
  have last : L.prev h ∈ f :: m := s.prev_mem (by simp)
  have before : L.prev x ∈ g :: l₁ := s₁.prev_mem (by simp)
  have inside : x ∈ g :: (l₁ ++ l₂) := by
    rw [← hx]
    cases l₂ <;> simp
  -- the nodes of the two rings are apart
  have front {y : α} (hy : y ∈ g :: l₁) : y ∈ g :: (l₁ ++ l₂) := by
    rcases List.mem_cons.mp hy with rfl | hy
    · simp
    · simp [hy]
  have other {y z : α} (hy : y ∈ g :: (l₁ ++ l₂)) (hz : z ∈ h :: f :: m) : y ≠ z := by
    rintro rfl
    exact apart _ hy hz
  have rear : L.prev h ∈ h :: f :: m := List.mem_cons_of_mem _ last
  obtain ⟨hm, fm, ndm⟩ : h ∉ f :: m ∧ f ∉ m ∧ m.Nodup := by
    simpa [and_assoc] using r'.nodup
  have nd := r.nodup
  simp only [List.nodup_cons, List.nodup_append, List.mem_append, not_or] at nd
  obtain ⟨⟨g₁, g₂⟩, nd₁, nd₂, disj⟩ := nd
  have new : Segment (L.splice h x) g l₁ f := by
    refine s₁.redirect (List.nodup_cons.mpr ⟨g₁, nd₁⟩) ?_ ?_ ?_ ?_
    · intro y hy hyp
      simp only [Links.splice, update_of_ne (other (front hy) (.head _)), update_of_ne hyp,
        update_of_ne (other (front hy) rear)]
    · intro y hy
      have hy' := front (List.mem_cons_of_mem g hy)
      have hyx : y ≠ x := by
        rintro rfl
        cases l₂ with
        | nil =>
            obtain rfl : g = y := hx
            exact g₁ hy
        | cons z l₂ =>
            obtain rfl : z = y := hx
            exact disj z hy z (by simp) rfl
      simp only [Links.splice, first, update_of_ne (other hy' (.head _)), update_of_ne hyx,
        update_of_ne (other hy' (by simp : f ∈ h :: f :: m))]
    · simp only [Links.splice, first, update_of_ne (other (front before) (.head _)), update_self]
    · have fh : f ≠ h := fun e => hm (by simp [e])
      simp only [Links.splice, first, update_of_ne fh,
        update_of_ne (other inside (by simp : f ∈ h :: f :: m)).symm, update_self]
  have moved : Segment (L.splice h x) f m x := by
    have inner {y : α} (hy : y ∈ f :: m) : y ≠ h := by
      rintro rfl
      exact hm hy
    refine s.redirect (List.nodup_cons.mpr ⟨fm, ndm⟩) ?_ ?_ ?_ ?_
    · intro y hy hyp
      simp only [Links.splice, update_of_ne (inner hy), update_of_ne hyp,
        update_of_ne (other (front before) (List.mem_cons_of_mem _ hy)).symm]
    · intro y hy
      have hy' : y ∈ f :: m := List.mem_cons_of_mem _ hy
      have hyf : y ≠ f := by
        rintro rfl
        exact fm hy
      simp only [Links.splice, first, update_of_ne (inner hy'), update_of_ne hyf,
        update_of_ne (other inside (List.mem_cons_of_mem _ hy')).symm]
    · simp only [Links.splice, update_of_ne (inner last),
        update_of_ne (other (front before) rear).symm, update_self]
    · simp only [Links.splice, update_of_ne (other inside (.head _)), update_self]
  refine ⟨?_, segment_append.mpr ⟨new, ?_⟩⟩
  · have disj' : ∀ y ∈ f :: m, y ∉ g :: (l₁ ++ l₂) := fun y hy hy' =>
      apart y hy' (List.mem_cons_of_mem _ hy)
    have perm : (g :: (l₁ ++ (f :: m ++ l₂))).Perm ((f :: m) ++ g :: (l₁ ++ l₂)) :=
      ((List.perm_append_comm_assoc l₁ (f :: m) l₂).cons g).trans List.perm_middle.symm
    refine perm.nodup_iff.mpr (List.nodup_append.mpr ⟨List.nodup_cons.mpr ⟨fm, ndm⟩, r.nodup, ?_⟩)
    rintro y hy z hz rfl
    exact disj' y hy hz
  · cases l₂ with
    | nil =>
        obtain rfl : g = x := hx
        simpa using moved
    | cons z l₂ =>
        obtain rfl : z = x := hx
        refine segment_append.mpr ⟨moved, (segment_append.mp r.segment).2.frame ?_ ?_⟩
        · intro y hy
          have hy' : y ∈ g :: (l₁ ++ z :: l₂) := by simp [List.mem_cons.mp hy]
          have hyp : y ≠ L.prev z := by
            rintro rfl
            rcases List.mem_cons.mp before with e | mem
            · rw [e] at hy
              exact g₂ hy
            · exact disj _ mem _ hy rfl
          simp only [Links.splice, update_of_ne (other hy' (.head _)), update_of_ne hyp,
            update_of_ne (other hy' rear)]
        · intro y hy
          have hy' : y ∈ g :: (l₁ ++ z :: l₂) := by
            rcases List.mem_append.mp hy with mem | mem
            · simp [mem]
            · simp [List.mem_singleton.mp mem]
          have hyz : y ≠ z := by
            rintro rfl
            rcases List.mem_append.mp hy with mem | mem
            · exact (List.nodup_cons.mp nd₂).1 mem
            · exact g₂ (by simp [List.mem_singleton.mp mem])
          simp only [Links.splice, first, update_of_ne (other hy' (.head _)), update_of_ne hyz,
            update_of_ne (other hy' (by simp : f ∈ h :: f :: m))]

/-- The ring whose nodes have gone. -/
theorem Ring.splice_self : Ring (L.splice h x) h [] :=
  ⟨List.nodup_singleton _, update_self _ _ _, update_self _ _ _⟩

/-- A ring apart from the two is left alone. -/
theorem Ring.splice_frame (r : Ring L g l) (hh : h ∉ g :: l) (hx : x ∉ g :: l)
    (hn : L.next h ∉ g :: l) (hp : L.prev h ∉ g :: l) (hb : L.prev x ∉ g :: l) :
    Ring (L.splice h x) g l := by
  have off {z : α} (hz : z ∉ g :: l) {y : α} (hy : y ∈ g :: l) : y ≠ z := by
    rintro rfl
    exact hz hy
  refine r.frame (fun y hy => ?_) fun y hy => ?_
  · simp only [Links.splice, update_of_ne (off hh hy), update_of_ne (off hb hy),
      update_of_ne (off hp hy)]
  · simp only [Links.splice, update_of_ne (off hh hy), update_of_ne (off hx hy),
      update_of_ne (off hn hy)]

/-- The nodes of one ring go before a node of another. -/
theorem Rings.splice {ι : Type} [DecidableEq ι] {head : ι → α} {l : ι → List α} {i j : ι}
    (h : Rings L head l) (ne : j ≠ i) (some : l j ≠ []) (split : l i = l₁ ++ l₂)
    (hx : l₂.headD (head i) = x) :
    Rings (L.splice (head j) x) head (update (update l j []) i (l₁ ++ (l j ++ l₂))) := by
  have r : Ring L (head i) (l₁ ++ l₂) := split ▸ h.ring i
  have mem : x ∈ head i :: l i := by
    rw [split, ← hx]
    cases l₂ <;> simp
  have old : ∀ {k y}, y ∈ head k :: update (update l j []) i (l₁ ++ (l j ++ l₂)) k →
      (y ∈ head k :: l k ∧ (k = j → y = head j)) ∨ (k = i ∧ y ∈ l j) := by
    intro k y hy
    by_cases ki : k = i
    · subst ki
      rw [update_self] at hy
      have parts : y = head k ∨ y ∈ l₁ ∨ y ∈ l j ∨ y ∈ l₂ := by simpa using hy
      rcases parts with rfl | front | moved | rear
      · exact .inl ⟨.head _, fun e => absurd e.symm ne⟩
      · exact .inl ⟨List.mem_cons_of_mem _ (by simp [split, front]), fun e => absurd e.symm ne⟩
      · exact .inr ⟨rfl, moved⟩
      · exact .inl ⟨List.mem_cons_of_mem _ (by simp [split, rear]), fun e => absurd e.symm ne⟩
    · rw [update_of_ne ki] at hy
      by_cases kj : k = j
      · subst kj
        rw [update_self, List.mem_singleton] at hy
        exact .inl ⟨by simp [hy], fun _ => hy⟩
      · rw [update_of_ne kj] at hy
        exact .inl ⟨hy, fun e => absurd e kj⟩
  have moved {k : ι} {y : α} (hk : y ∈ head k :: l k) (same : k = j → y = head j) : y ∉ l j := by
    intro hy
    have e : k = j := h.disjoint k j y hk (List.mem_cons_of_mem _ hy)
    rw [same e] at hy
    exact (h.ring j).head_notMem hy
  refine ⟨fun k => ?_, fun k k' y hk hk' => ?_⟩
  · by_cases ki : k = i
    · subst ki
      rw [update_self]
      refine r.splice (h.ring j) (fun y hy hy' => ne ?_) some hx
      exact (h.disjoint k j y (split ▸ hy) hy').symm
    rw [update_of_ne ki]
    by_cases kj : k = j
    · subst kj
      rw [update_self]
      exact .splice_self
    · rw [update_of_ne kj]
      have own : head j ∈ head j :: l j := .head _
      exact (h.ring k).splice_frame (fun m => kj (h.disjoint k j _ m own))
        (fun m => ki (h.disjoint k i _ m mem))
        (fun m => kj (h.disjoint k j _ m ((h.ring j).next_mem own)))
        (fun m => kj (h.disjoint k j _ m ((h.ring j).prev_mem own)))
        fun m => ki (h.disjoint k i _ m ((h.ring i).prev_mem mem))
  · rcases old hk with ⟨here, same⟩ | ⟨rfl, new⟩ <;>
      rcases old hk' with ⟨here', same'⟩ | ⟨rfl, new'⟩
    · exact h.disjoint k k' y here here'
    · exact absurd new' (moved here same)
    · exact absurd new (moved here' same')
    · rfl

end

end Rtai.Lib
