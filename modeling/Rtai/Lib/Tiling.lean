import Mathlib.Data.List.Perm.Basic
import Mathlib.Algebra.Order.Ring.Nat

/-!
# Regions tiled by blocks

A region of memory is a sequence of blocks, each a header of `hdr` bytes and `size`
bytes of data, with `lost` bytes behind it that belong to no block.  `take` serves a
request from the first free block that is large enough, and splits it if a block of at
least `unit` bytes is left.  `release` frees a block and joins it with the free blocks
it touches.

`Tiles` says that a sequence fills a region, every block at a multiple of `unit`, and
`Apart` that no free block touches another.  `blocks` are the data areas in use.  The
lemmas are what the two operations keep, and what they add to `blocks` or remove.
-/

namespace Rtai.Lib

/-- A block and what is lost behind it. -/
structure Tile where
  used : Bool
  size : Nat
  lost : Nat
deriving DecidableEq, Repr

namespace Tile

/-- The bytes from the header of the block to that of the next. -/
def span (hdr : Nat) (t : Tile) : Nat := hdr + t.size + t.lost

/-- The block is free and the next one follows at once. -/
def touches (t : Tile) : Prop := t.used = false ∧ t.lost = 0

instance (t : Tile) : Decidable t.touches := inferInstanceAs (Decidable (_ ∧ _))

end Tile

section Regions

variable (hdr unit : Nat)

/-- The first free block of those from `a` on, 0 if there is none. -/
def firstFree : Nat → List Tile → Nat
  | _, [] => 0
  | a, t :: ts => if t.used then firstFree (a + t.span hdr) ts else a

/-- The blocks fill the region from `a` to `stop`. -/
def Tiles : Nat → List Tile → Nat → Prop
  | a, [], stop => a = stop
  | a, t :: ts, stop =>
      unit ∣ a ∧ (t.used = true → unit ∣ t.size) ∧ Tiles (a + t.span hdr) ts stop

/-- No free block touches another. -/
def Apart : List Tile → Prop
  | [] => True
  | t :: ts => (t.touches → ∀ u ∈ ts.head?, u.used = true) ∧ Apart ts

/-- The data areas in use, with their sizes. -/
def blocks : Nat → List Tile → List (Nat × Nat)
  | _, [] => []
  | a, t :: ts =>
      if t.used then (a + hdr, t.size) :: blocks (a + t.span hdr) ts
      else blocks (a + t.span hdr) ts

/-- The free blocks, with their sizes. -/
def frees : Nat → List Tile → List (Nat × Nat)
  | _, [] => []
  | a, t :: ts =>
      if t.used then frees (a + t.span hdr) ts
      else (a, t.size) :: frees (a + t.span hdr) ts

/-- Where the headers are. -/
def headers : Nat → List Tile → List Nat
  | _, [] => []
  | a, t :: ts => a :: headers (a + t.span hdr) ts

/-- What a free block is cut into. -/
def cut (req : Nat) (t : Tile) : List Tile :=
  if t.size - req ≥ hdr + unit then
    [⟨true, req, 0⟩, ⟨false, t.size - (req + hdr), t.lost⟩]
  else [⟨true, req, t.size - req + t.lost⟩]

/-- The first free block of at least `req` bytes serves the request; the result is where
it is. -/
def take (req : Nat) : Nat → List Tile → Option (Nat × List Tile)
  | _, [] => none
  | a, t :: ts =>
      if t.used = false ∧ req ≤ t.size then some (a, cut hdr unit req t ++ ts)
      else (take req (a + t.span hdr) ts).map fun r => (r.1, t :: r.2)

/-- The first block is joined with the next if both are free and they touch. -/
def join : List Tile → List Tile
  | t :: u :: ts =>
      if t.touches ∧ u.used = false then ⟨false, t.size + hdr + u.size, u.lost⟩ :: ts
      else t :: u :: ts
  | ts => ts

/-- The block at `b` is freed. -/
def release (b : Nat) : Nat → List Tile → List Tile
  | _, [] => []
  | a, t :: ts =>
      if a = b then join hdr ({ t with used := false } :: ts)
      else join hdr (t :: release b (a + t.span hdr) ts)

end Regions

variable {hdr unit req a b stop p n f k : Nat} {t u : Tile} {ts ts' : List Tile}
  {xs : List (Nat × Nat)}

theorem mem_headers_join : a ∈ headers hdr a (join hdr (t :: ts)) := by
  cases ts with
  | nil => exact List.mem_cons_self
  | cons u ts =>
      rw [join]
      split
      · exact List.mem_cons_self
      · exact List.mem_cons_self

/-! ## Filling a region -/

theorem Tiles.le (h : Tiles hdr unit a ts stop) : a ≤ stop := by
  induction ts generalizing a with
  | nil => exact Nat.le_of_eq h
  | cons t ts ih => exact Nat.le_trans (Nat.le_add_right a _) (ih h.2.2)

theorem Tiles.cut (small : unit ∣ hdr) (fits : unit ∣ req) (room : req ≤ t.size)
    (h : Tiles hdr unit a (t :: ts) stop) :
    Tiles hdr unit a (cut hdr unit req t ++ ts) stop := by
  obtain ⟨aligned, -, rest⟩ := h
  unfold Lib.cut
  split
  next large =>
    refine ⟨aligned, fun _ => fits, ?_, nofun, ?_⟩
    · exact Nat.dvd_add aligned (Nat.dvd_add (Nat.dvd_add small fits) (Nat.dvd_zero unit))
    · have e : a + Tile.span hdr ⟨true, req, 0⟩ +
          Tile.span hdr ⟨false, t.size - (req + hdr), t.lost⟩ = a + t.span hdr := by
        simp only [Tile.span]
        omega
      show Tiles hdr unit (_ + _) ts stop
      rw [e]
      exact rest
  next =>
    refine ⟨aligned, fun _ => fits, ?_⟩
    have e : a + Tile.span hdr ⟨true, req, t.size - req + t.lost⟩ = a + t.span hdr := by
      simp only [Tile.span]
      omega
    show Tiles hdr unit (_ + _) ts stop
    rw [e]
    exact rest

theorem Tiles.take (small : unit ∣ hdr) (fits : unit ∣ req) (h : Tiles hdr unit a ts stop)
    (taken : take hdr unit req a ts = some (b, ts')) :
    Tiles hdr unit a ts' stop := by
  induction ts generalizing a ts' with
  | nil => cases taken
  | cons t ts ih =>
      rw [Lib.take] at taken
      split at taken
      next found =>
        cases taken
        exact h.cut small fits found.2
      next =>
        obtain ⟨⟨b', rest⟩, e, e'⟩ := Option.map_eq_some_iff.mp taken
        cases e'
        exact ⟨h.1, h.2.1, ih h.2.2 e⟩

theorem Tiles.join (h : Tiles hdr unit a ts stop) : Tiles hdr unit a (join hdr ts) stop := by
  rcases ts with _ | ⟨t, _ | ⟨u, ts⟩⟩
  · exact h
  · exact h
  · rw [Lib.join]
    split
    next both =>
      have e : a + Tile.span hdr ⟨false, t.size + hdr + u.size, u.lost⟩ =
          a + t.span hdr + u.span hdr := by
        simp only [Tile.span, both.1.2]
        omega
      refine ⟨h.1, nofun, ?_⟩
      rw [e]
      exact h.2.2.2.2
    next => exact h

theorem Tiles.release (h : Tiles hdr unit a ts stop) :
    Tiles hdr unit a (release hdr b a ts) stop := by
  induction ts generalizing a with
  | nil => exact h
  | cons t ts ih =>
      rw [Lib.release]
      split
      · exact Tiles.join ⟨h.1, nofun, h.2.2⟩
      · exact Tiles.join ⟨h.1, h.2.1, ih h.2.2⟩

theorem length_join : (join hdr ts).length ≤ ts.length := by
  rcases ts with _ | ⟨t, _ | ⟨u, ts⟩⟩
  · exact Nat.le_refl 0
  · exact Nat.le_refl 1
  · rw [join]
    split
    · exact Nat.le_succ _
    · exact Nat.le_refl _

theorem length_release : (release hdr b a ts).length ≤ ts.length := by
  induction ts generalizing a with
  | nil => exact Nat.le_refl 0
  | cons t ts ih =>
      rw [release]
      split
      · exact length_join
      · exact length_join.trans (Nat.succ_le_succ ih)

/-! ## Touching free blocks -/

theorem Apart.cut (free : t.used = false) (h : Apart (t :: ts)) :
    Apart (cut hdr unit req t ++ ts) := by
  unfold Lib.cut
  split
  · exact ⟨fun touches => (nomatch touches.1), fun touches => h.1 ⟨free, touches.2⟩, h.2⟩
  · exact ⟨fun touches => (nomatch touches.1), h.2⟩

theorem cut_head (v : Tile) (hv : v ∈ (cut hdr unit req t ++ ts).head?) : v.used = true := by
  unfold cut at hv
  split at hv
  · cases hv
    rfl
  · cases hv
    rfl

/-- What serves a request starts with a block in use, or as before. -/
theorem take_head (taken : take hdr unit req a ts = some (b, ts')) (v : Tile)
    (hv : v ∈ ts'.head?) : v.used = true ∨ v ∈ ts.head? := by
  rcases ts with _ | ⟨t, ts⟩
  · cases taken
  · rw [take] at taken
    split at taken
    · cases taken
      exact .inl (cut_head v hv)
    · obtain ⟨⟨b', rest⟩, -, e⟩ := Option.map_eq_some_iff.mp taken
      cases e
      exact .inr hv

theorem Apart.take (h : Apart ts) (taken : take hdr unit req a ts = some (b, ts')) : Apart ts' := by
  induction ts generalizing a ts' with
  | nil => cases taken
  | cons t ts ih =>
      rw [Lib.take] at taken
      split at taken
      next found =>
        cases taken
        exact h.cut found.1
      next =>
        obtain ⟨⟨b', rest⟩, e, e'⟩ := Option.map_eq_some_iff.mp taken
        cases e'
        refine ⟨fun touches v hv => ?_, ih h.2 e⟩
        exact (take_head e v hv).elim id (h.1 touches v)

/-- Joining the first two blocks leaves nothing that touches, if nothing behind them
does. -/
theorem Apart.join (h : Apart ts) : Apart (join hdr (t :: ts)) := by
  rcases ts with _ | ⟨u, ts⟩
  · exact ⟨nofun, trivial⟩
  · rw [Lib.join]
    split
    next both => exact ⟨fun touches => h.1 ⟨both.2, touches.2⟩, h.2⟩
    next apart =>
      refine ⟨fun touches v hv => ?_, h⟩
      cases hv
      exact Bool.eq_true_of_not_eq_false fun free => apart ⟨touches, free⟩

/-- Three blocks are joined in either order. -/
theorem join_join (touches : t.touches) (free : u.used = false) :
    join hdr (t :: join hdr (u :: ts)) = join hdr (⟨false, t.size + hdr + u.size, u.lost⟩ :: ts) := by
  rcases ts with _ | ⟨v, ts⟩
  · exact if_pos ⟨touches, free⟩
  · by_cases both : u.touches ∧ v.used = false
    · rw [Lib.join, if_pos both, Lib.join, if_pos ⟨touches, rfl⟩, Lib.join,
        if_pos ⟨⟨rfl, both.1.2⟩, both.2⟩]
      show (⟨false, t.size + hdr + (u.size + hdr + v.size), v.lost⟩ : Tile) :: ts =
        ⟨false, t.size + hdr + u.size + hdr + v.size, v.lost⟩ :: ts
      simp only [Nat.add_assoc]
    · have apart : ¬((⟨false, t.size + hdr + u.size, u.lost⟩ : Tile).touches ∧ v.used = false) :=
        fun h => both ⟨⟨free, h.1.2⟩, h.2⟩
      rw [Lib.join, if_neg both, Lib.join, if_pos ⟨touches, free⟩, Lib.join, if_neg apart]

theorem Apart.release (h : Apart ts) : Apart (release hdr b a ts) := by
  induction ts generalizing a with
  | nil => exact h
  | cons t ts ih =>
      rw [Lib.release]
      split
      · exact Apart.join h.2
      · exact Apart.join (ih h.2)

/-! ## The data areas -/

theorem blocks_cut (free : t.used = false) :
    blocks hdr a (cut hdr unit req t ++ ts) = (a + hdr, req) :: blocks hdr a (t :: ts) ∨
      t.size < req := by
  by_cases room : req ≤ t.size
  · left
    have whole : blocks hdr a (t :: ts) = blocks hdr (a + t.span hdr) ts := by
      rw [blocks, if_neg (by rw [free]; decide)]
    rw [whole]
    unfold cut
    split
    · have e : a + Tile.span hdr ⟨true, req, 0⟩ +
          Tile.span hdr ⟨false, t.size - (req + hdr), t.lost⟩ = a + t.span hdr := by
        simp only [Tile.span]
        omega
      show (a + hdr, req) :: blocks hdr (a + Tile.span hdr ⟨true, req, 0⟩ + _) ts = _
      rw [e]
    · have e : a + Tile.span hdr ⟨true, req, t.size - req + t.lost⟩ = a + t.span hdr := by
        simp only [Tile.span]
        omega
      show (a + hdr, req) :: blocks hdr (a + _) ts = _
      rw [e]
  · exact .inr (Nat.lt_of_not_le room)

/-- A request that is served adds its data area. -/
theorem blocks_take (taken : take hdr unit req a ts = some (b, ts')) :
    (blocks hdr a ts').Perm ((b + hdr, req) :: blocks hdr a ts) := by
  induction ts generalizing a ts' with
  | nil => cases taken
  | cons t ts ih =>
      rw [take] at taken
      split at taken
      next found =>
        cases taken
        rw [(blocks_cut found.1).resolve_right (Nat.not_lt.mpr found.2)]
      next =>
        obtain ⟨⟨b', rest⟩, e, e'⟩ := Option.map_eq_some_iff.mp taken
        cases e'
        rw [blocks, blocks]
        split
        · exact (List.Perm.cons _ (ih e)).trans (List.Perm.swap _ _ _)
        · exact ih e

theorem blocks_join : blocks hdr a (join hdr ts) = blocks hdr a ts := by
  rcases ts with _ | ⟨t, _ | ⟨u, ts⟩⟩
  · rfl
  · rfl
  · rw [join]
    split
    next both =>
      have e : a + Tile.span hdr ⟨false, t.size + hdr + u.size, u.lost⟩ =
          a + t.span hdr + u.span hdr := by
        simp only [Tile.span, both.1.2]
        omega
      simp only [blocks, both.1.1, both.2, Bool.false_eq_true, if_false, e]
    next => rfl

theorem blocks_ge (h : (p, n) ∈ blocks hdr a ts) : a + hdr ≤ p := by
  induction ts generalizing a with
  | nil => cases h
  | cons t ts ih =>
      have behind (h : (p, n) ∈ blocks hdr (a + t.span hdr) ts) : a + hdr ≤ p := by
        have := ih h
        simp only [Tile.span] at this
        omega
      rw [blocks] at h
      split at h
      · rcases List.mem_cons.mp h with h | h
        · cases h
          exact Nat.le_refl _
        · exact behind h
      · exact behind h

/-- A block that is freed takes its data area away. -/
theorem blocks_release (positive : 0 < hdr) (h : (b + hdr, n) ∈ blocks hdr a ts) :
    (blocks hdr a ts).Perm ((b + hdr, n) :: blocks hdr a (release hdr b a ts)) := by
  induction ts generalizing a with
  | nil => cases h
  | cons t ts ih =>
      have behind (h : (b + hdr, n) ∈ blocks hdr (a + t.span hdr) ts) : a ≠ b := by
        have := blocks_ge h
        simp only [Tile.span] at this
        omega
      rw [release]
      split
      next here =>
        subst here
        rw [blocks_join]
        rw [blocks] at h ⊢
        split at h
        next used =>
          rw [if_pos used]
          rcases List.mem_cons.mp h with h | h
          · cases h
            exact List.Perm.refl _
          · exact absurd rfl (behind h)
        next => exact absurd rfl (behind h)
      next elsewhere =>
        rw [blocks_join]
        rw [blocks] at h
        rw [blocks, blocks]
        split at h
        next used =>
          rw [if_pos used, if_pos used]
          rcases List.mem_cons.mp h with h | h
          · have e : b + hdr = a + hdr := congrArg Prod.fst h
            exact absurd (Nat.add_right_cancel e).symm elsewhere
          · exact (List.Perm.cons _ (ih h)).trans (List.Perm.swap _ _ _)
        next unused =>
          rw [if_neg unused, if_neg unused]
          exact ih h

/-! ## Where the blocks are -/

/-- Areas lie one behind the other, each with a header before it. -/
def Behind (hdr : Nat) : Nat → List (Nat × Nat) → Nat → Prop
  | a, [], stop => a ≤ stop
  | a, (p, n) :: xs, stop => a + hdr ≤ p ∧ Behind hdr (p + n) xs stop

theorem Behind.mono {a' : Nat} (h : Behind hdr a xs stop) (le : a' ≤ a) :
    Behind hdr a' xs stop := by
  rcases xs with _ | ⟨⟨p, n⟩, xs⟩
  · exact Nat.le_trans le h
  · exact ⟨Nat.le_trans (Nat.add_le_add_right le hdr) h.1, h.2⟩

theorem Behind.le (h : Behind hdr a xs stop) : a ≤ stop := by
  induction xs generalizing a with
  | nil => exact h
  | cons x xs ih =>
      have := ih h.2
      have := h.1
      omega

/-- The data areas of all blocks, in use or free. -/
def areas (hdr : Nat) : Nat → List Tile → List (Nat × Nat)
  | _, [] => []
  | a, t :: ts => (a + hdr, t.size) :: areas hdr (a + t.span hdr) ts

theorem Tiles.behind (h : Tiles hdr unit a ts stop) : Behind hdr a (areas hdr a ts) stop := by
  induction ts generalizing a with
  | nil => exact Nat.le_of_eq h
  | cons t ts ih =>
      refine ⟨Nat.le_refl _, (ih h.2.2).mono ?_⟩
      simp only [Tile.span]
      omega

theorem blocks_subset (h : (p, n) ∈ blocks hdr a ts) : (p, n) ∈ areas hdr a ts := by
  induction ts generalizing a with
  | nil => cases h
  | cons t ts ih =>
      rw [blocks] at h
      rw [areas, List.mem_cons]
      split at h
      · exact (List.mem_cons.mp h).imp_right ih
      · exact .inr (ih h)

theorem frees_subset (h : (f, n) ∈ frees hdr a ts) : (f + hdr, n) ∈ areas hdr a ts := by
  induction ts generalizing a with
  | nil => cases h
  | cons t ts ih =>
      rw [frees] at h
      rw [areas, List.mem_cons]
      split at h
      · exact .inr (ih h)
      · rcases List.mem_cons.mp h with h | h
        · cases h
          exact .inl rfl
        · exact .inr (ih h)

theorem Behind.ge (h : Behind hdr a xs stop) (mem : (p, n) ∈ xs) : a + hdr ≤ p ∧ p + n ≤ stop := by
  induction xs generalizing a with
  | nil => cases mem
  | cons x xs ih =>
      rcases List.mem_cons.mp mem with e | mem
      · cases e
        exact ⟨h.1, h.2.le⟩
      · have := ih h.2 mem
        have := h.1
        omega

/-- Two areas do not overlap, headers included. -/
theorem Behind.apart {q : Nat} (h : Behind hdr a xs stop) (hp : (p, n) ∈ xs) (hq : (q, k) ∈ xs)
    (other : p ≠ q) : p + n + hdr ≤ q ∨ q + k + hdr ≤ p := by
  induction xs generalizing a with
  | nil => cases hp
  | cons x xs ih =>
      rcases List.mem_cons.mp hp with e | inside
      · rcases List.mem_cons.mp hq with e' | behind
        · exact absurd (congrArg Prod.fst (e.trans e'.symm)) other
        · subst e
          exact .inl (h.2.ge behind).1
      · rcases List.mem_cons.mp hq with e' | behind
        · subst e'
          exact .inr (h.2.ge inside).1
        · exact ih h.2 inside behind

theorem Tiles.area_inside (h : Tiles hdr unit a ts stop) (mem : (p, n) ∈ areas hdr a ts) :
    a + hdr ≤ p ∧ p + n ≤ stop :=
  h.behind.ge mem

theorem Tiles.aligned (small : unit ∣ hdr) (h : Tiles hdr unit a ts stop)
    (mem : (p, n) ∈ areas hdr a ts) : unit ∣ p := by
  induction ts generalizing a with
  | nil => cases mem
  | cons t ts ih =>
      rcases List.mem_cons.mp mem with e | mem
      · cases e
        exact Nat.dvd_add h.1 small
      · exact ih h.2.2 mem

/-- The size of a block in use. -/
theorem Tiles.block_size (h : Tiles hdr unit a ts stop) (mem : (p, n) ∈ blocks hdr a ts) :
    unit ∣ n := by
  induction ts generalizing a with
  | nil => cases mem
  | cons t ts ih =>
      rw [blocks] at mem
      split at mem
      next used =>
        rcases List.mem_cons.mp mem with e | mem
        · cases e
          exact h.2.1 used
        · exact ih h.2.2 mem
      next => exact ih h.2.2 mem

theorem frees_ge (h : (f, n) ∈ frees hdr a ts) : a ≤ f := by
  induction ts generalizing a with
  | nil => cases h
  | cons t ts ih =>
      have behind (h : (f, n) ∈ frees hdr (a + t.span hdr) ts) : a ≤ f := by
        have := ih h
        omega
      rw [frees] at h
      split at h
      · exact behind h
      · rcases List.mem_cons.mp h with h | h
        · cases h
          exact Nat.le_refl _
        · exact behind h

/-- A free block as large as the region is all there is. -/
theorem Tiles.only (positive : 0 < hdr) (h : Tiles hdr unit a ts stop)
    (mem : (f, n) ∈ frees hdr a ts) (large : stop ≤ a + hdr + n) : ts = [⟨false, n, 0⟩] := by
  rcases ts with _ | ⟨t, ts⟩
  · cases mem
  · have behind (mem : (f, n) ∈ frees hdr (a + t.span hdr) ts) : False := by
      have := h.2.2.area_inside (frees_subset mem)
      simp only [Tile.span] at this
      omega
    rw [frees] at mem
    split at mem
    · exact (behind mem).elim
    next unused =>
      rcases List.mem_cons.mp mem with e | mem
      · obtain ⟨used, size, lost⟩ := t
        cases Bool.eq_false_of_not_eq_true unused
        obtain ⟨rfl, rfl⟩ : f = a ∧ n = size := Prod.mk.inj e
        have le := h.2.2.le
        simp only [Tile.span] at le
        have none : lost = 0 := by omega
        rcases ts with _ | ⟨u, us⟩
        · rw [none]
        · have le := h.2.2.2.2.le
          simp only [Tile.span] at le
          omega
      · exact (behind mem).elim

/-- A block is in use or free, not both. -/
theorem blocks_frees (positive : 0 < hdr) (hp : (p, n) ∈ blocks hdr a ts)
    (hf : (f, k) ∈ frees hdr a ts) : p ≠ f + hdr := by
  induction ts generalizing a with
  | nil => cases hp
  | cons t ts ih =>
      rw [blocks] at hp
      rw [frees] at hf
      split at hp
      next used =>
        rw [if_pos used] at hf
        rcases List.mem_cons.mp hp with e | hp
        · cases e
          have := frees_ge hf
          simp only [Tile.span] at this
          omega
        · exact ih hp hf
      next unused =>
        rw [if_neg unused] at hf
        rcases List.mem_cons.mp hf with e | hf
        · cases e
          have := blocks_ge hp
          simp only [Tile.span] at this
          omega
        · exact ih hp hf

/-- The blocks in use are in order, with a header between any two of them. -/
theorem blocks_pairwise : (blocks hdr a ts).Pairwise fun x y => x.1 + x.2 + hdr ≤ y.1 := by
  induction ts generalizing a with
  | nil => exact List.Pairwise.nil
  | cons t ts ih =>
      rw [blocks]
      split
      · refine List.Pairwise.cons (fun y hy => ?_) ih
        have := blocks_ge (p := y.1) (n := y.2) hy
        simp only [Tile.span] at this
        show a + hdr + t.size + hdr ≤ y.1
        omega
      · exact ih

/-- The free blocks are in order, with something between any two of them. -/
theorem Apart.frees_pairwise (positive : 0 < hdr) (h : Apart ts) :
    (frees hdr a ts).Pairwise fun x y => x.1 + hdr + x.2 < y.1 := by
  induction ts generalizing a with
  | nil => exact List.Pairwise.nil
  | cons t ts ih =>
      rw [frees]
      split
      · exact ih h.2
      next unused =>
        have free := Bool.eq_false_of_not_eq_true unused
        refine List.Pairwise.cons (fun y hy => ?_) (ih h.2)
        by_cases gap : t.lost = 0
        · rcases ts with _ | ⟨u, ts⟩
          · cases hy
          · have used : u.used = true := h.1 ⟨free, gap⟩ u rfl
            rw [frees, if_pos used] at hy
            have := frees_ge (f := y.1) (n := y.2) hy
            simp only [Tile.span] at this
            show a + hdr + t.size < y.1
            omega
        · have := frees_ge (f := y.1) (n := y.2) hy
          simp only [Tile.span] at this
          show a + hdr + t.size < y.1
          omega

/-! ## Nothing lost -/

/-- No bytes are lost behind a block. -/
def Whole (ts : List Tile) : Prop := ∀ t ∈ ts, t.lost = 0

/-- A request that leaves nothing, or enough for a block. -/
def Exact (hdr unit req : Nat) (ts : List Tile) : Prop :=
  ∀ t, ts.find? (fun t => t.used = false ∧ req ≤ t.size) = some t →
    t.size = req ∨ t.size - req ≥ hdr + unit

/-- A region that cannot serve a request has no free block of that size. -/
theorem take_none_frees (none : take hdr unit req a ts = none) :
    ∀ x ∈ frees hdr a ts, ¬req ≤ x.2 := by
  induction ts generalizing a with
  | nil => exact nofun
  | cons t ts ih =>
      rw [take] at none
      split at none
      · cases none
      next other =>
        have behind := ih (Option.map_eq_none_iff.mp none)
        rw [frees]
        split
        · exact behind
        next unused =>
          intro x hx
          rcases List.mem_cons.mp hx with rfl | hx
          · exact fun room => other ⟨Bool.eq_false_of_not_eq_true unused, room⟩
          · exact behind x hx

/-- The block that serves a request is the first free one that is large enough. -/
theorem find_frees (hdr a : Nat)
    (found : ts.find? (fun t => t.used = false ∧ req ≤ t.size) = some t) :
    ∃ f, (frees hdr a ts).find? (fun x => req ≤ x.2) = some (f, t.size) := by
  induction ts generalizing a with
  | nil => cases found
  | cons u ts ih =>
      by_cases serves : u.used = false ∧ req ≤ u.size
      · have first : (u :: ts).find? (fun t => t.used = false ∧ req ≤ t.size) = some u :=
          List.find?_cons_of_pos (decide_eq_true serves)
        cases first.symm.trans found
        refine ⟨a, ?_⟩
        rw [frees, if_neg (by rw [serves.1]; decide)]
        exact List.find?_cons_of_pos (decide_eq_true serves.2)
      · rw [List.find?_cons_of_neg (by rwa [decide_eq_true_eq])] at found
        obtain ⟨f, behind⟩ := ih (a + u.span hdr) found
        refine ⟨f, ?_⟩
        rw [frees]
        split
        · exact behind
        next unused =>
          rw [List.find?_cons_of_neg]
          · exact behind
          · rw [decide_eq_true_eq]
            exact fun room => serves ⟨Bool.eq_false_of_not_eq_true unused, room⟩

theorem Whole.take (whole : Whole ts) (exact : Exact hdr unit req ts)
    (taken : take hdr unit req a ts = some (b, ts')) : Whole ts' := by
  induction ts generalizing a ts' with
  | nil => cases taken
  | cons t ts ih =>
      have lost := whole t List.mem_cons_self
      have rest : Whole ts := fun u hu => whole u (List.mem_cons_of_mem t hu)
      rw [Lib.take] at taken
      split at taken
      next found =>
        cases taken
        have fits := exact t (List.find?_cons_of_pos (decide_eq_true found))
        intro u hu
        unfold cut at hu
        split at hu
        · simp only [List.cons_append, List.nil_append, List.mem_cons] at hu
          rcases hu with rfl | rfl | hu
          · rfl
          · exact lost
          · exact rest u hu
        next small =>
          simp only [List.cons_append, List.nil_append, List.mem_cons] at hu
          rcases hu with rfl | hu
          · show t.size - req + t.lost = 0
            omega
          · exact rest u hu
      next missed =>
        obtain ⟨⟨b', ts'⟩, e, e'⟩ := Option.map_eq_some_iff.mp taken
        cases e'
        have exact' : Exact hdr unit req ts := fun u hu => by
          refine exact u ?_
          rw [List.find?_cons_of_neg (by rwa [decide_eq_true_eq])]
          exact hu
        intro u hu
        rcases List.mem_cons.mp hu with rfl | hu
        · exact lost
        · exact ih rest exact' e u hu

theorem Whole.join (whole : Whole ts) : Whole (join hdr ts) := by
  rcases ts with _ | ⟨t, _ | ⟨u, ts⟩⟩
  · exact whole
  · exact whole
  · rw [Lib.join]
    split
    · intro v hv
      rcases List.mem_cons.mp hv with rfl | hv
      · exact whole u (List.mem_cons_of_mem t List.mem_cons_self)
      · exact whole v (List.mem_cons_of_mem t (List.mem_cons_of_mem u hv))
    · exact whole

theorem Whole.release (whole : Whole ts) : Whole (release hdr b a ts) := by
  induction ts generalizing a with
  | nil => exact whole
  | cons t ts ih =>
      have lost := whole t List.mem_cons_self
      have rest : Whole ts := fun u hu => whole u (List.mem_cons_of_mem t hu)
      rw [Lib.release]
      split
      · refine Whole.join fun u hu => ?_
        rcases List.mem_cons.mp hu with rfl | hu
        · exact lost
        · exact rest u hu
      · refine Whole.join fun u hu => ?_
        rcases List.mem_cons.mp hu with rfl | hu
        · exact lost
        · exact ih rest u hu

/-- A region with no block in use, no bytes lost and no free blocks that touch is one
free block. -/
theorem Tiles.single (h : Tiles hdr unit a ts stop) (apart : Apart ts) (whole : Whole ts)
    (unused : blocks hdr a ts = []) (nonempty : ts ≠ []) :
    ts = [⟨false, stop - (a + hdr), 0⟩] := by
  rcases ts with _ | ⟨t, ts⟩
  · exact absurd rfl nonempty
  · have lost : t.lost = 0 := whole t List.mem_cons_self
    rw [blocks] at unused
    split at unused
    · cases unused
    next notUsed =>
      have free := Bool.eq_false_of_not_eq_true notUsed
      rcases ts with _ | ⟨u, ts⟩
      · have e : a + t.span hdr = stop := h.2.2
        obtain ⟨used, size, lost'⟩ := t
        cases free
        cases lost
        simp only [Tile.span] at e
        have size' : size = stop - (a + hdr) := by omega
        rw [size']
      · have used : u.used = true := apart.1 ⟨free, lost⟩ u rfl
        rw [blocks, if_pos used] at unused
        cases unused

/-- The headers and the blocks in use fit in the region. -/
theorem Tiles.sum_blocks (h : Tiles hdr unit a ts stop) :
    a + hdr * ts.length + ((blocks hdr a ts).map Prod.snd).sum ≤ stop := by
  induction ts generalizing a with
  | nil => simpa [blocks, Tiles] using Nat.le_of_eq h
  | cons t ts ih =>
      have rest := ih h.2.2
      rw [List.length_cons, Nat.mul_succ, blocks]
      simp only [Tile.span] at rest ⊢
      split
      · rw [List.map_cons, List.sum_cons]
        omega
      · omega

end Rtai.Lib
