import Mathlib.Data.Int.ModEq
import Mathlib.Data.List.Range
import Mathlib.Logic.Function.Basic

/-!
# Circular buffers

`window mem size first n` is the contents of `n` cells of a ring of `size` cells
of the memory `mem`, read from the cell `first` on and around.  A queue of bytes
is kept in such a window: `window_add` splits it, so that bytes are taken out at
the front, and `window_blit` is what a copy behind its end does to it.  `Queued` says so of a
ring with its two ends and its counts.
-/

namespace Rtai.Lib

variable {α : Type}

/-- The cells from `first` on, read around the ring. -/
def window (mem : Int → α) (size first : Int) (n : Nat) : List α :=
  (List.range n).map fun k : Nat => mem ((first + k) % size)

/-- The memory with `b` copied to `pos`. -/
def blit (mem : Int → α) (pos : Int) (b : List α) : Int → α := fun i =>
  if pos ≤ i then b[(i - pos).toNat]?.getD (mem i) else mem i

variable {mem : Int → α} {size first pos i : Int} {m n k : Nat} {b : List α}

@[simp] theorem window_length : (window mem size first n).length = n := by
  simp [window]

@[simp] theorem window_zero : window mem size first 0 = [] := rfl

theorem window_add : window mem size first (m + n) =
    window mem size first m ++ window mem size (first + m) n := by
  simp only [window, List.range_add, List.map_append, List.map_map]
  congr 1
  refine List.map_congr_left fun k _ => ?_
  simp only [Function.comp_apply, Nat.cast_add, add_assoc]

theorem window_take (h : m ≤ n) :
    (window mem size first n).take m = window mem size first m := by
  obtain ⟨k, rfl⟩ := Nat.exists_eq_add_of_le h
  rw [window_add, List.take_left' window_length]

theorem window_drop (h : m ≤ n) :
    (window mem size first n).drop m = window mem size (first + m) (n - m) := by
  obtain ⟨k, rfl⟩ := Nat.exists_eq_add_of_le h
  rw [window_add, List.drop_left' window_length, Nat.add_sub_cancel_left]

/-- Only the place on the ring of the first cell counts. -/
theorem window_congr {first' : Int} (h : first' % size = first % size) :
    window mem size first' n = window mem size first n := by
  refine List.map_congr_left fun k _ => ?_
  rw [← Int.emod_add_emod, h, Int.emod_add_emod]

/-- A block that does not reach over the end of the memory of the ring. -/
theorem window_block (start : 0 ≤ pos) (fits : pos + n ≤ size) :
    window mem size pos n = (List.range n).map fun k : Nat => mem (pos + k) := by
  refine List.map_congr_left fun k hk => ?_
  have hk := List.mem_range.mp hk
  rw [Int.emod_eq_of_lt (by omega) (by omega)]

/-- A position that may be beyond the end, on the ring. -/
def around (size i : Int) : Int := if i < size then i else i - size

theorem around_eq (low : 0 ≤ i) (round : i < 2 * size) : around size i = i % size := by
  rw [around]
  split
  next inside => exact (Int.emod_eq_of_lt low inside).symm
  next beyond =>
    rw [← Int.sub_emod_right]
    exact (Int.emod_eq_of_lt (by omega) (by omega)).symm

theorem around_bounds (low : 0 ≤ i) (round : i < 2 * size) :
    0 ≤ around size i ∧ around size i < size := by
  rw [around_eq low round]
  exact ⟨Int.emod_nonneg _ (by omega), Int.emod_lt_of_pos _ (by omega)⟩

/-- Two cells less than a round apart are different. -/
theorem cell_ne {j : Nat} (apart : j < k) (round : (k : Int) < j + size) :
    (first + j) % size ≠ (first + k) % size := by
  intro e
  have d : size ∣ (first + k) - (first + j) := Int.ModEq.dvd e
  have := Int.le_of_dvd (by omega) d
  omega

theorem blit_inside (h : k < b.length) : blit mem pos b (pos + k) = b[k] := by
  simp [blit, h]

theorem blit_outside (h : ∀ k : Nat, k < b.length → i ≠ pos + k) : blit mem pos b i = mem i := by
  unfold blit
  split
  next le =>
    by_cases inside : (i - pos).toNat < b.length
    · exact absurd (by omega) (h _ inside)
    · rw [List.getElem?_eq_none (by omega), Option.getD_none]
  next => rfl

theorem blit_one {a : α} : blit mem pos [a] = Function.update mem pos a := by
  funext i
  rcases eq_or_ne i pos with rfl | other
  · simp [blit]
  · rw [Function.update_of_ne other]
    refine blit_outside fun k hk => ?_
    rw [List.length_singleton] at hk
    omega

/-- The cells of a window that a copy does not write to. -/
theorem window_frame (other : ∀ j : Nat, j < n → ∀ k : Nat, k < b.length → (first + j) % size ≠ pos + k) :
    window (blit mem pos b) size first n = window mem size first n := by
  refine List.map_congr_left fun j hj => blit_outside fun k hk => ?_
  exact other j (List.mem_range.mp hj) k hk

section

variable (start : 0 ≤ pos) (fits : pos + b.length ≤ size) (place : pos % size = (first + n) % size)
include start fits place

/-- The cells of a copy, on the ring. -/
theorem cell_copy (hk : k < b.length) : (first + (n + k : Nat)) % size = pos + k := by
  rw [Nat.cast_add, ← add_assoc, ← Int.emod_add_emod, ← place, Int.emod_add_emod]
  exact Int.emod_eq_of_lt (by omega) (by omega)

/-- A copy behind the end of a window appends to it. -/
theorem window_blit (room : (n + b.length : Int) ≤ size) :
    window (blit mem pos b) size first (n + b.length) = window mem size first n ++ b := by
  have cell (k : Nat) (hk : k < b.length) := cell_copy start fits place hk
  rw [window_add]
  congr 1
  · refine window_frame fun j hj k hk e => ?_
    rw [← cell k hk] at e
    exact cell_ne (by omega) (by omega) e
  · refine List.ext_getElem window_length fun k h₁ h₂ => ?_
    have inside := cell k h₂
    rw [Nat.cast_add, ← add_assoc] at inside
    simp only [window, List.getElem_map, List.getElem_range, inside]
    exact blit_inside h₂

/-- A copy before a window leaves it as it is. -/
theorem window_blit_before (before : n + b.length ≤ m) {r : Nat} (room : (m + r : Int) ≤ size) :
    window (blit mem pos b) size (first + m) r = window mem size (first + m) r := by
  refine window_frame fun j hj k hk e => ?_
  rw [← cell_copy start fits place hk, add_assoc, ← Nat.cast_add] at e
  exact cell_ne (by omega) (by omega) e.symm

end

/-! ## Queues in a ring -/

/-- The cells from `first` on are the queue; `used` and `free` count the cells, and `last` is
behind the queue. -/
structure Queued (mem : Int → α) (size first last used free : Int) (q : List α) : Prop where
  pos : 0 < size
  start : 0 ≤ first ∧ first < size
  behind : last = (first + q.length) % size
  count : used = q.length
  room : free = size - q.length
  cells : window mem size first q.length = q

namespace Queued

variable {last used free t : Int} {q : List α}
variable (h : Queued mem size first last used free q)
include h

theorem last_bounds : 0 ≤ last ∧ last < size := by
  rw [h.behind]
  exact ⟨Int.emod_nonneg _ (by have := h.pos; omega), Int.emod_lt_of_pos _ h.pos⟩

/-- A block is copied behind the queue, which is not longer for that. -/
theorem stage (room : b.length ≤ free) (block : last + b.length ≤ size) :
    Queued (blit mem last b) size first last used free q := by
  have low := h.last_bounds.1
  have place : last % size = (first + q.length) % size := by rw [h.behind, Int.emod_emod]
  have free_eq := h.room
  refine ⟨h.pos, h.start, h.behind, h.count, h.room, ?_⟩
  rw [window_frame fun j hj k hk e => ?_]
  · exact h.cells
  · rw [← cell_copy low block place hk] at e
    exact cell_ne (by omega) (by omega) e

/-- The block behind the queue becomes its end. -/
theorem commit (there : ∀ (k : Nat) (hk : k < b.length), mem (last + k) = b[k])
    (block : last + b.length ≤ size) :
    Queued mem size first ((last + b.length) % size) (used + b.length) (free - b.length)
      (q ++ b) := by
  have low := h.last_bounds.1
  have place : last % size = (first + q.length) % size := by rw [h.behind, Int.emod_emod]
  have free_eq := h.room
  have used_eq := h.count
  constructor
  · exact h.pos
  · exact h.start
  · rw [h.behind, Int.emod_add_emod, List.length_append, Nat.cast_add, add_assoc]
  · rw [List.length_append, Nat.cast_add, used_eq]
  · rw [List.length_append, Nat.cast_add, free_eq]
    omega
  · rw [List.length_append, window_add, h.cells]
    congr 1
    refine List.ext_getElem window_length fun k h₁ h₂ => ?_
    have inside := cell_copy low block place h₂
    rw [Nat.cast_add, ← add_assoc] at inside
    simp only [window, List.getElem_map, List.getElem_range, inside]
    exact there k h₂

/-- A block is copied behind the queue. -/
theorem append (room : b.length ≤ free) (block : last + b.length ≤ size) :
    Queued (blit mem last b) size first ((last + b.length) % size) (used + b.length)
      (free - b.length) (q ++ b) :=
  (h.stage room block).commit (fun _ hk => blit_inside hk) block

/-- Some are taken from the front. -/
theorem drop (low : 0 ≤ t) (there : t ≤ used) :
    Queued mem size ((first + t) % size) last (used - t) (free + t) (q.drop t.toNat) := by
  have used_eq := h.count
  have free_eq := h.room
  have pos := h.pos
  have len : ((q.drop t.toNat).length : Int) = q.length - t := by
    rw [List.length_drop]
    omega
  constructor
  · exact pos
  · exact ⟨Int.emod_nonneg _ (by omega), Int.emod_lt_of_pos _ pos⟩
  · rw [len, Int.emod_add_emod, h.behind]
    congr 1
    omega
  · omega
  · omega
  · rw [window_congr (Int.emod_emod _ _), List.length_drop]
    conv_rhs => rw [← h.cells]
    rw [window_drop (by omega), Int.toNat_of_nonneg low]

/-- A block at the front of the ring is the front of the queue. -/
theorem front (low : 0 ≤ t) (there : t ≤ used) (block : first + t ≤ size) :
    ((List.range t.toNat).map fun k : Nat => mem (first + k)) = q.take t.toNat := by
  have used_eq := h.count
  conv_rhs => rw [← h.cells]
  rw [window_take (by omega), window_block h.start.1 (by omega)]

/-- The first of the queue is taken. -/
theorem next (some : 0 < used) :
    ∃ q', q = mem first :: q' ∧
      Queued mem size ((first + 1) % size) last (used - 1) (free + 1) q' := by
  have start := h.start
  have count := h.count
  have head := h.front Int.one_nonneg (by omega) (by omega)
  have rest := h.drop Int.one_nonneg (by omega)
  cases q with
  | nil => simp at count; omega
  | cons a q =>
      refine ⟨q, ?_, rest⟩
      simp at head
      rw [head]

end Queued

/-! ## Turns of a loop -/

section

variable {t want : Int} {q : List α}

theorem length_take (low : 0 ≤ t) (there : t ≤ q.length) : ((q.take t.toNat).length : Int) = t := by
  rw [List.length_take]
  omega

theorem length_drop (low : 0 ≤ t) (there : t ≤ q.length) :
    ((q.drop t.toNat).length : Int) = q.length - t := by
  rw [List.length_drop]
  omega

/-- What is wanted is taken in a turn and in those behind it. -/
theorem take_turn (low : 0 ≤ t) (enough : t ≤ want) (q : List α) :
    q.take want.toNat = q.take t.toNat ++ (q.drop t.toNat).take (want - t).toNat := by
  rw [← List.take_add]
  congr 1
  omega

theorem drop_turn (low : 0 ≤ t) (enough : t ≤ want) (q : List α) :
    q.drop want.toNat = (q.drop t.toNat).drop (want - t).toNat := by
  rw [List.drop_drop]
  congr 1
  omega

/-- There are no more turns. -/
theorem no_turn (done : want ≤ 0 ∨ q.length = 0) :
    q.take want.toNat = [] ∧ q.drop want.toNat = q := by
  rcases done with none | empty
  · rw [Int.toNat_of_nonpos none]
    exact ⟨List.take_zero, List.drop_zero⟩
  · obtain rfl := List.eq_nil_of_length_eq_zero empty
    exact ⟨List.take_nil, List.drop_nil⟩

end

end Rtai.Lib
