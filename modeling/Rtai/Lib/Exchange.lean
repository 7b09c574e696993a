import Rtai.Lib.Circular

/-!
# A ring between a producer and a consumer

Each copies a block, then changes both counts, and then moves its position.  The counts say what
the queue is, and each position may be behind them: `Exchange` has the producer `put` cells
behind, and the consumer `get` cells.  `stage` is a block that the producer has copied and not
counted.

The moves of one side leave what is said of the other as it is, so that they may come in any
order: `Exchange.stage`, `count` and `settle` are those of the producer, `peek`, `release` and
`settleFront` those of the consumer.
-/

namespace Rtai.Lib

variable {α : Type}

structure Exchange (mem : Int → α) (size fbyte lbyte avbs frbs get put : Int) (stage q : List α) :
    Prop where
  queued : Queued mem size ((fbyte + get) % size) ((lbyte + put) % size) avbs frbs q
  front : (0 ≤ fbyte ∧ fbyte < size) ∧ 0 ≤ get ∧ fbyte + get ≤ size
  back : (0 ≤ lbyte ∧ lbyte < size) ∧ 0 ≤ put ∧ lbyte + put ≤ size
  staged : ∀ (k : Nat) (hk : k < stage.length), mem (lbyte + put + k) = stage[k]
  room : (stage.length : Int) ≤ frbs ∧ lbyte + put + stage.length ≤ size

variable {mem : Int → α} {size fbyte lbyte avbs frbs get put t : Int} {stage b q : List α}

namespace Exchange

theorem init (pos : 0 < size) : Exchange mem size 0 0 0 size 0 0 [] [] where
  queued := ⟨pos, by simp [pos], by simp, by simp, by simp, rfl⟩
  front := ⟨⟨le_refl _, pos⟩, le_refl _, by simpa using pos.le⟩
  back := ⟨⟨le_refl _, pos⟩, le_refl _, by simpa using pos.le⟩
  staged := fun _ hk => absurd hk (Nat.not_lt_zero _)
  room := ⟨by simpa using pos.le, by simpa using pos.le⟩

theorem pos (h : Exchange mem size fbyte lbyte avbs frbs get put stage q) : 0 < size :=
  h.queued.pos

/-- The counts are those of the queue. -/
theorem counts (h : Exchange mem size fbyte lbyte avbs frbs get put stage q) :
    avbs = q.length ∧ frbs = size - q.length := ⟨h.queued.count, h.queued.room⟩

/-! ## The producer -/

theorem stage_block (h : Exchange mem size fbyte lbyte avbs frbs get 0 [] q)
    (room : b.length ≤ frbs) (block : lbyte + b.length ≤ size) :
    Exchange (blit mem lbyte b) size fbyte lbyte avbs frbs get 0 b q := by
  obtain ⟨queued, front, ⟨⟨low, high⟩, put⟩, -, -⟩ := h
  have last : (lbyte + 0) % size = lbyte := by rw [add_zero, Int.emod_eq_of_lt low high]
  rw [last] at queued
  refine ⟨?_, front, ⟨⟨low, high⟩, put⟩, fun k hk => ?_, room, ?_⟩
  · rw [last]
    exact queued.stage room block
  · rw [add_zero]
    exact blit_inside hk
  · rw [add_zero]
    exact block

theorem count (h : Exchange mem size fbyte lbyte avbs frbs get 0 b q) :
    Exchange mem size fbyte lbyte (avbs + b.length) (frbs - b.length) get b.length [] (q ++ b) := by
  obtain ⟨queued, front, ⟨⟨low, high⟩, put⟩, staged, room, block⟩ := h
  have last : (lbyte + 0) % size = lbyte := by rw [add_zero, Int.emod_eq_of_lt low high]
  rw [add_zero] at block
  rw [last] at queued
  refine ⟨?_, front, ⟨⟨low, high⟩, Int.natCast_nonneg _, block⟩, ?_, ?_, ?_⟩
  · exact queued.commit (fun k hk => by simpa using staged k hk) block
  · exact fun _ hk => absurd hk (Nat.not_lt_zero _)
  · simpa using room
  · simpa using block

theorem settle (h : Exchange mem size fbyte lbyte avbs frbs get put [] q) :
    Exchange mem size fbyte (around size (lbyte + put)) avbs frbs get 0 [] q := by
  obtain ⟨queued, front, ⟨⟨low, high⟩, nonneg, inside⟩, staged, room, block⟩ := h
  obtain ⟨low', high'⟩ := around_bounds (by omega) (show lbyte + put < 2 * size by omega)
  refine ⟨?_, front, ⟨⟨low', high'⟩, le_refl _, ?_⟩, ?_, room, ?_⟩
  · rw [add_zero, around_eq (by omega) (by omega), Int.emod_emod]
    exact queued
  · rw [add_zero]
    exact high'.le
  · exact fun _ hk => absurd hk (Nat.not_lt_zero _)
  · simpa using high'.le

/-! ## The consumer -/

section

variable (h : Exchange mem size fbyte lbyte avbs frbs 0 put stage q) (low : 0 ≤ t)
  (there : t ≤ avbs) (block : fbyte + t ≤ size)
include h low there block

theorem peek : ((List.range t.toNat).map fun k : Nat => mem (fbyte + k)) = q.take t.toNat := by
  have queued := h.queued
  rw [add_zero, Int.emod_eq_of_lt h.front.1.1 h.front.1.2] at queued
  exact queued.front low there block

theorem release :
    Exchange mem size fbyte lbyte (avbs - t) (frbs + t) t put stage (q.drop t.toNat) := by
  obtain ⟨queued, ⟨bounds, -⟩, back, staged, room, inside⟩ := h
  rw [add_zero, Int.emod_eq_of_lt bounds.1 bounds.2] at queued
  exact ⟨queued.drop low there, ⟨bounds, low, block⟩, back, staged,
    room.trans (le_add_of_nonneg_right low), inside⟩

end

theorem settleFront (h : Exchange mem size fbyte lbyte avbs frbs get put stage q) :
    Exchange mem size (around size (fbyte + get)) lbyte avbs frbs 0 put stage q := by
  obtain ⟨queued, ⟨⟨low, high⟩, nonneg, inside⟩, back, staged, room⟩ := h
  obtain ⟨low', high'⟩ := around_bounds (by omega) (show fbyte + get < 2 * size by omega)
  refine ⟨?_, ⟨⟨low', high'⟩, le_refl _, ?_⟩, back, staged, room⟩
  · rw [add_zero, around_eq (by omega) (by omega), Int.emod_emod]
    exact queued
  · rw [add_zero]
    exact high'.le

end Exchange

end Rtai.Lib
