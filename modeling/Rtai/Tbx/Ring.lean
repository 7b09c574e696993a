import Rtai.Tbx.Buffer

/-!
# The buffer as a ring of bytes

`Holds b q` says that the available bytes of the buffer, from `fbyte` on, are `q`.  A message is
appended to them behind its type byte, or put before them, and a receiver takes the first ones.
The loop of `tbxbackput` fills the gap between the new `fbyte` and the old one from its start on.
-/

namespace Rtai.Tbx

open Rtai.Lib

namespace Buffer

/-- The available bytes are `q`, and the others are free. -/
def Holds (b : Buffer) (q : List UInt8) : Prop :=
  Queued b.bufadr b.size b.fbyte ((b.fbyte + q.length) % b.size) b.avbs b.frbs q

/-- The available bytes, from `fbyte` on. -/
def available (b : Buffer) : List UInt8 := window b.bufadr b.size b.fbyte b.avbs.toNat

/-- The counts are in order. -/
structure Counted (b : Buffer) : Prop where
  size : 0 < b.size
  total : b.avbs + b.frbs = b.size
  fbyte : 0 ≤ b.fbyte ∧ b.fbyte < b.size
  avbs : 0 ≤ b.avbs

variable {b b' : Buffer} {q msg old : List UInt8} {type : UInt8} {pos t i msgSize : Int} {k n : Nat}

theorem Counted.holds (counted : b.Counted) : b.Holds b.available := by
  have total := counted.total
  have low := counted.avbs
  have len : (b.available.length : Int) = b.avbs := by
    rw [available, window_length, Int.toNat_of_nonneg low]
  refine ⟨counted.size, counted.fbyte, rfl, len.symm, ?_, ?_⟩
  · omega
  · rw [available, window_length]

theorem Holds.counted (h : b.Holds q) : b.Counted := by
  have count := h.count
  have room := h.room
  exact ⟨h.pos, by omega, h.start, by omega⟩

theorem Holds.available (h : b.Holds q) : b.available = q := by
  rw [Buffer.available, h.count, Int.toNat_natCast, h.cells]

theorem modSize_eq (low : 0 ≤ i) (round : i < 2 * b.size) : b.modSize i = i % b.size :=
  around_eq low round

theorem reverseModSize_eq (round : -b.size ≤ i) (high : i < b.size) :
    b.reverseModSize i = i % b.size := by
  rw [reverseModSize]
  split
  next inside => exact (Int.emod_eq_of_lt inside high).symm
  next before =>
    rw [← Int.add_emod_left]
    exact (Int.emod_eq_of_lt (by omega) (by omega)).symm

/-- A block is not empty, and no longer than what is wanted or fits. -/
theorem block_spec (want : Int) (inside : pos < b.size) (positive : 0 < want) :
    0 < b.block pos want ∧ b.block pos want ≤ want ∧ pos + b.block pos want ≤ b.size := by
  rw [block]
  split <;> omega

namespace Holds

variable (h : b.Holds q)
include h

theorem length_le (room : 0 ≤ b.frbs) : (q.length : Int) ≤ b.size := by
  have := h.room
  omega

/-- The place behind the available bytes. -/
theorem last (room : 0 < b.frbs) :
    b.modSize (b.fbyte + b.avbs) = (b.fbyte + q.length) % b.size := by
  have fits := h.length_le room.le
  have start := h.start
  rw [h.count, modSize_eq (by omega) (by omega)]

/-- A block of the message is copied behind the available bytes. -/
theorem append (bytes : List UInt8) (room : (bytes.length : Int) ≤ b.frbs)
    (inside : (b.fbyte + q.length) % b.size + bytes.length ≤ b.size)
    (len : (bytes.length : Int) = t) :
    ({ b with bufadr := blit b.bufadr ((b.fbyte + q.length) % b.size) bytes }.fill t).Holds
      (q ++ bytes) := by
  have appended := Queued.append h room inside
  rw [len] at appended
  exact { appended with behind := rfl }

/-- What is taken is removed at the front. -/
theorem drop (low : 0 ≤ t) (there : t ≤ b.avbs) (inside : b.fbyte + t ≤ b.size) :
    Holds { b with fbyte := b.modSize (b.fbyte + t), frbs := b.frbs + t, avbs := b.avbs - t }
      (q.drop t.toNat) := by
  have dropped := Queued.drop h low there
  have start := h.start
  have pos := h.pos
  rw [← modSize_eq (by omega) (by omega)] at dropped
  exact { dropped with behind := rfl }

end Holds

theorem store_eq (low : 0 ≤ pos) (high : pos < b.size) :
    b.store pos type = some { b with bufadr := blit b.bufadr pos [type] } := if_pos ⟨low, high⟩

theorem copyIn_eq (low : 0 ≤ pos) (positive : 0 ≤ t) (inside : pos + t ≤ b.size) (there : t ≤ msg.length) :
    b.copyIn pos msg t = some { b with bufadr := blit b.bufadr pos (msg.take t.toNat) } :=
  if_pos ⟨low, positive, inside, there⟩

/-! ## The loops -/

/-- Behind its type byte the message is appended. -/
theorem putLoop_spec (h : b.Holds q) (room : (msg.length : Int) ≤ b.frbs) (fuel : msg.length < k) :
    ∃ b', b.putLoop k msg msg.length TYPE_NONE = some (b', 0) ∧ b'.Holds (q ++ msg) ∧
      b'.size = b.size := by
  induction k generalizing b q msg with
  | zero => omega
  | succ k ih =>
      rw [putLoop]
      rcases Nat.eq_zero_or_pos msg.length with empty | more
      · obtain rfl := List.eq_nil_of_length_eq_zero empty
        refine ⟨b, if_neg fun h => absurd h.2 (by simp), ?_, rfl⟩
        rwa [List.append_nil]
      · have bounds := h.last_bounds
        rw [if_pos ⟨by omega, by omega⟩]
        dsimp only
        rw [if_neg (not_not.mpr rfl), h.last (by omega)]
        obtain ⟨positive, enough, inside⟩ := block_spec msg.length bounds.2 (by omega)
        generalize b.block _ _ = t at positive enough inside
        rw [copyIn_eq bounds.1 positive.le inside enough]
        have len := length_take positive.le enough
        have rest := length_drop positive.le enough
        have next := h.append (msg.take t.toNat) (by omega) (by omega) len
        obtain ⟨b', done, holds, size⟩ := ih next
          (show ((msg.drop t.toNat).length : Int) ≤ b.frbs - t by omega) (by omega)
        rw [rest] at done
        rw [List.append_assoc, List.take_append_drop] at holds
        exact ⟨b', done, holds, size⟩

/-- A receiver gets the first of the available bytes. -/
theorem getLoop_spec (h : b.Holds q) (got : List UInt8) (fuel : msgSize.toNat < k) :
    ∃ b', b.getLoop k got msgSize =
        some (b', msgSize - (q.take msgSize.toNat).length, got ++ q.take msgSize.toNat) ∧
      b'.Holds (q.drop msgSize.toNat) ∧ b'.size = b.size := by
  induction k generalizing b q got msgSize with
  | zero => omega
  | succ k ih =>
      have start := h.start
      have count := h.count
      rw [getLoop]
      split
      next more =>
        dsimp only
        obtain ⟨positive, enough, inside⟩ := block_spec _ start.2 more.2
        generalize b.block b.fbyte msgSize = t₀ at positive enough inside
        obtain ⟨t, least, low, le, there⟩ : ∃ t, (if t₀ > b.avbs then b.avbs else t₀) = t ∧ 0 < t ∧
            t ≤ t₀ ∧ t ≤ b.avbs := by
          refine ⟨_, rfl, ?_⟩
          split <;> omega
        rw [least, copyOut, if_pos ⟨start.1, low.le, by omega⟩]
        rw [Queued.front h low.le there (by omega)]
        obtain ⟨b', done, holds, size⟩ := ih (h.drop low.le there (by omega)) (got ++ q.take t.toNat)
          (show (msgSize - t).toNat < k by omega)
        have turn : t ≤ msgSize := by omega
        refine ⟨b', ?_, ?_, size⟩
        · have taken : ((q.take t.toNat).length : Int) = t := length_take low.le (by omega)
          rw [take_turn low.le turn, List.length_append, Nat.cast_add, taken, ← List.append_assoc,
            ← Int.sub_sub]
          exact done
        · rwa [drop_turn low.le turn]
      next done =>
        obtain ⟨nothing, all⟩ := no_turn (show msgSize ≤ 0 ∨ q.length = 0 by omega)
        refine ⟨b, ?_, by rwa [all], rfl⟩
        rw [nothing, List.length_nil, Nat.cast_zero, Int.sub_zero, List.append_nil]

/-! ## The gap before the available bytes -/

/-- From `fbyte` on there are the bytes of `front`, `n` bytes to be written, and those of `old`. -/
structure Gap (b : Buffer) (front : List UInt8) (n : Nat) (old : List UInt8) : Prop where
  pos : 0 < b.size
  start : 0 ≤ b.fbyte ∧ b.fbyte < b.size
  count : b.avbs = front.length + old.length
  room : b.frbs = b.size - b.avbs
  fits : (front.length + n + old.length : Int) ≤ b.size
  written : window b.bufadr b.size b.fbyte front.length = front
  behind : window b.bufadr b.size (b.fbyte + (front.length + n : Nat)) old.length = old

/-- `fbyte` is set back by as much as is to be written. -/
theorem Holds.gap (h : b.Holds old) (room : (n : Int) ≤ b.frbs) :
    Gap { b with fbyte := b.reverseModSize (b.fbyte - n) } [] n old := by
  have start := h.start
  have pos := h.pos
  have count := h.count
  have free := h.room
  have first : b.reverseModSize (b.fbyte - n) = (b.fbyte - n) % b.size :=
    reverseModSize_eq (by omega) (by omega)
  constructor
  · exact pos
  · show 0 ≤ b.reverseModSize _ ∧ b.reverseModSize _ < b.size
    rw [first]
    exact ⟨Int.emod_nonneg _ (by omega), Int.emod_lt_of_pos _ pos⟩
  · show b.avbs = ([] : List UInt8).length + old.length
    rw [count, List.length_nil, Nat.cast_zero, Int.zero_add]
  · show b.frbs = b.size - b.avbs
    rw [free, count]
  · rw [List.length_nil]
    show _ ≤ b.size
    omega
  · rfl
  · show window b.bufadr b.size (b.reverseModSize (b.fbyte - n) + _) old.length = old
    conv_rhs => rw [← h.cells]
    refine window_congr ?_
    rw [first, Int.emod_add_emod, List.length_nil, Nat.zero_add, Int.sub_add_cancel]

/-- A block is copied to the start of the gap. -/
theorem Gap.copy (h : b.Gap front n old) (bytes : List UInt8) (there : bytes.length ≤ n)
    (place : pos = (b.fbyte + front.length) % b.size) (inside : pos + bytes.length ≤ b.size)
    (len : (bytes.length : Int) = t) :
    Gap ({ b with bufadr := blit b.bufadr pos bytes }.fill t) (front ++ bytes) (n - bytes.length) old := by
  have fits := h.fits
  have low : 0 ≤ pos := place ▸ Int.emod_nonneg _ (by have := h.pos; omega)
  have on_ring : pos % b.size = (b.fbyte + front.length) % b.size := by
    rw [place, Int.emod_emod]
  have all : (front ++ bytes).length + (n - bytes.length) = front.length + n := by
    rw [List.length_append]
    omega
  constructor
  · exact h.pos
  · exact h.start
  · show b.avbs + t = _
    rw [h.count, List.length_append, ← len]
    omega
  · show b.frbs - t = b.size - (b.avbs + t)
    rw [h.room]
    omega
  · rw [List.length_append]
    show _ ≤ b.size
    omega
  · rw [List.length_append]
    show window (blit b.bufadr pos bytes) b.size b.fbyte _ = _
    rw [window_blit low inside on_ring (by omega), h.written]
  · rw [all]
    show window (blit b.bufadr pos bytes) b.size (b.fbyte + (front.length + n : Nat)) _ = old
    rw [window_blit_before low inside on_ring (by omega) (by omega), h.behind]

/-- A gap that is filled. -/
theorem Gap.filled (h : b.Gap front 0 old) : b.Holds (front ++ old) := by
  refine ⟨h.pos, h.start, rfl, ?_, ?_, ?_⟩
  · rw [h.count, List.length_append, Nat.cast_add]
  · rw [h.room, h.count, List.length_append, Nat.cast_add]
  · rw [List.length_append, window_add, h.written]
    exact congrArg _ h.behind

/-- Behind its type byte the message is copied into the gap. -/
theorem backputLoop_spec (h : b.Gap front msg.length old) (first : 0 ≤ pos)
    (place : b.modSize (pos + t) = (b.fbyte + front.length) % b.size) (fuel : msg.length < k) :
    ∃ b', b.backputLoop k msg msg.length TYPE_NONE pos t = some (b', 0) ∧
      b'.Holds (front ++ msg ++ old) ∧ b'.size = b.size := by
  induction k generalizing b front msg pos t with
  | zero => omega
  | succ k ih =>
      have fits := h.fits
      have count := h.count
      have room := h.room
      have size := h.pos
      rw [backputLoop]
      rcases Nat.eq_zero_or_pos msg.length with empty | more
      · obtain rfl := List.eq_nil_of_length_eq_zero empty
        refine ⟨b, if_neg fun h => absurd h.2 (by simp), ?_, rfl⟩
        rw [List.append_nil]
        exact h.filled
      · rw [if_pos ⟨by omega, by omega⟩]
        dsimp only
        have later : pos ≠ -1 := by omega
        simp only [if_neg later]
        rw [if_neg (not_not.mpr rfl), place]
        have low : 0 ≤ (b.fbyte + front.length) % b.size := Int.emod_nonneg _ (by omega)
        obtain ⟨positive, enough, inside⟩ := block_spec msg.length
          (Int.emod_lt_of_pos (b.fbyte + front.length) size) (by omega)
        generalize b.block _ _ = u at positive enough inside
        rw [copyIn_eq low positive.le inside enough]
        have len := length_take positive.le enough
        have rest := length_drop positive.le enough
        have next := h.copy (msg.take u.toNat) (by omega) rfl (by omega) len
        rw [show msg.length - (msg.take u.toNat).length = (msg.drop u.toNat).length by omega] at next
        have place' : b.modSize ((b.fbyte + front.length) % b.size + u) =
            (b.fbyte + (front ++ msg.take u.toNat).length) % b.size := by
          rw [modSize_eq (by omega) (by omega), Int.emod_add_emod, List.length_append, Nat.cast_add,
            len, Int.add_assoc]
        obtain ⟨b', done, holds, size⟩ := ih next low place' (by omega)
        rw [rest] at done
        rw [List.append_assoc front, List.take_append_drop] at holds
        exact ⟨b', done, holds, size⟩

end Buffer

/-- What the three functions do to the available bytes, within the buffer. -/
structure Rings (b : Buffer) : Prop where
  put : ∀ (msg : List UInt8) (type : UInt8), type ≠ TYPE_NONE → (msg.length + 1 : Int) ≤ b.frbs →
    ∃ b', b.tbxput msg msg.length type = some (b', 0) ∧ b'.Counted ∧ b'.size = b.size ∧
      b'.available = b.available ++ type :: msg
  backput : ∀ (msg : List UInt8) (type : UInt8), type ≠ TYPE_NONE → (msg.length + 1 : Int) ≤ b.frbs →
    ∃ b', b.tbxbackput msg msg.length type = some (b', 0) ∧ b'.Counted ∧ b'.size = b.size ∧
      b'.available = type :: msg ++ b.available
  get : ∀ msgSize : Int, ∃ b', b.tbxget msgSize = some (b',
      msgSize - (b.available.take msgSize.toNat).length, b.available.take msgSize.toNat) ∧
    b'.Counted ∧ b'.size = b.size ∧ b'.available = b.available.drop msgSize.toNat

open Buffer in
/-- The three functions treat the available bytes as a ring. -/
theorem buffer_rings {b : Buffer} (counted : b.Counted) : Rings b := by
  have h := counted.holds
  have start := h.start
  have size := h.pos
  constructor
  case put =>
    intro msg type typed room
    have bounds := h.last_bounds
    have next := h.append [type] (t := 1) (by simp; omega) (by simp; omega) rfl
    have enough : msg.length < (msg.length + 1 : Int).toNat := by omega
    obtain ⟨b', done, holds, size⟩ := putLoop_spec next (by show _ ≤ b.frbs - 1; omega) enough
    rw [List.append_assoc] at holds
    refine ⟨b', ?_, holds.counted, size, holds.available⟩
    rw [tbxput, putLoop, if_pos ⟨by omega, by omega⟩]
    dsimp only
    rw [if_pos typed, h.last (by omega), store_eq bounds.1 bounds.2, Int.add_sub_cancel]
    exact done
  case backput =>
    intro msg type typed room
    have gap := h.gap (n := msg.length + 1) (by push_cast; omega)
    rw [Nat.cast_add, Nat.cast_one] at gap
    rw [tbxbackput, backputLoop, if_pos ⟨by omega, by omega⟩]
    dsimp only
    rw [if_pos rfl, if_pos typed]
    simp only [if_true]
    obtain ⟨b₁, e⟩ : ∃ b₁, ({ b with fbyte := b.reverseModSize (b.fbyte - (msg.length + 1)) } : Buffer) = b₁ :=
      ⟨_, rfl⟩
    have first : b.reverseModSize (b.fbyte - (msg.length + 1)) = b₁.fbyte := congrArg Buffer.fbyte e
    have same : b₁.size = b.size := by rw [← e]
    rw [e] at gap ⊢
    rw [first, store_eq gap.start.1 gap.start.2, Int.add_sub_cancel]
    have start₁ := gap.start
    have place : b₁.fbyte = (b₁.fbyte + ([] : List UInt8).length) % b₁.size := by
      rw [List.length_nil, Nat.cast_zero, Int.add_zero, Int.emod_eq_of_lt start₁.1 start₁.2]
    have next := gap.copy [type] (t := 1) (by simp) place (by simp; omega) rfl
    have place' : b₁.modSize (b₁.fbyte + 1) = (b₁.fbyte + [type].length) % b₁.size :=
      modSize_eq (by omega) (by omega)
    have enough : msg.length < (msg.length + 1 : Int).toNat := by omega
    obtain ⟨b', done, holds, size'⟩ := backputLoop_spec next start₁.1 place' enough
    exact ⟨b', done, holds.counted, size'.trans same, holds.available⟩
  case get =>
    intro msgSize
    obtain ⟨b', done, holds, size⟩ := getLoop_spec h [] (Nat.lt_succ_self msgSize.toNat)
    exact ⟨b', done, holds.counted, size, holds.available⟩

/-- Eight bytes, of which the last three are available. -/
def wrapped : Buffer where
  size := 8
  fbyte := 5
  avbs := 3
  frbs := 5
  bufadr := fun i => if i = 5 then 7 else if i = 6 then 8 else 9

/-- The last byte that is available is at the end of the buffer. -/
theorem buffer_rings_wrapped : wrapped.available = [7, 8, 9] ∧ Rings wrapped :=
  ⟨by decide, buffer_rings ⟨by decide, by decide, by decide, by decide⟩⟩

end Rtai.Tbx
