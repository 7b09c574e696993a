import Rtai.Fifos.Table
import Rtai.Fifos.ByteQueue

/-!
# Resizing a fifo

`rtf_resize` copies the queue to the start of the new buffer and leaves `lbyte` as it is;
the size it records is the larger one of the old and the new.  `rtf_resize` says for which
buffers and sizes the fifo still holds its queue.
-/

namespace Rtai.Fifos

open Function Rtai.Lib

variable {P : Type} {m : FMbx P} {q : List UInt8} {size : Int} {bufadr : Int → UInt8}

namespace FMbx

/-- What `rtf_resize` makes of a buffer that holds `q`. -/
structure Resized (m m' : FMbx P) (size : Int) (bufadr : Int → UInt8) (q : List UInt8) : Prop where
  size : m'.size = if size > m.size then size else m.size
  fbyte : m'.fbyte = 0
  lbyte : m'.lbyte = m.lbyte
  avbs : m'.avbs = q.length
  frbs : m'.frbs = m'.size - q.length
  bufadr : m'.bufadr = blit bufadr 0 q

variable {m' : FMbx P}

/-- A loop of `mbx_get` leaves the end of the queue alone. -/
theorem getLoop_lbyte {k : Nat} {got got' : List UInt8} {msgSize left : Int}
    (h : m.getLoop k got msgSize = some (m', left, got')) : m'.lbyte = m.lbyte := by
  induction k generalizing m got msgSize with
  | zero => cases h
  | succ k ih =>
      rw [getLoop] at h
      split at h
      next =>
        dsimp only at h
        exact (ih h).trans rfl
      next =>
        cases h
        rfl

variable (size bufadr) in
/-- At most 1000000000 bytes are copied. -/
theorem resized_spec (h : m.Holds q) :
    ∃ m', m.resized size bufadr = some (m', q.take 1000000000) ∧
      m.Resized m' size bufadr (q.take 1000000000) := by
  have low : (0 : Int) ≤ 1000000000 := by decide
  obtain ⟨m', does, -, keeps⟩ := getLoop_spec h [] low (Nat.lt_succ_self _)
  have lbyte := getLoop_lbyte does
  have take : (1000000000 : Int).toNat = 1000000000 := rfl
  rw [take, List.nil_append] at does
  have avbs : (1000000000 : Int) - (1000000000 - (q.take 1000000000).length) =
      (q.take 1000000000).length := Int.sub_sub_self _ _
  let m₁ : FMbx P := { m' with
    avbs := (q.take 1000000000).length
    bufadr := blit bufadr 0 (q.take 1000000000)
    size := if size > m'.size then size else m'.size
    fbyte := 0 }
  refine ⟨{ m₁ with frbs := m₁.size - m₁.avbs }, ?_, ?_, rfl, lbyte, rfl, rfl, rfl⟩
  · rw [resized, mbxGet, take, does]
    show some (_, _) = _
    rw [avbs]
  · exact congrArg (fun n => if size > n then size else n) keeps.size

/-- Where the end of a queue is. -/
theorem Holds.lbyte_eq (h : m.Holds q) :
    (m.lbyte = m.fbyte + q.length ∧ m.fbyte + q.length < m.size) ∨
      (m.lbyte = m.fbyte + q.length - m.size ∧ m.size ≤ m.fbyte + q.length) := by
  have start := h.fbyte
  have fits := h.fits
  have e := h.lbyte
  rw [← modSize_eq (by omega) (by omega), modSize] at e
  split at e
  next inside => exact .inl ⟨e, inside⟩
  next beyond => exact .inr ⟨e, Int.not_lt.mp beyond⟩

/-- The queue is in the new buffer, if the end is where it was put. -/
theorem Resized.holds_iff (h : m.Holds q) (resized : m.Resized m' size bufadr (q.take 1000000000)) :
    m'.Holds q ∧ m'.size = size ↔ m.size ≤ size ∧ m.fbyte = 0 ∧
      (m.avbs < m.size ∨ size = m.size) ∧ m.avbs ≤ 1000000000 := by
  have old := h.lbyte_eq
  have start := h.fbyte
  have fits := h.fits
  have avbs := h.avbs
  have positive := h.size
  have larger := resized.size
  have fbyte := resized.fbyte
  have lbyte := resized.lbyte
  constructor
  · rintro ⟨holds, room⟩
    have new := holds.lbyte_eq
    have count := resized.avbs
    rw [holds.avbs, List.length_take] at count
    have bound : m.size ≤ size := by
      split at larger
      · omega
      · omega
    refine ⟨bound, ?_, ?_, ?_⟩
    · omega
    · omega
    · omega
  · rintro ⟨bound, first, part, few⟩
    have all : q.take 1000000000 = q := List.take_of_length_le (by omega)
    have count := resized.avbs
    have rest := resized.frbs
    have copied := resized.bufadr
    rw [all] at count rest copied
    have room : m'.size = size := by
      split at larger
      · exact larger
      · omega
    refine ⟨⟨?_, ?_, ?_, count, rest, ?_, ?_⟩, room⟩
    · omega
    · omega
    · rw [fbyte, room, lbyte]
      rcases part with part | same
      · rw [Int.emod_eq_of_lt (by omega) (by omega)]
        omega
      · rw [same, h.lbyte, first]
    · omega
    · have whole : window (blit bufadr 0 q) size 0 (0 + q.length) = window bufadr size 0 0 ++ q :=
        window_blit (Int.le_refl 0) (by omega) rfl (by omega)
      rw [fbyte, room, copied]
      simpa using whole

end FMbx

namespace Table

variable {t : Table P} {minor : Nat}

/-- The fifo holds `q` in a buffer of the size it records. -/
structure Holds (t : Table P) (minor : Nat) (q : List UInt8) : Prop where
  mbx : (t.state.fifo minor).mbx.Holds q
  room : (t.state.fifo minor).mbx.size = t.room minor

/-- The fifo is as it was, or it holds the same bytes in the new buffer, and nothing was
written outside. -/
def Kept (t t' : Table P) (minor : Nat) (q copied : List UInt8) : Prop :=
  t' = t ∨ t'.Holds minor q ∧ copied.length ≤ t'.room minor

/-- `rtf_resize` keeps the fifo exactly if it refuses, or the buffer does not shrink, the
queue begins where the buffer does, and its end is not moved to the start of the buffer
when the buffer grows. -/
theorem rtf_resize (h : t.Holds minor q) (size : Int) (alloc : Option (Int → UInt8)) :
    ∃ t' value copied, t.rtfResize minor size alloc = some (t', value, copied) ∧
      (Kept t t' minor q copied ↔
        MAX_FIFOS ≤ minor ∨ (t.state.fifo minor).opncnt = 0 ∨ alloc = none ∨
          (t.state.fifo minor).mbx.size ≤ size ∧ (t.state.fifo minor).mbx.fbyte = 0 ∧
            ((t.state.fifo minor).mbx.avbs < (t.state.fifo minor).mbx.size ∨
              size = (t.state.fifo minor).mbx.size) ∧
            (t.state.fifo minor).mbx.avbs ≤ 1000000000) := by
  by_cases valid : minor ≥ MAX_FIFOS
  · exact ⟨t, -ENODEV, [], if_pos valid, iff_of_true (.inl rfl) (.inl valid)⟩
  by_cases unopened : (t.state.fifo minor).opncnt = 0
  · refine ⟨t, -EINVAL, [], ?_, iff_of_true (.inl rfl) (.inr (.inl unopened))⟩
    rw [rtfResize, if_neg valid, if_pos unopened]
  cases alloc with
  | none =>
      refine ⟨t, -ENOMEM, [], ?_, iff_of_true (.inl rfl) (.inr (.inr (.inl rfl)))⟩
      rw [rtfResize, if_neg valid, if_neg unopened]
      rfl
  | some bufadr =>
      obtain ⟨m', does, resized⟩ := FMbx.resized_spec size bufadr h.mbx
      have test := resized.holds_iff h.mbx
      let t' : Table P := { t with
        state := t.state.setMbx minor m'
        mallocType := update t.mallocType minor (mallocTypeOf size)
        room := update t.room minor size }
      have mbx : (t'.state.fifo minor).mbx = m' := by simp [t', State.setMbx, State.setFifo]
      have room : t'.room minor = size := update_self ..
      refine ⟨t', size, q.take 1000000000, ?_, ?_⟩
      · rw [rtfResize, if_neg valid, if_neg unopened]
        show Option.bind _ _ = _
        rw [does]
        rfl
      · constructor
        · intro kept
          refine .inr (.inr (.inr (test.mp ?_)))
          rcases kept with same | ⟨holds, -⟩
          · have holds : t'.Holds minor q := same.symm ▸ h
            rw [← mbx, ← room]
            exact ⟨holds.mbx, holds.room⟩
          · rw [← mbx, ← room]
            exact ⟨holds.mbx, holds.room⟩
        · rintro (invalid | closed | none | fits)
          · exact absurd invalid valid
          · exact absurd closed unopened
          · cases none
          · obtain ⟨holds, size_eq⟩ := test.mpr fits
            refine .inr ⟨⟨?_, ?_⟩, ?_⟩
            · rwa [mbx]
            · rw [mbx, room]
              exact size_eq
            · have bound := h.mbx.fits
              rw [room, List.length_take]
              omega

/-- A fifo with `q` in the buffer of `size` bytes at `fbyte`. -/
def holding (size fbyte : Nat) (q : List UInt8) : Table Nat where
  state := { fifo := fun _ => { opncnt := 1, mbx := {
    size := size
    fbyte := fbyte
    lbyte := (fbyte + q.length : Int) % size
    avbs := q.length
    frbs := size - q.length
    bufadr := fun i => (q[((i - fbyte) % size).toNat]?).getD 0 } } }
  room := fun _ => size

theorem holding_holds : (holding 4 0 [1, 2, 3]).Holds 0 [1, 2, 3] :=
  ⟨⟨by decide, by decide, by decide, rfl, rfl, by decide, by decide⟩, rfl⟩

/-- Three bytes at the start of a buffer that grows. -/
theorem rtf_resize_grown : ∃ t' value copied,
    (holding 4 0 [1, 2, 3]).rtfResize 0 8 (some fun _ => 0) = some (t', value, copied) ∧
      Kept (holding 4 0 [1, 2, 3]) t' 0 [1, 2, 3] copied := by
  obtain ⟨t', value, copied, does, kept⟩ := rtf_resize holding_holds 8 (some fun _ => 0)
  refine ⟨t', value, copied, does, kept.mpr (.inr (.inr (.inr ?_)))⟩
  decide

/-- Two bytes behind the start of a buffer that grows: the next byte would be put elsewhere.
Three bytes in a buffer that shrinks to two: the third is written outside. -/
theorem resize_misplaces :
    ((holding 4 1 [1, 2]).Holds 0 [1, 2] ∧ ∃ t' value copied,
      (holding 4 1 [1, 2]).rtfResize 0 8 (some fun _ => 0) = some (t', value, copied) ∧
        ¬Kept (holding 4 1 [1, 2]) t' 0 [1, 2] copied) ∧
    (holding 4 0 [1, 2, 3]).Holds 0 [1, 2, 3] ∧ ∃ t' value copied,
      (holding 4 0 [1, 2, 3]).rtfResize 0 2 (some fun _ => 0) = some (t', value, copied) ∧
        t'.room 0 = 2 ∧ copied.length = 3 := by
  refine ⟨⟨⟨⟨by decide, by decide, by decide, rfl, rfl, by decide, by decide⟩, rfl⟩, ?_⟩,
    holding_holds, ?_⟩
  · have test : ((holding 4 1 [1, 2]).rtfResize 0 8 (some fun _ => 0)).any (fun r =>
        (r.1.state.fifo 0).mbx.fbyte = 0 && (r.1.state.fifo 0).mbx.size = 8 &&
          (r.1.state.fifo 0).mbx.lbyte = 3) = true := by decide +kernel
    obtain ⟨⟨t', value, copied⟩, does, test⟩ := (Option.any_eq_true _ _).mp test
    simp only [Bool.and_eq_true, decide_eq_true_eq] at test
    obtain ⟨⟨fbyte, size⟩, lbyte⟩ := test
    refine ⟨t', value, copied, does, ?_⟩
    rintro (same | ⟨holds, -⟩)
    · rw [same] at fbyte
      cases fbyte
    · have place := holds.mbx.lbyte
      rw [fbyte, size, lbyte] at place
      cases place
  · have test : ((holding 4 0 [1, 2, 3]).rtfResize 0 2 (some fun _ => 0)).any (fun r =>
        r.1.room 0 = 2 && r.2.2.length = 3) = true := by decide +kernel
    obtain ⟨⟨t', value, copied⟩, does, test⟩ := (Option.any_eq_true _ _).mp test
    simp only [Bool.and_eq_true, decide_eq_true_eq] at test
    exact ⟨t', value, copied, does, test⟩

end Table

end Rtai.Fifos
