import Rtai.Serial.Port

/-!
# The rings of a port

`Buf.Keeps b l g` relates a ring to all that has been written to it, the list `l`, and to the
number `g` of the bytes that have been read.  The indices only know both up to whole rounds, and
`Buf.used` is what they know of the difference.
-/

namespace Rtai.Serial

open Function Rtai.Lib

/-- The ring has been written with a list, and read a number of times. -/
structure Buf.Keeps (b : Buf) (l : List UInt8) (g : Nat) : Prop where
  recent : Recent RT_COM_BUF_SIZ b.buf l
  head : b.head = l.length % RT_COM_BUF_SIZ
  tail : b.tail = g % RT_COM_BUF_SIZ
  le : g ≤ l.length

/-- The bytes between the indices. -/
def Buf.used (b : Buf) : Nat := span RT_COM_BUF_SIZ b.head b.tail

variable {b : Buf} {l : List UInt8} {g : Nat} {c : UInt8}

theorem size_pos : 0 < RT_COM_BUF_SIZ := by decide

theorem mask_eq (i : Nat) : i &&& (RT_COM_BUF_SIZ - 1) = i % RT_COM_BUF_SIZ :=
  Nat.and_two_pow_sub_one_eq_mod i 8

namespace Buf

theorem used_lt : b.used < RT_COM_BUF_SIZ := span_lt size_pos _ _

@[simp] theorem contents_length : b.contents.length = b.used := cells_length

theorem irqPut_eq_write (inside : b.head < RT_COM_BUF_SIZ) : b.irqPut c = b.write c := by
  have same : (b.head + 1) % RT_COM_BUF_SIZ =
      if b.head + 1 ≥ RT_COM_BUF_SIZ then 0 else b.head + 1 := by
    split_ifs with past
    · have : b.head + 1 = RT_COM_BUF_SIZ := by omega
      rw [this, Nat.mod_self]
    · exact Nat.mod_eq_of_lt (by omega)
  simp only [irqPut, write, mask_eq, same]

namespace Keeps

theorem init : Keeps {} [] 0 := ⟨.nil, rfl, rfl, Nat.le_refl 0⟩

variable (keeps : b.Keeps l g)
include keeps

theorem head_lt : b.head < RT_COM_BUF_SIZ :=
  keeps.head ▸ Nat.mod_lt _ size_pos

theorem tail_lt : b.tail < RT_COM_BUF_SIZ :=
  keeps.tail ▸ Nat.mod_lt _ size_pos

theorem used : b.used = (l.length - g) % RT_COM_BUF_SIZ := by
  rw [Buf.used, keeps.head, keeps.tail, span_mod keeps.le size_pos]

/-- A ring that is not a whole round behind. -/
theorem used_of_lt (near : l.length < g + RT_COM_BUF_SIZ) : b.used = l.length - g := by
  have := size_pos
  rw [keeps.used, Nat.mod_eq_of_lt (by omega)]

/-- A full ring has the free cells of an empty one. -/
theorem free : rtComBufferFree b.head b.tail = RT_COM_BUF_SIZ - b.used := by
  have head := keeps.head_lt
  have tail := keeps.tail_lt
  unfold rtComBufferFree Buf.used span
  split_ifs with wrapped
  · rw [Nat.mod_eq_of_lt (by omega)]
    omega
  · have turn : b.head + RT_COM_BUF_SIZ - b.tail = b.head - b.tail + RT_COM_BUF_SIZ := by omega
    rw [turn, Nat.add_mod_right, Nat.mod_eq_of_lt (by omega)]

theorem used_le : b.used + g ≤ l.length := by
  have := Nat.mod_le (l.length - g) RT_COM_BUF_SIZ
  have le := keeps.le
  rw [keeps.used]
  omega

/-- The bytes in the ring are the last ones that have been written. -/
theorem contents : b.contents = l.drop (l.length - b.used) := by
  have le := keeps.used_le
  rw [← keeps.recent.cells (Nat.le_of_lt used_lt) (by omega), ← cells_mod, Buf.contents]
  -- The tail is where the last bytes start.
  have whole := Nat.mod_add_div (l.length - g) RT_COM_BUF_SIZ
  rw [← keeps.used] at whole
  have start : l.length - b.used = g + RT_COM_BUF_SIZ * ((l.length - g) / RT_COM_BUF_SIZ) := by
    have := keeps.le
    omega
  rw [start, Nat.add_mul_mod_self_left, ← keeps.tail]
  rfl

theorem write : (b.write c).Keeps (l ++ [c]) g := by
  have inside := keeps.head_lt
  refine ⟨?_, ?_, keeps.tail, ?_⟩
  · simp only [Buf.write, keeps.head]
    exact keeps.recent.put
  · rw [← irqPut_eq_write inside, irqPut, mask_eq]
    simp only [keeps.head, Nat.mod_add_mod, List.length_append, List.length_singleton]
  · rw [List.length_append]
    exact Nat.le_add_right_of_le keeps.le

theorem irqPut : (b.irqPut c).Keeps (l ++ [c]) g := by
  rw [irqPut_eq_write keeps.head_lt]
  exact keeps.write

theorem writes {bytes : List UInt8} : (bytes.foldl Buf.write b).Keeps (l ++ bytes) g := by
  induction bytes generalizing b l with
  | nil => simpa using keeps
  | cons c bytes ih => simpa using ih (keeps.write (c := c))

/-- The indices meet on an empty ring. -/
theorem met_iff : b.head = b.tail ↔ b.used = 0 := by
  have head := keeps.head_lt
  have tail := keeps.tail_lt
  have free := keeps.free
  have used := b.used_lt
  unfold rtComBufferFree at free
  split_ifs at free <;> omega

/-- A byte is taken, as `rt_com_irq_get` and `rt_com_read` do it. -/
theorem next (some : b.head ≠ b.tail) :
    b.next.Keeps l (g + 1) ∧ b.used = b.next.used + 1 ∧
      b.contents = b.buf b.tail :: b.next.contents := by
  have there : b.used ≠ 0 := fun none => some (keeps.met_iff.mpr none)
  have le := keeps.used_le
  have keeps' : b.next.Keeps l (g + 1) := by
    refine ⟨keeps.recent, keeps.head, ?_, by omega⟩
    rw [Buf.next, mask_eq]
    simp only [keeps.tail, Nat.mod_add_mod]
  have fewer : b.used = b.next.used + 1 := by
    have used := keeps.used
    have used' := keeps'.used
    have whole := Nat.mod_add_div (l.length - g) RT_COM_BUF_SIZ
    have small := b.used_lt
    have shift : l.length - (g + 1) =
        b.used - 1 + RT_COM_BUF_SIZ * ((l.length - g) / RT_COM_BUF_SIZ) := by omega
    rw [shift, Nat.add_mul_mod_self_left, Nat.mod_eq_of_lt (by omega)] at used'
    omega
  refine ⟨keeps', fewer, ?_⟩
  have first : b.tail % RT_COM_BUF_SIZ = b.tail := Nat.mod_eq_of_lt keeps.tail_lt
  have split : b.contents = cells RT_COM_BUF_SIZ b.buf b.tail b.used := rfl
  rw [split, fewer, cells_succ, first, ← cells_mod, ← mask_eq]
  rfl

/-- The loop of `rt_com_read`. -/
theorem read (count : Nat) :
    (b.read count).2.Keeps l (g + (b.read count).1.length) ∧
      (b.read count).1 = b.contents.take count ∧
      (b.read count).2.contents = b.contents.drop count := by
  induction count generalizing b g with
  | zero => exact ⟨keeps, rfl, rfl⟩
  | succ count ih =>
      unfold Buf.read
      split_ifs with some
      · obtain ⟨keeps', -, first⟩ := keeps.next some
        obtain ⟨rest, bytes, left⟩ := ih keeps'
        rw [first]
        refine ⟨?_, congrArg _ bytes, left⟩
        rw [List.length_cons, Nat.add_comm _ 1, ← Nat.add_assoc]
        exact rest
      · have empty : b.contents = [] := by
          rw [← List.length_eq_zero_iff, contents_length]
          exact keeps.met_iff.mp (not_not.mp some)
        rw [empty]
        exact ⟨keeps, rfl, rfl⟩

end Keeps

end Buf

namespace Sys

/-- The loop that transmits is about the output ring and the line. -/
theorem send_eq (toFifo : Nat) (data : UInt8) (s : Sys) : ∃ obuf sent,
    (send toFifo data s).2.2 = { s with port := { s.port with obuf }, sent } := by
  fun_induction send toFifo data s with
  | case1 toFifo data s s₁ data' s' got ih =>
      obtain ⟨⟨_, obuf⟩, -, same⟩ := Option.map_eq_some_iff.mp got
      cases same
      obtain ⟨obuf', sent, eq⟩ := ih
      exact ⟨obuf', sent, eq⟩
  | case2 toFifo data s s₁ none => exact ⟨_, _, rfl⟩
  | case3 toFifo data s _ => exact ⟨_, _, rfl⟩

end Sys

end Rtai.Serial
