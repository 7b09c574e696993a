import Rtai.NetRpc.RemoteCall

/-!
# A remote call is a local call

The stub puts its pointers into the arguments one after the other, and reads the sizes of the
write buffers behind the first.  The function is called as a local one would be if none of
these places is another's, all are in the block, and the block has no more than ten words.
-/

namespace Rtai.NetRpc.RemoteCall

open Function Rtai.Lib Rtai.Lxrt

namespace Client

variable (c : Client)

/-- The size of the read buffer. -/
def rsize : Int32 := rsize1 c.type c.args

/-- The size of the first write buffer. -/
def wsize : Int32 := wsize1 c.type c.args

/-- The size of the second write buffer. -/
def w2size : Int32 := wsize2 c.type c.args

/-- The word is a pointer to a buffer. -/
def Points (i : Nat) : Prop :=
  (c.rsize > 0 ∧ i = uspRbf1 c.type) ∨ (c.wsize > 0 ∧ i = uspWbf1 c.type) ∨
    (c.w2size > 0 ∧ i = uspWbf2 c.type)

instance (i : Nat) : Decidable (c.Points i) := inferInstanceAs (Decidable (_ ∨ _ ∨ _))

/-- The word is one of the two of the `TIMED` argument. -/
def Timed (i : Nat) : Prop :=
  TIMED c.funExtTimed > 0 ∧ (i = TIMED c.funExtTimed ∨ i = TIMED c.funExtTimed + 1)

/-- The word is one of the arguments. -/
def InBlock (i : Nat) : Prop := 0 < i ∧ i ≤ c.words

instance (i : Nat) : Decidable (c.InBlock i) := inferInstanceAs (Decidable (_ ∧ _))

/-- The sizes are none or more, and the request and the reply fit in a message. -/
structure Fits : Prop where
  rsize : 0 ≤ c.rsize
  wsize : 0 ≤ c.wsize
  w2size : 0 ≤ c.w2size
  request : 28 + 4 * c.words + c.rsize.toInt.toNat ≤ MAX_MSG_SIZE
  reply : 16 + c.wsize.toInt.toNat + c.w2size.toInt.toNat ≤ MAX_MSG_SIZE

/-- The places the type word and `TIMED` name are in the block. -/
structure Placed : Prop where
  inBlock : ∀ i, c.Points i ∨ c.Timed i → c.InBlock i
  size1 : needToW c.type = true → uspWsz1 c.type ≠ 0 → c.InBlock (uspWsz1 c.type)
  size2 : needToW2nd c.type = true → uspWsz2 c.type ≠ 0 → c.InBlock (uspWsz2 c.type)

/-- The size of a write buffer is not read from the read buffer's argument. -/
def SizeApart (sz : Nat) : Prop := sz ≠ 0 → c.rsize > 0 → sz ≠ uspRbf1 c.type

/-- The places the type word and `TIMED` name are apart, the block has no more words than a
function is called with, and the two write buffers do not overlap. -/
structure Proper : Prop where
  words : c.words ≤ 10
  timed : ∀ i, c.Timed i → ¬c.Points i
  first : c.rsize > 0 → c.wsize > 0 → uspRbf1 c.type ≠ uspWbf1 c.type
  second : c.rsize > 0 → c.w2size > 0 → uspRbf1 c.type ≠ uspWbf2 c.type
  both : c.wsize > 0 → c.w2size > 0 → uspWbf1 c.type ≠ uspWbf2 c.type
  size1 : needToW c.type = true → c.SizeApart (uspWsz1 c.type)
  size2 : needToW2nd c.type = true → c.SizeApart (uspWsz2 c.type)
  apart : c.wsize > 0 → c.w2size > 0 →
    adr (c.args (uspWbf1 c.type)) + c.wsize.toInt.toNat ≤ adr (c.args (uspWbf2 c.type)) ∨
    adr (c.args (uspWbf2 c.type)) + c.w2size.toInt.toNat ≤ adr (c.args (uspWbf1 c.type))

end Client

/-- A word that the function was called with. -/
def Served.arg (served : Served) (i : Nat) : Int32 := served.args.getD (i - 1) 0

/-- The function is called as by the caller, and the caller gets what it leaves. -/
structure AsLocal (s : Server) (c : Client) (served : Served) (result : UInt64)
    (mem : Memory) : Prop where
  length : c.words ≤ served.args.length
  others : ∀ i, c.InBlock i → ¬c.Points i → ¬c.Timed i → served.arg i = c.args i
  timed : TIMED c.funExtTimed > 0 →
    longAt served.arg (TIMED c.funExtTimed) = s.nano2count (longAt c.args (TIMED c.funExtTimed))
  read : c.rsize > 0 →
    served.before.read (adr (served.arg (uspRbf1 c.type))) c.rsize.toInt.toNat =
      c.mem.read (adr (c.args (uspRbf1 c.type))) c.rsize.toInt.toNat
  disjoint : c.wsize > 0 → c.w2size > 0 →
    adr (served.arg (uspWbf1 c.type)) + c.wsize.toInt.toNat ≤ adr (served.arg (uspWbf2 c.type))
  result : result = served.retval
  first : c.wsize > 0 →
    mem.read (adr (c.args (uspWbf1 c.type))) c.wsize.toInt.toNat =
      served.after.read (adr (served.arg (uspWbf1 c.type))) c.wsize.toInt.toNat
  second : c.w2size > 0 →
    mem.read (adr (c.args (uspWbf2 c.type))) c.w2size.toInt.toNat =
      served.after.read (adr (served.arg (uspWbf2 c.type))) c.w2size.toInt.toNat
  frame : ∀ x, (c.wsize > 0 → x < adr (c.args (uspWbf1 c.type)) ∨
      adr (c.args (uspWbf1 c.type)) + c.wsize.toInt.toNat ≤ x) →
    (c.w2size > 0 → x < adr (c.args (uspWbf2 c.type)) ∨
      adr (c.args (uspWbf2 c.type)) + c.w2size.toInt.toNat ≤ x) → mem x = c.mem x

/-! ## Words -/

theorem longAt_setLong (i : Nat) (x : Int64) (a : Nat → Int32) : longAt (setLong i x a) i = x := by
  have low : setLong i x a i = Int32.ofBitVec (x.toBitVec.extractLsb' 0 32) := by
    simp [setLong]
  have high : setLong i x a (i + 1) = Int32.ofBitVec (x.toBitVec.extractLsb' 32 32) := by
    simp [setLong]
  rw [longAt, low, high]
  apply Int64.toBitVec_inj.mp
  simp only [Int64.toBitVec_ofBitVec, Int32.toBitVec_ofBitVec]
  apply BitVec.eq_of_getLsbD_eq
  intro j small
  simp only [BitVec.getLsbD_append, BitVec.getLsbD_extractLsb']
  by_cases half : j < 32
  · simp [half]
  · have rest : j - 32 < 32 := by omega
    simp [half, rest, show 32 + (j - 32) = j by omega]

variable {a : Nat → Int32}

theorem setLong_of_ne {i j : Nat} {x : Int64} (low : j ≠ i) (high : j ≠ i + 1) :
    setLong i x a j = a j := by
  rw [setLong, update_of_ne high, update_of_ne low]

variable {b : Nat → Int32}

theorem longAt_inj {i : Nat} (same : longAt a i = longAt b i) :
    a i = b i ∧ a (i + 1) = b (i + 1) := by
  have whole := congrArg Int64.toBitVec same
  simp only [longAt, Int64.toBitVec_ofBitVec] at whole
  have low := congrArg (BitVec.extractLsb' 0 32) whole
  have high := congrArg (BitVec.extractLsb' 32 32) whole
  rw [BitVec.extractLsb'_append_eq_right, BitVec.extractLsb'_append_eq_right] at low
  rw [BitVec.extractLsb'_append_eq_left, BitVec.extractLsb'_append_eq_left] at high
  exact ⟨Int32.toBitVec_inj.mp low, Int32.toBitVec_inj.mp high⟩

theorem longAt_congr {i : Nat} (low : a i = b i) (high : a (i + 1) = b (i + 1)) :
    longAt a i = longAt b i := by
  rw [longAt, longAt, low, high]

theorem sizeOf_congr {sz : Nat} {ll : Bool} (h : sz ≠ 0 → a sz = b sz) :
    Lxrt.sizeOf a sz ll = Lxrt.sizeOf b sz ll := by
  simp only [Lxrt.sizeOf]
  split
  · next some => exact h some
  · rfl

/-! ## What the stub passes -/

/-- What has been asked of the stub. -/
def Client.asked (c : Client) (data : List UInt8) : Request where
  priority := c.priority
  basePriority := c.basePriority
  argsize := 4 * c.words
  rsize := c.rsize
  funExtTimed := c.funExtTimed
  type := c.type
  args := c.args
  data := data

variable {size : Int32} {stub : Stub}

section

variable {s : Server} {c : Client} {data : List UInt8} {i : Nat}

/-- The address of the bytes behind the arguments. -/
def Server.copy (s : Server) (c : Client) : Int32 := s.a + Int32.ofNat (4 * c.words)

/-- The words before the write buffers and the times are set. -/
def Server.found (s : Server) (c : Client) (data : List UInt8) : Nat → Int32 :=
  Stub.setRead s (c.asked data) (Stub.received s (c.asked data))

/-- The words the stub leaves. -/
def Server.passed (s : Server) (c : Client) (data : List UInt8) : Nat → Int32 :=
  Stub.setTimed s (c.asked data)
    (Stub.setWrites s (c.asked data) c.wsize c.w2size (s.found c data))

theorem positive_of_ne_zero (nonneg : 0 ≤ size) (h : size ≠ 0) : size > 0 := by
  have ne : size.toInt ≠ 0 := fun zero => h (Int32.toInt_inj.mp zero)
  rw [gt_iff_lt, Int32.lt_iff_toInt_lt]
  have := Int32.le_iff_toInt_le.mp nonneg
  simp only [Int32.toInt_zero] at this ⊢
  omega

theorem found_read (positive : c.rsize > 0) : s.found c data (uspRbf1 c.type) = s.copy c := by
  have ne : c.rsize ≠ 0 := by
    intro zero
    rw [zero] at positive
    cases positive
  simp [Server.found, Stub.setRead, Client.asked, ne, Server.copy]

theorem found_of_inBlock (nonneg : 0 ≤ c.rsize) (block : c.InBlock i)
    (other : c.rsize > 0 → i ≠ uspRbf1 c.type) : s.found c data i = c.args i := by
  have here : Stub.received s (c.asked data) i = c.args i := by
    have inside : i ≤ (c.asked data).argsize / 4 := by
      have := block.2
      simp only [Client.asked]
      omega
    rw [Stub.received, if_pos inside]
    rfl
  simp only [Server.found, Stub.setRead]
  split
  · next ne =>
      have apart : i ≠ uspRbf1 (c.asked data).type := other (positive_of_ne_zero nonneg ne)
      rw [update_of_ne apart, here]
  · exact here

theorem wsize1_found (nonneg : 0 ≤ c.rsize) (placed : c.Placed)
    (other : needToW c.type = true → c.SizeApart (uspWsz1 c.type)) :
    wsize1 c.type (s.found c data) = c.wsize := by
  simp only [Client.wsize, wsize1]
  split
  · next needed =>
      refine sizeOf_congr ?_
      intro some
      exact found_of_inBlock nonneg (placed.size1 needed some) (other needed some)
  · rfl

theorem wsize2_found (nonneg : 0 ≤ c.rsize) (placed : c.Placed)
    (other : needToW2nd c.type = true → c.SizeApart (uspWsz2 c.type)) :
    wsize2 c.type (s.found c data) = c.w2size := by
  simp only [Client.w2size, wsize2]
  split
  · next needed =>
      refine sizeOf_congr ?_
      intro some
      exact found_of_inBlock nonneg (placed.size2 needed some) (other needed some)
  · rfl

/-- The words between: with the pointers, without the times. -/
def Server.pointed (s : Server) (c : Client) (data : List UInt8) : Nat → Int32 :=
  Stub.setWrites s (c.asked data) c.wsize c.w2size (s.found c data)

theorem pointed_of_ne (first : c.wsize > 0 → i ≠ uspWbf1 c.type)
    (second : c.w2size > 0 → i ≠ uspWbf2 c.type) : s.pointed c data i = s.found c data i := by
  simp only [Server.pointed, Stub.setWrites, Client.asked]
  split
  · next some =>
      rw [update_of_ne (second some)]
      split
      · next some => rw [update_of_ne (first some)]
      · rfl
  · split
    · next some => rw [update_of_ne (first some)]
    · rfl

theorem pointed_first
    (both : c.wsize > 0 → c.w2size > 0 → uspWbf1 c.type ≠ uspWbf2 c.type) (positive : c.wsize > 0) :
    s.pointed c data (uspWbf1 c.type) = s.msgBuf := by
  simp only [Server.pointed, Stub.setWrites, Client.asked, positive, if_true]
  split
  · next some => rw [update_of_ne (both positive some), update_self]
  · rw [update_self]

theorem pointed_second (positive : c.w2size > 0) :
    s.pointed c data (uspWbf2 c.type) = s.msgBuf + c.wsize := by
  simp [Server.pointed, Stub.setWrites, Client.asked, positive]

theorem passed_of_not_timed (other : ¬c.Timed i) :
    s.passed c data i = s.pointed c data i := by
  by_cases some : TIMED c.funExtTimed > 0
  · have low : i ≠ TIMED c.funExtTimed := fun same => other ⟨some, .inl same⟩
    have high : i ≠ TIMED c.funExtTimed + 1 := fun same => other ⟨some, .inr same⟩
    have set : s.passed c data = setLong (TIMED c.funExtTimed) _ (s.pointed c data) := if_pos some
    rw [set]
    exact setLong_of_ne low high
  · have kept : s.passed c data = s.pointed c data := if_neg some
    rw [kept]

theorem passed_timed (some : TIMED c.funExtTimed > 0) :
    longAt (s.passed c data) (TIMED c.funExtTimed) =
      s.nano2count (longAt (s.pointed c data) (TIMED c.funExtTimed)) := by
  simp only [Server.passed, Stub.setTimed, Client.asked, some, if_true]
  exact longAt_setLong ..

theorem pointed_of_not_points (nonneg : 0 ≤ c.rsize) (block : c.InBlock i)
    (plain : ¬c.Points i) : s.pointed c data i = c.args i := by
  have read (some : c.rsize > 0) : i ≠ uspRbf1 c.type := fun same => plain (.inl ⟨some, same⟩)
  rw [pointed_of_ne (fun some same => plain (.inr (.inl ⟨some, same⟩)))
    fun some same => plain (.inr (.inr ⟨some, same⟩))]
  exact found_of_inBlock nonneg block read

theorem length_pass {r : Request} : (stub.pass s r a).length = 10 := by
  rw [Stub.pass, List.length_map, List.length_range]

/-- All words of the block are passed. -/
theorem arg_pass {before after : Memory} {retval : UInt64} (few : c.words ≤ 10)
    (block : c.InBlock i) :
    Served.arg ⟨stub.pass s (c.asked data) a, before, retval, after⟩ i = a i := by
  obtain ⟨positive, inside⟩ := block
  have back : i - 1 + 1 = i := by omega
  have small : i - 1 < 10 := by omega
  have words : i ≤ (c.asked data).argsize / 4 := by
    simp only [Client.asked]
    omega
  simp only [Served.arg, Stub.pass, List.getD_eq_getElem?_getD, List.getElem?_map,
    List.getElem?_range small, Option.map_some, Option.getD_some]
  cases stub with
  | soft =>
      simp only [back]
      exact if_pos words
  | hard => simp only [back]

theorem adr_add {pointer : Int32} (nonneg : 0 ≤ size)
    (room : adr pointer + size.toInt.toNat < 2 ^ 32) :
    adr (pointer + size) = adr pointer + size.toInt.toNat := by
  have plain : size.toUInt32.toNat = size.toInt.toNat := Int32.toNat_toUInt32_of_le nonneg
  rw [adr, adr, Int32.toUInt32_add, UInt32.toNat_add, plain]
  exact Nat.mod_eq_of_lt room

/-! ## The request -/

end

section

variable {s : Server} {c : Client}

/-- The bytes sent behind the arguments. -/
def Client.data (c : Client) : List UInt8 :=
  if c.rsize > 0 then c.mem.read (adr (c.args (uspRbf1 c.type))) c.rsize.toInt.toNat else []

theorem toNat_eq_zero (small : ¬size > 0) : size.toInt.toNat = 0 := by
  have least := Int32.le_iff_toInt_le.mp (Int32.not_lt.mp small)
  simp only [Int32.toInt_zero] at least
  omega

theorem toNat_pos (positive : size > 0) : 0 < size.toInt.toNat := by
  have least := Int32.lt_iff_toInt_lt.mp positive
  simp only [Int32.toInt_zero] at least
  omega

theorem length_data : c.data.length = c.rsize.toInt.toNat := by
  rw [Client.data]
  split
  · exact Memory.length_read
  · next small => exact (toNat_eq_zero small).symm

theorem request_eq (fits : c.Fits) : c.request = some (c.asked c.data) := by
  have small := fits.request
  rw [← length_data] at small
  exact if_pos small

/-! ## The reply -/

/-- The bytes of a buffer of the stub. -/
def buffer (m : Memory) (pointer size : Int32) : List UInt8 :=
  if size > 0 then m.read (adr pointer) size.toInt.toNat else []

theorem length_buffer (m : Memory) (pointer size : Int32) :
    (buffer m pointer size).length = size.toInt.toNat := by
  rw [buffer]
  split
  · exact Memory.length_read
  · next small => exact (toNat_eq_zero small).symm

/-- What the stub sends when the function has left `after`. -/
def Server.replied (s : Server) (c : Client) (retval : UInt64) (after : Memory) : Reply where
  wsize := c.wsize
  w2size := c.w2size
  retval := retval
  msg := buffer after s.msgBuf c.wsize ++ buffer after (s.msgBuf + c.wsize) c.w2size

/-- What the function finds. -/
def Server.before (s : Server) (c : Client) : Memory := s.mem.write (adr (s.copy c)) c.data

/-- The words the function is called with. -/
def Server.called (s : Server) (c : Client) (stub : Stub) : List Int32 :=
  stub.pass s (c.asked c.data) (s.passed c c.data)

theorem clamp_eq (nonneg : 0 ≤ size) : (if size > 0 then size else 0) = size := by
  split
  · rfl
  · next small => exact Int32.le_antisymm nonneg (Int32.not_lt.mp small)

theorem serve_eq {fn : Fn} (fits : c.Fits) (placed : c.Placed)
    (other₁ : needToW c.type = true → c.SizeApart (uspWsz1 c.type))
    (other₂ : needToW2nd c.type = true → c.SizeApart (uspWsz2 c.type)) :
    stub.serve s fn (c.asked c.data) =
      (⟨s.called c stub, s.before c, (fn (s.called c stub) (s.before c)).1,
          (fn (s.called c stub) (s.before c)).2⟩,
        some (s.replied c (fn (s.called c stub) (s.before c)).1
          (fn (s.called c stub) (s.before c)).2)) := by
  have first : wsize1 (c.asked c.data).type (s.found c c.data) = c.wsize :=
    wsize1_found fits.rsize placed other₁
  have second : wsize2 (c.asked c.data).type (s.found c c.data) = c.w2size :=
    wsize2_found fits.rsize placed other₂
  have small (m : Memory) :
      16 + (buffer m s.msgBuf c.wsize ++ buffer m (s.msgBuf + c.wsize) c.w2size).length ≤
        MAX_MSG_SIZE := by
    have := fits.reply
    rw [List.length_append, length_buffer, length_buffer]
    omega
  rw [Server.found] at first second
  simp only [Stub.serve, first, second, clamp_eq fits.wsize, clamp_eq fits.w2size]
  exact congrArg (Prod.mk _) (if_pos (small _))

/-! ## What the caller gets -/

section Reply

variable {retval : UInt64} {after : Memory}

/-- The caller's memory when the first buffer has been copied. -/
def Client.copied (s : Server) (c : Client) (after : Memory) : Memory :=
  if c.wsize ≠ 0 then
    c.mem.write (adr (c.args (uspWbf1 c.type))) (buffer after s.msgBuf c.wsize)
  else c.mem

/-- The caller's memory after the call. -/
def Client.left (s : Server) (c : Client) (after : Memory) : Memory :=
  if c.w2size ≠ 0 then
    (c.copied s after).write (adr (c.args (uspWbf2 c.type)))
      (buffer after (s.msgBuf + c.wsize) c.w2size)
  else c.copied s after

theorem reply_replied : c.reply (s.replied c retval after) = (retval, c.left s after) := by
  have first : (s.replied c retval after).msg.take c.wsize.toInt.toNat =
      buffer after s.msgBuf c.wsize := by
    rw [Server.replied, ← length_buffer after s.msgBuf c.wsize, List.take_left]
  have second : ((s.replied c retval after).msg.drop c.wsize.toInt.toNat).take
      c.w2size.toInt.toNat = buffer after (s.msgBuf + c.wsize) c.w2size := by
    have whole := length_buffer after (s.msgBuf + c.wsize) c.w2size
    rw [Server.replied, ← length_buffer after s.msgBuf c.wsize, List.drop_left, ← whole,
      List.take_length]
  have size₁ : (s.replied c retval after).wsize = c.wsize := rfl
  have size₂ : (s.replied c retval after).w2size = c.w2size := rfl
  simp only [Client.reply, size₁, size₂, first, second]
  rfl

theorem buffer_of_positive {pointer : Int32} (positive : size > 0) :
    buffer after pointer size = after.read (adr pointer) size.toInt.toNat := if_pos positive

theorem ne_zero_of_positive (positive : size > 0) : size ≠ 0 := by
  intro zero
  subst zero
  exact Int32.lt_irrefl positive

theorem left_second (positive : c.w2size > 0) :
    (c.left s after).read (adr (c.args (uspWbf2 c.type))) c.w2size.toInt.toNat =
      after.read (adr (s.msgBuf + c.wsize)) c.w2size.toInt.toNat := by
  rw [Client.left, if_pos (ne_zero_of_positive positive), Memory.read_write_length (length_buffer ..)]
  exact buffer_of_positive positive

theorem copied_first (positive : c.wsize > 0) :
    (c.copied s after).read (adr (c.args (uspWbf1 c.type))) c.wsize.toInt.toNat =
      after.read (adr s.msgBuf) c.wsize.toInt.toNat := by
  rw [Client.copied, if_pos (ne_zero_of_positive positive), Memory.read_write_length (length_buffer ..)]
  exact buffer_of_positive positive

theorem left_first (nonneg₂ : 0 ≤ c.w2size) (proper : c.Proper) (positive : c.wsize > 0) :
    (c.left s after).read (adr (c.args (uspWbf1 c.type))) c.wsize.toInt.toNat =
      after.read (adr s.msgBuf) c.wsize.toInt.toNat := by
  rw [Client.left]
  split
  · next some =>
      have apart := proper.apart positive (positive_of_ne_zero nonneg₂ some)
      rw [Memory.read_write_apart (by rw [length_buffer]; exact apart)]
      exact copied_first positive
  · exact copied_first positive

theorem left_apart (nonneg₁ : 0 ≤ c.wsize) (nonneg₂ : 0 ≤ c.w2size) {x : Nat}
    (first : c.wsize > 0 → x < adr (c.args (uspWbf1 c.type)) ∨
      adr (c.args (uspWbf1 c.type)) + c.wsize.toInt.toNat ≤ x)
    (second : c.w2size > 0 → x < adr (c.args (uspWbf2 c.type)) ∨
      adr (c.args (uspWbf2 c.type)) + c.w2size.toInt.toNat ≤ x) :
    c.left s after x = c.mem x := by
  have copied : c.copied s after x = c.mem x := by
    rw [Client.copied]
    split
    · next some =>
        have apart := first (positive_of_ne_zero nonneg₁ some)
        exact Memory.write_apply_apart (by rw [length_buffer]; exact apart)
    · rfl
  rw [Client.left]
  split
  · next some =>
      have apart := second (positive_of_ne_zero nonneg₂ some)
      rw [Memory.write_apply_apart (by rw [length_buffer]; exact apart), copied]
  · exact copied

end Reply

/-- A word that points is the one that was set. -/
theorem called_points {i : Nat} {retval : UInt64} {before after : Memory} (few : c.words ≤ 10)
    (placed : c.Placed) (still : ¬c.Timed i) (points : c.Points i) :
    Served.arg ⟨s.called c stub, before, retval, after⟩ i = s.pointed c c.data i := by
  have inside := placed.inBlock i (.inl points)
  rw [Server.called, arg_pass few inside]
  exact passed_of_not_timed still

/-- What the function is called with and what the caller gets of what it leaves. -/
theorem called_asLocal {retval : UInt64} {after : Memory} (fits : c.Fits) (placed : c.Placed)
    (proper : c.Proper) :
    AsLocal s c ⟨s.called c stub, s.before c, retval, after⟩ retval (c.left s after) := by
  have pointed {i : Nat} (points : c.Points i) :
      Served.arg ⟨s.called c stub, s.before c, retval, after⟩ i = s.pointed c c.data i :=
    called_points proper.words placed (fun timed => proper.timed i timed points) points
  have atFirst (some : c.wsize > 0) :
      Served.arg ⟨s.called c stub, s.before c, retval, after⟩ (uspWbf1 c.type) = s.msgBuf := by
    rw [pointed (.inr (.inl ⟨some, rfl⟩)), pointed_first proper.both some]
  have atSecond (some : c.w2size > 0) :
      Served.arg ⟨s.called c stub, s.before c, retval, after⟩ (uspWbf2 c.type) =
        s.msgBuf + c.wsize := by
    rw [pointed (.inr (.inr ⟨some, rfl⟩)), pointed_second some]
  exact {
    length := by
      rw [Server.called, length_pass]
      exact proper.words
    others i block plain still := by
      rw [Server.called, arg_pass proper.words block, passed_of_not_timed still]
      exact pointed_of_not_points fits.rsize block plain
    timed some := by
      have low : c.InBlock (TIMED c.funExtTimed) :=
        placed.inBlock _ (.inr ⟨some, .inl rfl⟩)
      have high : c.InBlock (TIMED c.funExtTimed + 1) :=
        placed.inBlock _ (.inr ⟨some, .inr rfl⟩)
      have found : longAt (s.pointed c c.data) (TIMED c.funExtTimed) =
          longAt c.args (TIMED c.funExtTimed) :=
        longAt_congr (pointed_of_not_points fits.rsize low (proper.timed _ ⟨some, .inl rfl⟩))
          (pointed_of_not_points fits.rsize high (proper.timed _ ⟨some, .inr rfl⟩))
      rw [← found, ← passed_timed some, Server.called]
      exact longAt_congr (arg_pass proper.words low) (arg_pass proper.words high)
    read some := by
      rw [pointed (.inl ⟨some, rfl⟩), pointed_of_ne (proper.first some) (proper.second some), found_read some]
      have whole : (s.before c).read (adr (s.copy c)) c.rsize.toInt.toNat = c.data :=
        Memory.read_write_length length_data
      exact whole.trans (if_pos some)
    disjoint some₁ some₂ := by
      have room := s.room
      have reply := fits.reply
      rw [atFirst some₁, atSecond some₂]
      have behind : adr (s.msgBuf + c.wsize) = adr s.msgBuf + c.wsize.toInt.toNat :=
        adr_add fits.wsize (by omega)
      exact Nat.le_of_eq behind.symm
    result := rfl
    first some := by
      rw [atFirst some]
      exact left_first fits.w2size proper some
    second some := by
      rw [atSecond some]
      exact left_second some
    frame x := left_apart fits.wsize fits.w2size }

/-- The call is as the local one. -/
def LocalCall (stub : Stub) (s : Server) (fn : Fn) (c : Client) : Prop :=
  ∃ served result mem, rtNetRpc stub s fn c = some (served, result, mem) ∧
    (served.retval, served.after) = fn served.args served.before ∧ AsLocal s c served result mem

theorem rtNetRpc_of_proper {fn : Fn} (fits : c.Fits) (placed : c.Placed) (proper : c.Proper) :
    LocalCall stub s fn c := by
  let left := fn (s.called c stub) (s.before c)
  have run : rtNetRpc stub s fn c =
      some (⟨s.called c stub, s.before c, left.1, left.2⟩, left.1, c.left s left.2) := by
    rw [rtNetRpc, request_eq fits]
    simp only [Option.bind_eq_bind, Option.bind_some, reply_replied,
      serve_eq fits placed proper.size1 proper.size2]
    rfl
  exact ⟨_, _, _, run, rfl, called_asLocal fits placed proper⟩

end

end Rtai.NetRpc.RemoteCall
