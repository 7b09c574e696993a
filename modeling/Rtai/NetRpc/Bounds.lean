import Rtai.Lib.Words
import Rtai.NetRpc.RemoteCall
import Mathlib.Algebra.Ring.Int.Defs

/-!
# What a remote call writes

The copies that `rt_net_rpc` and a stub make for one call, each with the buffer it goes to.
Sizes are as the code has them: any `int` of the caller is a size, a copy takes it for a
`size_t`, and `soft_rt_sendto` alone compares one with `MAX_MSG_SIZE`.

The words of the stub are read from the bytes it has received, over what its buffer held
before.
-/

namespace Rtai.NetRpc.Bounds

open Rtai.Lib Rtai.Lxrt Rtai.NetRpc.RemoteCall

/-! ## Words in memory -/

/-- `*(int *)p`. -/
def load (m : Memory) (p : Nat) : Int32 := intOf (m.read p 4)

/-- `*(long long *)p`. -/
def load64 (m : Memory) (p : Nat) : UInt64 := longOf (m.read p 8)

/-- An `int` as a `size_t`. -/
def sizeT (x : Int32) : Nat := x.toUInt32.toNat

/-! ## Buffers -/

/-- What is copied to. -/
inductive Buffer where
  /-- `msg` of `rt_net_rpc`. -/
  | clientMsg
  /-- `socks[sock].msg` on the node of the caller. -/
  | clientSock
  /-- `msg` of the stub. -/
  | stubMsg
  /-- `socks[sock].msg` on the node of the stub. -/
  | stubSock
  /-- `task->fun_args` of the task of a soft stub. -/
  | funArgs
  /-- `arg`, the reply of the stub. -/
  | reply
  | writeBack1
  | writeBack2
deriving DecidableEq

/-- `size` bytes are written from `start` on. -/
structure Write where
  buffer : Buffer
  start : Int
  size : Nat
deriving DecidableEq

/-- `3*sizeof(struct fun_args)`. -/
def FUN_ARGS : Nat := 3 * 44

/-! ## The call -/

/-- A call, with the port slot it is made on, and the buffers as it finds them. -/
structure Call where
  /-- `portslotp->hard`, which the stub has as well. -/
  hard : Bool
  /-- `portslotp->task < 0`: the reply of an earlier call has not been received. -/
  awaited : Bool
  /-- That reply has come, with its size. -/
  come : Option Nat
  priority : Int32
  basePriority : Int32
  funExtTimed : Int32
  type : UInt64
  args : Nat
  argsize : Int32
  /-- The memory of the caller. -/
  mem : Memory
  /-- `msg` of the stub before the request is received. -/
  stubMsg : Memory
  /-- The address of `a`. -/
  a : Int32

/-- `PORT`. -/
def PORT (i : Int32) : Int32 := i >>> 18

/-- `FUN`. -/
def FUN (i : Int32) : Int32 := i &&& 0xFF

/-- `if (len > MAX_MSG_SIZE) len = MAX_MSG_SIZE`. -/
def cut (len : Int32) : Int32 := if len > 1500 then 1500 else len

/-- `soft_rt_sendto` copies the message into its socket. -/
def sendto (hard : Bool) (sock : Buffer) (len : Int32) : List Write :=
  if !hard then [⟨sock, 0, sizeT (cut len)⟩] else []

/-- How much of a message of that length is received; none is sent with a negative one. -/
def arrives (len : Int32) : Option Nat :=
  if 0 ≤ len then some (cut len).toInt.toNat else none

namespace Call

variable (c : Call)

/-- `((int *)args)[i - 1]`. -/
def word (i : Nat) : Int32 := load c.mem (c.args + 4 * i - 4)

/-- `port > 0`. -/
def sync : Bool := PORT c.funExtTimed > 0

def rsize : Int32 := rsize1 c.type c.word

/-- `sizeof(struct msg_t) - sizeof(int) + argsize + rsize`. -/
def len : Int32 := 28 + c.argsize + c.rsize

/-- The request. -/
def message : List UInt8 :=
  intBytes c.priority ++ intBytes c.basePriority ++ intBytes c.argsize ++ intBytes c.rsize ++
    intBytes c.funExtTimed ++ longBytes c.type ++ c.mem.read c.args c.argsize.toInt.toNat ++
    if c.rsize > 0 then c.mem.read (adr (c.word (uspRbf1 c.type))) c.rsize.toInt.toNat else []

/-- `rt_sem_wait_if` finds no reply of the earlier call, or `rt_sem_wait` waits for ever. -/
def refused : Bool := c.awaited && c.come.isNone

/-- The reply of an earlier call. -/
def earlier : List Write :=
  if c.awaited then c.come.toList.map fun size => ⟨.clientMsg, 0, min size MAX_MSG_SIZE⟩ else []

/-- The request is put together and sent. -/
def request : List Write :=
  [⟨.clientMsg, 0, 28⟩, ⟨.clientMsg, 28, sizeT c.argsize⟩] ++
    (if c.rsize > 0 then [⟨.clientMsg, 28 + c.argsize.toInt, sizeT c.rsize⟩] else []) ++
    sendto c.hard .clientSock c.len

/-! ### The stub -/

/-- `msg` of the stub after the request has been received. -/
def received : Memory :=
  c.stubMsg.write 0 (c.message.take ((arrives c.len).getD 0))

/-- `par->argsize`. -/
def parArgsize : Int32 := load c.received 8

/-- `par->rsize`. -/
def parRsize : Int32 := load c.received 12

/-- `par->fun_ext_timed`. -/
def parFunExtTimed : Int32 := load c.received 16

/-- `par->type`. -/
def parType : UInt64 := load64 c.received 20

/-- After `if (par->rsize) a[USP_RBF1(type) - 1] = (int)((char *)a + par->argsize)`. -/
def pointed : Memory :=
  if c.parRsize ≠ 0 then c.received.write (24 + 4 * uspRbf1 c.parType) (intBytes (c.a + c.parArgsize))
  else c.received

/-- `a[i - 1]`. -/
def parWord (i : Nat) : Int32 := load c.pointed (24 + 4 * i)

/-- `wsize` of the stub. -/
def wsize : Int32 := wsize1 c.parType c.parWord

/-- `w2size` of the stub. -/
def w2size : Int32 := wsize2 c.parType c.parWord

/-- `sizeof(struct msg_t)` of the stub.  There is no array of a negative size. -/
def replySize : Nat :=
  if 0 ≤ c.wsize ∧ 0 ≤ c.w2size then
    (16 + c.wsize.toInt.toNat + c.w2size.toInt.toNat + 3) / 4 * 4
  else 0

/-- That size as the `int` it is sent with. -/
def replyLen : Int32 := Int32.ofNat c.replySize

/-- `soft_stub_fun` and `hard_stub_fun`. -/
def stub : List Write :=
  (if c.parRsize ≠ 0 then [⟨.stubMsg, 24 + 4 * uspRbf1 c.parType, 4⟩] else []) ++
    [⟨.reply, 0, 4⟩] ++
    (if c.wsize > 0 then [⟨.stubMsg, 24 + 4 * uspWbf1 c.parType, 4⟩] else []) ++
    [⟨.reply, 4, 4⟩] ++
    (if c.w2size > 0 then [⟨.stubMsg, 24 + 4 * uspWbf2 c.parType, 4⟩] else []) ++
    (if TIMED c.parFunExtTimed > 0 then [⟨.stubMsg, 24 + 4 * TIMED c.parFunExtTimed, 8⟩]
      else []) ++
    (if !c.hard then [⟨.funArgs, 0, sizeT c.parArgsize⟩, ⟨.funArgs, 40, 4⟩] else []) ++
    [⟨.reply, 8, 8⟩] ++ sendto c.hard .stubSock c.replyLen

/-- `rt_net_rpc` behind the arrival of the reply. -/
def replied : List Write :=
  match arrives c.replyLen with
  | none => []
  | some size =>
      [⟨.clientMsg, 0, size⟩] ++
        (if c.wsize > 0 then [⟨.writeBack1, 0, sizeT c.wsize⟩] else []) ++
        if c.w2size > 0 then [⟨.writeBack2, 0, sizeT c.w2size⟩] else []

/-- The stub is signalled if it has received more than an `int`. -/
def served : List Write :=
  match arrives c.len with
  | none => []
  | some size =>
      [⟨.stubMsg, 0, size⟩] ++
        if size > 4 then c.stub ++ (if c.sync then c.replied else []) else []

/-- All that is written for the call, in order. -/
def writes : List Write :=
  if c.refused then []
  else c.earlier ++ if FUN c.funExtTimed = 0xFF then [] else c.request ++ c.served

/-- The sizes of the buffers; the caller passes those of its write-back buffers. -/
def capacity : Buffer → Nat
  | .clientMsg | .clientSock | .stubMsg | .stubSock => MAX_MSG_SIZE
  | .funArgs => FUN_ARGS
  | .reply => c.replySize
  | .writeBack1 => (wsize1 c.type c.word).toInt.toNat
  | .writeBack2 => (wsize2 c.type c.word).toInt.toNat

/-- The bytes are in the buffer. -/
def Inside (w : Write) : Prop := 0 ≤ w.start ∧ w.start + w.size ≤ c.capacity w.buffer

instance (w : Write) : Decidable (c.Inside w) := inferInstanceAs (Decidable (_ ∧ _))

/-- All of them are. -/
def Confined (writes : List Write) : Prop := ∀ w ∈ writes, c.Inside w

instance (writes : List Write) : Decidable (c.Confined writes) :=
  inferInstanceAs (Decidable (∀ w ∈ writes, _))

/-- Nothing is done, or no byte is written outside of the buffers. -/
def Bounded : Prop := c.writes = [] ∨ c.Confined c.writes

/-! ## When none is outside -/

/-- A request is made. -/
def Asks : Prop := c.refused = false ∧ FUN c.funExtTimed ≠ 0xFF

/-- The block and the read buffer fit behind the 28 bytes of the header, and the size a soft
socket is given is not negative. -/
structure Fits : Prop where
  argsize : 0 ≤ c.argsize.toInt
  message : 28 + c.argsize.toInt + max 0 c.rsize.toInt ≤ MAX_MSG_SIZE
  sent : c.hard = false → 0 ≤ 28 + c.argsize.toInt + c.rsize.toInt

/-- The stub receives more than an `int`. -/
def Served : Prop := 4 < 28 + c.argsize.toInt + c.rsize.toInt

/-- The sizes the stub finds are none or more and are not more than the caller's, and those
that a soft stub copies by fit as well. -/
structure Answers : Prop where
  wsize : 0 ≤ c.wsize.toInt
  w2size : 0 ≤ c.w2size.toInt
  args : c.hard = false → 0 ≤ c.parArgsize.toInt ∧ c.parArgsize.toInt ≤ FUN_ARGS
  sent : c.hard = false → 0 ≤ c.replyLen.toInt
  back : c.sync = true → 0 ≤ c.replyLen.toInt →
    c.wsize.toInt ≤ max 0 (wsize1 c.type c.word).toInt ∧
    c.w2size.toInt ≤ max 0 (wsize2 c.type c.word).toInt

end Call

/-! ## Copies -/

/-- A negative size is a large one. -/
theorem sizeT_eq (x : Int32) :
    (sizeT x : Int) = if 0 ≤ x.toInt then x.toInt else x.toInt + 2 ^ 32 := by
  have size : sizeT x = x.toBitVec.toNat := rfl
  have int : x.toInt = x.toBitVec.toInt := rfl
  have bound : x.toBitVec.toNat < 2 ^ 32 := x.toBitVec.isLt
  rw [size, int, BitVec.toInt_eq_toNat_cond]
  split <;> split <;> omega

theorem sizeT_le {x : Int32} {k : Nat} (small : k < 2 ^ 31) :
    sizeT x ≤ k ↔ 0 ≤ x.toInt ∧ x.toInt ≤ k := by
  have size := sizeT_eq x
  have low : -2 ^ 31 ≤ x.toInt := Int32.le_toInt x
  split at size <;> omega

theorem cut_toInt (len : Int32) : (cut len).toInt = min len.toInt 1500 := by
  rw [cut]
  split
  next large =>
    have more : (1500 : Int32).toInt < len.toInt := Int32.lt_iff_toInt_lt.mp large
    rw [show (1500 : Int32).toInt = 1500 by decide] at more ⊢
    omega
  next small =>
    have less : ¬(1500 : Int32).toInt < len.toInt := fun h => small (Int32.lt_iff_toInt_lt.mpr h)
    rw [show (1500 : Int32).toInt = 1500 by decide] at less
    omega

theorem placeAt_le (shift word : UInt32) : placeAt shift word ≤ 127 := by
  rw [placeAt, UInt32.toNat_and]
  exact Nat.and_le_right

theorem TIMED_le (i : Int32) : TIMED i ≤ 31 := by
  have masked : TIMED i = ((i >>> 13).toUInt32 &&& 0x1F).toNat := rfl
  rw [masked, UInt32.toNat_and]
  exact Nat.and_le_right

namespace Call

variable {c : Call} {ws ws' : List Write} {w : Write} {b : Buffer} {len : Int32} {size : Nat}

@[simp] theorem confined_nil : c.Confined [] := by
  intro w none
  cases none

@[simp] theorem confined_cons : c.Confined (w :: ws) ↔ c.Inside w ∧ c.Confined ws :=
  List.forall_mem_cons

@[simp] theorem confined_append : c.Confined (ws ++ ws') ↔ c.Confined ws ∧ c.Confined ws' :=
  List.forall_mem_append

@[simp] theorem confined_ite {p : Prop} [Decidable p] :
    c.Confined (if p then ws else []) ↔ (p → c.Confined ws) := by
  split
  next h => simp [h]
  next h => simp [h]

/-- A copy to the beginning of a buffer. -/
theorem inside_zero : c.Inside ⟨b, 0, size⟩ ↔ size ≤ c.capacity b := by
  simp [Inside]

/-- A soft socket is given no more than it has room for, but for a negative size. -/
theorem confined_sendto (room : c.capacity b = MAX_MSG_SIZE) :
    c.Confined (sendto c.hard b len) ↔ (c.hard = false → 0 ≤ len.toInt) := by
  rw [sendto, confined_ite, confined_cons, and_iff_left confined_nil, inside_zero, room,
    sizeT_le (by decide), cut_toInt, Bool.not_eq_true']
  refine imp_congr_right fun _ => ?_
  rw [MAX_MSG_SIZE]
  omega

/-! ## The stub -/

theorem positive_iff (size : Int32) : size > 0 ↔ 0 < size.toInt := Int32.lt_iff_toInt_lt

theorem nonneg_iff (size : Int32) : 0 ≤ size ↔ 0 ≤ size.toInt := Int32.le_iff_toInt_le

/-- The words of the arguments are in the message. -/
theorem inside_word {i : Nat} (place : i ≤ 127) (word : size ≤ 8) :
    c.Inside ⟨.stubMsg, 24 + 4 * i, size⟩ := by
  simp only [Inside, capacity, MAX_MSG_SIZE]
  omega

/-- The header is in the reply if its arrays have sizes. -/
theorem inside_header (start size : Nat) (some : 0 < size) (header : start + size ≤ 16) :
    c.Inside ⟨.reply, start, size⟩ ↔ 0 ≤ c.wsize.toInt ∧ 0 ≤ c.w2size.toInt := by
  simp only [Inside, capacity, replySize, nonneg_iff]
  split
  next sizes =>
    refine iff_of_true ?_ sizes
    omega
  next sizes =>
    refine iff_of_false ?_ sizes
    omega

theorem confined_stub : c.Confined c.stub ↔
    (0 ≤ c.wsize.toInt ∧ 0 ≤ c.w2size.toInt) ∧
      (c.hard = false → 0 ≤ c.parArgsize.toInt ∧ c.parArgsize.toInt ≤ FUN_ARGS) ∧
      (c.hard = false → 0 ≤ c.replyLen.toInt) := by
  have timed : c.Inside ⟨.stubMsg, 24 + 4 * TIMED c.parFunExtTimed, 8⟩ :=
    inside_word (Nat.le_trans (TIMED_le _) (by decide)) le_rfl
  have word (shift word : UInt32) : c.Inside ⟨.stubMsg, 24 + 4 * placeAt shift word, 4⟩ :=
    inside_word (placeAt_le shift word) (by decide)
  have wsize : c.Inside ⟨.reply, 0, 4⟩ ↔ _ := inside_header 0 4 (by decide) (by decide)
  have w2size : c.Inside ⟨.reply, 4, 4⟩ ↔ _ := inside_header 4 4 (by decide) (by decide)
  have retval : c.Inside ⟨.reply, 8, 8⟩ ↔ _ := inside_header 8 8 (by decide) (by decide)
  have room : c.capacity .funArgs = FUN_ARGS := rfl
  have fn : c.Inside ⟨.funArgs, 40, 4⟩ := by
    rw [Inside, room]
    decide
  have args : c.Inside ⟨.funArgs, 0, sizeT c.parArgsize⟩ ↔
      0 ≤ c.parArgsize.toInt ∧ c.parArgsize.toInt ≤ FUN_ARGS := by
    rw [inside_zero, room]
    exact sizeT_le (by decide)
  have sent : c.Confined (sendto c.hard .stubSock c.replyLen) ↔ _ := confined_sendto rfl
  simp only [stub, confined_append, confined_ite, confined_cons, confined_nil, and_true,
    Bool.not_eq_true', uspRbf1, uspWbf1, uspWbf2, word, timed, fn, wsize, w2size, retval, args,
    sent, implies_true, true_and, and_self, and_assoc]
  constructor
  · rintro ⟨first, second, copied, -, -, sent⟩
    exact ⟨first, second, copied, sent⟩
  · rintro ⟨first, second, copied, sent⟩
    exact ⟨first, second, copied, first, second, sent⟩

theorem arrives_of_nonneg (nonneg : 0 ≤ len.toInt) :
    arrives len = some (min len.toInt 1500).toNat := by
  rw [arrives, if_pos ((nonneg_iff len).mpr nonneg), cut_toInt]

theorem arrives_of_neg (negative : ¬0 ≤ len.toInt) : arrives len = none :=
  if_neg fun nonneg => negative ((nonneg_iff len).mp nonneg)

/-- A size of the stub is written back if it is positive. -/
theorem confined_back {size : Int32} {room : Int} (capacity : c.capacity b = room.toNat)
    (small : room < 2 ^ 31) :
    (size > 0 → c.Confined [⟨b, 0, sizeT size⟩]) ↔ size.toInt ≤ max 0 room := by
  rw [confined_cons, and_iff_left confined_nil, inside_zero, capacity, sizeT_le (by omega),
    positive_iff]
  omega

theorem confined_replied : c.Confined c.replied ↔ (0 ≤ c.replyLen.toInt →
    c.wsize.toInt ≤ max 0 (wsize1 c.type c.word).toInt ∧
      c.w2size.toInt ≤ max 0 (wsize2 c.type c.word).toInt) := by
  rw [replied]
  by_cases sent : 0 ≤ c.replyLen.toInt
  · have arrived : c.Inside ⟨.clientMsg, 0, (min c.replyLen.toInt 1500).toNat⟩ := by
      rw [inside_zero, capacity, MAX_MSG_SIZE]
      omega
    rw [arrives_of_nonneg sent]
    dsimp only
    rw [confined_append, confined_append, confined_ite, confined_ite,
      confined_back rfl (Int32.toInt_lt _), confined_back rfl (Int32.toInt_lt _), confined_cons,
      and_iff_left confined_nil, and_iff_right arrived]
    exact ⟨fun sizes _ => sizes, fun sizes => sizes sent⟩
  · rw [arrives_of_neg sent]
    simp [sent]

/-! ## The call -/

theorem len_toInt (argsize : 0 ≤ c.argsize.toInt)
    (message : 28 + c.argsize.toInt + max 0 c.rsize.toInt ≤ MAX_MSG_SIZE) :
    c.len.toInt = 28 + c.argsize.toInt + c.rsize.toInt := by
  have low : -2 ^ 31 ≤ c.rsize.toInt := Int32.le_toInt _
  rw [MAX_MSG_SIZE] at message
  have header : (28 + c.argsize).toInt = 28 + c.argsize.toInt := by
    rw [Int32.toInt_add, show (28 : Int32).toInt = 28 by decide]
    exact Int.bmod_eq_of_le (by omega) (by omega)
  rw [len, Int32.toInt_add, header]
  exact Int.bmod_eq_of_le (by omega) (by omega)

/-- The copies behind the header are in the message if both together are. -/
theorem inside_message : c.Inside ⟨.clientMsg, 28, sizeT c.argsize⟩ ∧
      (c.rsize > 0 → c.Inside ⟨.clientMsg, 28 + c.argsize.toInt, sizeT c.rsize⟩) ↔
    0 ≤ c.argsize.toInt ∧ 28 + c.argsize.toInt + max 0 c.rsize.toInt ≤ MAX_MSG_SIZE := by
  have low : -2 ^ 31 ≤ c.argsize.toInt := Int32.le_toInt _
  simp only [Inside, capacity, MAX_MSG_SIZE, positive_iff, sizeT_eq]
  omega

theorem confined_request : c.Confined c.request ↔ c.Fits := by
  have header : c.Inside ⟨.clientMsg, 0, 28⟩ := by
    rw [inside_zero, capacity]
    decide
  rw [request, confined_append, confined_append, confined_cons, and_iff_right header, confined_cons,
    and_iff_left confined_nil, confined_ite, confined_cons, and_iff_left confined_nil,
    inside_message, confined_sendto rfl]
  constructor
  · rintro ⟨⟨argsize, message⟩, sent⟩
    rw [len_toInt argsize message] at sent
    exact ⟨argsize, message, sent⟩
  · rintro ⟨argsize, message, sent⟩
    rw [len_toInt argsize message]
    exact ⟨⟨argsize, message⟩, sent⟩

theorem confined_served (fits : c.Fits) : c.Confined c.served ↔ (c.Served → c.Answers) := by
  have length := len_toInt fits.argsize fits.message
  have small := fits.message
  rw [MAX_MSG_SIZE] at small
  by_cases sent : 0 ≤ c.len.toInt
  · have arrived : c.Inside ⟨.stubMsg, 0, (min c.len.toInt 1500).toNat⟩ := by
      rw [inside_zero, capacity, MAX_MSG_SIZE]
      omega
    have more : (min c.len.toInt 1500).toNat > 4 ↔ c.Served := by
      rw [Served]
      omega
    have back : c.Confined (if c.sync then c.replied else []) ↔ _ :=
      confined_ite.trans (imp_congr_right fun _ => confined_replied)
    rw [served, arrives_of_nonneg sent]
    dsimp only
    rw [confined_append, confined_cons, and_iff_left confined_nil, and_iff_right arrived,
      confined_ite, confined_append, confined_stub, back, more]
    refine imp_congr_right fun _ => ?_
    constructor
    · rintro ⟨⟨⟨first, second⟩, copied, sent⟩, back⟩
      exact ⟨first, second, copied, sent, back⟩
    · rintro ⟨first, second, copied, sent, back⟩
      exact ⟨⟨⟨first, second⟩, copied, sent⟩, back⟩
  · rw [served, arrives_of_neg sent]
    refine iff_of_true confined_nil fun more => ?_
    rw [Served] at more
    omega

/-- No byte is written outside of a buffer if and only if the request fits in a message and the
sizes that the stub finds in it are those of buffers, no larger than the caller's. -/
theorem bounded_iff (c : Call) : c.Bounded ↔ (c.Asks → c.Fits ∧ (c.Served → c.Answers)) := by
  have some : c.Bounded ↔ c.Confined c.writes := by
    refine or_iff_right_of_imp fun none => ?_
    rw [none]
    exact confined_nil
  have earlier : c.Confined c.earlier := by
    rw [Call.earlier, confined_ite]
    intro awaited
    cases c.come with
    | none => exact confined_nil
    | some size =>
        rw [Option.toList_some, List.map_singleton, confined_cons, inside_zero]
        exact ⟨Nat.min_le_right size MAX_MSG_SIZE, confined_nil⟩
  rw [some, writes]
  split
  next refused => exact iff_of_true confined_nil fun asks => by simp [asks.1] at refused
  next goes =>
    rw [Bool.not_eq_true] at goes
    rw [confined_append, and_iff_right earlier, Asks, and_iff_right goes]
    split
    next none => exact iff_of_true confined_nil fun asks => absurd none asks
    next asks =>
      rw [confined_append, confined_request, imp_iff_right asks]
      exact and_congr_right confined_served

end Call

/-- A block of 2000 bytes is copied into the message. -/
def oversized : Call where
  hard := false
  awaited := false
  come := none
  priority := 5
  basePriority := 5
  funExtTimed := packPort 1 0 1 0
  type := 0
  args := 0
  argsize := 2000
  mem := fun _ => 0
  stubMsg := fun _ => 0
  a := 0

theorem not_bounded_oversized : ¬∀ c : Call, c.Bounded := by
  intro bounded
  have copied : (⟨.clientMsg, 28, 2000⟩ : Write) ∈ oversized.request := by
    have size : sizeT oversized.argsize = 2000 := by decide
    simp [Call.request, size]
  have written : (⟨.clientMsg, 28, 2000⟩ : Write) ∈ oversized.writes := by
    rw [Call.writes, if_neg (by decide), if_neg (by decide)]
    exact List.mem_append_right _ (List.mem_append_left _ copied)
  rcases bounded oversized with none | confined
  · rw [none] at written
    cases written
  · have outside : ¬oversized.Inside ⟨.clientMsg, 28, 2000⟩ := by decide
    exact outside (confined _ written)

end Rtai.NetRpc.Bounds
