import Rtai.Lib.Words
import Rtai.Up.MailboxRing

/-!
# Collecting replies

`rt_get_net_rpc_ret` reads the replies of asynchronous calls back out of a mailbox: the header
with the receive function it is given, and the two buffers with `rt_mbx_receive`.  It reads no
more of a buffer than the caller has room for, and it reads it over its own pointer to the
caller's buffer.

Replies are put whole between any two steps of a call; one task collects them.  A receive
function goes on until it has all it wants, one `mbxget` at a step.
-/

namespace Rtai.NetRpc.AsyncReplies

open Rtai.Lib Rtai.Up

/-- What a stub sends: the structure with its two buffers, up to a multiple of four bytes. -/
structure Reply where
  retval : UInt64
  msgBuf : List UInt8
  msgBuf2 : List UInt8
  pad : List UInt8 := []
  wsize : msgBuf.length < 2 ^ 31
  w2size : msgBuf2.length < 2 ^ 31
  whole : pad.length = (4 - (msgBuf.length + msgBuf2.length) % 4) % 4

def Reply.bytes (r : Reply) : List UInt8 :=
  intBytes (Int32.ofNat r.msgBuf.length) ++ intBytes (Int32.ofNat r.msgBuf2.length) ++
    longBytes r.retval ++ r.msgBuf ++ r.msgBuf2 ++ r.pad

/-- The function for the header, which `type` names. -/
inductive Kind where
  | receive
  | receiveWp
  | receiveIf
  /-- `rt_mbx_receive_until` and `rt_mbx_receive_timed`. -/
  | receiveUntil
deriving DecidableEq

/-- The arguments of a call. -/
structure Call where
  kind : Kind
  msglen1 : Nat
  msglen2 : Nat
deriving DecidableEq

/-- Where the bytes of a buffer are copied to. -/
inductive Place where
  /-- The caller's buffers. -/
  | msg1
  | msg2
  /-- The parameters that point to them. -/
  | msg1Adr
  | msg2Adr
deriving DecidableEq

/-- A call that has returned 0, with what it has stored and copied. -/
structure Collected where
  call : Call
  retval : UInt64
  msglen1 : Int
  msglen2 : Int
  copied : List (Place × List UInt8)
deriving DecidableEq

/-- The header, with what has been stored and copied so far. -/
structure Header where
  wsize : Int32
  w2size : Int32
  retval : UInt64
  msglen1 : Int := 0
  copied : List (Place × List UInt8) := []
deriving DecidableEq

/-- Where a call is: a receive has got some bytes, and wants `msg_size` more. -/
inductive Phase where
  | idle
  | header (c : Call) (got : List UInt8) (msgSize : Int)
  | first (c : Call) (reply : Header) (got : List UInt8) (msgSize : Int)
  | second (c : Call) (reply : Header) (msglen2 : Int) (got : List UInt8) (msgSize : Int)
deriving DecidableEq

variable {n : Nat}

structure State (n : Nat) where
  mbx : Mbx n
  phase : Phase := .idle
  /-- The replies that have been put. -/
  puts : List Reply := []
  /-- The calls that have succeeded. -/
  collected : List Collected := []

namespace State

/-- `if (*msglen > size) *msglen = size`. -/
def cut (msglen : Nat) (size : Int32) : Int := if msglen > size.toInt then size.toInt else msglen

/-- `return 0`. -/
def success (c : Call) (reply : Header) (msglen2 : Int) (s : State n) : State n :=
  { s with
    phase := .idle
    collected := s.collected ++ [⟨c, reply.retval, reply.msglen1, msglen2, reply.copied⟩] }

/-- `if (reply.w2size)`. -/
def onSecond (c : Call) (reply : Header) (s : State n) : State n :=
  if reply.w2size ≠ 0 then
    { s with phase := .second c reply (cut c.msglen2 reply.w2size) [] (cut c.msglen2 reply.w2size) }
  else s.success c reply 0

/-- Behind the receive of the header: `*retval = reply.retval; if (reply.wsize)`. -/
def onHeader (c : Call) (got : List UInt8) (s : State n) : State n :=
  let reply : Header :=
    { wsize := intOf got, w2size := intOf (got.drop 4), retval := longOf (got.drop 8) }
  if reply.wsize ≠ 0 then
    let reply := { reply with msglen1 := cut c.msglen1 reply.wsize }
    { s with phase := .first c reply [] reply.msglen1 }
  else s.onSecond c reply

/-- A reply is put if there is room for it. -/
def put (r : Reply) (s : State n) : Option (State n) :=
  if r.bytes.length ≤ s.mbx.frbs then do
    let (m, _, _) ← s.mbx.mbxput r.bytes r.bytes.length
    return { s with mbx := m, puts := s.puts ++ [r] }
  else some s

/-- The call up to the first wait of the receive function. -/
def begin (c : Call) (s : State n) : Option (State n) :=
  match c.kind with
  | .receive | .receiveUntil => some { s with phase := .header c [] 16 }
  | .receiveWp =>
      if s.mbx.avbs ≠ 0 then do
        let (m, got, left) ← s.mbx.mbxget 16
        let s := { s with mbx := m }
        return if left = 0 then s.onHeader c got else s
      else some s
  | .receiveIf =>
      if 16 ≤ s.mbx.avbs then do
        let (m, got, _) ← s.mbx.mbxget 16
        return { s with mbx := m }.onHeader c got
      else some s

/-- A turn of `while (msg_size)` that finds something in the mailbox. -/
def get (msgSize : Int) (s : State n) : Option (State n × List UInt8 × Int) :=
  if s.mbx.avbs ≠ 0 then do
    let (m, got, left) ← s.mbx.mbxget msgSize
    return ({ s with mbx := m }, got, left)
  else none

/-- The parameter has four bytes; what is copied behind it is lost to this model. -/
def fitsAdr (got : List UInt8) : Prop := got.length ≤ 4

instance (got : List UInt8) : Decidable (fitsAdr got) := inferInstanceAs (Decidable (_ ≤ _))

/-- The call goes on. -/
def turn (s : State n) : Option (State n) :=
  match s.phase with
  | .idle => none
  | .header c got msgSize =>
      if msgSize = 0 then some (s.onHeader c got)
      else do
        let (s, more, left) ← s.get msgSize
        return { s with phase := .header c (got ++ more) left }
  | .first c reply got msgSize =>
      if msgSize = 0 then
        some (s.onSecond c { reply with copied := reply.copied ++ [(.msg1Adr, got)] })
      else do
        let (s, more, left) ← s.get msgSize
        if fitsAdr (got ++ more) then return { s with phase := .first c reply (got ++ more) left }
        else none
  | .second c reply msglen2 got msgSize =>
      if msgSize = 0 then
        some (s.success c { reply with copied := reply.copied ++ [(.msg2Adr, got)] } msglen2)
      else do
        let (s, more, left) ← s.get msgSize
        if fitsAdr (got ++ more) then
          return { s with phase := .second c reply msglen2 (got ++ more) left }
        else none

/-- The receive of the header has waited for too long. -/
def timeout (s : State n) : Option (State n) :=
  match s.phase with
  | .header c _ msgSize =>
      if c.kind = .receiveUntil ∧ msgSize ≠ 0 ∧ s.mbx.avbs = 0 then some { s with phase := .idle }
      else none
  | _ => none

end State

inductive Event where
  | put (r : Reply)
  | call (c : Call)
  | turn
  | timeout

def step : Event → State n → Option (State n)
  | .put r, s => s.put r
  | .call c, s => if s.phase = .idle then s.begin c else none
  | .turn, s => s.turn
  | .timeout, s => s.timeout

/-- An empty mailbox. -/
def Starts (s : State n) : Prop :=
  s.mbx.Ring ∧ s.mbx.avbs = 0 ∧ s.phase = .idle ∧ s.puts = [] ∧ s.collected = []

/-! ## What is asked of it -/

/-- What has been copied to a place. -/
def Collected.at_ (place : Place) (x : Collected) : List UInt8 :=
  (x.copied.filter fun copy => copy.1 = place).flatMap Prod.snd

/-- A call has returned what is in a reply, as far as it has room. -/
structure Right (r : Reply) (x : Collected) : Prop where
  retval : x.retval = r.retval
  msg1 : x.at_ .msg1 = r.msgBuf.take x.call.msglen1
  msg2 : x.at_ .msg2 = r.msgBuf2.take x.call.msglen2
  msglen1 : x.msglen1 = min x.call.msglen1 r.msgBuf.length
  msglen2 : x.msglen2 = min x.call.msglen2 r.msgBuf2.length

/-- Each successful call has returned its reply, and the mailbox is at the next one. -/
structure Collects (s : State n) : Prop where
  right : List.Forall₂ Right (s.puts.take s.collected.length) s.collected
  next : s.phase = .idle →
    s.mbx.contents = (s.puts.drop s.collected.length).flatMap Reply.bytes

/-- The next reply has no write-back data, if there is one. -/
def State.NextBare (s : State n) : Prop :=
  ∀ r ∈ s.puts[s.collected.length]?, r.msgBuf = [] ∧ r.msgBuf2 = []

instance (s : State n) : Decidable s.NextBare :=
  inferInstanceAs (Decidable (∀ r ∈ s.puts[s.collected.length]?, _))

/-- A step that reads finds no reply with write-back data next. -/
def Bare (s : State n) : Event → Prop
  | .call c => c.kind = .receiveWp ∨ c.kind = .receiveIf → s.NextBare
  | .turn => s.NextBare
  | _ => True

instance (s : State n) : (e : Event) → Decidable (Bare s e)
  | .call _ => inferInstanceAs (Decidable (_ → _))
  | .turn => inferInstanceAs (Decidable s.NextBare)
  | .put _ | .timeout => inferInstanceAs (Decidable True)

/-! ## Replies without buffers -/

variable {s s' : State n} {r : Reply} {c : Call} {later : List Reply} {got : List UInt8}

/-- A reply without buffers is its header. -/
theorem bytes_of_bare (bare : r.msgBuf = [] ∧ r.msgBuf2 = []) :
    r.bytes = intBytes 0 ++ (intBytes 0 ++ (longBytes r.retval ++ [])) := by
  have pad : r.pad = [] := by
    apply List.eq_nil_of_length_eq_zero
    rw [r.whole, bare.1, bare.2]
    rfl
  rw [Reply.bytes, bare.1, bare.2, pad]
  simp

namespace State

/-- The bytes of the replies that have not been collected. -/
def rest (s : State n) : List UInt8 := (s.puts.drop s.collected.length).flatMap Reply.bytes

/-- What has been read of the next reply. -/
inductive Reads (s : State n) : Phase → Prop where
  | idle (rest : s.mbx.contents = s.rest) : Reads s .idle
  | none {c : Call} (rest : s.mbx.contents = s.rest) : Reads s (.header c [] 16)
  | header {c : Call} {r : Reply} {later : List Reply}
      (next : s.puts.drop s.collected.length = r :: later)
      (bare : r.msgBuf = [] ∧ r.msgBuf2 = []) (rest : s.mbx.contents = later.flatMap Reply.bytes) :
      Reads s (.header c r.bytes 0)

/-- The invariant. -/
structure Sound (s : State n) : Prop where
  ring : s.mbx.Ring
  right : List.Forall₂ Right (s.puts.take s.collected.length) s.collected
  reads : s.Reads s.phase

theorem Sound.collected (sound : s.Sound) : Collects s := by
  refine ⟨sound.right, fun idle => ?_⟩
  have reads := sound.reads
  rw [idle] at reads
  cases reads with
  | idle rest => exact rest

theorem Sound.le (sound : s.Sound) : s.collected.length ≤ s.puts.length := by
  have same := sound.right.length_eq
  rw [List.length_take] at same
  omega

/-- A call that has read the header of a reply without buffers returns it. -/
theorem onHeader_bare (bare : r.msgBuf = [] ∧ r.msgBuf2 = []) :
    s.onHeader c r.bytes = s.success c { wsize := 0, w2size := 0, retval := r.retval } 0 := by
  have wsize : intOf r.bytes = 0 := by
    rw [bytes_of_bare bare]
    exact intOf_intBytes 0
  have w2size : intOf (r.bytes.drop 4) = 0 := by
    rw [bytes_of_bare bare]
    exact intOf_intBytes 0
  have retval : longOf (r.bytes.drop 8) = r.retval := by
    rw [bytes_of_bare bare]
    exact longOf_longBytes r.retval
  simp only [onHeader, onSecond, wsize, w2size, retval, ne_eq, not_true_eq_false, if_false]

theorem right_of_bare (bare : r.msgBuf = [] ∧ r.msgBuf2 = []) :
    Right r ⟨c, r.retval, 0, 0, []⟩ := by
  refine ⟨rfl, ?_, ?_, ?_, ?_⟩
  all_goals simp [Collected.at_, bare.1, bare.2]

/-- It leaves the mailbox at the reply behind. -/
theorem onHeader_sound (ring : s.mbx.Ring)
    (right : List.Forall₂ Right (s.puts.take s.collected.length) s.collected)
    (next : s.puts.drop s.collected.length = r :: later) (bare : r.msgBuf = [] ∧ r.msgBuf2 = [])
    (rest : s.mbx.contents = later.flatMap Reply.bytes) : (s.onHeader c r.bytes).Sound := by
  have small : s.collected.length < s.puts.length := by
    have some := congrArg List.length next
    rw [List.length_drop, List.length_cons] at some
    omega
  rw [List.drop_eq_getElem_cons small, List.cons.injEq] at next
  rw [onHeader_bare bare]
  refine ⟨ring, ?_, .idle ?_⟩
  · show List.Forall₂ Right (s.puts.take (s.collected ++ [_]).length) (s.collected ++ [_])
    rw [List.length_append, List.length_singleton, List.take_succ_eq_append_getElem small, next.1]
    exact List.rel_append right (.cons (right_of_bare bare) .nil)
  · show s.mbx.contents = (s.puts.drop (s.collected ++ [_]).length).flatMap Reply.bytes
    rw [List.length_append, List.length_singleton, next.2]
    exact rest

/-- A reply is next, and all of it is there, or there is nothing. -/
theorem next_of_avbs (ring : s.mbx.Ring) (rest : s.mbx.contents = s.rest)
    (some : s.mbx.avbs ≠ 0) : ∃ r later, s.puts.drop s.collected.length = r :: later := by
  have length := Mbx.contents_length ring.avbs
  cases next : s.puts.drop s.collected.length with
  | nil =>
      rw [rest, State.rest, next, List.flatMap_nil, List.length_nil] at length
      exact absurd length.symm some
  | cons r later => exact ⟨r, later, rfl⟩

/-- The header of a reply without buffers is got at once. -/
theorem get_header (sound : s.mbx.Ring) (rest : s.mbx.contents = s.rest)
    (next : s.puts.drop s.collected.length = r :: later) (bare : r.msgBuf = [] ∧ r.msgBuf2 = []) :
    ∃ m, s.mbx.mbxget 16 = some (m, r.bytes, 0) ∧ m.Ring ∧
      m.contents = later.flatMap Reply.bytes := by
  have size : r.bytes.length = 16 := by
    rw [bytes_of_bare bare]
    simp
  obtain ⟨m, got, ring, -, contents⟩ := Mbx.mbxget_spec sound 16
  rw [rest, State.rest, next, List.flatMap_cons] at got contents
  rw [← size, List.take_left, Int.sub_self, size] at got
  rw [← size, List.drop_left] at contents
  exact ⟨m, got, ring, contents⟩

/-! ## Steps -/

/-- A reply is put behind the others. -/
theorem Sound.put (sound : s.Sound) (stepped : s.put r = some s') : s'.Sound := by
  rw [State.put] at stepped
  split at stepped
  next fits =>
    obtain ⟨m, put, ring, -, contents⟩ := Mbx.mbxput_spec sound.ring r.bytes
    rw [List.take_of_length_le (by omega)] at contents
    rw [put] at stepped
    cases stepped
    have right := sound.right
    refine ⟨ring, ?_, ?_⟩
    · show List.Forall₂ Right ((s.puts ++ [r]).take s.collected.length) s.collected
      rwa [List.take_append_of_le_length sound.le]
    · have behind : (s.puts ++ [r]).drop s.collected.length =
          s.puts.drop s.collected.length ++ [r] := List.drop_append_of_le_length sound.le
      have reads := sound.reads
      generalize phase : s.phase = phase at reads
      have rest : s.mbx.contents = s.rest → m.contents =
          ((s.puts ++ [r]).drop s.collected.length).flatMap Reply.bytes := by
        intro rest
        rw [contents, rest, behind, List.flatMap_append, State.rest, List.flatMap_singleton]
      cases reads with
      | idle left => exact .idle (rest left)
      | none left => exact .none (rest left)
      | @header c first later next bare left =>
          have next : (s.puts ++ [r]).drop s.collected.length = first :: (later ++ [r]) := by
            rw [behind, next, List.cons_append]
          have left : m.contents = (later ++ [r]).flatMap Reply.bytes := by
            rw [contents, left, List.flatMap_append, List.flatMap_singleton]
          exact .header next bare left
  next =>
    cases stepped
    exact sound

theorem bare_of_next (bare : s.NextBare) (next : s.puts.drop s.collected.length = r :: later) :
    r.msgBuf = [] ∧ r.msgBuf2 = [] := by
  refine bare r ?_
  have here := List.head?_drop (l := s.puts) (i := s.collected.length)
  rw [next] at here
  exact here.symm

theorem Sound.begin (sound : s.Sound) (idle : s.phase = .idle)
    (bare : c.kind = .receiveWp ∨ c.kind = .receiveIf → s.NextBare)
    (stepped : s.begin c = some s') : s'.Sound := by
  have rest : s.mbx.contents = s.rest := by
    have reads := sound.reads
    rw [idle] at reads
    cases reads with
    | idle rest => exact rest
  rw [State.begin] at stepped
  split at stepped
  case h_3 kind =>
    split at stepped
    next some =>
      obtain ⟨r, later, next⟩ := next_of_avbs sound.ring rest some
      have bare := bare_of_next (bare (.inl kind)) next
      obtain ⟨m, got, ring, contents⟩ := get_header sound.ring rest next bare
      rw [got] at stepped
      cases stepped
      exact onHeader_sound (s := { s with mbx := m }) ring sound.right next bare contents
    next =>
      cases stepped
      exact sound
  case h_4 kind =>
    split at stepped
    next some =>
      obtain ⟨r, later, next⟩ := next_of_avbs sound.ring rest (by omega)
      have bare := bare_of_next (bare (.inr kind)) next
      obtain ⟨m, got, ring, contents⟩ := get_header sound.ring rest next bare
      rw [got] at stepped
      cases stepped
      exact onHeader_sound (s := { s with mbx := m }) ring sound.right next bare contents
    next =>
      cases stepped
      exact sound
  all_goals
    cases stepped
    exact ⟨sound.ring, sound.right, .none rest⟩

theorem Sound.turn (sound : s.Sound) (bare : s.NextBare) (stepped : s.turn = some s') :
    s'.Sound := by
  have reads := sound.reads
  generalize phase : s.phase = phase at reads
  rw [State.turn, phase] at stepped
  cases reads with
  | idle => cases stepped
  | none rest =>
      dsimp only at stepped
      rw [if_neg (by decide), State.get] at stepped
      split at stepped
      next some =>
        obtain ⟨r, later, next⟩ := next_of_avbs sound.ring rest some
        have bare := bare_of_next bare next
        obtain ⟨m, got, ring, contents⟩ := get_header sound.ring rest next bare
        rw [got] at stepped
        cases stepped
        exact ⟨ring, sound.right, .header next bare contents⟩
      next => cases stepped
  | header next bare rest =>
      dsimp only at stepped
      rw [if_pos rfl] at stepped
      cases stepped
      exact onHeader_sound sound.ring sound.right next bare rest

theorem Sound.timeout (sound : s.Sound) (stepped : s.timeout = some s') : s'.Sound := by
  have reads := sound.reads
  generalize phase : s.phase = phase at reads
  rw [State.timeout, phase] at stepped
  cases reads with
  | idle => cases stepped
  | none rest =>
      dsimp only at stepped
      split at stepped
      next =>
        cases stepped
        exact ⟨sound.ring, sound.right, .idle rest⟩
      next => cases stepped
  | header => simp at stepped

end State

theorem Sound.step {e : Event} (sound : s.Sound) (bare : Bare s e) (stepped : step e s = some s') :
    s'.Sound := by
  cases e with
  | put r => exact sound.put stepped
  | call c =>
      rw [AsyncReplies.step] at stepped
      split at stepped
      next idle => exact sound.begin idle bare stepped
      next => cases stepped
  | turn => exact sound.turn bare stepped
  | timeout => exact sound.timeout stepped

/-- As long as no reply with write-back data is read, the calls collect the replies one after
the other. -/
theorem collects {s₀ s : State n} {tr : List (Record (State n) Event)} (starts : Starts s₀)
    (run : Run step Bare s₀ tr s) : Collects s := by
  obtain ⟨ring, avbs, idle, puts, collected⟩ := starts
  refine (run.invariant (P := State.Sound) ?_ fun sound bare stepped => ?_).collected
  · refine ⟨ring, ?_, ?_⟩
    · rw [puts, collected]
      exact .nil
    · rw [idle]
      refine .idle ?_
      rw [State.rest, puts, collected]
      apply List.eq_nil_of_length_eq_zero
      have length := Mbx.contents_length ring.avbs
      omega
  · exact Sound.step sound bare stepped

/-! ## Two runs -/

/-- An empty mailbox of 64 bytes. -/
def empty : State 0 where
  mbx := { bufadr := fun _ => 0, size := 64, fbyte := 0, lbyte := 0, avbs := 0, frbs := 64 }

theorem empty_starts : Starts empty := by
  refine ⟨⟨?_, ?_, ?_, ?_, ?_, ?_, rfl⟩, rfl, rfl, rfl, rfl⟩ <;> decide

/-- A reply without buffers. -/
def bareReply : Reply where
  retval := 5
  msgBuf := []
  msgBuf2 := []
  wsize := by decide
  w2size := by decide
  whole := rfl

/-- A reply with one byte to write back. -/
def byteReply : Reply where
  retval := 5
  msgBuf := [7]
  msgBuf2 := []
  pad := [0, 0, 0]
  wsize := by decide
  w2size := by decide
  whole := rfl

/-- Two replies without buffers are put and one is collected. -/
theorem collects_empty : ∃ s : State 0,
    Collects s ∧ s.puts.length = 2 ∧ s.collected.map (·.retval) = [5] := by
  obtain ⟨tr, s, run, here⟩ := Run.of_execute step Bare empty
    [.put bareReply, .call ⟨.receive, 8, 8⟩, .put bareReply, .turn, .turn]
    (fun s => s.puts.length = 2 ∧ s.collected.map (·.retval) = [5]) (by decide)
  exact ⟨s, collects empty_starts run, of_decide_eq_true here⟩

/-- The byte of the second reply is not copied to the caller's buffer. -/
theorem not_collects_byte : ¬∀ (s₀ s : State 0) (tr : List (Record (State 0) Event)), Starts s₀ →
    Run step (fun _ _ => True) s₀ tr s → Collects s := by
  intro collects
  obtain ⟨tr, s, run, here⟩ := Run.of_execute step (fun _ _ => True) empty
    [.put byteReply, .call ⟨.receive, 1, 0⟩, .turn, .turn, .turn, .turn]
    (fun s => s.puts.map (·.msgBuf) = [[7]] ∧
      s.collected.map (fun x => (x.call.msglen1, x.at_ .msg1)) = [(1, [])]) (by decide)
  obtain ⟨put, got⟩ := of_decide_eq_true here
  obtain ⟨r, puts, buf⟩ := List.map_eq_singleton_iff.mp put
  obtain ⟨x, collected, msg⟩ := List.map_eq_singleton_iff.mp got
  have right := (collects empty s tr empty_starts run).right
  rw [puts, collected] at right
  cases right with
  | cons right =>
      obtain ⟨size, nothing⟩ := Prod.mk.inj msg
      have msg1 := right.msg1
      rw [nothing, size, buf] at msg1
      cases msg1

end Rtai.NetRpc.AsyncReplies
