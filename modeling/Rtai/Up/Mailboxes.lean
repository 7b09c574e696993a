import Rtai.Up.Messages

/-!
# Mailbox services

The blocking forms hold `sndsem` or `rcvsem` over rounds of waiting for room or
bytes (`mbx_wait`), copying (`mbxput`, `mbxget`) and waking the other side
(`mbx_signal`).  The conditional forms test the count of the semaphore and set
it to 0 themselves.  The copy loops run with interrupts enabled, so each of
their statements is a point of its own (`CopyPoint`).

Sending and receiving are the same code on the two sides of the buffer; the
functions below take the side.
-/

namespace Rtai.Up

open Function Rtai.Lib

/-- The semaphore a side of the mailbox is entered through. -/
def Transfer.gate (x : Transfer) : SemId :=
  match x.side with
  | .snd => .sndsem x.mbx
  | .rcv => .rcvsem x.mbx

namespace Mbx

variable {n : Nat}

/-- `*fravbs`: the free bytes for a sender, the available ones for a receiver. -/
def fravbs (m : Mbx n) : Side → Int
  | .snd => m.frbs
  | .rcv => m.avbs

/-- `lbyte` for a sender, `fbyte` for a receiver. -/
def position (m : Mbx n) : Side → Int
  | .snd => m.lbyte
  | .rcv => m.fbyte

/-- `MOD_SIZE`. -/
def modSize (m : Mbx n) (indx : Int) : Int :=
  if indx < m.size then indx else indx - m.size

/-- The update of `frbs` and `avbs`. -/
def commit (m : Mbx n) (side : Side) (tocpy : Int) : Mbx n :=
  match side with
  | .snd => { m with frbs := m.frbs - tocpy, avbs := m.avbs + tocpy }
  | .rcv => { m with frbs := m.frbs + tocpy, avbs := m.avbs - tocpy }

def advance (m : Mbx n) (side : Side) (tocpy : Int) : Mbx n :=
  match side with
  | .snd => { m with lbyte := m.modSize (m.lbyte + tocpy) }
  | .rcv => { m with fbyte := m.modSize (m.fbyte + tocpy) }

/-- `memcpy(mbx->bufadr + mbx->lbyte, *msg, tocpy)`.  What lies behind the
caller's message reads as 0. -/
def write (m : Mbx n) (bytes : List UInt8) (tocpy : Int) : Mbx n :=
  { m with bufadr := fun i =>
      if m.lbyte ≤ i ∧ i < m.lbyte + tocpy then bytes.getD (i - m.lbyte).toNat 0
      else m.bufadr i }

/-- `memcpy(*msg, mbx->bufadr + mbx->fbyte, tocpy)`. -/
def read (m : Mbx n) (tocpy : Int) : List UInt8 :=
  (List.range tocpy.toNat).map fun i => m.bufadr (m.fbyte + i)

end Mbx

namespace System

variable {n : Nat}

/-- `rt_typed_mbx_init`, once the buffer is allocated. -/
def rtTypedMbxInit (b : Nat) (size : Int) (type : Nat) (s : System n) : System n :=
  let type := if type &&& 3 ≠ 0 then type else BIN_SEM ||| type
  let s := (s.rtTypedSemInit (.sndsem b) 1 type).rtTypedSemInit (.rcvsem b) 1 type
  (s.setMbx b { magic := true, size := size, frbs := size, bufadr := (s.mbx b).bufadr }).ret
    (.int 0)

def rtMbxInit (b : Nat) (size : Int) (s : System n) : System n :=
  s.rtTypedMbxInit b size PRIO_Q

/-- The waiting task of the mailbox is woken. -/
def mbxWake (b : Nat) (s : System n) : Option (System n × Bool) :=
  match (s.mbx b).waitingTask with
  | none => some (s, false)
  | some task =>
      ((s.setMbx b { s.mbx b with waitingTask := none }).setPrioPassedTo task none).release task
        (MBXSUSP.set DELAYED)

def mbxSignal (x : Transfer) (c : Clock) (s : System n) : Option (System n) := do
  let sndtype := (s.sem (.sndsem x.mbx)).type
  let (s, woken) ← s.mbxWake x.mbx
  if woken ∧ sndtype ≤ 0 then s.rtSchedule c
  else if sndtype > 0 then
    (s.setMbx x.mbx { s.mbx x.mbx with owndby := none }).releaseOwned c
  else some s

/-- The end of a successful `mbx_wait`, which goes on with the copy loop. -/
def mbxWaitDone (x : Transfer) (s : System n) : System n :=
  let s := if (s.sem (.sndsem x.mbx)).type > 0 then
      (s.setMbx x.mbx { s.mbx x.mbx with owndby := some s.current }).setOwndres s.current
        (s.owndres s.current + 1)
    else s
  s.push (.mbxCopy x .test)

/-- `mbx_wait` and `mbx_wait_until`. -/
def mbxWait (x : Transfer) (c : Clock) (s : System n) : Option (System n) :=
  if (s.mbx x.mbx).fravbs x.side ≠ 0 then some (s.mbxWaitDone x)
  else
    let pass (s : System n) := if (s.sem (.sndsem x.mbx)).type > 0 then
      s.passPrio (s.mbx x.mbx).owndby s.current else some s
    let wait (s : System n) :=
      s.setMbx x.mbx { s.mbx x.mbx with waitingTask := some s.current }
    match x.time with
    | none => do
        let s ← pass s
        ((wait (s.blockCurrent MBXSUSP)).push (.mbxWoken x)).rtSchedule c
    | some time =>
        let s := (wait s).setResumeTime time
        if time > s.disp.timeH then do
          let s ← pass s
          let s ← (s.blockCurrent (MBXSUSP.set DELAYED)).enqTimedCurrent
          (s.push (.mbxWoken x)).rtSchedule c
        else some (s.push (.mbxWoken x))

/-- `rt_sem_signal(&sem); return v`. -/
def mbxLeave (x : Transfer) (v : Int) (c : Clock) (s : System n) : Option (System n) :=
  (s.push (.mbxReturn x v)).rtSemSignal x.gate c

/-- `mbx_wait` or `mbx_wait_until` behind its `rt_schedule`. -/
def mbxWoken (x : Transfer) (c : Clock) (s : System n) : Option (System n) :=
  let m := s.mbx x.mbx
  if m.waitingTask = some s.current ∨ ¬m.magic then
    let s := if x.time.isSome ∧ m.magic
      then s.setMbx x.mbx { m with waitingTask := none } else s
    (s.setPrioPassedTo s.current none).mbxLeave x x.msgSize c
  else some (s.mbxWaitDone x)

/-- `while (msg_size)` of the blocking forms. -/
def mbxLoop (x : Transfer) (c : Clock) (s : System n) : Option (System n) :=
  if x.msgSize = 0 then s.mbxLeave x 0 c
  else s.mbxWait x c

/-- A blocking form behind the wait on its semaphore. -/
def mbxWaited (x : Transfer) (s : System n) : System n :=
  match s.retval s.current with
  | .int v => if v > 1 then s.push (.mbxReturn x x.msgSize) else s.push (.mbxLoop x)
  | _ => s.push (.mbxLoop x)

/-- `mbxput` or `mbxget` has returned: `mbx_signal` comes next. -/
def mbxCopied (x : Transfer) (c : Clock) (s : System n) : Option (System n) :=
  (s.push (if x.loops then .mbxLoop x else .mbxSignalled x)).mbxSignal x c

/-- One statement of the copy loop. -/
def mbxCopy (x : Transfer) (p : CopyPoint) (c : Clock) (s : System n) : Option (System n) :=
  let m := s.mbx x.mbx
  match p with
  | .test =>
      if x.msgSize > 0 ∧ m.fravbs x.side ≠ 0 then some (s.push (.mbxCopy x .room))
      else s.mbxCopied x c
  | .room =>
      let tocpy := m.size - m.position x.side
      some (s.push (.mbxCopy x (.clip (if tocpy > x.msgSize then x.msgSize else tocpy))))
  | .clip tocpy =>
      some (s.push (.mbxCopy x (if tocpy > m.fravbs x.side then .assign tocpy else .copy tocpy)))
  | .assign _ => some (s.push (.mbxCopy x (.copy (m.fravbs x.side))))
  | .copy tocpy =>
      match x.side with
      | .snd => some ((s.setMbx x.mbx (m.write x.bytes tocpy)).push (.mbxCopy x (.commit tocpy)))
      | .rcv =>
          some (s.push (.mbxCopy { x with bytes := x.bytes ++ m.read tocpy } (.commit tocpy)))
  | .commit tocpy =>
      some ((s.setMbx x.mbx (m.commit x.side tocpy)).push (.mbxCopy x (.advance tocpy)))
  | .advance tocpy =>
      let x' := { x with
        msgSize := x.msgSize - tocpy
        bytes := if x.side = Side.snd then x.bytes.drop tocpy.toNat else x.bytes }
      some ((s.setMbx x.mbx (m.advance x.side tocpy)).push (.mbxCopy x' .test))

/-- The last statement of a mailbox call. -/
def mbxReturn (x : Transfer) (v : Int) (s : System n) : System n :=
  { s with outBytes := update s.outBytes s.current (if x.side = Side.rcv then x.bytes else []) }.ret
    (.int v)

/-! ## The calls -/

/-- `rt_mbx_send`, `rt_mbx_send_until`, `rt_mbx_receive`, `rt_mbx_receive_until`. -/
def mbxBlocking (x : Transfer) (c : Clock) (s : System n) : Option (System n) :=
  if ¬(s.mbx x.mbx).magic then some (s.ret (.int (-EINVAL)))
  else
    let s := s.push (.mbxWaited x)
    match x.time with
    | none => s.rtSemWait x.gate c
    | some time => s.rtSemWaitUntil x.gate time c

/-- `rt_mbx_send_wp`, `rt_mbx_send_if`, `rt_mbx_receive_wp`, `rt_mbx_receive_if`:
`room` is the second half of their test. -/
def mbxConditional (x : Transfer) (room : Bool) (s : System n) : System n :=
  if ¬(s.mbx x.mbx).magic then s.ret (.int (-EINVAL))
  else if (s.sem x.gate).count ≠ 0 ∧ room then
    let s := s.setCount x.gate 0
    let s := if (s.sem x.gate).type > 0 then
        let s := s.setOwndby x.gate (some s.current)
        let s := s.setMbx x.mbx { s.mbx x.mbx with owndby := some s.current }
        s.setOwndres s.current (s.owndres s.current + 2)
      else s
    s.push (.mbxCopy x .test)
  else s.mbxReturn x x.msgSize

def rtMbxSend (b : Nat) (msg : List UInt8) : Clock → System n → Option (System n) :=
  mbxBlocking { side := .snd, mbx := b, time := none, bytes := msg, msgSize := msg.length }

def rtMbxSendUntil (b : Nat) (msg : List UInt8) (time : RTIME) :
    Clock → System n → Option (System n) :=
  mbxBlocking { side := .snd, mbx := b, time := some time, bytes := msg, msgSize := msg.length }

def rtMbxSendWp (b : Nat) (msg : List UInt8) (s : System n) : System n :=
  s.mbxConditional
    { side := .snd, mbx := b, time := none, bytes := msg, msgSize := msg.length, loops := false }
    ((s.mbx b).frbs ≠ 0)

def rtMbxSendIf (b : Nat) (msg : List UInt8) (s : System n) : System n :=
  s.mbxConditional
    { side := .snd, mbx := b, time := none, bytes := msg, msgSize := msg.length,
      result := some 0, loops := false }
    (msg.length ≤ (s.mbx b).frbs)

def rtMbxReceive (b : Nat) (size : Nat) : Clock → System n → Option (System n) :=
  mbxBlocking { side := .rcv, mbx := b, time := none, bytes := [], msgSize := size }

def rtMbxReceiveUntil (b : Nat) (size : Nat) (time : RTIME) :
    Clock → System n → Option (System n) :=
  mbxBlocking { side := .rcv, mbx := b, time := some time, bytes := [], msgSize := size }

def rtMbxReceiveWp (b : Nat) (size : Nat) (s : System n) : System n :=
  s.mbxConditional
    { side := .rcv, mbx := b, time := none, bytes := [], msgSize := size, loops := false }
    ((s.mbx b).avbs ≠ 0)

def rtMbxReceiveIf (b : Nat) (size : Nat) (s : System n) : System n :=
  s.mbxConditional
    { side := .rcv, mbx := b, time := none, bytes := [], msgSize := size, result := some 0,
      loops := false }
    (size ≤ (s.mbx b).avbs)

end System

end Rtai.Up
