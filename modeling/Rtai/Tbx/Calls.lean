import Rtai.Tbx.Buffer
import Rtai.Lib.Priority
import Rtai.Up.Dispatcher

/-!
# The calls on a typed mailbox

`rt_tbx_send`, `rt_tbx_urgent`, `rt_tbx_broadcast` and `rt_tbx_receive` with their `_if` and
`_until` forms, cut where the interrupts are enabled: an event is what one task does from one such
place to the next.  `rt_schedule` is such a place too, and any task on the ready list may be the
next to go on.  The `_timed` forms are the `_until` ones at another time.

Left out are the order of the ready list and of the timed list, so that a time may be over at
any moment, `magic`, which nobody clears, and `resume_time`.
-/

namespace Rtai.Tbx

open Function Rtai.Lib
open Rtai.Up (TaskState READY SUSPENDED DELAYED SEMAPHORE TIMED_OUT)

def EMSGSIZE : Int := 90

/-- The semaphores of `TBX`. -/
inductive Smx where
  | sndsmx
  | rcvsmx
  | bcbsmx
deriving DecidableEq

/-- `blocked_on`. -/
inductive BlockedOn where
  | nothing
  | something
  | queue (x : Smx)
deriving DecidableEq

/-- What a call returns, with what it has copied to the caller's buffer and with `lock`. -/
structure Out where
  value : Int
  msg : List UInt8 := []
  lock : Bool := false
deriving DecidableEq

/-- The forms of a function: the plain one, `_if` and `_until`. -/
inductive Form where
  | plain
  | cond
  | timed
deriving DecidableEq

/-- The functions that put a message into the mailbox. -/
inductive Sending where
  | send
  | urgent
  | broadcast (wakedup : Int)
deriving DecidableEq

namespace Sending

/-- The type byte of the message. -/
def type : Sending → UInt8
  | send => TYPE_NORMAL
  | urgent => TYPE_URGENT
  | broadcast _ => TYPE_BROADCAST

/-- What puts the message into the buffer. -/
def store : Sending → List UInt8 → Buffer → Option (Buffer × Int)
  | urgent, msg, b => b.tbxbackput msg msg.length TYPE_URGENT
  | k, msg, b => b.tbxput msg msg.length k.type

/-- The value when nothing has been put. -/
def refused : Sending → Nat → Int
  | broadcast _, _ => 0
  | _, msgSize => msgSize

/-- The value when `left` bytes have not been put. -/
def done : Sending → Form → Int → Int
  | broadcast wakedup, _, _ => wakedup
  | _, .cond, _ => 0
  | _, _, left => left

end Sending

/-- A call with its arguments. -/
inductive Op where
  | put (k : Sending) (form : Form) (msg : List UInt8)
  | receive (form : Form) (msgSize : Nat)
deriving DecidableEq

namespace Op

def msgSize : Op → Nat
  | put _ _ msg => msg.length
  | receive _ msgSize => msgSize

def form : Op → Form
  | put _ form _ => form
  | receive form _ => form

/-- The semaphore of the side. -/
def smx : Op → Smx
  | put _ _ _ => .sndsmx
  | receive _ _ => .rcvsmx

/-- What is returned when nothing has been put or got. -/
def refused : Op → Out
  | put k _ msg => { value := k.refused msg.length }
  | receive _ msgSize => { value := msgSize }

end Op

/-- Where a task goes on. -/
inductive Pc where
  | user
  /-- Behind `rt_schedule` in `tbx_smx_wait` or `tbx_smx_wait_until`. -/
  | smxWait (op : Op)
  /-- Before `tbx_wait_room`, `tbx_wait_msg` or one of their `_until` forms. -/
  | entered (op : Op)
  /-- Behind `rt_schedule` in one of these, with the type byte that has been read before. -/
  | wait (op : Op) (type : UInt8)
  /-- Before `tbxput` or `tbxbackput`. -/
  | put (k : Sending) (form : Form) (msg : List UInt8)
  /-- Before `tbx_receive_core`. -/
  | core (msgSize : Nat) (type : UInt8)
  /-- In `tbx_receive_core`, with the first copy of a broadcast message. -/
  | share (msg : List UInt8)
  /-- Before `tbx_signal`, and `tbx_smx_signal` behind it. -/
  | signal (x : Smx) (out : Out)
  /-- Before `tbx_smx_signal`. -/
  | leave (x : Smx) (out : Out)
  /-- Before `rt_sem_wait(&(tbx->bcbsmx))`. -/
  | lock (out : Out)
  /-- Behind `rt_schedule` in it. -/
  | lockWait (out : Out)
deriving DecidableEq

/-- What the calls use of `RT_TASK`, with whether the task is on the two lists. -/
structure TaskWords where
  priority : Int := 0
  state : TaskState := READY
  suspdepth : Int := 0
  owndres : Int := 0
  blockedOn : BlockedOn := .nothing
  ready : Bool := true
  timed : Bool := false
  pc : Pc := .user

namespace TaskWords

/-- `state |= mask; rt_rem_ready_current`. -/
def block (mask : TaskState) (w : TaskWords) : TaskWords :=
  { w with state := w.state.set mask, ready := false }

/-- `rt_rem_timed_task`. -/
def remTimed (w : TaskWords) : TaskWords := if w.state.delayed then { w with timed := false } else w

/-- `if ((state &= ~mask) == READY) rt_enq_ready_task`.  A task that is ready already, since its
time is over, would be linked twice. -/
def release (mask : TaskState) (w : TaskWords) : TaskWords :=
  { w with state := w.state.clear mask, ready := w.ready || w.state.clear mask = READY }

/-- `rt_task_suspend`. -/
def rtTaskSuspend (w : TaskWords) : TaskWords :=
  if w.suspdepth = 0 ∧ w.owndres = 0 then
    { w with
      suspdepth := w.suspdepth + 1
      state := w.state.set SUSPENDED
      ready := w.ready && w.state ≠ READY }
  else { w with suspdepth := w.suspdepth + 1 }

/-- `rt_task_resume`, which leaves `DELAYED` set. -/
def rtTaskResume (w : TaskWords) : TaskWords :=
  if w.suspdepth - 1 = 0 then
    let w := { w.remTimed with suspdepth := w.suspdepth - 1, state := w.state.clear SUSPENDED }
    { w with ready := w.ready || w.state.clear DELAYED = READY }
  else { w with suspdepth := w.suspdepth - 1 }

/-- The time of the task is over. -/
def wakeUp (w : TaskWords) : TaskWords := { w with timed := false }.release TIMED_OUT

/-- The task is taken off a queue by another one. -/
def dequeued (w : TaskWords) : TaskWords :=
  { w with blockedOn := .nothing }.remTimed.release (SEMAPHORE.set DELAYED)

/-- The task is woken by `tbx_signal`. -/
def signalled (w : TaskWords) : TaskWords :=
  { w.remTimed with blockedOn := .nothing }.release (SUSPENDED.set DELAYED)

@[simp] theorem block_pc (mask : TaskState) (w : TaskWords) : (w.block mask).pc = w.pc := rfl

@[simp] theorem remTimed_pc (w : TaskWords) : w.remTimed.pc = w.pc := by
  rw [remTimed]
  split <;> rfl

@[simp] theorem release_pc (mask : TaskState) (w : TaskWords) : (w.release mask).pc = w.pc := rfl

variable (w : TaskWords)
include w

@[simp] theorem rtTaskSuspend_pc : w.rtTaskSuspend.pc = w.pc := by
  rw [rtTaskSuspend]
  split <;> rfl

@[simp] theorem rtTaskResume_pc : w.rtTaskResume.pc = w.pc := by
  rw [rtTaskResume]
  split
  · exact w.remTimed_pc
  · rfl

@[simp] theorem wakeUp_pc : w.wakeUp.pc = w.pc := rfl

@[simp] theorem dequeued_pc : w.dequeued.pc = w.pc := by
  rw [dequeued, release_pc, remTimed_pc]

@[simp] theorem dequeued_blockedOn : w.dequeued.blockedOn = .nothing := by
  show ({ w with blockedOn := .nothing } : TaskWords).remTimed.blockedOn = .nothing
  rw [remTimed]
  split <;> rfl

@[simp] theorem signalled_pc : w.signalled.pc = w.pc := by
  rw [signalled, release_pc]
  exact w.remTimed_pc

end TaskWords

/-- `TBX` and the tasks. -/
structure Mailbox (Task : Type) where
  buffer : Buffer
  /-- The memory from `bcbadr` on. -/
  bcbadr : Int → UInt8
  waitingNr : Int
  waitingTask : Option Task
  /-- `qtype` of the semaphores. -/
  qtype : Bool
  count : Smx → Int
  queue : Smx → List Task
  task : Task → TaskWords
  /-- The task whose call has returned in the last step. -/
  returned : Option (Task × Out)

namespace Mailbox

variable {Task : Type} [DecidableEq Task]

def modify (t : Task) (f : TaskWords → TaskWords) (s : Mailbox Task) : Mailbox Task :=
  { s with task := update s.task t (f (s.task t)) }

def setPc (t : Task) (pc : Pc) (s : Mailbox Task) : Mailbox Task :=
  s.modify t fun w => { w with pc := pc }

variable {t t' : Task} {f : TaskWords → TaskWords} {pc : Pc} {x : Smx} {s : Mailbox Task}

@[simp] theorem modify_self : (s.modify t f).task t = f (s.task t) := update_self _ _ _

theorem modify_of_ne (ne : t' ≠ t) : (s.modify t f).task t' = s.task t' := update_of_ne ne _ _

theorem modify_pc (keeps : ∀ w, (f w).pc = w.pc) : ((s.modify t f).task t').pc = (s.task t').pc := by
  by_cases e : t' = t
  · rw [e, modify_self, keeps]
  · rw [modify_of_ne e]

@[simp] theorem setPc_self : ((s.setPc t pc).task t).pc = pc := by
  rw [setPc, modify_self]

theorem setPc_of_ne (ne : t' ≠ t) : (s.setPc t pc).task t' = s.task t' := modify_of_ne ne

/-- The call of `t` returns. -/
def finish (t : Task) (out : Out) (s : Mailbox Task) : Mailbox Task :=
  { s.setPc t .user with returned := some (t, out) }

/-- `tbx->waiting_nr += i`. -/
def addWaiting (i : Int) (s : Mailbox Task) : Mailbox Task := { s with waitingNr := s.waitingNr + i }

def setCount (x : Smx) (v : Int) (s : Mailbox Task) : Mailbox Task :=
  { s with count := update s.count x v }

/-- `enqueue_blocked`. -/
def enqueueBlocked (t : Task) (x : Smx) (s : Mailbox Task) : Mailbox Task :=
  let q := enqueue (fun q t => s.qtype = true ∨ (s.task q).priority ≤ (s.task t).priority) t
    (s.queue x)
  { s with queue := update s.queue x q }.modify t fun w => { w with blockedOn := .queue x }

/-- `dequeue_blocked`. -/
def dequeueBlocked (t : Task) (s : Mailbox Task) : Mailbox Task :=
  let s := match (s.task t).blockedOn with
    | .queue x => { s with queue := update s.queue x ((s.queue x).erase t) }
    | _ => s
  s.modify t fun w => { w with blockedOn := .nothing }

/-! ## The semaphores -/

def tbxSmxSignal (x : Smx) (s : Mailbox Task) : Mailbox Task :=
  match s.queue x with
  | [] => s.setCount x 1
  | task :: rest =>
      ({ s with queue := update s.queue x rest }.addWaiting (-1)).modify task .dequeued

/-- `return (int)(rt_current->blocked_on)` of `tbx_smx_wait`, and what its caller does then. -/
def smxPassed (t : Task) (op : Op) (s : Mailbox Task) : Mailbox Task :=
  if (s.task t).blockedOn = .nothing then s.setPc t (.entered op) else s.finish t op.refused

def tbxSmxWait (t : Task) (op : Op) (s : Mailbox Task) : Mailbox Task :=
  if s.count op.smx = 0 then
    ((s.addWaiting 1).modify t fun w => { w.block SEMAPHORE with pc := .smxWait op }).enqueueBlocked t
      op.smx
  else (s.setCount op.smx 0).smxPassed t op

def tbxSmxWaitUntil (t : Task) (op : Op) (s : Mailbox Task) : Mailbox Task :=
  if s.count op.smx = 0 then
    ((s.addWaiting 1).modify t fun w =>
      { w.block (SEMAPHORE.set DELAYED) with timed := true, pc := .smxWait op }).enqueueBlocked t
      op.smx
  else (s.setCount op.smx 0).setPc t (.entered op)

/-- The two functions behind `rt_schedule`. -/
def smxWaited (t : Task) (op : Op) (s : Mailbox Task) : Mailbox Task :=
  if op.form = .timed then
    if (s.task t).blockedOn = .nothing then s.setPc t (.entered op)
    else ((s.dequeueBlocked t).addWaiting (-1)).finish t op.refused
  else s.smxPassed t op

/-- `rt_sem_broadcast(&(tbx->bcbsmx))`. -/
def rtSemBroadcast (s : Mailbox Task) : Mailbox Task :=
  let wake (w : TaskWords) : TaskWords :=
    let w := { w with blockedOn := .nothing }.remTimed
    if w.state = READY then w else w.release (SEMAPHORE.set DELAYED)
  let s := (s.queue .bcbsmx).foldl (fun s t => s.modify t wake) s
  { s with count := update s.count .bcbsmx 0, queue := update s.queue .bcbsmx [] }

/-- `rt_sem_wait(&(tbx->bcbsmx))`, whose result nobody reads. -/
def rtSemWait (t : Task) (out : Out) (s : Mailbox Task) : Mailbox Task :=
  let s := s.setCount .bcbsmx (s.count .bcbsmx - 1)
  if s.count .bcbsmx < 0 then
    (s.modify t fun w => { w.block SEMAPHORE with pc := .lockWait out }).enqueueBlocked t .bcbsmx
  else s.finish t out

/-! ## Waiting for room or for a message -/

def tbxSignal (s : Mailbox Task) : Mailbox Task :=
  match s.waitingTask with
  | none => s
  | some task => ({ s with waitingTask := none }.addWaiting (-1)).modify task .signalled

/-- `waiting_nr++`, and the task waits for `tbx_signal`. -/
def await (t : Task) (f : TaskWords → TaskWords) (s : Mailbox Task) : Mailbox Task :=
  { s.addWaiting 1 with waitingTask := some t }.modify t fun w => { f w with blockedOn := .something }

/-- What `_until` does behind `rt_schedule` when its time is over. -/
def timedOut (t : Task) (op : Op) (s : Mailbox Task) : Mailbox Task :=
  ({ s with waitingTask := none }.addWaiting (-1)).modify t fun w =>
    { w with blockedOn := .nothing, pc := .leave op.smx op.refused }

/-- The end of `tbx_wait_room`. -/
def roomPassed (t : Task) (k : Sending) (msg : List UInt8) (s : Mailbox Task) : Mailbox Task :=
  if (s.task t).blockedOn = .nothing then s.setPc t (.put k .plain msg)
  else s.setPc t (.leave .sndsmx (Op.put k .plain msg).refused)

def tbxWaitRoom (t : Task) (k : Sending) (msg : List UInt8) (s : Mailbox Task) : Mailbox Task :=
  if s.buffer.frbs < msg.length + 1 then
    s.await t fun w =>
      { w.block SUSPENDED with suspdepth := 1, pc := .wait (.put k .plain msg) TYPE_NONE }
  else s.roomPassed t k msg

def tbxWaitRoomUntil (t : Task) (k : Sending) (msg : List UInt8) (s : Mailbox Task) : Mailbox Task :=
  if s.buffer.frbs < msg.length + 1 then
    s.await t fun w =>
      { w.block DELAYED with timed := true, pc := .wait (.put k .timed msg) TYPE_NONE }
  else s.setPc t (.put k .timed msg)

/-- `tbx_check_room`, and its caller up to the store. -/
def tbxCheckRoom (t : Task) (k : Sending) (msg : List UInt8) (s : Mailbox Task) : Mailbox Task :=
  if s.buffer.frbs < msg.length + 1 ∨ s.count .sndsmx = 0 then s.finish t (Op.put k .cond msg).refused
  else (s.setCount .sndsmx 0).setPc t (.put k .cond msg)

/-- `*(tbx->bufadr + tbx->fbyte)`. -/
def firstByte (s : Mailbox Task) : UInt8 := s.buffer.bufadr s.buffer.fbyte

/-- The type byte is taken out of the buffer. -/
def takeType (s : Mailbox Task) : Mailbox Task :=
  let b := s.buffer
  { s with buffer :=
      { b with fbyte := b.modSize (b.fbyte + 1), frbs := b.frbs + 1, avbs := b.avbs - 1 } }

/-- The end of `tbx_wait_msg`. -/
def msgPassed (t : Task) (msgSize : Nat) (type : UInt8) (s : Mailbox Task) : Mailbox Task :=
  if (s.task t).blockedOn = .nothing then s.setPc t (.core msgSize type)
  else s.setPc t (.leave .rcvsmx (Op.receive .plain msgSize).refused)

def tbxWaitMsg (t : Task) (msgSize : Nat) (s : Mailbox Task) : Mailbox Task :=
  if s.bcbadr 0 = TYPE_BROADCAST then s.msgPassed t msgSize TYPE_BROADCAST
  else if s.buffer.avbs < msgSize + 1 then
    s.await t fun w => { w.block SUSPENDED with pc := .wait (.receive .plain msgSize) TYPE_NONE }
  else s.takeType.msgPassed t msgSize s.firstByte

def tbxWaitMsgUntil (t : Task) (msgSize : Nat) (s : Mailbox Task) : Mailbox Task :=
  if s.bcbadr 0 = TYPE_BROADCAST then s.setPc t (.core msgSize TYPE_BROADCAST)
  else if s.buffer.avbs < msgSize + 1 ∧ s.bcbadr 0 = TYPE_NONE then
    s.await t fun w =>
      { w.block DELAYED with timed := true, pc := .wait (.receive .timed msgSize) s.firstByte }
  else s.takeType.setPc t (.core msgSize s.firstByte)

/-- `tbx_check_msg`, and its caller up to the core.  With a type byte of `0` the caller leaves the
semaphore taken. -/
def tbxCheckMsg (t : Task) (msgSize : Nat) (s : Mailbox Task) : Mailbox Task :=
  if s.count .rcvsmx = 0 ∨ s.buffer.avbs < msgSize + 1 then
    s.finish t (Op.receive .cond msgSize).refused
  else
    let s := s.setCount .rcvsmx 0
    if s.bcbadr 0 = TYPE_BROADCAST then s.setPc t (.core msgSize TYPE_BROADCAST)
    else if s.firstByte = 0 then s.takeType.finish t (Op.receive .cond msgSize).refused
    else s.takeType.setPc t (.core msgSize s.firstByte)

/-- The waits behind `rt_schedule`.  The `_if` forms do not wait. -/
def waited (t : Task) (type : UInt8) (s : Mailbox Task) : Op → Option (Mailbox Task)
  | .put k .plain msg => some (s.roomPassed t k msg)
  | .put k .timed msg =>
      if (s.task t).blockedOn = .nothing then some (s.setPc t (.put k .timed msg))
      else some (s.timedOut t (.put k .timed msg))
  | .receive .plain msgSize => some (s.takeType.msgPassed t msgSize s.firstByte)
  | .receive .timed msgSize =>
      if (s.task t).blockedOn = .nothing then some (s.takeType.setPc t (.core msgSize type))
      else some (s.timedOut t (.receive .timed msgSize))
  | .put _ .cond _ | .receive .cond _ => none

/-! ## Receiving -/

/-- `tbx_receive_core`, of a broadcast message up to the first copy or from it. -/
def tbxReceiveCore (t : Task) (msgSize : Nat) (type : UInt8) (s : Mailbox Task) :
    Option (Mailbox Task) :=
  if type = TYPE_BROADCAST ∧ s.bcbadr 0 ≠ TYPE_NONE then
    let msg := (List.range msgSize).map fun k : Nat => s.bcbadr (1 + k)
    if s.waitingNr = 0 then
      let s := { s with bcbadr := update s.bcbadr 0 TYPE_NONE }.rtSemBroadcast
      some (s.setPc t (.signal .rcvsmx { value := 0, msg := msg }))
    else some (s.setPc t (.signal .rcvsmx { value := 0, msg := msg, lock := true }))
  else do
    let (b, left, msg) ← s.buffer.tbxget msgSize
    let s := { s with buffer := b }
    if type = TYPE_BROADCAST then some (s.setPc t (.share msg))
    else some (s.setPc t (.signal .rcvsmx { value := left, msg := msg }))

/-- The first copy of a broadcast message is left to the others.  What lies behind it in the
caller's buffer is not copied. -/
def shareMsg (t : Task) (msg : List UInt8) (s : Mailbox Task) : Mailbox Task :=
  if s.waitingNr > 0 then
    let s := { s with bcbadr := update (blit s.bcbadr 1 msg) 0 TYPE_BROADCAST }
    s.setPc t (.signal .rcvsmx { value := 0, msg := msg, lock := true })
  else s.rtSemBroadcast.setPc t (.signal .rcvsmx { value := 0, msg := msg })

/-- The last call of `tbx_smx_signal`, and `rt_sem_wait` is left if `lock` is set. -/
def leaveSmx (t : Task) (x : Smx) (out : Out) (s : Mailbox Task) : Mailbox Task :=
  let s := s.tbxSmxSignal x
  if out.lock then s.setPc t (.lock out) else s.finish t out

/-! ## The calls -/

/-- The beginning of each of the functions. -/
def start (t : Task) (op : Op) (s : Mailbox Task) : Mailbox Task :=
  if op.msgSize + 1 > s.buffer.size then s.finish t { value := -EMSGSIZE }
  else
    match op with
    | .put k .cond msg => s.tbxCheckRoom t k msg
    | .receive .cond msgSize => s.tbxCheckMsg t msgSize
    | .put _ .timed _ | .receive .timed _ => s.tbxSmxWaitUntil t op
    | .put _ .plain _ | .receive .plain _ => s.tbxSmxWait t op

def rtTbxSend (form : Form) (t : Task) (msg : List UInt8) (s : Mailbox Task) : Mailbox Task :=
  s.start t (.put .send form msg)

def rtTbxUrgent (form : Form) (t : Task) (msg : List UInt8) (s : Mailbox Task) : Mailbox Task :=
  s.start t (.put .urgent form msg)

/-- Without a waiting task nothing is sent. -/
def rtTbxBroadcast (form : Form) (t : Task) (msg : List UInt8) (s : Mailbox Task) : Mailbox Task :=
  if msg.length + 1 ≤ s.buffer.size ∧ s.waitingNr = 0 then s.finish t { value := 0 }
  else s.start t (.put (.broadcast s.waitingNr) form msg)

def rtTbxReceive (form : Form) (t : Task) (msgSize : Nat) (s : Mailbox Task) : Mailbox Task :=
  s.start t (.receive form msgSize)

/-- A task inside of a call goes on. -/
def goOn (t : Task) (s : Mailbox Task) : Option (Mailbox Task) :=
  match (s.task t).pc with
  | .user => none
  | .smxWait op => some (s.smxWaited t op)
  | .entered (.put k .plain msg) => some (s.tbxWaitRoom t k msg)
  | .entered (.put k .timed msg) => some (s.tbxWaitRoomUntil t k msg)
  | .entered (.receive .plain msgSize) => some (s.tbxWaitMsg t msgSize)
  | .entered (.receive .timed msgSize) => some (s.tbxWaitMsgUntil t msgSize)
  | .entered (.put _ .cond _) | .entered (.receive .cond _) => none
  | .wait op type => s.waited t type op
  | .put k form msg =>
      (k.store msg s.buffer).map fun p =>
        { s with buffer := p.1 }.setPc t (.signal .sndsmx { value := k.done form p.2 })
  | .core msgSize type => s.tbxReceiveCore t msgSize type
  | .share msg => some (s.shareMsg t msg)
  | .signal x out => some (s.tbxSignal.setPc t (.leave x out))
  | .leave x out => some (s.leaveSmx t x out)
  | .lock out => some (s.rtSemWait t out)
  | .lockWait out => some (s.finish t out)

/-! ## The machine -/

/-- What a task calls. -/
inductive Call where
  | send (form : Form) (msg : List UInt8)
  | urgent (form : Form) (msg : List UInt8)
  | broadcast (form : Form) (msg : List UInt8)
  | receive (form : Form) (msgSize : Nat)
deriving DecidableEq

/-- A task calls or goes on, or another one suspends or resumes it, or its time is over. -/
inductive Event (Task : Type) where
  | call (t : Task) (c : Call)
  | goOn (t : Task)
  | suspend (t : Task)
  | resume (t : Task)
  | timer (t : Task)
deriving DecidableEq

def call (t : Task) : Call → Mailbox Task → Mailbox Task
  | .send form msg, s => s.rtTbxSend form t msg
  | .urgent form msg, s => s.rtTbxUrgent form t msg
  | .broadcast form msg, s => s.rtTbxBroadcast form t msg
  | .receive form msgSize, s => s.rtTbxReceive form t msgSize

/-- A task runs when it is on the ready list, and calls outside of a call. -/
def step (e : Event Task) (s : Mailbox Task) : Option (Mailbox Task) :=
  let s := { s with returned := none }
  match e with
  | .call t c => if (s.task t).ready ∧ (s.task t).pc = .user then some (s.call t c) else none
  | .goOn t => if (s.task t).ready then s.goOn t else none
  | .suspend t => some (s.modify t .rtTaskSuspend)
  | .resume t => some (s.modify t .rtTaskResume)
  | .timer t => if (s.task t).timed then some (s.modify t .wakeUp) else none

/-- `rt_tbx_init`, with tasks that are outside of the calls. -/
def rtTbxInit (size : Nat) (qtype : Bool) (priority : Task → Int) : Mailbox Task where
  buffer := { size := size, frbs := size }
  bcbadr := fun _ => 0
  waitingNr := 0
  waitingTask := none
  qtype := qtype
  count := fun _ => 1
  queue := fun _ => []
  task := fun t => { priority := priority t }
  returned := none

end Mailbox

end Rtai.Tbx
