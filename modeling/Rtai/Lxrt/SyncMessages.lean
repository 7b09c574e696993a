import Rtai.Lib.Bytes
import Rtai.Lxrt.Identifiers
import Rtai.Up.SemaphoreDeletion
import Mathlib.Algebra.Ring.Nat

/-!
# Synchronous messages

`rt_Send`, `rt_Receive`, `rt_Creceive` and `rt_Reply` over the message services of the UP
scheduler.  What passes between the tasks there is the address of a `MSGCB` on the sender's
stack, which tells the receiver where the message is and the replier where its answer goes.
`msgcb` is the memory such addresses point into; the buffers are in `mem`.

`inside` is the call that a task is in.  Its code behind the service of the scheduler runs as
a step of its own.  `known` is the pid by which the receiver has been told who sent the
message it received.
-/

namespace Rtai.Lxrt.SyncMessages

open Function Rtai.Lib Rtai.Up Rtai.Lxrt.Identifiers

structure Msgcb where
  cmd : Int32 := 0
  sbuf : UInt32 := 0
  sbytes : UInt32 := 0
  rbuf : UInt32 := 0
  rbytes : UInt32 := 0
deriving DecidableEq

def SYNCMSG : Int32 := 0

def MSG_ERR : TaskPtr := 0xFfff

def EPERM : Int := 1

/-- The calls that go on behind the service of the scheduler. -/
inductive Service (n : Nat) where
  | send (task : Up.Task n) (cb : UInt32) (block : Msgcb)
  | receive (msg maxsize : UInt32)
  | creceive (msg maxsize : UInt32)
deriving DecidableEq

structure State (n : Nat) where
  sys : System n
  tables : Tables
  /-- The address of the structure of a task. -/
  addr : Up.Task n → TaskPtr
  mem : Memory
  msgcb : UInt32 → Msgcb
  inside : Up.Task n → Option (Service n)
  /-- What the last call of a task has returned. -/
  value : Up.Task n → Int
  msglen : Up.Task n → UInt32
  known : Up.Task n → Option Pid

/-- The number of bytes copied. -/
theorem clip_toNat {a b : UInt32} : (if a ≤ b then a else b).toNat = min a.toNat b.toNat := by
  split
  next le => exact (Nat.min_eq_left (UInt32.le_iff_toNat_le.mp le)).symm
  next le => exact (Nat.min_eq_right (Nat.le_of_not_le fun h => le (UInt32.le_iff_toNat_le.mpr h))).symm

/-- A copy of no bytes is not made. -/
theorem copy_eq {m : Memory} {p q : Nat} {len : UInt32} :
    (if len = 0 then m else m.write p (m.read q len.toNat)) = m.write p (m.read q len.toNat) := by
  split
  next zero =>
    rw [zero]
    exact (Memory.write_eq_self.mpr rfl).symm
  next => rfl

namespace State

variable {n : Nat}

/-- The task whose structure is at the address. -/
def taskAt (p : TaskPtr) (s : State n) : Option (Up.Task n) :=
  (List.finRange (n + 1)).find? fun t => s.addr t = p

/-- The current task returns from its call. -/
def leave (v : Int) (s : State n) : State n :=
  { s with
    value := update s.value s.sys.current v
    inside := update s.inside s.sys.current none }

/-- The current task goes on with the call. -/
def enter (sys : System n) (call : Service n) (s : State n) : State n :=
  { s with sys := sys, inside := update s.inside s.sys.current (some call) }

/-! ## Sending -/

/-- `cb` is the address of the `MSGCB`. -/
def rtSend (pid : Pid) (smsg rmsg ssize rsize cb : UInt32) (c : Clock) (s : State n) :
    Option (State n) :=
  let task := s.tables.pid2rttask pid
  if task = 0 then some (s.leave (-ESRCH))
  else do
    let t ← s.taskAt task
    let block : Msgcb :=
      { cmd := SYNCMSG, sbuf := smsg, sbytes := ssize, rbuf := rmsg, rbytes := rsize }
    let sys ← s.sys.rtRpc t cb c
    return { s.enter sys (.send t cb block) with
      msgcb := update s.msgcb cb block
      known := update s.known s.sys.current none }

/-- `rt_Send` behind `rt_rpc`. -/
def rtSendRest (task : Up.Task n) (s : State n) : State n :=
  match s.sys.retval s.sys.current with
  | .task none => s.leave (-EINVAL)
  | .task (some replier) =>
      if replier = task then s.leave (s.sys.out s.sys.current).toInt32.toInt
      else s.leave (-ESRCH)
  | _ => s.leave (-ESRCH)

/-! ## Receiving -/

/-- `pid ? pid2rttask(pid) : 0`, `none` where that points to no task. -/
def named (pid : Pid) (s : State n) : Option (Option (Up.Task n)) :=
  let task := if pid = 0 then 0 else s.tables.pid2rttask pid
  if task = 0 then some none else (s.taskAt task).map some

def rtReceive (pid : Pid) (msg maxsize : UInt32) (c : Clock) (s : State n) :
    Option (State n) := do
  let task ← s.named pid
  let sys ← s.sys.rtReceive task c
  return s.enter sys (.receive msg maxsize)

def rtCreceive (pid : Pid) (msg maxsize : UInt32) (delay : RTIME) (c : Clock) (s : State n) :
    Option (State n) := do
  let task ← s.named pid
  let sys ← (if delay ≠ 0 then s.sys.rtReceiveUntil task (s.sys.disp.rtGetTime c + delay) c
    else s.sys.rtReceiveIf task c)
  return s.enter sys (.creceive msg maxsize)

/-- The pointer a service of the scheduler has returned. -/
def pointer (s : State n) : TaskPtr :=
  match s.sys.retval s.sys.current with
  | .task (some t) => s.addr t
  | .msgErr => MSG_ERR
  | _ => 0

/-- The receiver of a message is told the pid of its sender. -/
def tell (pid : Pid) (s : State n) : Up.Task n → Option Pid :=
  match s.sys.retval s.sys.current with
  | .task (some t) => update s.known t (some pid)
  | _ => s.known

/-- What the two receives do behind that of the scheduler. -/
def received (msg maxsize : UInt32) (nobody unknown : Int) (s : State n) : State n :=
  let task := s.pointer
  if task = 0 then s.leave nobody
  else
    let pid := s.tables.rttask2pid task
    if pid = 0 then s.leave unknown
    else
      let cb := s.msgcb (s.sys.out s.sys.current)
      let msglen := if maxsize ≤ cb.sbytes then maxsize else cb.sbytes
      { s with
        mem := if msglen = 0 then s.mem
          else s.mem.write msg.toNat (s.mem.read cb.sbuf.toNat msglen.toNat)
        msglen := update s.msglen s.sys.current msglen
        known := s.tell pid }.leave pid.toInt

/-- `rt_Receive` behind `rt_receive`. -/
def rtReceiveRest (msg maxsize : UInt32) (s : State n) : State n :=
  s.received msg maxsize (-EINVAL) (-ESRCH)

/-- `rt_Creceive` behind the receive of the scheduler. -/
def rtCreceiveRest (msg maxsize : UInt32) (s : State n) : State n :=
  s.received msg maxsize 0 0

/-! ## Replying -/

/-- The `MSGCB` that `msg` of the task is taken for. -/
def blockOf (t : Up.Task n) (s : State n) : Msgcb := s.msgcb (s.sys.msg t)

/-- `size <= cb->rbytes ? size : cb->rbytes`. -/
def retlen (t : Up.Task n) (size : UInt32) (s : State n) : UInt32 :=
  if size ≤ (s.blockOf t).rbytes then size else (s.blockOf t).rbytes

/-- The answer is stored. -/
def storeReply (t : Up.Task n) (msg size : UInt32) (s : State n) : Memory :=
  if s.retlen t size = 0 then s.mem
  else s.mem.write (s.blockOf t).rbuf.toNat (s.mem.read msg.toNat (s.retlen t size).toNat)

/-- What `rt_Reply` makes of the value of `rt_return`. -/
def replyValue (task : Up.Task n) : Ret n → Int
  | .task none => -EINVAL
  | .task (some retask) => if retask = task then 0 else -ESRCH
  | _ => -ESRCH

/-- `rt_Reply` up to the `rt_schedule` of `rt_return`, and whether it gets there. -/
def rtReplyLists (pid : Pid) (msg size : UInt32) (s : State n) : Option (State n × Bool) :=
  let task := s.tables.pid2rttask pid
  if task = 0 then some (s.leave (-ESRCH), false)
  else do
    let t ← s.taskAt task
    if (s.blockOf t).cmd = SYNCMSG then
      let (sys, sched) ← s.sys.rtReturnLists t (s.retlen t size)
      let s := { s with sys := sys, mem := s.storeReply t msg size }
      return (s.leave (replyValue t (sys.retval sys.current)), sched)
    else return (s.leave (-EPERM), false)

def rtReply (pid : Pid) (msg size : UInt32) (c : Clock) (s : State n) : Option (State n) := do
  let (s, sched) ← s.rtReplyLists pid msg size
  let sys ← s.sys.scheduleIf sched c
  return { s with sys := sys }

end State

/-! ## Steps -/

inductive Event (n : Nat) where
  /-- A task is created or started. -/
  | start (op : Op n) (c : Clock)
  | rtSend (pid : Pid) (smsg rmsg ssize rsize cb : UInt32) (c : Clock)
  | rtReceive (pid : Pid) (msg maxsize : UInt32) (c : Clock)
  | rtCreceive (pid : Pid) (msg maxsize : UInt32) (delay : RTIME) (c : Clock)
  | rtReply (pid : Pid) (msg size : UInt32) (c : Clock)
  /-- The current task goes on with what it is in. -/
  | resume (c : Clock)
  | timer (c : Clock)
  /-- Pids have been given and taken. -/
  | pids (tables : Tables)

namespace State

variable {n : Nat}

/-- The current task runs its own code. -/
def idle (s : State n) : Bool :=
  s.sys.stack s.sys.current = [] && s.inside s.sys.current = none

/-- Every `MSGCB` in use is on a stack of its own. -/
def unused (cb : UInt32) (s : State n) : Bool :=
  (List.finRange (n + 1)).all fun t =>
    match s.inside t with
    | some (.send _ cb' _) => cb' ≠ cb
    | _ => true

/-- The code of a call behind the service of the scheduler. -/
def proceed : Service n → State n → State n
  | .send task _ _, s => s.rtSendRest task
  | .receive msg maxsize, s => s.rtReceiveRest msg maxsize
  | .creceive msg maxsize, s => s.rtCreceiveRest msg maxsize

/-- A step of the scheduler. -/
def run (e : Up.Event n) (s : State n) : Option (State n) :=
  (System.step e s.sys).map fun sys => { s with sys := sys }

/-- Linux makes no call that waits, and no task is at `MSG_ERR`. -/
def step : Event n → State n → Option (State n)
  | .start op c, s => if s.idle ∧ s.sys.starts op then s.run (.call op c) else none
  | .rtSend pid smsg rmsg ssize rsize cb c, s =>
      if s.idle ∧ s.sys.current ≠ rtLinuxTask ∧ s.unused cb then
        s.rtSend pid smsg rmsg ssize rsize cb c
      else none
  | .rtReceive pid msg maxsize c, s =>
      if s.idle ∧ s.sys.current ≠ rtLinuxTask then s.rtReceive pid msg maxsize c else none
  | .rtCreceive pid msg maxsize delay c, s =>
      if s.idle ∧ (delay ≠ 0 → s.sys.current ≠ rtLinuxTask) then
        s.rtCreceive pid msg maxsize delay c
      else none
  | .rtReply pid msg size c, s => if s.idle then s.rtReply pid msg size c else none
  | .resume c, s =>
      if s.sys.stack s.sys.current = [] then
        (s.inside s.sys.current).map fun call => s.proceed call
      else s.run (.resume c)
  | .timer c, s => s.run (.timer c)
  | .pids tables, s =>
      if tables.rttask2pid MSG_ERR = 0 then some { s with tables := tables } else none

end State

end Rtai.Lxrt.SyncMessages
