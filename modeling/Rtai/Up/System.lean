import Rtai.Up.Dispatcher

/-!
# The state of the UP scheduler

`System` holds the dispatcher, the remaining fields of `RT_TASK`, the `QUEUE`
nodes, the semaphores and the mailboxes.  A `QUEUE` structure is either the
node of a task (`task->queue`) or the head of a queue: that of a semaphore, or
the `msg_queue` or `ret_queue` of a task.  `blocked_on` points to a head.

A service that calls `rt_schedule` has code left to run when its caller is
dispatched again.  That code is a `Frame` on the caller's `stack`, which also
holds the point a mailbox service has reached when it calls the semaphore
services or copies with interrupts enabled.  `retval` is the return value a
service leaves its caller and `out` the variable of the caller that a message
is stored in.
-/

namespace Rtai.Up

open Function Rtai.Lib

/-- A semaphore: one of the user's, or one of the two of a mailbox. -/
inductive SemId where
  | user (i : Nat)
  | sndsem (mbx : Nat)
  | rcvsem (mbx : Nat)
deriving DecidableEq, Repr

/-- The heads of the queues tasks block on. -/
inductive Queue (n : Nat) where
  | sem (sem : SemId)
  | msgQueue (task : Task n)
  | retQueue (task : Task n)
deriving DecidableEq

/-- A pointer to a `QUEUE` structure. -/
inductive QNode (n : Nat) where
  | head (q : Queue n)
  | queue (task : Task n)
deriving DecidableEq

/-- `SEM` without its queue. -/
structure Sem (n : Nat) where
  /-- `magic == RT_SEM_MAGIC`. -/
  magic : Bool := false
  type : Int := 0
  count : Int := 0
  owndby : Option (Task n) := none
  qtype : Bool := false

/-- `MBX` without its semaphores. -/
structure Mbx (n : Nat) where
  /-- `magic == RT_MBX_MAGIC`. -/
  magic : Bool := false
  waitingTask : Option (Task n) := none
  owndby : Option (Task n) := none
  /-- The memory from `bufadr` on. -/
  bufadr : Int → UInt8 := fun _ => 0
  size : Int := 0
  fbyte : Int := 0
  lbyte : Int := 0
  avbs : Int := 0
  frbs : Int := 0

/-- The two directions of a mailbox. -/
inductive Side where
  | snd
  | rcv
deriving DecidableEq, Repr

/-- A mailbox call in progress: `bytes` is what a sender has still to put or a
receiver has got so far, `msgSize` the value of `msg_size`. -/
structure Transfer where
  side : Side
  mbx : Nat
  /-- The time of the `_until` forms. -/
  time : Option RTIME
  bytes : List UInt8
  msgSize : Int
  /-- What a conditional form returns instead of `msg_size`. -/
  result : Option Int := none
  /-- Whether the call loops until `msg_size` is 0. -/
  loops : Bool := true
deriving DecidableEq

/-- The statements of the loop of `mbxput` and `mbxget`, with `tocpy`. -/
inductive CopyPoint where
  /-- `while (msg_size > 0 && mbx->frbs)`. -/
  | test
  /-- `if ((tocpy = mbx->size - mbx->lbyte) > msg_size) tocpy = msg_size`. -/
  | room
  /-- `if (tocpy > mbx->frbs)`. -/
  | clip (tocpy : Int)
  /-- `tocpy = mbx->frbs`. -/
  | assign (tocpy : Int)
  /-- `memcpy`. -/
  | copy (tocpy : Int)
  /-- The update of `frbs` and `avbs`, with interrupts disabled. -/
  | commit (tocpy : Int)
  /-- The update of `msg_size`, `*msg` and `lbyte`. -/
  | advance (tocpy : Int)
deriving DecidableEq

/-- Code a task has still to run in a service. -/
inductive Frame (n : Nat) where
  /-- `rt_sem_wait` behind its `rt_schedule`. -/
  | rtSemWait (sem : SemId)
  /-- `rt_sem_wait_until` behind its `rt_schedule`. -/
  | rtSemWaitUntil (sem : SemId)
  /-- `rt_send` and `rt_send_if` behind their `rt_schedule`. -/
  | rtSend (task : Task n) (msg : UInt32)
  /-- `rt_send_until` behind its `rt_schedule`. -/
  | rtSendUntil (task : Task n) (msg : UInt32)
  /-- `rt_rpc` and `rt_rpc_if` behind their `rt_schedule`. -/
  | rtRpc (task : Task n) (toDo : UInt32)
  /-- `rt_rpc_until` behind its `rt_schedule`. -/
  | rtRpcUntil (task : Task n) (toDo : UInt32)
  /-- The waiting branch of a receive behind its `rt_schedule`. -/
  | rtReceive
  /-- A receive from its test of `ret_queue.task` on. -/
  | rtReceived
  /-- A blocking mailbox call behind the wait on its semaphore. -/
  | mbxWaited (x : Transfer)
  /-- A blocking mailbox call at `while (msg_size)`. -/
  | mbxLoop (x : Transfer)
  /-- `mbx_wait` or `mbx_wait_until` behind its `rt_schedule`. -/
  | mbxWoken (x : Transfer)
  /-- In `mbxput` or `mbxget`. -/
  | mbxCopy (x : Transfer) (p : CopyPoint)
  /-- A conditional mailbox call behind `mbx_signal`. -/
  | mbxSignalled (x : Transfer)
  /-- A mailbox call behind its last `rt_sem_signal`. -/
  | mbxReturn (x : Transfer) (v : Int)
deriving DecidableEq

/-- The frames that run with interrupts disabled. -/
def Frame.cli {n : Nat} : Frame n → Bool
  | .mbxWaited _ | .mbxLoop _ | .mbxCopy _ _ | .mbxSignalled _ | .mbxReturn _ _ => false
  | _ => true

/-- What a service returns. -/
inductive Ret (n : Nat) where
  | int (v : Int)
  /-- A task pointer, `none` for `NULL`. -/
  | task (t : Option (Task n))
  /-- `MSG_ERR`. -/
  | msgErr
deriving DecidableEq

def SEMHLF : BitVec 32 := 0x0000FFFF
def RPCHLF : BitVec 32 := 0xFFFF0000
def RPCINC : BitVec 32 := 0x00010000

def EINVAL : Int := 22
def ENOMEM : Int := 12
def ETIME : Int := 62
def SEM_ERR : Int := 0xFfff
def SEM_TIMOUT : Int := 0xFffe

/-- The state of the scheduler. -/
structure System (n : Nat) where
  disp : Dispatcher n
  basePriority : Task n → Int
  schedLockPriority : Task n → Int
  prioPassedTo : Task n → Option (Task n)
  suspdepth : Task n → Int
  owndres : Task n → BitVec 32
  resyncFrame : Task n → Bool
  /-- The `prev` and `next` links of every `QUEUE`. -/
  queue : Links (QNode n)
  blockedOn : Task n → Option (Queue n)
  msg : Task n → UInt32
  /-- `msg_queue.task`. -/
  msgQueueTask : Task n → Option (Task n)
  /-- `ret_queue.task != NOTHING`. -/
  retQueueTask : Task n → Bool
  sem : SemId → Sem n
  mbx : Nat → Mbx n
  stack : Task n → List (Frame n)
  retval : Task n → Ret n
  out : Task n → UInt32
  /-- The bytes the last mailbox receive of the task stored. -/
  outBytes : Task n → List UInt8

namespace System

variable {n : Nat}

/-- `rt_current`. -/
abbrev current (s : System n) : Task n := s.disp.current

abbrev state (s : System n) (t : Task n) : TaskState := s.disp.state t

abbrev priority (s : System n) (t : Task n) : Int := s.disp.priority t

/-! ## Writing one field -/

def setBlockedOn (t : Task n) (q : Option (Queue n)) (s : System n) : System n :=
  { s with blockedOn := update s.blockedOn t q }

def setPrioPassedTo (t : Task n) (dest : Option (Task n)) (s : System n) : System n :=
  { s with prioPassedTo := update s.prioPassedTo t dest }

def setSuspdepth (t : Task n) (depth : Int) (s : System n) : System n :=
  { s with suspdepth := update s.suspdepth t depth }

def setOwndres (t : Task n) (own : BitVec 32) (s : System n) : System n :=
  { s with owndres := update s.owndres t own }

def setMsg (t : Task n) (msg : UInt32) (s : System n) : System n :=
  { s with msg := update s.msg t msg }

def setMsgQueueTask (t : Task n) (task : Option (Task n)) (s : System n) : System n :=
  { s with msgQueueTask := update s.msgQueueTask t task }

def setRetQueueTask (t : Task n) (b : Bool) (s : System n) : System n :=
  { s with retQueueTask := update s.retQueueTask t b }

def setSem (sem : SemId) (v : Sem n) (s : System n) : System n :=
  { s with sem := update s.sem sem v }

def setCount (sem : SemId) (count : Int) (s : System n) : System n :=
  s.setSem sem { s.sem sem with count := count }

def setType (sem : SemId) (type : Int) (s : System n) : System n :=
  s.setSem sem { s.sem sem with type := type }

def setOwndby (sem : SemId) (owner : Option (Task n)) (s : System n) : System n :=
  s.setSem sem { s.sem sem with owndby := owner }

def setMbx (b : Nat) (v : Mbx n) (s : System n) : System n :=
  { s with mbx := update s.mbx b v }

/-! ## Control -/

/-- Runs a dispatcher function. -/
def onDisp (f : Dispatcher n → Option (Dispatcher n)) (s : System n) : Option (System n) :=
  (f s.disp).map fun d => { s with disp := d }

def rtSchedule (c : Clock) (s : System n) : Option (System n) :=
  s.onDisp (Dispatcher.rtSchedule c)

/-- The current task returns `v` from a service. -/
def ret (v : Ret n) (s : System n) : System n :=
  { s with retval := update s.retval s.current v }

/-- The current task has `f` to run next. -/
def push (f : Frame n) (s : System n) : System n :=
  { s with stack := update s.stack s.current (f :: s.stack s.current) }

/-- The statements `*msg = m` and `*result = m` of the current task. -/
def store (m : UInt32) (s : System n) : System n :=
  { s with out := update s.out s.current m }

/-! ## The queues tasks block on -/

/-- `q->task`. -/
def taskOf (s : System n) : QNode n → Option (Task n)
  | .queue t => some t
  | .head (.msgQueue t) => s.msgQueueTask t
  | .head _ => none

/-- `while ((q = q->next) != queue && (q->task)->priority <= priority);`.  A
node without a task stops the machine: its priority is read through `NULL`. -/
def queuePosition (s : System n) (queue : Queue n) (priority : Int) : Option (QNode n) := do
  let q ← seek s.queue.next
    (fun q => q = .head queue ||
      (s.taskOf q).elim true fun t => priority < s.priority t)
    (3 * fuel n) (s.queue.next (.head queue))
  if q = .head queue || (s.taskOf q).isSome then return q else none

def linkQueue (t : Task n) (before : QNode n) (s : System n) : System n :=
  { s with queue := s.queue.insertBefore (.queue t) before }

def unlinkQueue (t : Task n) (s : System n) : System n :=
  { s with queue := s.queue.unlink (.queue t) }

def enqueueBlocked (task : Task n) (queue : Queue n) (qtype : Bool) (s : System n) :
    Option (System n) := do
  let s := s.setBlockedOn task (some queue)
  let q ← (if qtype then some (.head queue) else s.queuePosition queue (s.priority task))
  return s.linkQueue task q

def dequeueBlocked (task : Task n) (s : System n) : System n :=
  ((s.setPrioPassedTo task none).unlinkQueue task).setBlockedOn task none

/-- `((SEM *)q)->qtype`, of interest for the queue of a semaphore only. -/
def qtypeOf (s : System n) : Queue n → Bool
  | .sem sem => (s.sem sem).qtype
  | _ => false

/-- A blocked task is put at the place of its new priority, unless it waits on
a semaphore with a FIFO queue. -/
def requeueBlocked (task : Task n) (s : System n) : Option (System n × Bool) :=
  match s.blockedOn task with
  | none => some (s, false)
  | some queue =>
      if (s.state task).semaphore && s.qtypeOf queue then some (s, false)
      else do
        let s := s.unlinkQueue task
        let q ← s.queuePosition queue (s.priority task)
        return (s.linkQueue task q, true)

/-- The body of the loops of `pass_prio` and `rt_change_prio`: the task gets
the priority, and its place in the ready list or in the queue it is blocked
on follows.  The result says whether it was moved. -/
def inherit (task : Task n) (priority : Int) (s : System n) : Option (System n × Bool) :=
  let s := { s with disp := s.disp.setPriority task priority }
  if s.state task = READY then do
    let s ← s.onDisp fun d => (d.unlinkReady task).enqReadyTask task
    return (s, true)
  else s.requeueBlocked task

/-- `while (to && to->priority > priority)`, along `prio_passed_to`. -/
def passPrioLoop (priority : Int) : Nat → Option (Task n) → System n → Option (System n × Bool)
  | _, none, s => some (s, false)
  | 0, some _, _ => none
  | k + 1, some dest, s =>
      if s.priority dest > priority then do
        let (s, moved) ← s.inherit dest priority
        let (s, moved') ← passPrioLoop priority k (s.prioPassedTo dest) s
        return (s, moved || moved')
      else some (s, false)

def passPrio (dest : Option (Task n)) (source : Task n) (s : System n) : Option (System n) := do
  let (s, _) ← passPrioLoop (s.priority source) (fuel n) dest (s.setPrioPassedTo source dest)
  return s

/-- The priority of a task that gave back a resource: its base priority when it
owns nothing more, the more urgent of this and the first message's sender's
when it owns no semaphore, else the one it has. -/
def renqByResources (task : Task n) (s : System n) : Option (System n × Bool) :=
  if s.owndres task = 0 then do
    let (d, sched) ← s.disp.renqReadyTask task (s.basePriority task)
    return ({ s with disp := d }, sched)
  else if s.owndres task &&& SEMHLF = 0 then do
    let first ← s.taskOf (s.queue.next (.head (.msgQueue task)))
    let priority := s.priority first
    let (d, sched) ← s.disp.renqReadyTask task
      (if s.basePriority task > priority then priority else s.basePriority task)
    return ({ s with disp := d }, sched)
  else some (s, false)

/-- `release` for the whole state. -/
def release (task : Task n) (mask : TaskState) (s : System n) : Option (System n × Bool) := do
  let (d, woken) ← s.disp.release task mask
  return ({ s with disp := d }, woken)

/-- `rt_current->state |= mask; rem_ready_current()`. -/
def blockCurrent (mask : TaskState) (s : System n) : System n :=
  { s with disp := s.disp.blockCurrent mask }

/-- The current task is put on the timed list. -/
def enqTimedCurrent (s : System n) : Option (System n) :=
  s.onDisp fun d => d.enqTimedTask d.current

/-- `rt_current->resume_time = time`. -/
def setResumeTime (time : RTIME) (s : System n) : System n :=
  { s with disp := s.disp.setResumeTime s.current time }

/-- `rt_schedule()` if the test says so. -/
def scheduleIf (test : Bool) (c : Clock) (s : System n) : Option (System n) :=
  if test then s.rtSchedule c else some s

end System

end Rtai.Up
