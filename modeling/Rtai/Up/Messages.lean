import Rtai.Up.Semaphores

/-!
# Message services

A message goes straight to a receiver that waits for it (`deliver`); otherwise
the sender queues on the receiver's `msg_queue`.  Whether an exchange took
place is read off `msg_queue.task` and `ret_queue.task` when the caller runs
again.
-/

namespace Rtai.Up

open Function Rtai.Lib

namespace System

variable {n : Nat}

/-- `(task->state & RECEIVE) && (!task->msg_queue.task || task->msg_queue.task
== rt_current)`. -/
def listening (s : System n) (task : Task n) : Bool :=
  (s.state task).receive &&
    (s.msgQueueTask task = none || s.msgQueueTask task = some s.current)

/-- The direct delivery to a listening task, and whether it was made ready. -/
def deliver (task : Task n) (msg : UInt32) (s : System n) : Option (System n × Bool) :=
  let s := ((s.setMsg task msg).setMsgQueueTask task (some s.current)).setRetQueueTask task false
  s.release task (RECEIVE.set DELAYED)

/-! ## Send -/

def rtSend (task : Task n) (msg : UInt32) (c : Clock) (s : System n) : Option (System n) :=
  if ¬s.disp.magic task then some (s.ret .msgErr)
  else if s.listening task then do
    let (s, woken) ← s.deliver task msg
    (s.push (.rtSend task msg)).scheduleIf woken c
  else do
    let s := (s.setMsg s.current msg).setMsgQueueTask s.current (some task)
    let s ← s.enqueueBlocked s.current (.msgQueue task) false
    ((s.blockCurrent SEND).push (.rtSend task msg)).rtSchedule c

/-- `rt_send` and `rt_send_if` behind their `rt_schedule`. -/
def rtSendRest (task : Task n) (s : System n) : System n :=
  if s.msgQueueTask s.current = some s.current then s.ret (.task (some task))
  else (s.setMsgQueueTask s.current (some s.current)).ret (.task none)

def rtSendIf (task : Task n) (msg : UInt32) (c : Clock) (s : System n) : Option (System n) :=
  if ¬s.disp.magic task then some (s.ret .msgErr)
  else if s.listening task then do
    let (s, woken) ← s.deliver task msg
    (s.push (.rtSend task msg)).scheduleIf woken c
  else some (s.ret (.task none))

/-- `rt_send_until` behind its `rt_schedule`. -/
def rtSendUntilRest (task : Task n) (s : System n) : System n :=
  if s.msgQueueTask s.current = some s.current then s.ret (.task (some task))
  else ((s.dequeueBlocked s.current).setMsgQueueTask s.current (some s.current)).ret (.task none)

def rtSendUntil (task : Task n) (msg : UInt32) (time : RTIME) (c : Clock) (s : System n) :
    Option (System n) :=
  if ¬s.disp.magic task then some (s.ret .msgErr)
  else if s.listening task then do
    let (s, woken) ← s.deliver task msg
    (s.push (.rtSendUntil task msg)).scheduleIf woken c
  else
    let s := (s.setMsgQueueTask s.current (some task)).setResumeTime time
    if time > s.disp.timeH then do
      let s ← (s.setMsg s.current msg).enqueueBlocked s.current (.msgQueue task) false
      let s ← (s.blockCurrent (SEND.set DELAYED)).enqTimedCurrent
      (s.push (.rtSendUntil task msg)).rtSchedule c
    else
      some ({ s with queue := s.queue.reset (.queue s.current) }.rtSendUntilRest task)

/-! ## Remote procedure calls -/

/-- The queued path of a call: the callee owes a return, inherits the caller's
priority and has the caller on its `msg_queue`. -/
def queueRpc (task : Task n) (toDo : UInt32) (s : System n) : Option (System n) := do
  let s := (s.setMsg s.current toDo).setOwndres task (s.owndres task + RPCINC)
  let s ← s.passPrio (some task) s.current
  s.enqueueBlocked s.current (.msgQueue task) false

/-- The direct path of a call, up to the change of the caller's state. -/
def directRpc (task : Task n) (toDo : UInt32) (s : System n) : Option (System n) := do
  let (s, _) ← (s.setMsg s.current toDo).deliver task toDo
  return s

def rtRpc (task : Task n) (toDo : UInt32) (c : Clock) (s : System n) : Option (System n) :=
  if ¬s.disp.magic task then some (s.ret .msgErr)
  else do
    let s ← (if s.listening task then (s.directRpc task toDo).map (blockCurrent RETURN)
      else (s.queueRpc task toDo).map (blockCurrent RPC))
    ((s.setMsgQueueTask s.current (some task)).push (.rtRpc task toDo)).rtSchedule c

/-- `rt_rpc` and `rt_rpc_if` behind their `rt_schedule`. -/
def rtRpcRest (task : Task n) (s : System n) : System n :=
  if s.msgQueueTask s.current = some s.current then
    (s.store (s.msg s.current)).ret (.task (some task))
  else (s.setMsgQueueTask s.current (some s.current)).ret (.task none)

def rtRpcIf (task : Task n) (toDo : UInt32) (c : Clock) (s : System n) : Option (System n) :=
  if ¬s.disp.magic task then some (s.ret .msgErr)
  else if s.listening task then do
    let s ← s.directRpc task toDo
    let s := (s.blockCurrent RETURN).setMsgQueueTask s.current (some task)
    (s.push (.rtRpc task toDo)).rtSchedule c
  else some (s.ret (.task none))

def rtRpcUntil (task : Task n) (toDo : UInt32) (time : RTIME) (c : Clock) (s : System n) :
    Option (System n) :=
  if ¬s.disp.magic task then some (s.ret .msgErr)
  else if s.listening task then do
    let s ← s.directRpc task toDo
    let s := (s.blockCurrent (RETURN.set DELAYED)).setMsgQueueTask s.current (some task)
    let s ← s.enqTimedCurrent
    (s.push (.rtRpcUntil task toDo)).rtSchedule c
  else
    let s := s.setResumeTime time
    if time ≤ s.disp.timeH then some (s.ret (.task none))
    else do
      let s ← s.queueRpc task toDo
      let s := (s.blockCurrent (RPC.set DELAYED)).setMsgQueueTask s.current (some task)
      let s ← s.enqTimedCurrent
      (s.push (.rtRpcUntil task toDo)).rtSchedule c

/-- `rt_rpc_until` behind its `rt_schedule`. -/
def rtRpcUntilRest (task : Task n) (s : System n) : System n :=
  if s.msgQueueTask s.current = some s.current then
    (s.store (s.msg s.current)).ret (.task (some task))
  else ((s.dequeueBlocked s.current).setMsgQueueTask s.current (some s.current)).ret (.task none)

/-- `rt_return` up to its `rt_schedule`, and whether it gets there. -/
def rtReturnLists (task : Task n) (result : UInt32) (s : System n) : Option (System n × Bool) :=
  if ¬s.disp.magic task then some (s.ret .msgErr, false)
  else if (s.state task).ret ∧ s.msgQueueTask task = some s.current then do
    let s := (s.dequeueBlocked task).ret (.task (some task))
    let own := s.owndres s.current
    let s := if own &&& RPCHLF = 0 then s else s.setOwndres s.current (own - RPCINC)
    let (s, sched) ← s.renqByResources s.current
    let s := (s.setMsg task result).setMsgQueueTask task (some task)
    let (s, woken) ← s.release task (RETURN.set DELAYED)
    return (s, woken || sched)
  else some (s.ret (.task none), false)

def rtReturn (task : Task n) (result : UInt32) (c : Clock) (s : System n) : Option (System n) := do
  let (s, sched) ← s.rtReturnLists task result
  s.scheduleIf sched c

/-! ## Receive -/

/-- The task a receive with argument `task` looks at: for `NULL` the first of
the caller's `msg_queue`, the caller itself if that is empty. -/
def senderFor (task : Option (Task n)) (s : System n) : Option (Task n) :=
  match task with
  | some t => some t
  | none => s.taskOf (s.queue.next (.head (.msgQueue s.current)))

/-- `(task->state & (SEND | RPC)) && task->msg_queue.task == rt_current`. -/
def sending (s : System n) (task : Task n) : Bool :=
  ((s.state task).send || (s.state task).rpc) && s.msgQueueTask task = some s.current

/-- The message of a queued sender is taken.  A caller of `rt_rpc` moves to the
`ret_queue` of the receiver.  The result says whether a sender was made
ready. -/
def takeMessage (task : Task n) (s : System n) : Option (System n × Bool) := do
  let s := s.dequeueBlocked task
  let s := { s with disp := s.disp.remTimedTask task }
  let s := (s.store (s.msg task)).setMsgQueueTask s.current (some task)
  if (s.state task).send then
    let (d, woken) ← s.disp.makeReady task (SEND.set DELAYED)
    return ({ s with disp := d }.setMsgQueueTask task (some task), woken)
  else do
    let s ← s.enqueueBlocked task (.retQueue s.current) false
    let st := ((s.state task).clear (RPC.set DELAYED)).set RETURN
    return ({ s with disp := s.disp.setState task st }, false)

/-- A receive from its test of `ret_queue.task` on. -/
def rtReceivedRest (s : System n) : System n :=
  let s := if s.retQueueTask s.current
    then (s.setRetQueueTask s.current false).ret (.task none)
    else s.ret (.task (s.msgQueueTask s.current))
  s.setMsgQueueTask s.current (some s.current)

/-- The waiting branch of a receive behind its `rt_schedule`. -/
def rtReceiveRest (s : System n) : System n :=
  (s.store (s.msg s.current)).rtReceivedRest

/-- `rt_current->msg_queue.task = task != rt_current ? task : (RT_TASK *)0`. -/
def waitFor (task : Task n) (s : System n) : System n :=
  s.setMsgQueueTask s.current (if task = s.current then none else some task)

def rtReceive (task : Option (Task n)) (c : Clock) (s : System n) : Option (System n) :=
  if task.any fun t => ¬s.disp.magic t then some (s.ret .msgErr)
  else do
    let t ← s.senderFor task
    if s.sending t then do
      let (s, woken) ← s.takeMessage t
      (s.push .rtReceived).scheduleIf woken c
    else
      let s := (s.setRetQueueTask s.current true).blockCurrent RECEIVE
      ((s.waitFor t).push .rtReceive).rtSchedule c

def rtReceiveIf (task : Option (Task n)) (c : Clock) (s : System n) : Option (System n) :=
  if task.any fun t => ¬s.disp.magic t then some (s.ret .msgErr)
  else do
    let t ← s.senderFor task
    if s.sending t then do
      let (s, woken) ← s.takeMessage t
      (s.push .rtReceived).scheduleIf woken c
    else some (s.ret (.task none))

def rtReceiveUntil (task : Option (Task n)) (time : RTIME) (c : Clock) (s : System n) :
    Option (System n) :=
  if task.any fun t => ¬s.disp.magic t then some (s.ret .msgErr)
  else do
    let t ← s.senderFor task
    if s.sending t then do
      let (s, woken) ← s.takeMessage t
      (s.push .rtReceived).scheduleIf woken c
    else
      let s := (s.setRetQueueTask s.current true).setResumeTime time
      if time > s.disp.timeH then do
        let s ← ((s.blockCurrent (RECEIVE.set DELAYED)).waitFor t).enqTimedCurrent
        (s.push .rtReceive).rtSchedule c
      else some s.rtReceivedRest

end System

end Rtai.Up
