import Rtai.Up.System

/-!
# Task services

`rt_task_init`, `rt_task_delete`, the suspension, timing and priority services,
one definition for each, with the source's statements in the source's order.
Left out are the stack, the FPU, the trace and the list of all tasks, which no
modelled service reads.
-/

namespace Rtai.Up

open Function Rtai.Lib

/-- `llimd` of the i386: the 96-bit product divided, rounded to nearest by a
signed comparison of twice the remainder. -/
def llimd (ll : RTIME) (mult div : Int32) : RTIME :=
  let p := ll.toUInt64.toNat * mult.toUInt32.toNat
  let q := p / div.toUInt32.toNat
  let twice := (UInt32.ofNat (2 * (p % div.toUInt32.toNat))).toInt32
  (UInt64.ofNat (if div ≥ twice then q else q + 1)).toInt64

def nano2count (t : Timer) (ns : RTIME) : RTIME :=
  let convert (ns : RTIME) : RTIME :=
    if t.oneshotTimer then llimd ns t.cpuFreq 1000000000 else llimd ns TIMER_FREQ 1000000000
  if ns > 0 then convert ns else -convert (-ns)

namespace System

variable {n : Nat}

/-- The fields `rt_task_init` sets in a task structure it accepts. -/
def initTask (task : Task n) (priority : Int) (s : System n) : System n :=
  let d := s.disp
  let q := QNode.queue task
  let m := QNode.head (.msgQueue task)
  let r := QNode.head (.retQueue task)
  { s with
    disp := { d with
      magic := update d.magic task true
      state := update d.state task (SUSPENDED.set READY)
      priority := update d.priority task priority
      policy := update d.policy task 0
      period := update d.period task 0
      resumeTime := update d.resumeTime task RT_TIME_END
      yieldTime := update d.yieldTime task 0
      rrQuantum := update d.rrQuantum task 0
      rrRemaining := update d.rrRemaining task 0
      ready := d.ready.reset task
      timed := d.timed.reset task }
    basePriority := update s.basePriority task priority
    schedLockPriority := update s.schedLockPriority task 0
    prioPassedTo := update s.prioPassedTo task none
    suspdepth := update s.suspdepth task 1
    owndres := update s.owndres task 0
    resyncFrame := update s.resyncFrame task false
    queue := ((s.queue.reset q).reset m).reset r
    blockedOn := update s.blockedOn task none
    msg := update s.msg task 0
    msgQueueTask := update s.msgQueueTask task (some task)
    retQueueTask := update s.retQueueTask task false
    stack := update s.stack task [] }

/-- `memory` is whether the stack could be allocated. -/
def rtTaskInit (task : Task n) (priority : Int) (memory : Bool) (s : System n) :
    Option (System n) :=
  if s.disp.magic task ∨ priority < 0 then some (s.ret (.int (-EINVAL)))
  else if ¬memory then some (s.ret (.int (-ENOMEM)))
  else some ((s.initTask task priority).ret (.int 0))

/-! ## Suspension -/

def rtTaskSuspend (task : Option (Task n)) (c : Clock) (s : System n) : Option (System n) :=
  let t := task.getD s.current
  if task.isSome ∧ ¬s.disp.magic t then some (s.ret (.int (-EINVAL)))
  else
    let depth := s.suspdepth t
    let s := (s.setSuspdepth t (depth + 1)).ret (.int 0)
    if depth = 0 ∧ s.owndres t = 0 then
      let d := s.disp.remReadyTask t
      let s := { s with disp := d.setState t ((d.state t).set SUSPENDED) }
      s.scheduleIf (t = s.current) c
    else some s

def rtTaskResume (task : Task n) (c : Clock) (s : System n) : Option (System n) :=
  if ¬s.disp.magic task then some (s.ret (.int (-EINVAL)))
  else
    let depth := s.suspdepth task - 1
    let s := (s.setSuspdepth task depth).ret (.int 0)
    if depth = 0 then
      let d := s.disp.remTimedTask task
      let d := d.setState task ((d.state task).clear SUSPENDED)
      let s := { s with disp := d }
      if (d.state task).clear DELAYED = READY then do
        let s ← s.onDisp (Dispatcher.enqReadyTask task)
        s.rtSchedule c
      else some s
    else some s

/-! ## Timing -/

/-- The common part of the two forms of `rt_task_make_periodic`. -/
def makePeriodic (task : Task n) (startTime period : RTIME) (c : Clock) (s : System n) :
    Option (System n) := do
  let d := s.disp
  let d := { d with
    resumeTime := update d.resumeTime task startTime
    period := update d.period task period }
  let s := ({ s with disp := d }.setSuspdepth task 0).ret (.int 0)
  if (d.state task).delayed then s.rtSchedule c
  else do
    let d := d.remReadyTask task
    let d := d.setState task (((d.state task).clear SUSPENDED).set DELAYED)
    let d ← d.enqTimedTask task
    { s with disp := d }.rtSchedule c

def rtTaskMakePeriodicRelativeNs (task : Task n) (startDelay period : RTIME) (c : Clock)
    (s : System n) : Option (System n) :=
  if ¬s.disp.magic task then some (s.ret (.int (-EINVAL)))
  else
    s.makePeriodic task (s.disp.rtGetTime c + nano2count s.disp.timer startDelay)
      (nano2count s.disp.timer period) c

def rtTaskMakePeriodic (task : Task n) (startTime period : RTIME) (c : Clock) (s : System n) :
    Option (System n) :=
  if ¬s.disp.magic task then some (s.ret (.int (-EINVAL)))
  else s.makePeriodic task startTime period c

/-- The current task sleeps until its `resume_time`. -/
def sleepCurrent (c : Clock) (s : System n) : Option (System n) := do
  let s ← (s.blockCurrent DELAYED).enqTimedCurrent
  s.rtSchedule c

def rtTaskWaitPeriod (c : Clock) (s : System n) : Option (System n) :=
  if s.resyncFrame s.current then
    some ({ s with resyncFrame := update s.resyncFrame s.current false }.setResumeTime
      (s.disp.rtGetTime c))
  else
    let time := s.disp.resumeTime s.current + s.disp.period s.current
    let s := s.setResumeTime time
    if time > s.disp.timeH then s.sleepCurrent c else some s

def rtTaskSetResumeEndTimes (resume finish : RTIME) (c : Clock) (s : System n) :
    Option (System n) :=
  let d := s.disp
  let t := d.current
  let time := if resume > 0 then resume else d.resumeTime t - resume
  let d := { d with
    policy := update d.policy t (-1)
    priority := update d.priority t 0
    resumeTime := update d.resumeTime t time
    period := update d.period t (if finish > 0 then finish else time - finish) }
  { s with disp := d }.sleepCurrent c

/-- The test of `rt_set_resume_time` for a sleeping task whose place on the timed
list is no longer right. -/
def outOfPlace (task : Task n) (newResumeTime : RTIME) (d : Dispatcher n) : Bool :=
  let tnext := d.timed.next task
  let tprev := d.timed.prev task
  (tnext ≠ rtLinuxTask && newResumeTime - d.resumeTime tnext > 0) ||
    newResumeTime - d.resumeTime tprev < 0

def rtSetResumeTime (task : Task n) (newResumeTime : RTIME) (c : Clock) (s : System n) :
    Option (System n) :=
  if ¬s.disp.magic task then some (s.ret (.int (-EINVAL)))
  else if (s.state task).delayed then
    let d := s.disp.setResumeTime task newResumeTime
    if outOfPlace task newResumeTime d then do
      let d ← (d.remTimedTask task).enqTimedTask task
      ({ s with disp := d }.ret (.int 0)).rtSchedule c
    else some ({ s with disp := d }.ret (.int (-ETIME)))
  else some (s.ret (.int (-ETIME)))

def rtSleep (delay : RTIME) (c : Clock) (s : System n) : Option (System n) :=
  let time := s.disp.rtGetTime c + delay
  let s := s.setResumeTime time
  if time > s.disp.timeH then s.sleepCurrent c else some s

def rtSleepUntil (time : RTIME) (c : Clock) (s : System n) : Option (System n) :=
  let s := s.setResumeTime time
  if time > s.disp.timeH then s.sleepCurrent c else some s

def rtTaskWakeupSleeping (task : Task n) (c : Clock) (s : System n) : Option (System n) :=
  if ¬s.disp.magic task then some (s.ret (.int (-EINVAL)))
  else do
    let (s, woken) ← s.release task DELAYED
    (s.ret (.int 0)).scheduleIf woken c

def rtTaskYield (c : Clock) (s : System n) : Option (System n) := do
  let (d, moved) ← s.disp.moveBehindEquals
  { s with disp := d }.scheduleIf moved c

/-! ## Priorities -/

def rtChangePrio (task : Task n) (priority : Int) (c : Clock) (s : System n) :
    Option (System n) :=
  if ¬s.disp.magic task ∨ priority < 0 then some (s.ret (.int (-EINVAL)))
  else
    let prio := s.basePriority task
    let s := s.ret (.int prio)
    if prio = priority then some s
    else
      let s := { s with basePriority := update s.basePriority task priority }
      if priority < s.priority task ∨ prio = s.priority task then do
        let (s, sched) ← s.inherit task priority
        let (s, sched') ← passPrioLoop priority (fuel n) (s.prioPassedTo task) s
        s.scheduleIf (sched || sched') c
      else some s

def rtSchedLock (s : System n) : Option (System n) :=
  let t := s.current
  let prio := s.priority t
  if prio ≥ 0 then
    some { s with
      schedLockPriority := update s.schedLockPriority t prio
      disp := { s.disp.setPriority t (-1) with schedRqsted := -1 } }
  else some { s with disp := s.disp.setPriority t (prio - 1) }

def rtSchedUnlock (c : Clock) (s : System n) : Option (System n) :=
  let t := s.current
  let prio := s.priority t
  if prio < 0 then
    let s := { s with disp := s.disp.setPriority t (prio + 1) }
    if prio + 1 = 0 then do
      let saved := s.schedLockPriority t
      let s := { s with disp := s.disp.setPriority t saved }
      let s ← (if saved = RT_LINUX_PRIORITY then some s
        else s.onDisp fun d => (d.unlinkReady t).enqReadyTask t)
      s.scheduleIf (s.disp.schedRqsted > 0) c
    else some s
  else some s

/-! ## Deletion -/

/-- A loop of `rt_task_delete` over a message queue of the task: every task on
it is released from the waits in the mask. -/
def releaseQueue (queue : Queue n) (mask : TaskState) : Nat → QNode n → System n →
    Option (System n)
  | 0, _, _ => none
  | k + 1, q, s =>
      if q = .head queue then some s
      else do
        let t ← s.taskOf q
        let (s, _) ← s.release t mask
        let s := s.setBlockedOn t none
        releaseQueue queue mask k (s.queue.next q) s

/-- A task that is deleted leaves the queue it is blocked on. -/
def leaveQueue (task : Task n) (s : System n) : System n :=
  match s.blockedOn task with
  | none => s
  | some queue =>
      let s := s.unlinkQueue task
      match queue with
      | .sem sem =>
          if (s.state task).semaphore then
            s.setCount sem (if (s.sem sem).type = 0 then (s.sem sem).count + 1 else 1)
          else s
      | _ => s

/-- `rt_task_delete` of a task whose deletion is not deferred, up to the call
of `rt_schedule`. -/
def deleteTask (task : Task n) (s : System n) : Option (System n) := do
  let s := { s with disp := s.disp.remTimedTask task }
  let s := s.leaveQueue task
  let s ← s.releaseQueue (.msgQueue task) ((SEND.set RPC).set DELAYED) (fuel n)
    (s.queue.next (.head (.msgQueue task)))
  let s ← s.releaseQueue (.retQueue task) (RETURN.set DELAYED) (fuel n)
    (s.queue.next (.head (.retQueue task)))
  let d := { s.disp with magic := update s.disp.magic task false }
  let d := d.remReadyTask task
  return { s with disp := d.setState task DEAD }

def rtTaskDelete (task : Task n) (c : Clock) (s : System n) : Option (System n) :=
  if ¬s.disp.magic task ∨ s.priority task = RT_LINUX_PRIORITY then
    some (s.ret (.int (-EINVAL)))
  else if s.owndres task &&& SEMHLF = 0 ∨ task = s.current ∨
      s.priority s.current = RT_LINUX_PRIORITY then do
    let s ← s.deleteTask task
    (s.ret (.int 0)).scheduleIf (task = s.current) c
  else some ((s.setSuspdepth task (-0x7FFFFFFF)).ret (.int 0))

end System

end Rtai.Up
