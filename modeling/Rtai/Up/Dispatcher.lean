import Rtai.Lib.Ring
import Rtai.Lib.Ensures
import Mathlib.Data.Fin.Basic

/-!
# The dispatcher of the UP scheduler

The fields of `RT_TASK` and the globals that the ready list, the timed list and
the choice of the next task work on, and the inline functions that maintain
them.  A field `f` of the task pointed to by `t` is the value at `t` of the
function `f` of the record `Dispatcher`; the link fields `rnext`/`rprev` and
`tnext`/`tprev` are the two link pairs `ready` and `timed`.

Tasks are the elements of `Fin (n + 1)` for an arbitrary number `n` of task
structures, and `rtLinuxTask` is element `0`.  A loop over links is given
`fuel n` iterations.  None of these loops changes the links it follows, so it
either stops before it meets a node twice or never, and a machine in which it
never stops has no next state (`none`).

A service reads the time stamp counter at up to three places, its own
`rt_get_time`, the anticipation of `rt_schedule` and the programming of the
shot; the readings of one step are a `Clock`.
-/

namespace Rtai.Up

open Function Rtai.Lib

/-- `long long`. -/
abbrev RTIME := Int64

/-- `0x7FFFFFFFFFFFFFFFLL`. -/
def RT_TIME_END : RTIME := 0x7FFFFFFFFFFFFFFF

def RT_LINUX_PRIORITY : Int := 0x7fffffff

/-- `FREQ_8254`. -/
def TIMER_FREQ : Int32 := 1193180

/-- A pointer to one of the `n + 1` task structures. -/
abbrev Task (n : Nat) := Fin (n + 1)

/-- The structure that stands for Linux. -/
def rtLinuxTask {n : Nat} : Task n := 0

/-- Enough iterations to meet every task structure. -/
def fuel (n : Nat) : Nat := n + 2

/-! ## The state word -/

/-- The bits of `task->state` the UP scheduler uses. -/
structure TaskState where
  ready : Bool := false
  suspended : Bool := false
  delayed : Bool := false
  semaphore : Bool := false
  send : Bool := false
  receive : Bool := false
  rpc : Bool := false
  ret : Bool := false
  mbxsusp : Bool := false
deriving DecidableEq, Repr

namespace TaskState

/-- `state |= mask`. -/
def set (st mask : TaskState) : TaskState where
  ready := st.ready || mask.ready
  suspended := st.suspended || mask.suspended
  delayed := st.delayed || mask.delayed
  semaphore := st.semaphore || mask.semaphore
  send := st.send || mask.send
  receive := st.receive || mask.receive
  rpc := st.rpc || mask.rpc
  ret := st.ret || mask.ret
  mbxsusp := st.mbxsusp || mask.mbxsusp

/-- `state &= ~mask`. -/
def clear (st mask : TaskState) : TaskState where
  ready := st.ready && !mask.ready
  suspended := st.suspended && !mask.suspended
  delayed := st.delayed && !mask.delayed
  semaphore := st.semaphore && !mask.semaphore
  send := st.send && !mask.send
  receive := st.receive && !mask.receive
  rpc := st.rpc && !mask.rpc
  ret := st.ret && !mask.ret
  mbxsusp := st.mbxsusp && !mask.mbxsusp

end TaskState

/-- The state word `0`. -/
def DEAD : TaskState := {}
def READY : TaskState := { ready := true }
def SUSPENDED : TaskState := { suspended := true }
def DELAYED : TaskState := { delayed := true }
def SEMAPHORE : TaskState := { semaphore := true }
def SEND : TaskState := { send := true }
def RECEIVE : TaskState := { receive := true }
def RPC : TaskState := { rpc := true }
def RETURN : TaskState := { ret := true }
def MBXSUSP : TaskState := { mbxsusp := true }

/-- `DELAYED | SEMAPHORE | RECEIVE | SEND | RPC | RETURN | MBXSUSP`. -/
def TIMED_OUT : TaskState :=
  { delayed := true, semaphore := true, receive := true, send := true, rpc := true,
    ret := true, mbxsusp := true }

/-! ## The record -/

/-- The readings of the time stamp counter in one step. -/
structure Clock where
  /-- The service's own reading. -/
  time : RTIME := 0
  /-- The reading `rt_schedule` or `rt_timer_handler` takes first. -/
  sched : RTIME := 0
  /-- The reading the shot is programmed against. -/
  shot : RTIME := 0

/-- `rt_times`, `tuned` and the mode flags. -/
structure Timer where
  oneshotTimer : Bool := false
  oneshotRunning : Bool := false
  shotFired : Bool := false
  preemptAlways : Bool := false
  halfTick : RTIME := 0
  tickTime : RTIME := 0
  intrTime : RTIME := 0
  linuxTime : RTIME := 0
  linuxTick : RTIME := 0
  periodicTick : RTIME := 0
  latency : Int32 := 0
  setupTimeCpunit : Int32 := 0
  setupTimeUnit : Int32 := 0
  cpuFreq : Int32 := 1
  /-- The argument of the last `rt_set_timer_delay`. -/
  delay : Int32 := 0

/-- `imuldiv`: the 64-bit product divided, truncated to 32 bits. -/
def imuldiv (i mult div : Int32) : Int32 :=
  (UInt32.ofNat (i.toUInt32.toNat * mult.toUInt32.toNat / div.toUInt32.toNat)).toInt32

/-- The shot for `rt_times.intr_time`, no shorter than the setup time. -/
def Timer.setShot (now : RTIME) (t : Timer) : Timer :=
  let delay := (t.intrTime - now).toInt32 - t.latency
  if delay ≥ t.setupTimeCpunit then
    { t with delay := imuldiv delay TIMER_FREQ t.cpuFreq }
  else
    { t with delay := t.setupTimeUnit, intrTime := now + t.setupTimeCpunit.toInt64 }

/-- What the dispatcher reads and writes. -/
structure Dispatcher (n : Nat) where
  /-- `magic == RT_TASK_MAGIC`. -/
  magic : Task n → Bool
  state : Task n → TaskState
  priority : Task n → Int
  policy : Task n → Int
  period : Task n → RTIME
  resumeTime : Task n → RTIME
  yieldTime : Task n → RTIME
  rrQuantum : Task n → Int32
  rrRemaining : Task n → Int32
  /-- `rnext` and `rprev`. -/
  ready : Links (Task n)
  /-- `tnext` and `tprev`. -/
  timed : Links (Task n)
  /-- `rt_current`. -/
  current : Task n
  /-- `rt_time_h`. -/
  timeH : RTIME
  /-- `sched_rqsted`. -/
  schedRqsted : Int
  timer : Timer

namespace Dispatcher

variable {n : Nat}

def setState (t : Task n) (st : TaskState) (d : Dispatcher n) : Dispatcher n :=
  { d with state := update d.state t st }

def setPriority (t : Task n) (prio : Int) (d : Dispatcher n) : Dispatcher n :=
  { d with priority := update d.priority t prio }

def setResumeTime (t : Task n) (time : RTIME) (d : Dispatcher n) : Dispatcher n :=
  { d with resumeTime := update d.resumeTime t time }

/-! ## The ready list -/

def linkReady (t before : Task n) (d : Dispatcher n) : Dispatcher n :=
  { d with ready := d.ready.insertBefore t before }

def unlinkReady (t : Task n) (d : Dispatcher n) : Dispatcher n :=
  { d with ready := d.ready.unlink t }

def enqReadyEdfTask (readyTask : Task n) (d : Dispatcher n) : Option (Dispatcher n) := do
  let task ← seek d.ready.next
    (fun task => !(d.policy task < 0 && d.period task ≤ d.period readyTask))
    (fuel n) (d.ready.next rtLinuxTask)
  return d.linkReady readyTask task

/-- Where the loop of `enq_ready_task` stops.  The first task is compared by
its priority alone, the others also stop the loop when theirs is negative. -/
def readyPosition (prio : Int) (d : Dispatcher n) : Option (Task n) :=
  let task := d.ready.next rtLinuxTask
  if prio < d.priority task then some task
  else seek d.ready.next (fun task => d.priority task < 0 || prio < d.priority task)
    (fuel n) (d.ready.next task)

def enqReadyTask (readyTask : Task n) (d : Dispatcher n) : Option (Dispatcher n) := do
  let task ← d.readyPosition (d.priority readyTask)
  return d.linkReady readyTask task

def renqReadyTask (readyTask : Task n) (priority : Int) (d : Dispatcher n) :
    Option (Dispatcher n × Bool) :=
  if d.priority readyTask = priority then some (d, false)
  else do
    let d ← ((d.setPriority readyTask priority).unlinkReady readyTask).enqReadyTask readyTask
    return (d, true)

def remReadyTask (task : Task n) (d : Dispatcher n) : Dispatcher n :=
  if d.state task = READY then d.unlinkReady task else d

def remReadyCurrent (d : Dispatcher n) : Dispatcher n :=
  d.unlinkReady d.current

/-- Behind the tasks of its own priority, as `rt_task_yield` and `RR_YIELD`
move the current task.  The result says whether the task moved. -/
def moveBehindEquals (d : Dispatcher n) : Option (Dispatcher n × Bool) := do
  let task ← seek d.ready.next (fun task => !(d.priority d.current = d.priority task))
    (fuel n) (d.ready.next d.current)
  if task = d.ready.next d.current then return (d, false)
  else return ((d.unlinkReady d.current).linkReady d.current task, true)

/-! ## The timed list -/

def linkTimed (t before : Task n) (d : Dispatcher n) : Dispatcher n :=
  { d with timed := d.timed.insertBefore t before }

def unlinkTimed (t : Task n) (d : Dispatcher n) : Dispatcher n :=
  { d with timed := d.timed.unlink t }

def enqTimedTask (timedTask : Task n) (d : Dispatcher n) : Option (Dispatcher n) := do
  let task ← seek d.timed.next (fun task => !(d.resumeTime timedTask > d.resumeTime task))
    (fuel n) (d.timed.next rtLinuxTask)
  return d.linkTimed timedTask task

def remTimedTask (task : Task n) (d : Dispatcher n) : Dispatcher n :=
  if (d.state task).delayed then d.unlinkTimed task else d

/-- The body of the loop of `wake_up_timed_tasks`. -/
def wakeUpTask (task : Task n) (d : Dispatcher n) : Option (Dispatcher n) :=
  let d := d.setState task ((d.state task).clear TIMED_OUT)
  if d.state task = READY then
    if d.policy task < 0 then d.enqReadyEdfTask task else d.enqReadyTask task
  else some d

/-- The loop of `wake_up_timed_tasks`, with the task it stops at. -/
def wakeUpLoop : Nat → Task n → Dispatcher n → Option (Dispatcher n × Task n)
  | 0, _, _ => none
  | k + 1, task, d =>
      if d.resumeTime task ≤ d.timeH then do
        let d ← d.wakeUpTask task
        wakeUpLoop k (d.timed.next task) d
      else some (d, task)

def wakeUpTimedTasks (d : Dispatcher n) : Option (Dispatcher n) := do
  let (d, task) ← wakeUpLoop (fuel n) (d.timed.next rtLinuxTask) d
  return { d with timed := d.timed.cut rtLinuxTask task }

/-- `if (task->state != READY && (task->state &= ~mask) == READY)
enq_ready_task(task)`, and whether the task was put on the ready list. -/
def makeReady (task : Task n) (mask : TaskState) (d : Dispatcher n) :
    Option (Dispatcher n × Bool) :=
  if d.state task = READY then some (d, false)
  else
    let d := d.setState task ((d.state task).clear mask)
    if d.state task = READY then do
      let d ← d.enqReadyTask task
      return (d, true)
    else some (d, false)

theorem makeReady_current {task : Task n} {mask : TaskState} (d : Dispatcher n) :
    Ensures (d.makeReady task mask) fun p => p.1.current = d.current := by
  refine .ite (fun _ => .some rfl) fun _ => .ite (fun _ => ?_) fun _ => .some rfl
  refine .bind (P := fun d' => d'.current = d.current) ?_ fun _ same => .some same
  exact .bind (P := fun _ => True) (fun _ _ => trivial) fun _ _ => .some rfl

/-- `rem_timed_task(task)` followed by the test of `makeReady`: how every
service releases a task from a wait that may be timed. -/
def release (task : Task n) (mask : TaskState) (d : Dispatcher n) :
    Option (Dispatcher n × Bool) :=
  (d.remTimedTask task).makeReady task mask

/-- `rt_current->state |= mask; rem_ready_current()`. -/
def blockCurrent (mask : TaskState) (d : Dispatcher n) : Dispatcher n :=
  (d.setState d.current ((d.state d.current).set mask)).remReadyCurrent

/-! ## The timer -/

/-- The first timed task that is at least as urgent as `prio` and is due before
`intrTime`. -/
def nextShot (prio : Int) (intrTime : RTIME) (d : Dispatcher n) : Option (Option (Task n)) := do
  let task ← seek d.timed.next
    (fun task => task = rtLinuxTask || (d.priority task ≤ prio && d.resumeTime task < intrTime))
    (fuel n) (d.timed.next rtLinuxTask)
  return if task = rtLinuxTask then none else some task

def rrYield (d : Dispatcher n) : Option (Dispatcher n) :=
  if d.policy d.current > 0 then
    let rest := (d.yieldTime d.current - d.timer.tickTime).toInt32
    if rest ≤ 0 then
      let d := { d with rrRemaining := update d.rrRemaining d.current (d.rrQuantum d.current) }
      if d.state d.current = READY then do
        let (d, _) ← d.moveBehindEquals
        return d
      else some d
    else some { d with rrRemaining := update d.rrRemaining d.current rest }
  else some d

def rrSetyt (newTask : Task n) (d : Dispatcher n) : Dispatcher n :=
  if d.policy newTask > 0 then
    { d with yieldTime :=
        update d.yieldTime newTask (d.timeH + (d.rrRemaining newTask).toInt64) }
  else d

/-- The choice of the next shot in `rt_schedule`. -/
def scheduleShot (now : RTIME) (newTask : Task n) (d : Dispatcher n) : Option (Dispatcher n) := do
  let t := d.timer
  let prio := d.priority newTask
  let intrTime := if t.shotFired then t.intrTime else t.intrTime + t.linuxTick
  let rr : Bool := d.policy newTask > 0
  let intrTime := if rr && d.yieldTime newTask < intrTime then d.yieldTime newTask else intrTime
  let next ← d.nextShot prio intrTime
  let preempt := rr || next.isSome
  let intrTime := next.elim intrTime d.resumeTime
  if preempt || (!t.shotFired && prio = RT_LINUX_PRIORITY) then
    let t := { t with shotFired := true, intrTime := if preempt then intrTime else t.intrTime }
    return { d with timer := t.setShot now }
  else return d

/-- The choice of the next shot in `rt_timer_handler`. -/
def handlerShot (now : RTIME) (newTask : Task n) (d : Dispatcher n) : Option (Dispatcher n) := do
  let t := d.timer
  if t.oneshotTimer then
    let prio := d.priority newTask
    let intrTime := if t.linuxTime > t.tickTime then t.linuxTime else t.tickTime + t.linuxTick
    let rr : Bool := d.policy newTask > 0
    let intrTime := if rr && d.yieldTime newTask < intrTime then d.yieldTime newTask else intrTime
    let next ← d.nextShot prio intrTime
    let preempt :=
      rr || t.preemptAlways || prio = RT_LINUX_PRIORITY || next.isSome
    let t := { t with shotFired := preempt, intrTime := next.elim intrTime d.resumeTime }
    return { d with timer := if preempt then t.setShot now else t }
  else return { d with timer := { t with intrTime := t.intrTime + t.periodicTick, delay := 0 } }

/-! ## Dispatching -/

/-- `TASK_TO_SCHEDULE`. -/
def taskToSchedule (d : Dispatcher n) : Task n :=
  d.ready.next rtLinuxTask

def rtSchedule (c : Clock) (d : Dispatcher n) : Option (Dispatcher n) := do
  let d ← { d with schedRqsted := 1 }.rrYield
  if d.timer.oneshotRunning then
    let d ← { d with timeH := c.sched + d.timer.halfTick }.wakeUpTimedTasks
    let newTask := d.taskToSchedule
    let d ← (d.rrSetyt newTask).scheduleShot c.shot newTask
    return { d with current := newTask }
  else
    let newTask := d.taskToSchedule
    return { d.rrSetyt newTask with current := newTask }

def rtTimerHandler (c : Clock) (d : Dispatcher n) : Option (Dispatcher n) := do
  let t := d.timer
  let tickTime := if t.oneshotTimer then c.sched else t.intrTime
  let linuxTime := if tickTime ≥ t.linuxTime then t.linuxTime + t.linuxTick else t.linuxTime
  let d ← { d with
    schedRqsted := 1
    timer := { t with tickTime := tickTime, linuxTime := linuxTime }
    timeH := tickTime + t.halfTick }.wakeUpTimedTasks
  let d ← d.rrYield
  let newTask := d.taskToSchedule
  let d ← (d.rrSetyt newTask).handlerShot c.shot newTask
  return { d with current := newTask }

/-- `rt_get_time`. -/
def rtGetTime (c : Clock) (d : Dispatcher n) : RTIME :=
  if d.timer.oneshotTimer then c.time else d.timer.tickTime

end Dispatcher

end Rtai.Up
