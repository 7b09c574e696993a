import Rtai.Up.Mailboxes
import Rtai.Lib.Run

/-!
# The machine

A step of the machine is a piece of code that runs with interrupts disabled, or
one statement of a mailbox service that runs with interrupts enabled.

* `call` starts a service from the code of the current task.  Linux, which is
  not a real time task, starts only services that do not wait (`Op.waits`).
* `resume` runs the frame on top of the current task's stack.
* `timer` is a timer interrupt.  It comes when the current task runs its own
  code or a frame with interrupts enabled.

What a task does between two services is its own affair, so any service may be
called whenever the current task's stack is empty.  `boot` is the state
`init_module` leaves, with the timer started in any mode.
-/

namespace Rtai.Up

open Function Rtai.Lib

/-- The services, with their arguments. -/
inductive Op (n : Nat) where
  | taskInit (task : Task n) (priority : Int) (memory : Bool)
  | taskSuspend (task : Option (Task n))
  | taskResume (task : Task n)
  | taskMakePeriodicRelativeNs (task : Task n) (startDelay period : RTIME)
  | taskMakePeriodic (task : Task n) (startTime period : RTIME)
  | taskWaitPeriod
  | taskSetResumeEndTimes (resume finish : RTIME)
  | setResumeTime (task : Task n) (newResumeTime : RTIME)
  | sleep (delay : RTIME)
  | sleepUntil (time : RTIME)
  | taskWakeupSleeping (task : Task n)
  | taskYield
  | changePrio (task : Task n) (priority : Int)
  | schedLock
  | schedUnlock
  | taskDelete (task : Task n)
  | typedSemInit (sem : SemId) (value : Int) (type : Nat)
  | semDelete (sem : SemId)
  | semSignal (sem : SemId)
  | semBroadcast (sem : SemId)
  | semWait (sem : SemId)
  | semWaitIf (sem : SemId)
  | cntsemWaitIfAndLock (sem : SemId)
  | semWaitUntil (sem : SemId) (time : RTIME)
  | send (task : Task n) (msg : UInt32)
  | sendIf (task : Task n) (msg : UInt32)
  | sendUntil (task : Task n) (msg : UInt32) (time : RTIME)
  | rpc (task : Task n) (toDo : UInt32)
  | rpcIf (task : Task n) (toDo : UInt32)
  | rpcUntil (task : Task n) (toDo : UInt32) (time : RTIME)
  | ret (task : Task n) (result : UInt32)
  | receive (task : Option (Task n))
  | receiveIf (task : Option (Task n))
  | receiveUntil (task : Option (Task n)) (time : RTIME)
  | mbxInit (b : Nat) (size : Int)
  | mbxSend (b : Nat) (msg : List UInt8)
  | mbxSendWp (b : Nat) (msg : List UInt8)
  | mbxSendIf (b : Nat) (msg : List UInt8)
  | mbxSendUntil (b : Nat) (msg : List UInt8) (time : RTIME)
  | mbxReceive (b : Nat) (size : Nat)
  | mbxReceiveWp (b : Nat) (size : Nat)
  | mbxReceiveIf (b : Nat) (size : Nat)
  | mbxReceiveUntil (b : Nat) (size : Nat) (time : RTIME)
deriving DecidableEq

/-- The services that may make the caller wait, or make it the owner of a
resource: they are for real time tasks. -/
def Op.waits {n : Nat} : Op n → Bool
  | .taskSuspend none | .taskWaitPeriod | .taskSetResumeEndTimes _ _ | .sleep _ | .sleepUntil _
  | .taskYield | .semWait _ | .semWaitIf _ | .semWaitUntil _ _ | .send _ _ | .sendUntil _ _ _
  | .rpc _ _ | .rpcIf _ _ | .rpcUntil _ _ _ | .receive _ | .receiveUntil _ _
  | .mbxSend _ _ | .mbxSendWp _ _ | .mbxSendIf _ _ | .mbxSendUntil _ _ _
  | .mbxReceive _ _ | .mbxReceiveWp _ _ | .mbxReceiveIf _ _ | .mbxReceiveUntil _ _ _ => true
  | _ => false

/-- What can happen next. -/
inductive Event (n : Nat) where
  | call (op : Op n) (c : Clock)
  | resume (c : Clock)
  | timer (c : Clock)

namespace System

variable {n : Nat}

/-- The first piece of a service. -/
def service (c : Clock) : Op n → System n → Option (System n)
  | .taskInit task priority memory, s => s.rtTaskInit task priority memory
  | .taskSuspend task, s => s.rtTaskSuspend task c
  | .taskResume task, s => s.rtTaskResume task c
  | .taskMakePeriodicRelativeNs task startDelay period, s =>
      s.rtTaskMakePeriodicRelativeNs task startDelay period c
  | .taskMakePeriodic task startTime period, s => s.rtTaskMakePeriodic task startTime period c
  | .taskWaitPeriod, s => s.rtTaskWaitPeriod c
  | .taskSetResumeEndTimes resume finish, s => s.rtTaskSetResumeEndTimes resume finish c
  | .setResumeTime task newResumeTime, s => s.rtSetResumeTime task newResumeTime c
  | .sleep delay, s => s.rtSleep delay c
  | .sleepUntil time, s => s.rtSleepUntil time c
  | .taskWakeupSleeping task, s => s.rtTaskWakeupSleeping task c
  | .taskYield, s => s.rtTaskYield c
  | .changePrio task priority, s => s.rtChangePrio task priority c
  | .schedLock, s => s.rtSchedLock
  | .schedUnlock, s => s.rtSchedUnlock c
  | .taskDelete task, s => s.rtTaskDelete task c
  | .typedSemInit sem value type, s => some (s.rtTypedSemInit sem value type)
  | .semDelete sem, s => s.rtSemDelete sem c
  | .semSignal sem, s => s.rtSemSignal sem c
  | .semBroadcast sem, s => s.rtSemBroadcast sem c
  | .semWait sem, s => s.rtSemWait sem c
  | .semWaitIf sem, s => some (s.rtSemWaitIf sem)
  | .cntsemWaitIfAndLock sem, s => some (s.rtCntsemWaitIfAndLock sem)
  | .semWaitUntil sem time, s => s.rtSemWaitUntil sem time c
  | .send task msg, s => s.rtSend task msg c
  | .sendIf task msg, s => s.rtSendIf task msg c
  | .sendUntil task msg time, s => s.rtSendUntil task msg time c
  | .rpc task toDo, s => s.rtRpc task toDo c
  | .rpcIf task toDo, s => s.rtRpcIf task toDo c
  | .rpcUntil task toDo time, s => s.rtRpcUntil task toDo time c
  | .ret task result, s => s.rtReturn task result c
  | .receive task, s => s.rtReceive task c
  | .receiveIf task, s => s.rtReceiveIf task c
  | .receiveUntil task time, s => s.rtReceiveUntil task time c
  | .mbxInit b size, s => some (s.rtMbxInit b size)
  | .mbxSend b msg, s => s.rtMbxSend b msg c
  | .mbxSendWp b msg, s => some (s.rtMbxSendWp b msg)
  | .mbxSendIf b msg, s => some (s.rtMbxSendIf b msg)
  | .mbxSendUntil b msg time, s => s.rtMbxSendUntil b msg time c
  | .mbxReceive b size, s => s.rtMbxReceive b size c
  | .mbxReceiveWp b size, s => some (s.rtMbxReceiveWp b size)
  | .mbxReceiveIf b size, s => some (s.rtMbxReceiveIf b size)
  | .mbxReceiveUntil b size time, s => s.rtMbxReceiveUntil b size time c

/-- The next piece of a service that was interrupted or gave up the CPU. -/
def proceed (c : Clock) : Frame n → System n → Option (System n)
  | .rtSemWait sem, s => some (s.rtSemWaitRest sem)
  | .rtSemWaitUntil sem, s => some (s.rtSemWaitUntilRest sem)
  | .rtSend task _, s => some (s.rtSendRest task)
  | .rtSendUntil task _, s => some (s.rtSendUntilRest task)
  | .rtRpc task _, s => some (s.rtRpcRest task)
  | .rtRpcUntil task _, s => some (s.rtRpcUntilRest task)
  | .rtReceive, s => some s.rtReceiveRest
  | .rtReceived, s => some s.rtReceivedRest
  | .mbxWaited x, s => some (s.mbxWaited x)
  | .mbxLoop x, s => s.mbxLoop x c
  | .mbxWoken x, s => s.mbxWoken x c
  | .mbxCopy x p, s => s.mbxCopy x p c
  | .mbxSignalled x, s => s.mbxLeave x (x.result.getD x.msgSize) c
  | .mbxReturn x v, s => some (s.mbxReturn x v)

/-- The current task leaves its top frame. -/
def pop (s : System n) : System n :=
  { s with stack := update s.stack s.current (s.stack s.current).tail }

/-- The current task can be interrupted. -/
def interruptible (s : System n) : Bool :=
  (s.stack s.current).head?.all fun f => !f.cli

/-- The calls there are: a structure is initialised only while it is not in
use, and Linux starts no service that waits. -/
def admits (s : System n) : Op n → Bool
  | .taskInit task _ _ => task ≠ rtLinuxTask
  | .typedSemInit (.user i) _ _ => !(s.sem (.user i)).magic
  | .typedSemInit _ _ _ => false
  | .mbxInit b _ => !(s.mbx b).magic
  | op => !(op.waits && s.current = rtLinuxTask)

def step : Event n → System n → Option (System n)
  | .call op c, s =>
      if s.stack s.current = [] ∧ s.admits op then s.service c op else none
  | .resume c, s =>
      match s.stack s.current with
      | [] => none
      | f :: _ => s.pop.proceed c f
  | .timer c, s =>
      if s.interruptible then s.onDisp (Dispatcher.rtTimerHandler c) else none

/-- Between operations the current task runs its own code. -/
def Idle (s : System n) : Prop := s.stack s.current = []

variable {s s' : System n} {op : Op n} {c : Clock}

theorem step_call (h : step (.call op c) s = some s') :
    s.stack s.current = [] ∧ s.admits op = true ∧ s.service c op = some s' := by
  simp only [step] at h
  split at h
  next called => exact ⟨called.1, called.2, h⟩
  next => cases h

theorem step_resume (h : step (.resume c) s = some s') :
    ∃ f fs, s.stack s.current = f :: fs ∧ s.pop.proceed c f = some s' := by
  simp only [step] at h
  split at h
  next => cases h
  next f fs stack => exact ⟨f, fs, stack, h⟩

theorem step_timer (h : step (.timer c) s = some s') :
    s.interruptible = true ∧
      ∃ d, s.disp.rtTimerHandler c = some d ∧ s' = { s with disp := d } := by
  simp only [step] at h
  split at h
  next ready =>
    obtain ⟨d, handled, rfl⟩ := Option.map_eq_some_iff.mp h
    exact ⟨ready, d, handled, rfl⟩
  next => cases h

end System

/-! ## The initial state -/

/-- Links in which every node is its own neighbour. -/
def selfLinks (α : Type) : Links α := { next := id, prev := id }

/-- The state after `init_module`, with the timer started as `t` says. -/
def boot (n : Nat) (t : Timer) : System n where
  disp := {
    magic := fun _ => false
    state := update (fun _ => DEAD) rtLinuxTask READY
    priority := update (fun _ => 0) rtLinuxTask RT_LINUX_PRIORITY
    policy := fun _ => 0
    period := fun _ => 0
    resumeTime := update (fun _ => 0) rtLinuxTask RT_TIME_END
    yieldTime := fun _ => 0
    rrQuantum := fun _ => 0
    rrRemaining := fun _ => 0
    ready := selfLinks _
    timed := selfLinks _
    current := rtLinuxTask
    timeH := t.tickTime + t.halfTick
    schedRqsted := 0
    timer := t }
  basePriority := update (fun _ => 0) rtLinuxTask RT_LINUX_PRIORITY
  schedLockPriority := fun _ => 0
  prioPassedTo := fun _ => none
  suspdepth := fun _ => 0
  owndres := fun _ => 0
  resyncFrame := fun _ => false
  queue := selfLinks _
  blockedOn := fun _ => none
  msg := fun _ => 0
  msgQueueTask := update (fun _ => none) rtLinuxTask (some rtLinuxTask)
  retQueueTask := fun _ => false
  sem := fun _ => {}
  mbx := fun _ => {}
  stack := fun _ => []
  retval := fun _ => .int 0
  out := fun _ => 0
  outBytes := fun _ => []

end Rtai.Up
