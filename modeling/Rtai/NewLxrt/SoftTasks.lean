import Rtai.Lib.Run
import Rtai.Lxrt.Mutexes

/-!
# Soft tasks

A soft task, `rtTask` here, calls every service through `rt_schedule_soft`, which reads the
priority of the task when it begins and writes it back when it ends.  The services go on in two
parts, up to `rt_schedule` and behind it, and the other tasks go on in between.

Of the others there is what `rtTask` has to do with: their waits for the semaphores, which are all
resources, whether they are its clients, and whether their `prio_passed_to` is `rtTask`.  What
they do to each other shows in their priorities, which change at any time, and in what comes to
`rtTask` by way of others when one of them passes its priority on.

No call is timed, and no task is suspended or deleted.  What is said in a message is left out.
-/

namespace Rtai.NewLxrt.Soft

open Function Rtai.Lib Rtai.Lxrt

def BASE_SOFT_PRIORITY : Int := 1000000000

def SEMHLF : BitVec 32 := 0x0000FFFF
def RPCHLF : BitVec 32 := 0xFFFF0000
def RPCINC : BitVec 32 := 0x00010000

/-- The bits in the `state` of a task that has sent a message to `rtTask`. -/
inductive Client where
  | SEND | RPC | RETURN
deriving DecidableEq

/-- How far `rt_schedule_soft` is, with the value of its `priority`. -/
inductive Phase where
  | outside
  /-- Before `priority` is tested. -/
  | entered (priority : Int)
  | running (priority : Int)
  /-- The service has called `rt_schedule`. -/
  | blocked (priority : Int)
  /-- The service has returned. -/
  | returned (priority : Int)
deriving DecidableEq

structure State (S T : Type) where
  kernel : Kernel S T
  waits : T → Option (S × Bool) := fun _ => none
  basePriority : Int
  owndres : BitVec 32 := 0
  phase : Phase := .outside
  /-- `prio_passed_to` of the other tasks is `rtTask`. -/
  prioPassedTo : T → Bool := fun _ => false
  client : T → Option Client := fun _ => none
  /-- The tasks of `msg_queue`. -/
  msgQueue : List T := []
  /-- `RECEIVE` in `state`, with `msg_queue.task`. -/
  receive : Option (Option T) := none

namespace State

variable {S T : Type}

/-- A task waits for `rtTask` to return a message. -/
def Waiting (s : State S T) (t : T) : Prop := s.client t = some .RPC ∨ s.client t = some .RETURN

/-- `rtTask` owns a resource, or has a client. -/
def Holds (rtTask : T) (s : State S T) : Prop :=
  (∃ i, (s.kernel.sem i).owndby = some rtTask) ∨ ∃ t, s.Waiting t

def priority (rtTask : T) (s : State S T) : Int := (s.kernel.task rtTask).priority

/-- The task has its base priority when nothing is a reason for another one. -/
def Based (rtTask : T) (s : State S T) : Prop :=
  s.phase = .outside → ¬s.Holds rtTask → s.priority rtTask = s.basePriority

/-- After `set_rtext`, with new semaphores. -/
structure Initial (rtTask : T) (s : State S T) : Prop where
  sem : ∀ i, s.kernel.sem i = rtTypedSemInit 1 .RES_SEM
  ready : ∀ t, (s.kernel.task t).Ready
  waits : ∀ t, s.waits t = none
  priority : s.priority rtTask = s.basePriority
  owndres : s.owndres = 0
  phase : s.phase = .outside
  prioPassedTo : ∀ t, s.prioPassedTo t = false
  client : ∀ t, s.client t = none
  msgQueue : s.msgQueue = []
  receive : s.receive = none

variable [DecidableEq S] [DecidableEq T]

/-- The priority of `rtTask` is written while it is in no queue. -/
def setPriority (rtTask : T) (priority : Int) (s : State S T) : State S T :=
  { s with
    kernel := s.kernel.setTask rtTask { s.kernel.task rtTask with priority := priority } }

/-- `pass_prio`, as far as it is about `rtTask`. -/
def passPrio (rtTask : T) (to' : Option T) (from' : T) (s : State S T) : State S T :=
  let s := { s with prioPassedTo := update s.prioPassedTo from' (to' = some rtTask) }
  let priority := (s.kernel.task from').priority
  if to' = some rtTask ∧ s.priority rtTask > priority then
    { s with kernel := s.kernel.changePriority rtTask priority }
  else s

/-- `rt_change_prio` of `rtTask`. -/
def rtChangePrio (rtTask : T) (priority : Int) (s : State S T) : State S T :=
  let prio := s.basePriority
  if priority < 0 ∨ prio = priority then s
  else
    let s := { s with basePriority := priority }
    if priority < s.priority rtTask ∨ prio = s.priority rtTask then
      { s with kernel := s.kernel.changePriority rtTask priority }
    else s

/-- Another task gets a priority, and its place for it in the queue that it is blocked on. -/
def changePriority (t : T) (priority : Int) (s : State S T) : State S T :=
  let s := { s with kernel := s.kernel.changePriority t priority }
  if t ∈ s.msgQueue then { s with msgQueue := enqueue s.kernel.Ahead t (s.msgQueue.erase t) } else s

/-- What the services do with the priority of the current task when it has given something back. -/
def renqCurrent (rtTask : T) (s : State S T) : State S T :=
  if s.owndres = 0 then s.setPriority rtTask s.basePriority
  else if s.owndres &&& SEMHLF = 0 then
    let priority := (s.kernel.task (s.msgQueue.headD rtTask)).priority
    s.setPriority rtTask (if s.basePriority > priority then priority else s.basePriority)
  else s

/-! ## The services -/

/-- A task has got a semaphore. -/
def counted (rtTask : T) (i : S) (self : T) (s : State S T) : State S T :=
  if self = rtTask ∧ (s.kernel.sem i).type > 0 then { s with owndres := s.owndres + 1 } else s

/-- `rt_sem_wait`, and whether it calls `rt_schedule`. -/
def rtSemWait (rtTask : T) (i : S) (self : T) (s : State S T) : State S T × Bool :=
  let sem := s.kernel.sem i
  let s :=
    if sem.count ≤ 0 then
      if sem.type > 0 ∧ sem.owndby ≠ some self then s.passPrio rtTask sem.owndby self else s
    else s.counted rtTask i self
  let (k, ret) := s.kernel.waitFor none i self
  ({ s with
    kernel := k
    waits := update s.waits self (if ret = none then some (i, false) else none) }, ret = none)

/-- A wait behind `rt_schedule`. -/
def rtSemWaitEnd (rtTask : T) (i : S) (timed : Bool) (self : T) (s : State S T) : State S T :=
  let s := s.counted rtTask i self
  { s with
    kernel := (s.kernel.waitForEnd timed i self).1
    waits := update s.waits self none }

def rtSemSignal (rtTask : T) (i : S) (self : T) (s : State S T) : State S T :=
  let sem := s.kernel.sem i
  let s := { s with kernel := s.kernel.rtSemSignal i }
  if sem.type > 1 then s
  else
    let s :=
      match sem.queue with
      | t :: _ => { s with prioPassedTo := update s.prioPassedTo t false }
      | [] => s
    if self = rtTask ∧ sem.type > 0 then
      let s := if s.owndres &&& SEMHLF ≠ 0 then { s with owndres := s.owndres - 1 } else s
      s.renqCurrent rtTask
    else s

/-- `rtTask` is waiting in `rt_receive` for the task. -/
def receives (self : T) (s : State S T) : Bool :=
  match s.receive with
  | some from' => from' = none || from' = some self
  | none => false

/-- The task is blocked on the `msg_queue` of `rtTask`. -/
def enqueueClient (c : Client) (self : T) (s : State S T) : State S T :=
  { s with
    client := update s.client self (some c)
    msgQueue := enqueue s.kernel.Ahead self s.msgQueue }

/-- `rt_send` to `rtTask`. -/
def rtSend (self : T) (s : State S T) : State S T :=
  if s.receives self then { s with receive := none } else s.enqueueClient .SEND self

/-- `rt_rpc` to `rtTask`. -/
def rtRpc (rtTask self : T) (s : State S T) : State S T :=
  if s.receives self then
    { s with receive := none, client := update s.client self (some .RETURN) }
  else
    let s := { s with owndres := s.owndres + RPCINC }
    (s.passPrio rtTask (some rtTask) self).enqueueClient .RPC self

/-- `rt_receive` of `rtTask`, and whether it calls `rt_schedule`. -/
def rtReceive (rtTask : T) (task : Option T) (s : State S T) : State S T × Bool :=
  let task := task.getD (s.msgQueue.headD rtTask)
  let taken :=
    { s with
      msgQueue := s.msgQueue.erase task
      prioPassedTo := update s.prioPassedTo task false }
  match s.client task with
  | some .SEND => ({ taken with client := update s.client task none }, false)
  | some .RPC => ({ taken with client := update s.client task (some .RETURN) }, false)
  | _ => ({ s with receive := some (if task = rtTask then none else some task) }, true)

/-- `rt_return` of `rtTask`. -/
def rtReturn (rtTask task : T) (s : State S T) : State S T :=
  if s.client task = some .RETURN then
    let s := { s with prioPassedTo := update s.prioPassedTo task false }
    let s := if s.owndres &&& RPCHLF ≠ 0 then { s with owndres := s.owndres - RPCINC } else s
    let s := s.renqCurrent rtTask
    { s with client := update s.client task none }
  else s

end State

/-- The services of `rtTask`. -/
inductive Op (S T : Type) where
  | rtSemWait (sem : S)
  | rtSemSignal (sem : S)
  | rtReceive (task : Option T)
  | rtReturn (task : T)
  /-- Any that does not touch what is modelled. -/
  | other

inductive Event (S T : Type) where
  /-- `rt_schedule_soft` begins. -/
  | enter
  /-- It tests `priority`. -/
  | lift
  | call (op : Op S T)
  /-- The service goes on behind `rt_schedule`. -/
  | goOn
  /-- `rt_schedule_soft` ends. -/
  | exit
  /-- What the others do to `rtTask`. -/
  | rtSemWait (self : T) (sem : S)
  | rtSemWaitEnd (self : T)
  | rtSemSignal (self : T) (sem : S)
  | rtSend (self : T)
  | rtRpc (self : T)
  | rtChangePrio (priority : Int)
  /-- Another task gets a priority. -/
  | priority (t : T) (priority : Int)
  /-- Another task gets a priority and passes it on. -/
  | passPrio (t : T) (priority : Int)

section

variable {S T : Type} [DecidableEq S] [DecidableEq T]

/-- The service returns or not. -/
def serve (rtTask : T) (op : Op S T) (s : State S T) : State S T × Bool :=
  match op with
  | .rtSemWait i => s.rtSemWait rtTask i rtTask
  | .rtSemSignal i => (s.rtSemSignal rtTask i rtTask, false)
  | .rtReceive task => s.rtReceive rtTask task
  | .rtReturn task => (s.rtReturn rtTask task, false)
  | .other => (s, false)

/-- A service goes on when the task has been made ready. -/
def wake (rtTask : T) (s : State S T) : Option (State S T) :=
  match s.waits rtTask with
  | some (i, timed) =>
      if (s.kernel.task rtTask).Ready then some (s.rtSemWaitEnd rtTask i timed rtTask) else none
  | none => if s.receive = none then some s else none

/-- The task is another than `rtTask`, and is not blocked. -/
def Free (rtTask t : T) (s : State S T) : Prop :=
  t ≠ rtTask ∧ s.waits t = none ∧ s.client t = none

instance (rtTask t : T) (s : State S T) : Decidable (Free rtTask t s) :=
  inferInstanceAs (Decidable (_ ∧ _ ∧ _))

def step (rtTask : T) : Event S T → State S T → Option (State S T)
  | .enter, s =>
      if s.phase = .outside then some { s with phase := .entered (s.priority rtTask) } else none
  | .lift, s =>
      match s.phase with
      | .entered p =>
          let s := { s with phase := .running p }
          some (if p < BASE_SOFT_PRIORITY then
            s.setPriority rtTask (s.priority rtTask + BASE_SOFT_PRIORITY) else s)
      | _ => none
  | .call op, s =>
      match s.phase with
      | .running p =>
          let (s, blocks) := serve rtTask op s
          some { s with phase := if blocks then .blocked p else .returned p }
      | _ => none
  | .goOn, s =>
      match s.phase with
      | .blocked p => (wake rtTask s).map fun s => { s with phase := .returned p }
      | _ => none
  | .exit, s =>
      match s.phase with
      | .returned p => some { s.setPriority rtTask p with phase := .outside }
      | _ => none
  | .rtSemWait t i, s => if Free rtTask t s then some (s.rtSemWait rtTask i t).1 else none
  | .rtSemWaitEnd t, s =>
      match s.waits t with
      | some (i, timed) =>
          if t ≠ rtTask ∧ (s.kernel.task t).Ready then some (s.rtSemWaitEnd rtTask i timed t) else none
      | none => none
  | .rtSemSignal t i, s => if Free rtTask t s then some (s.rtSemSignal rtTask i t) else none
  | .rtSend t, s => if Free rtTask t s then some (s.rtSend t) else none
  | .rtRpc t, s => if Free rtTask t s then some (s.rtRpc rtTask t) else none
  | .rtChangePrio p, s => some (s.rtChangePrio rtTask p)
  | .priority t p, s =>
      if t = rtTask then none else some (s.changePriority t p)
  | .passPrio t p, s =>
      if t = rtTask then none
      else
        let s := s.changePriority t p
        some (if s.prioPassedTo t then s.passPrio rtTask (some rtTask) t else s)

/-- A resource is signalled by its owner, or while it is free. -/
def Owned (rtTask : T) (s : State S T) : Event S T → Prop
  | .call (.rtSemSignal i) =>
      (s.kernel.sem i).owndby = some rtTask ∨ (s.kernel.sem i).count > 0
  | .rtSemSignal t i => (s.kernel.sem i).owndby = some t ∨ (s.kernel.sem i).count > 0
  | _ => True

/-- A service that leaves `rtTask` with nothing was entered at what its base priority is at the
end, and none passes a more urgent priority on to it when it has nothing. -/
def Keeps (rtTask : T) (s : State S T) : Event S T → Prop
  | .exit => ∀ p, s.phase = .returned p → ¬s.Holds rtTask → p = s.basePriority
  | .passPrio t p =>
      s.phase = .outside → ¬s.Holds rtTask → s.prioPassedTo t = true → s.priority rtTask ≤ p
  | _ => True

def Proper (rtTask : T) (s : State S T) (e : Event S T) : Prop :=
  Owned rtTask s e ∧ Keeps rtTask s e

end

end Rtai.NewLxrt.Soft
