import Rtai.Lib.Priority
import Mathlib.Logic.Function.Basic

/-!
# Semaphores of the LXRT scheduler

The services of `newlxrt/scheduler/rtai_sched.c` on semaphores of all three types, for
tasks and semaphores of arbitrary types.  A wait that blocks is in two parts, up to
`rt_schedule` and behind it.

A priority that a waiter passes on to an owner may come to a task at any time: what
`pass_prio` and `renq_current` do to it is `changePriority`.  No task is suspended or
deleted.
-/

namespace Rtai.Lxrt

open Function Rtai.Lib

def SEM_TIMOUT : Int := 0xfffe
def SEM_ERR : Int := 0xffff

/-- The types of `rt_typed_sem_init`. -/
inductive SemType where
  | BIN_SEM
  | CNT_SEM
  | RES_SEM
deriving DecidableEq

/-- `SEM`. -/
structure Sem (T : Type) where
  /-- Negative for a binary semaphore, 0 for a counting one, the nesting depth of a resource. -/
  type : Int := 0
  count : Int := 0
  /-- `qtype`. -/
  fifo : Bool := false
  /-- The tasks of `queue`, in its order. -/
  queue : List T := []
  owndby : Option T := none

/-- `rt_typed_sem_init`, for a queue by priority. -/
def rtTypedSemInit {T : Type} (value : Int) : SemType → Sem T
  | .BIN_SEM => { type := -1, count := if value > 1 then 1 else value }
  | .CNT_SEM => { type := 0, count := value }
  | .RES_SEM => { type := 1, count := 1 }

/-- The count after `++count`, which a binary or resource semaphore keeps from exceeding 1. -/
def Sem.countUp {T : Type} (sem : Sem T) : Int :=
  if sem.type ≠ 0 ∧ sem.count + 1 > 1 then 1 else sem.count + 1

/-- What the services use of `RT_TASK`; `blockedOn` is the semaphore whose queue
`blocked_on` points to. -/
structure Task (S : Type) where
  priority : Int := 0
  /-- `SEMAPHORE` in `state`. -/
  semaphore : Bool := false
  /-- `DELAYED` in `state`, for a task on the timed list. -/
  delayed : Bool := false
  blockedOn : Option S := none

/-- `state` is `READY`. -/
def Task.Ready {S : Type} (v : Task S) : Prop := v.semaphore = false ∧ v.delayed = false

instance {S : Type} (v : Task S) : Decidable v.Ready := inferInstanceAs (Decidable (_ ∧ _))

/-- The semaphores and the tasks. -/
structure Kernel (S T : Type) where
  sem : S → Sem T
  task : T → Task S

namespace Kernel

variable {S T : Type} [DecidableEq S] [DecidableEq T]

def setSem (i : S) (v : Sem T) (k : Kernel S T) : Kernel S T := { k with sem := update k.sem i v }

def setTask (t : T) (v : Task S) (k : Kernel S T) : Kernel S T :=
  { k with task := update k.task t v }

/-- The first task may stand before the second one in a queue by priority. -/
def Ahead (k : Kernel S T) (a b : T) : Prop := (k.task a).priority ≤ (k.task b).priority

instance (k : Kernel S T) : DecidableRel k.Ahead :=
  fun a b => inferInstanceAs (Decidable ((k.task a).priority ≤ (k.task b).priority))

/-- The place of a task in the queue. -/
def place (k : Kernel S T) (sem : Sem T) (t : T) : Sem T :=
  { sem with queue := if sem.fifo then sem.queue ++ [t] else enqueue k.Ahead t sem.queue }

def enqueueBlocked (i : S) (t : T) (k : Kernel S T) : Kernel S T :=
  (k.setSem i (k.place (k.sem i) t)).setTask t { k.task t with blockedOn := some i }

def dequeueBlocked (i : S) (t : T) (k : Kernel S T) : Kernel S T :=
  (k.setSem i { k.sem i with queue := (k.sem i).queue.erase t }).setTask t
    { k.task t with blockedOn := none }

/-- `rem_timed_task`, and `enq_ready_task` if the task is not ready. -/
def makeReady (t : T) (k : Kernel S T) : Kernel S T :=
  k.setTask t { k.task t with semaphore := false, delayed := false }

def rtSemSignal (i : S) (k : Kernel S T) : Kernel S T :=
  let sem := k.sem i
  if sem.type > 1 then k.setSem i { sem with type := sem.type - 1 }
  else
    let k := k.setSem i { sem with count := sem.countUp }
    let k :=
      match sem.queue with
      | t :: _ => (k.dequeueBlocked i t).makeReady t
      | [] => k
    if sem.type > 0 then k.setSem i { k.sem i with owndby := none } else k

/-- The loop of `rt_sem_broadcast` over the queue. -/
def broadcastLoop (i : S) : List T → Kernel S T → Kernel S T
  | [], k => k
  | t :: q, k => broadcastLoop i q ((k.dequeueBlocked i t).makeReady t)

def rtSemBroadcast (i : S) (k : Kernel S T) : Kernel S T :=
  let k := broadcastLoop i (k.sem i).queue k
  k.setSem i { k.sem i with count := 0, queue := [] }

/-- The task becomes the owner of a resource semaphore. -/
def own (i : S) (self : T) (k : Kernel S T) : Kernel S T :=
  if (k.sem i).type > 0 then k.setSem i { k.sem i with owndby := some self } else k

/-- `rt_sem_wait`, with what it returns if it does not call `rt_schedule`. -/
def rtSemWait (i : S) (self : T) (k : Kernel S T) : Kernel S T × Option Int :=
  let sem := k.sem i
  if sem.count ≤ 0 then
    if sem.type > 0 ∧ sem.owndby = some self then
      (k.setSem i { sem with type := sem.type + 1 }, some sem.count)
    else
      let k := k.setSem i { sem with count := sem.count - 1 }
      let k := k.setTask self { k.task self with semaphore := true }
      (k.enqueueBlocked i self, none)
  else ((k.setSem i { sem with count := sem.count - 1 }).own i self, some sem.count)

/-- `rt_sem_wait` behind `rt_schedule`. -/
def rtSemWaitEnd (i : S) (self : T) (k : Kernel S T) : Kernel S T × Int :=
  if (k.task self).blockedOn.isSome then (k, SEM_ERR) else (k.own i self, (k.sem i).count)

/-- `rt_sem_wait_until` behind `rt_schedule`. -/
def rtSemWaitUntilEnd (i : S) (self : T) (k : Kernel S T) : Kernel S T × Int :=
  if (k.task self).blockedOn.isSome then
    let k := k.dequeueBlocked i self
    (k.setSem i { k.sem i with count := (k.sem i).countUp }, SEM_TIMOUT)
  else (k.own i self, (k.sem i).count)

/-- `rt_sem_wait_until`.  Where the time is `late`, not later than `rt_time_h`, the task is
linked to itself and taken off again; where the semaphore is the caller's, `blocked_on`
stays as it is set here. -/
def rtSemWaitUntil (i : S) (self : T) (late : Bool) (k : Kernel S T) :
    Kernel S T × Option Int :=
  let sem := k.sem i
  if sem.count ≤ 0 then
    let k := k.setTask self { k.task self with blockedOn := some i }
    if late then
      let (k, v) := (k.setSem i { sem with count := sem.count - 1 }).rtSemWaitUntilEnd i self
      (k, some v)
    else if sem.type > 0 ∧ sem.owndby = some self then
      (k.setSem i { sem with type := sem.type + 1 }, some 0)
    else
      let k := k.setSem i { sem with count := sem.count - 1 }
      let k := k.setTask self { k.task self with semaphore := true, delayed := true }
      (k.enqueueBlocked i self, none)
  else ((k.setSem i { sem with count := sem.count - 1 }).own i self, some sem.count)

/-- `rt_sem_wait_if`. -/
def rtSemWaitIf (i : S) (self : T) (k : Kernel S T) : Kernel S T × Int :=
  let sem := k.sem i
  if sem.count ≤ 0 then
    if sem.type > 0 ∧ sem.owndby = some self then
      (k.setSem i { sem with type := sem.type + 1 }, 0)
    else (k, sem.count)
  else ((k.setSem i { sem with count := sem.count - 1 }).own i self, sem.count)

/-- The wait of a service, plain or until a time that may be late. -/
def waitFor (how : Option Bool) (i : S) (self : T) (k : Kernel S T) : Kernel S T × Option Int :=
  match how with
  | none => k.rtSemWait i self
  | some late => k.rtSemWaitUntil i self late

/-- The wait of a service behind `rt_schedule`. -/
def waitForEnd (timed : Bool) (i : S) (self : T) (k : Kernel S T) : Kernel S T × Int :=
  if timed then k.rtSemWaitUntilEnd i self else k.rtSemWaitEnd i self

/-- The timer of a task expires: the task is ready, and stays in the queue. -/
def expire (t : T) (k : Kernel S T) : Kernel S T := k.makeReady t

/-- A task gets another priority, and its place for it in the queue that it is blocked on. -/
def changePriority (t : T) (priority : Int) (k : Kernel S T) : Kernel S T :=
  let k := k.setTask t { k.task t with priority := priority }
  match (k.task t).blockedOn with
  | some i =>
      if (k.task t).Ready ∨ (k.sem i).fifo then k
      else k.setSem i (k.place { k.sem i with queue := (k.sem i).queue.erase t } t)
  | none => k

end Kernel

end Rtai.Lxrt
