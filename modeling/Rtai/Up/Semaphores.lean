import Rtai.Up.Tasks

/-!
# Semaphore services

The type of a semaphore is negative for a binary semaphore, `0` for a counting
one, and for a resource one plus the number of nested waits of its owner.
-/

namespace Rtai.Up

open Function Rtai.Lib

def PRIO_Q : Nat := 0
def FIFO_Q : Nat := 4
def BIN_SEM : Nat := 1
def CNT_SEM : Nat := 2
def RES_SEM : Nat := 3

namespace System

variable {n : Nat}

/-- The semaphore `rt_typed_sem_init` leaves. -/
def typedSem (value : Int) (type : Nat) : Sem n :=
  let kind : Int := (type &&& 3 : Nat) - 2
  { magic := true
    type := if kind > 0 then 1 else kind
    count := if kind < 0 ∧ value > 1 then 1 else if kind > 0 then 1 else value
    owndby := none
    qtype := type ≠ RES_SEM && type &&& FIFO_Q ≠ 0 }

def rtTypedSemInit (sem : SemId) (value : Int) (type : Nat) (s : System n) : System n :=
  { s.setSem sem (typedSem value type) with queue := s.queue.reset (.head (.sem sem)) }

/-- The waiters of a deleted semaphore are released; they stay linked and keep
their `blocked_on`. -/
def releaseWaiters (sem : SemId) : Nat → QNode n → System n → Option (System n × Bool)
  | 0, _, _ => none
  | k + 1, q, s =>
      if q = .head (.sem sem) then some (s, false)
      else
        match s.taskOf q with
        | none => some (s, false)
        | some t => do
            let (s, woken) ← s.release t (SEMAPHORE.set DELAYED)
            let (s, woken') ← releaseWaiters sem k (s.queue.next q) s
            return (s, woken || woken')

/-- Whether `rt_task_delete(task)` gets past its first test. -/
def deletable (s : System n) (task : Task n) : Bool :=
  s.disp.magic task && s.priority task ≠ RT_LINUX_PRIORITY

def rtSemDelete (sem : SemId) (c : Clock) (s : System n) : Option (System n) :=
  if ¬(s.sem sem).magic then some (s.ret (.int SEM_ERR))
  else do
    let s := (s.setSem sem { s.sem sem with magic := false }).ret (.int 0)
    let (s, sched) ← s.releaseWaiters sem (fuel n) (s.queue.next (.head (.sem sem)))
    match (s.sem sem).owndby with
    | none => s.scheduleIf sched c
    | some task =>
        if (s.sem sem).type > 0 then do
          let own := s.owndres task
          let s := if own &&& SEMHLF = 0 then s else s.setOwndres task (own - 1)
          let (s, moved) ← s.renqByResources task
          let sched := if s.owndres task = 0 ∨ s.owndres task &&& SEMHLF = 0 then moved else sched
          if s.suspdepth task > 0 then
            let d := s.disp.setState task ((s.state task).set SUSPENDED)
            { s with disp := d.remReadyTask task }.rtSchedule c
          else if s.suspdepth task < 0 then do
            let s' ← s.rtTaskDelete task c
            -- deleting the caller does not come back
            if task = s.current ∧ s.deletable task then return s'
            else (s'.ret (.int 0)).scheduleIf sched c
          else s.scheduleIf sched c
        else s.scheduleIf sched c

/-- What `rt_sem_signal` and `mbx_signal` do for a caller that gives back a
resource: its priority follows, and a request to suspend or to delete it that
was put off is carried out. -/
def releaseOwned (c : Clock) (s : System n) : Option (System n) := do
  let t := s.current
  let own := s.owndres t
  let s := if own &&& SEMHLF = 0 then s else s.setOwndres t (own - 1)
  let (s, sched) ← s.renqByResources t
  if s.suspdepth t > 0 then
    (s.blockCurrent SUSPENDED).rtSchedule c
  else if s.suspdepth t < 0 then
    if s.deletable t then do
      let s ← s.deleteTask t
      s.rtSchedule c
    else s.scheduleIf sched c
  else s.scheduleIf sched c

/-- The first waiter of the semaphore is taken off its queue and released. -/
def releaseFirst (sem : SemId) (s : System n) : Option (System n × Bool) :=
  match s.taskOf (s.queue.next (.head (.sem sem))) with
  | none => some (s, false)
  | some task => (s.dequeueBlocked task).release task (SEMAPHORE.set DELAYED)

def rtSemSignal (sem : SemId) (c : Clock) (s : System n) : Option (System n) :=
  let v := s.sem sem
  if ¬v.magic then some (s.ret (.int SEM_ERR))
  else
    let s := s.ret (.int 0)
    if v.type > 1 then some (s.setType sem (v.type - 1))
    else do
      let s := s.setCount sem
        (if v.type = 0 then v.count + 1 else if v.count + 1 > 1 then 1 else v.count + 1)
      let (s, woken) ← s.releaseFirst sem
      if v.type > 0 then (s.setOwndby sem none).releaseOwned c
      else s.scheduleIf woken c

/-- The loop of `rt_sem_broadcast`. -/
def broadcastLoop (sem : SemId) : Nat → QNode n → System n → Option (System n × Bool)
  | 0, _, _ => none
  | k + 1, q, s =>
      if q = .head (.sem sem) then some (s, false)
      else do
        let task ← s.taskOf q
        let (s, woken) ← (s.dequeueBlocked task).release task (SEMAPHORE.set DELAYED)
        let (s, woken') ← broadcastLoop sem k (s.queue.next q) s
        return (s, woken || woken')

def rtSemBroadcast (sem : SemId) (c : Clock) (s : System n) : Option (System n) :=
  if ¬(s.sem sem).magic then some (s.ret (.int SEM_ERR))
  else do
    let (s, sched) ← s.broadcastLoop sem (fuel n) (s.queue.next (.head (.sem sem)))
    let s := s.setCount sem 0
    let s := { s with queue := s.queue.reset (.head (.sem sem)) }
    (s.ret (.int 0)).scheduleIf sched c

/-- `if (sem->type > 0) (sem->owndby = rt_current)->owndres++; return count`. -/
def takeSem (sem : SemId) (count : Int) (s : System n) : System n :=
  let s := if (s.sem sem).type > 0 then
      (s.setOwndby sem (some s.current)).setOwndres s.current (s.owndres s.current + 1)
    else s
  s.ret (.int count)

/-- `if (sem->type > 0) pass_prio(sem->owndby, rt_current)`. -/
def passPrioToOwner (sem : SemId) (s : System n) : Option (System n) :=
  if (s.sem sem).type > 0 then s.passPrio (s.sem sem).owndby s.current else some s

def rtSemWait (sem : SemId) (c : Clock) (s : System n) : Option (System n) :=
  let v := s.sem sem
  if ¬v.magic then some (s.ret (.int SEM_ERR))
  else if v.count ≤ 0 then
    if v.type > 0 ∧ v.owndby = some s.current then
      some ((s.setType sem (v.type + 1)).ret (.int v.count))
    else do
      let s ← s.passPrioToOwner sem
      let s := (s.setCount sem (v.count - 1)).blockCurrent SEMAPHORE
      let s ← s.enqueueBlocked s.current (.sem sem) v.qtype
      (s.push (.rtSemWait sem)).rtSchedule c
  else some ((s.setCount sem (v.count - 1)).takeSem sem v.count)

/-- `rt_sem_wait` behind its `rt_schedule`. -/
def rtSemWaitRest (sem : SemId) (s : System n) : System n :=
  if (s.blockedOn s.current).isSome ∨ ¬(s.sem sem).magic then
    (s.setPrioPassedTo s.current none).ret (.int SEM_ERR)
  else s.takeSem sem (s.sem sem).count

def rtSemWaitIf (sem : SemId) (s : System n) : System n :=
  let v := s.sem sem
  if ¬v.magic then s.ret (.int SEM_ERR)
  else if v.count > 0 then
    if v.type > 0 ∧ v.owndby = some s.current then
      (s.setType sem (v.type + 1)).ret (.int 0)
    else (s.takeSem sem v.count).setCount sem (v.count - 1)
  else s.ret (.int v.count)

def rtCntsemWaitIfAndLock (sem : SemId) (s : System n) : System n :=
  let v := s.sem sem
  if ¬v.magic ∨ v.type ≠ CNT_SEM then s.ret (.int SEM_ERR)
  else
    let count := if v.count > 0 then 0 else v.count
    (s.setCount sem count).ret (.int count)

/-- `rt_sem_wait_until` behind its `rt_schedule`, and also when the time had
passed. -/
def rtSemWaitUntilRest (sem : SemId) (s : System n) : System n :=
  let v := s.sem sem
  if ¬v.magic then (s.setPrioPassedTo s.current none).ret (.int SEM_ERR)
  else if (s.blockedOn s.current).isSome then
    let count := if v.count + 1 > 1 ∧ v.type ≠ 0 then 1 else v.count + 1
    ((s.dequeueBlocked s.current).setCount sem count).ret (.int SEM_TIMOUT)
  else s.takeSem sem v.count

def rtSemWaitUntil (sem : SemId) (time : RTIME) (c : Clock) (s : System n) :
    Option (System n) :=
  let v := s.sem sem
  if ¬v.magic then some (s.ret (.int SEM_ERR))
  else if v.count ≤ 0 then
    let s := (s.setBlockedOn s.current (some (.sem sem))).setResumeTime time
    if time > s.disp.timeH then
      if v.type > 0 ∧ v.owndby = some s.current then
        some ((s.setType sem (v.type + 1)).ret (.int 0))
      else do
        let s ← s.passPrioToOwner sem
        let s := (s.setCount sem (v.count - 1)).blockCurrent (SEMAPHORE.set DELAYED)
        let s ← s.enqueueBlocked s.current (.sem sem) v.qtype
        let s ← s.enqTimedCurrent
        (s.push (.rtSemWaitUntil sem)).rtSchedule c
    else
      let s := s.setCount sem (v.count - 1)
      let s := { s with queue := s.queue.reset (.queue s.current) }
      some (s.rtSemWaitUntilRest sem)
  else some ((s.setCount sem (v.count - 1)).takeSem sem v.count)

end System

end Rtai.Up
