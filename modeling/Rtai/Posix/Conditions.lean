import Rtai.Posix.Mutex
import Rtai.Lib.Waiters

/-!
# POSIX condition variables

The waits and the signals of `rtai_pthread.c` on the links of the UP scheduler, with the
mutexes that the waits give back and take again.  The queue of a condition variable and that
of a mutex use the same `queue` node of a task.

A function stops at `LXRT_SUSPEND`, which is `rt_schedule`, and `Pc` says where its thread
goes on.  `pthread_cond_timedwait` restores the interrupts twice before it returns; a thread
may be there and run without being `READY`.
-/

namespace Rtai.Posix

open Function Rtai.Lib
open Rtai.Up (Dispatcher Clock RTIME TaskState READY SEMAPHORE DELAYED DEAD rtLinuxTask fuel)

def ETIMEDOUT : Int := 110

/-- The queues: `c_waiting.queue` and `m_semaphore.queue`. -/
inductive Head where
  | cond (c : Nat)
  | mutex (m : Nat)
deriving DecidableEq

/-- A `QUEUE`. -/
inductive Node (n : Nat) where
  | head (q : Head)
  | thread (t : Up.Task n)
deriving DecidableEq

/-- `pthread_mutex_t` without its queue. -/
structure MutexWords (n : Nat) where
  mOwner : Option (Up.Task n) := none
  mKind : MutexKind := .fast
  /-- `m_semaphore.magic == RT_SEM_MAGIC`. -/
  magic : Bool := false
  count : Int := 0
  owndby : Option (Up.Task n) := none

/-- Where a thread goes on. -/
inductive Pc where
  /-- Outside of these functions, or where they have nothing left to do. -/
  | user
  /-- `pthread_cond_wait` behind `pthread_mutex_unlock`, which has suspended. -/
  | waitUnlocked (m : Nat)
  /-- `pthread_cond_wait` behind `LXRT_SUSPEND`. -/
  | waitSuspended (m : Nat)
  /-- `pthread_cond_timedwait` before `pthread_mutex_unlock`. -/
  | timedEnqueued (m : Nat)
  /-- `pthread_cond_timedwait` behind `pthread_mutex_unlock`. -/
  | timedUnlocked (m : Nat)
  /-- `pthread_cond_timedwait` behind `LXRT_SUSPEND`. -/
  | timedSuspended (m : Nat)
  /-- `pthread_cond_timedwait` before `pthread_mutex_lock`. -/
  | timedDequeued (m : Nat) (semret : Bool)
  /-- `pthread_mutex_lock` behind `LXRT_SUSPEND`, and what a wait that has called it returns. -/
  | locking (m : Nat) (result : Option Int)
deriving DecidableEq

/-- The threads, condition variables and mutexes. -/
structure Pthreads (n : Nat) where
  disp : Dispatcher n
  basePriority : Up.Task n → Int
  /-- The links of every `QUEUE`. -/
  queue : Links (Node n)
  blockedOn : Up.Task n → Option Head
  mutex : Nat → MutexWords n
  pc : Up.Task n → Pc
  /-- The thread whose wait has returned in the last step, and its result. -/
  returned : Option (Up.Task n × Int)

namespace Pthreads

variable {n : Nat}

/-- `rt_whoami()`. -/
abbrev current (s : Pthreads n) : Up.Task n := s.disp.current

def setMutex (m : Nat) (v : MutexWords n) (s : Pthreads n) : Pthreads n :=
  { s with mutex := update s.mutex m v }

def setPc (pc : Pc) (s : Pthreads n) : Pthreads n := { s with pc := update s.pc s.current pc }

/-- `LXRT_SUSPEND`, with what is left to do behind it. -/
def suspend (c : Clock) (pc : Pc) (s : Pthreads n) : Option (Pthreads n) :=
  ((s.setPc pc).disp.rtSchedule c).map fun d => { s.setPc pc with disp := d }

/-- A wait returns. -/
def finish (v : Int) (s : Pthreads n) : Pthreads n :=
  { s.setPc .user with returned := some (s.current, v) }

/-! ## The queues -/

/-- `current_task->blocked_on = queue`, and the node is put before another one. -/
def enqueue (q : Head) (before : Node n) (s : Pthreads n) : Pthreads n :=
  { s with
    blockedOn := update s.blockedOn s.current (some q)
    queue := s.queue.insertBefore (.thread s.current) before }

/-- The node of a thread leaves its queue, and `blocked_on` is cleared. -/
def dequeue (t : Up.Task n) (s : Pthreads n) : Pthreads n :=
  { s with
    blockedOn := update s.blockedOn t none
    queue := s.queue.unlink (.thread t) }

/-- The first thread of a queue is taken off and put on the ready list, and whether it was.
`DELAYED` is cleared before `rt_rem_timed_task` looks for it. -/
def wakeFirst (q : Head) (s : Pthreads n) : Option (Pthreads n × Bool) :=
  match s.queue.next (.head q) with
  | .head _ => some (s, false)
  | .thread next =>
      let state := (s.disp.state next).clear (SEMAPHORE.set DELAYED)
      let s := s.dequeue next
      let disp := (s.disp.setState next state).remTimedTask next
      if state = READY then
        (disp.enqReadyTask next).map fun disp => ({ s with disp := disp }, true)
      else some ({ s with disp := disp }, false)

/-- Where `priority_enqueue_task` stops.  The priority of a head would be read through
`NULL`. -/
def position (m : Nat) (s : Pthreads n) : Option (Node n) := do
  let q ← seek s.queue.next
    (fun
      | .head _ => true
      | .thread t => s.disp.priority s.current < s.disp.priority t)
    (fuel n) (s.queue.next (.head (.mutex m)))
  match q with
  | .head q' => if q' = .mutex m then some q else none
  | .thread _ => some q

def mutexInheritPrio (m : Nat) (s : Pthreads n) : Option (Pthreads n) :=
  (s.mutex m).mOwner.map fun owner =>
    let priority := s.disp.priority s.current
    if s.disp.priority owner > priority then { s with disp := s.disp.setPriority owner priority }
    else s

/-! ## Mutexes -/

/-- The mutex is the caller's. -/
def grab (m : Nat) (count : Int) (s : Pthreads n) : Pthreads n :=
  s.setMutex m { s.mutex m with mOwner := some s.current, count := count, owndby := some s.current }

/-- The caller waits for the mutex, up to `LXRT_SUSPEND`. -/
def waitMutex (m : Nat) (s : Pthreads n) : Option (Pthreads n) := do
  let s := { s with disp := s.disp.blockCurrent SEMAPHORE }
  let q ← s.position m
  (s.enqueue (.mutex m) q).mutexInheritPrio m

/-- `pthread_mutex_lock` up to `LXRT_SUSPEND`, with what it returns without it. -/
def pthreadMutexLock (m : Nat) (s : Pthreads n) : Option (Pthreads n × Option Int) :=
  let v := s.mutex m
  if ¬v.magic then some (s, some EINVAL)
  else
    match v.mKind with
    | .fast | .errorcheck =>
        if v.count > 0 then some (s.grab m 0, some 0)
        else (s.waitMutex m).map fun s => (s, none)
    | .recursive =>
        if v.count = 0 ∨ v.mOwner = some s.current then some (s.grab m (v.count - 1), some 0)
        else (s.waitMutex m).map fun s => (s, none)
    | .other => some (s, some EINVAL)

/-- `pthread_mutex_lock` behind `LXRT_SUSPEND`. -/
def pthreadMutexLockRest (m : Nat) (s : Pthreads n) : Pthreads n × Int :=
  if (s.blockedOn s.current).isSome ∨ ¬(s.mutex m).magic then (s, EINVAL)
  else (s.grab m 0, 0)

/-- The mutex is free, and the caller's priority its own again. -/
def release (m : Nat) (owndby : Option (Up.Task n)) (s : Pthreads n) : Pthreads n :=
  { s.setMutex m { s.mutex m with mOwner := none, count := 1, owndby := owndby } with
    disp := s.disp.setPriority s.current (s.basePriority s.current) }

/-- `pthread_mutex_unlock` up to `LXRT_SUSPEND`, behind which it does nothing, and whether it
comes there. -/
def pthreadMutexUnlock (m : Nat) (s : Pthreads n) : Option (Pthreads n × Bool) :=
  let v := s.mutex m
  if ¬v.magic ∨ v.mOwner ≠ some s.current then some (s, false)
  else
    match v.mKind with
    | .fast => (s.release m none).wakeFirst (.mutex m)
    | .recursive =>
        if v.count + 1 ≤ 0 then some (s.setMutex m { v with count := v.count + 1 }, false)
        else (s.release m v.owndby).wakeFirst (.mutex m)
    | .errorcheck =>
        if v.count = 1 then some (s, false) else (s.release m v.owndby).wakeFirst (.mutex m)
    | .other => some (s, false)

/-! ## Condition variables -/

/-- `pthread_cond_wait`. -/
def pthreadCondWait (c m : Nat) (k : Clock) (s : Pthreads n) : Option (Pthreads n) := do
  let s := { s with disp := s.disp.blockCurrent SEMAPHORE }.enqueue (.cond c) (.head (.cond c))
  let (s, suspends) ← s.pthreadMutexUnlock m
  if suspends then s.suspend k (.waitUnlocked m) else s.suspend k (.waitSuspended m)

/-- `pthread_cond_timedwait` up to the first `rt_global_restore_flags`. -/
def pthreadCondTimedwait (c m : Nat) (time : RTIME) (s : Pthreads n) : Option (Pthreads n) :=
  let self := s.current
  let s := { s with
    disp := (s.disp.setResumeTime self time).blockCurrent (SEMAPHORE.set DELAYED) }
  let s := s.enqueue (.cond c) (.head (.cond c))
  (s.disp.enqTimedTask self).map fun d => { s with disp := d }.setPc (.timedEnqueued m)

/-- `pthread_cond_signal`. -/
def pthreadCondSignal (c : Nat) (k : Clock) (s : Pthreads n) : Option (Pthreads n) := do
  let (s, woken) ← s.wakeFirst (.cond c)
  if woken then s.suspend k .user else some s

/-- The loop of `pthread_cond_broadcast`. -/
def wakeAll (q : Head) : Nat → Pthreads n → Option (Pthreads n)
  | 0, _ => none
  | i + 1, s =>
      match s.queue.next (.head q) with
      | .head _ => some s
      | .thread _ => (s.wakeFirst q).bind fun p => p.1.wakeAll q i

/-- `pthread_cond_broadcast`. -/
def pthreadCondBroadcast (c : Nat) (k : Clock) (s : Pthreads n) : Option (Pthreads n) := do
  let s ← s.wakeAll (.cond c) (fuel n)
  s.suspend k .user

/-- A wait takes its mutex again and returns `v`. -/
def relock (m : Nat) (v : Int) (k : Clock) (s : Pthreads n) : Option (Pthreads n) := do
  let (s, result) ← s.pthreadMutexLock m
  if result.isSome then some (s.finish v) else s.suspend k (.locking m (some v))

/-- The current thread goes on. -/
def goOn (k : Clock) (s : Pthreads n) : Option (Pthreads n) :=
  match s.pc s.current with
  | .user => none
  | .waitUnlocked m => s.suspend k (.waitSuspended m)
  | .waitSuspended m => s.relock m 0 k
  | .timedEnqueued m => do
      let (s, suspends) ← s.pthreadMutexUnlock m
      if suspends then s.suspend k (.timedUnlocked m) else some (s.setPc (.timedUnlocked m))
  | .timedUnlocked m => s.suspend k (.timedSuspended m)
  | .timedSuspended m =>
      if (s.blockedOn s.current).isSome then
        some ((s.dequeue s.current).setPc (.timedDequeued m true))
      else some (s.setPc (.timedDequeued m false))
  | .timedDequeued m semret => s.relock m (if semret then ETIMEDOUT else 0) k
  | .locking m result =>
      let s := (s.pthreadMutexLockRest m).1
      match result with
      | none => some (s.setPc .user)
      | some v => some (s.finish v)

/-! ## The machine -/

/-- What a thread calls. -/
inductive Call where
  | wait (c m : Nat)
  | timedwait (c m : Nat) (time : RTIME)
  | signal (c : Nat)
  | broadcast (c : Nat)
  | lock (m : Nat)
  | unlock (m : Nat)

/-- A call, the current thread going on in one, or the timer interrupt. -/
inductive Event where
  | call (call : Call) (k : Clock)
  | goOn (k : Clock)
  | timer (k : Clock)

def call (k : Clock) : Call → Pthreads n → Option (Pthreads n)
  | .wait c m, s => s.pthreadCondWait c m k
  | .timedwait c m time, s => s.pthreadCondTimedwait c m time
  | .signal c, s => s.pthreadCondSignal c k
  | .broadcast c, s => s.pthreadCondBroadcast c k
  | .lock m, s => do
      let (s, result) ← s.pthreadMutexLock m
      if result.isSome then some s else s.suspend k (.locking m none)
  | .unlock m, s => do
      let (s, suspends) ← s.pthreadMutexUnlock m
      if suspends then s.suspend k .user else some s

/-- Linux is no thread, and a thread calls when it is not inside a function. -/
def step (e : Event) (s : Pthreads n) : Option (Pthreads n) :=
  let s := { s with returned := none }
  match e with
  | .call op k => if s.current ≠ rtLinuxTask ∧ s.pc s.current = .user then s.call k op else none
  | .goOn k => s.goOn k
  | .timer k => (s.disp.rtTimerHandler k).map fun d => { s with disp := d }

end Pthreads

end Rtai.Posix
