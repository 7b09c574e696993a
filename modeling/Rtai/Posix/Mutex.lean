import Rtai.Up.Dispatcher
import Rtai.Lib.Run

/-!
# POSIX mutexes

The functions of `rtai_pthread.c` on a mutex, for threads of an arbitrary type.  The
queue of its semaphore is the list of the tasks linked on it, from the head on.

`LXRT_SUSPEND` is `rt_schedule`: a function stops there, and what is behind it runs
when the thread does again.  Which ready thread that is, is left open, as is whatever
else changes the priorities and the state of a thread.
-/

namespace Rtai.Posix

open Function
open Rtai.Up (TaskState READY SEMAPHORE DELAYED)

def EPERM : Int := 1
def EBUSY : Int := 16
def EINVAL : Int := 22

/-- `m_kind`. -/
inductive MutexKind where
  | fast
  | recursive
  | errorcheck
  /-- Any other value. -/
  | other
deriving DecidableEq

/-- `m_semaphore`. -/
structure MutexSem (T : Type) where
  /-- `magic == RT_SEM_MAGIC`. -/
  magic : Bool := false
  count : Int := 0
  owndby : Option T := none
  queue : List T := []

/-- `pthread_mutex_t`. -/
structure Mutex (T : Type) where
  mOwner : Option T := none
  mKind : MutexKind := .fast
  mSemaphore : MutexSem T := {}

/-- What the functions use of `RT_TASK`; `blockedOn` says whether `blocked_on` points to
the queue of the mutex. -/
structure Thread where
  priority : Int := 0
  basePriority : Int := 0
  state : TaskState := READY
  blockedOn : Bool := false

/-- A mutex and the threads that use it. -/
structure Threads (T : Type) where
  mutex : Mutex T
  thread : T → Thread

/-- `pthread_mutex_init`. -/
def mutexInit {T : Type} (mutexAttr : Option MutexKind) : Mutex T where
  mOwner := none
  mKind := mutexAttr.getD .fast
  mSemaphore := { magic := true, count := 1 }

namespace Threads

variable {T : Type} [DecidableEq T]

def setThread (t : T) (v : Thread) (s : Threads T) : Threads T :=
  { s with thread := update s.thread t v }

def setSem (v : MutexSem T) (s : Threads T) : Threads T :=
  { s with mutex := { s.mutex with mSemaphore := v } }

def count (s : Threads T) : Int := s.mutex.mSemaphore.count

def queue (s : Threads T) : List T := s.mutex.mSemaphore.queue

/-- The mutex is the caller's, with the given count. -/
def grab (self : T) (count : Int) (s : Threads T) : Threads T :=
  { s with mutex := { s.mutex with
      mOwner := some self
      mSemaphore := { s.mutex.mSemaphore with count := count, owndby := some self } } }

def priorityEnqueueTask (self : T) (s : Threads T) : Threads T :=
  let ahead (t : T) : Bool := (s.thread t).priority ≤ (s.thread self).priority
  s.setSem { s.mutex.mSemaphore with
    queue := s.queue.takeWhile ahead ++ self :: s.queue.dropWhile ahead }

/-- Without an owner the priority is read through `NULL`. -/
def mutexInheritPrio (self : T) (s : Threads T) : Option (Threads T) :=
  s.mutex.mOwner.map fun owner =>
    let v := s.thread owner
    let priority := (s.thread self).priority
    if v.priority > priority then s.setThread owner { v with priority := priority } else s

/-- The caller waits, up to `LXRT_SUSPEND`. -/
def wait (self : T) (s : Threads T) : Option (Threads T) :=
  let v := s.thread self
  let s := s.setThread self { v with state := v.state.set SEMAPHORE, blockedOn := true }
  (s.priorityEnqueueTask self).mutexInheritPrio self

def pthreadMutexTrylock (self : T) (s : Threads T) : Threads T × Int :=
  if ¬s.mutex.mSemaphore.magic then (s, EINVAL)
  else
    match s.mutex.mKind with
    | .fast | .errorcheck => if s.count > 0 then (s.grab self 0, 0) else (s, EBUSY)
    | .recursive =>
        if s.count = 0 ∨ s.mutex.mOwner = some self then (s.grab self (s.count - 1), 0)
        else (s, EBUSY)
    | .other => (s, EINVAL)

/-- `pthread_mutex_lock` up to `LXRT_SUSPEND`, with what it returns without it. -/
def pthreadMutexLock (self : T) (s : Threads T) : Option (Threads T × Option Int) :=
  if ¬s.mutex.mSemaphore.magic then some (s, some EINVAL)
  else
    match s.mutex.mKind with
    | .fast | .errorcheck =>
        if s.count > 0 then some (s.grab self 0, some 0)
        else (s.wait self).map fun s => (s, none)
    | .recursive =>
        if s.count = 0 ∨ s.mutex.mOwner = some self then some (s.grab self (s.count - 1), some 0)
        else (s.wait self).map fun s => (s, none)
    | .other => some (s, some EINVAL)

/-- `pthread_mutex_lock` behind `LXRT_SUSPEND`. -/
def pthreadMutexLockRest (self : T) (s : Threads T) : Threads T × Int :=
  if (s.thread self).blockedOn ∨ ¬s.mutex.mSemaphore.magic then (s, EINVAL)
  else (s.grab self 0, 0)

/-- The head of the queue is taken off and released; the result says whether it was
put on the ready list, behind which `LXRT_SUSPEND` stands. -/
def dequeueNext (s : Threads T) : Threads T × Bool :=
  match s.queue with
  | [] => (s, false)
  | next :: rest =>
      let v := s.thread next
      let state := v.state.clear (SEMAPHORE.set DELAYED)
      ((s.setThread next { v with state := state, blockedOn := false }).setSem
        { s.mutex.mSemaphore with queue := rest }, state = READY)

/-- The mutex is free, and the caller's priority its own again. -/
def release (self : T) (owndby : Option T) (s : Threads T) : Threads T :=
  { s with
    mutex := { s.mutex with
      mOwner := none
      mSemaphore := { s.mutex.mSemaphore with count := 1, owndby := owndby } }
    thread := update s.thread self
      { s.thread self with priority := (s.thread self).basePriority } }

/-- `pthread_mutex_unlock` up to `LXRT_SUSPEND`, with what it returns without it. -/
def pthreadMutexUnlock (self : T) (s : Threads T) : Threads T × Option Int :=
  if ¬s.mutex.mSemaphore.magic ∨ s.mutex.mOwner ≠ some self then (s, some EINVAL)
  else
    let owndby := s.mutex.mSemaphore.owndby
    match s.mutex.mKind with
    | .fast =>
        let (s, suspends) := (s.release self none).dequeueNext
        (s, if suspends then none else some 0)
    | .recursive =>
        let s := s.setSem { s.mutex.mSemaphore with count := s.count + 1 }
        if s.count ≤ 0 then (s, some 0)
        else
          let (s, suspends) := (s.release self owndby).dequeueNext
          (s, if suspends then none else some 0)
    | .errorcheck =>
        if s.count = 1 ∨ s.mutex.mOwner ≠ some self then (s, some EPERM)
        else
          let (s, suspends) := (s.release self owndby).dequeueNext
          (s, if suspends then none else some 0)
    | .other => (s, some EINVAL)

end Threads

/-! ## The machine -/

/-- Where a thread is. -/
inductive Place where
  /-- In its own code. -/
  | own
  /-- At the `LXRT_SUSPEND` of `pthread_mutex_lock`. -/
  | locking
  /-- At the `LXRT_SUSPEND` of `pthread_mutex_unlock`. -/
  | unlocking
deriving DecidableEq

structure Machine (T : Type) where
  threads : Threads T
  place : T → Place
  /-- Between a successful lock or trylock and its unlock. -/
  holds : T → Bool

inductive Event (T : Type) where
  | lock (t : T)
  | trylock (t : T)
  | unlock (t : T)
  /-- The thread goes on behind `LXRT_SUSPEND`. -/
  | resume (t : T)
  /-- Whatever else happens to the threads. -/
  | others (thread : T → Thread)

namespace Machine

variable {T : Type} [DecidableEq T]

/-- The thread can run, and is in its own code. -/
def calls (m : Machine T) (t : T) : Prop :=
  (m.threads.thread t).state = READY ∧ m.place t = .own

instance (m : Machine T) (t : T) : Decidable (m.calls t) := inferInstanceAs (Decidable (_ ∧ _))

/-- The thread has returned `value` from a lock or trylock. -/
def locked (m : Machine T) (t : T) (s : Threads T) (value : Int) : Machine T where
  threads := s
  place := update m.place t .own
  holds := if value = 0 then update m.holds t true else m.holds

def step : Event T → Machine T → Option (Machine T)
  | .lock t, m =>
      if m.calls t then do
        let (s, value) ← m.threads.pthreadMutexLock t
        match value with
        | some value => return m.locked t s value
        | none => return { m with threads := s, place := update m.place t .locking }
      else none
  | .trylock t, m =>
      if m.calls t then
        let (s, value) := m.threads.pthreadMutexTrylock t
        some (m.locked t s value)
      else none
  | .unlock t, m =>
      if m.calls t then
        let (s, value) := m.threads.pthreadMutexUnlock t
        match value with
        | none => some
            { threads := s, place := update m.place t .unlocking, holds := update m.holds t false }
        | some value => some
            { m with threads := s, holds := if value = 0 then update m.holds t false else m.holds }
      else none
  | .resume t, m =>
      if (m.threads.thread t).state = READY then
        match m.place t with
        | .own => none
        | .locking =>
            let (s, value) := m.threads.pthreadMutexLockRest t
            some (m.locked t s value)
        | .unlocking => some { m with place := update m.place t .own }
      else none
  | .others thread, m => some { m with threads := { m.threads with
      thread := fun t =>
        let v := m.threads.thread t
        { thread t with
          blockedOn := v.blockedOn
          state := { (thread t).state with semaphore := v.state.semaphore } } } }

end Machine

end Rtai.Posix
