import Rtai.Lib.Run

/-!
# Bit synchronisation

The waits and the signal of `rtai_bits.c` with the tests and operations of one mask, for
masks of any width and tasks of an arbitrary type.  A call holds the global lock up to
`rt_schedule` or its end, and from there to its end when it goes on, so that a wait that
blocks is two steps.  What is read of the clock, and when a timer expires, is left open.
-/

namespace Rtai.Bits

open Function

variable {w : Nat}

/-! ## Tests and operations -/

def allSet (bits mask : BitVec w) : Bool := bits &&& mask = mask

def anySet (bits mask : BitVec w) : Bool := bits &&& mask ≠ 0

def allClr (bits mask : BitVec w) : Bool := ~~~bits &&& mask = mask

def anyClr (bits mask : BitVec w) : Bool := ~~~bits &&& mask ≠ 0

/-- The tests of `test_fun` that take one mask. -/
inductive TestFun where
  | ALL_SET
  | ANY_SET
  | ALL_CLR
  | ANY_CLR
deriving DecidableEq

/-- `test_fun`. -/
def testFun : TestFun → BitVec w → BitVec w → Bool
  | .ALL_SET => allSet
  | .ANY_SET => anySet
  | .ALL_CLR => allClr
  | .ANY_CLR => anyClr

def setBits (bits mask : BitVec w) : BitVec w := bits ||| mask

def clrBits (bits mask : BitVec w) : BitVec w := bits &&& ~~~mask

def nopFun (bits _mask : BitVec w) : BitVec w := bits

/-- The operations of `exec_fun` that take one mask. -/
inductive ExecFun where
  | SET_BITS
  | CLR_BITS
  | NOP_BITS
deriving DecidableEq

/-- `exec_fun`. -/
def execFun : ExecFun → BitVec w → BitVec w → BitVec w
  | .SET_BITS => setBits
  | .CLR_BITS => clrBits
  | .NOP_BITS => nopFun

/-! ## Tasks and the object -/

def BITS_ERR : Int := 0xffff
def BITS_TIMOUT : Int := 0xfffe

/-- The arguments of a wait. -/
structure Wait (w : Nat) where
  testfun : TestFun
  testmasks : BitVec w
  exitfun : ExecFun
  exitmasks : BitVec w
  /-- `resulting_mask` is not `NULL`. -/
  resulting : Bool
deriving DecidableEq

namespace Wait

/-- The test of the wait. -/
def test (wait : Wait w) (mask : BitVec w) : Bool := testFun wait.testfun mask wait.testmasks

/-- The exit operation of the wait. -/
def exec (wait : Wait w) (mask : BitVec w) : BitVec w := execFun wait.exitfun mask wait.exitmasks

end Wait

/-- The three waits. -/
inductive Kind where
  | wait
  | waitIf
  | waitUntil
deriving DecidableEq

/-- What the waits read and write of a task, and where it goes on behind `rt_schedule`. -/
structure Task (w : Nat) where
  /-- `SEMAPHORE` in `state`. -/
  semaphore : Bool := false
  /-- `DELAYED` in `state`, for a task on the timed list. -/
  delayed : Bool := false
  /-- `blocked_on` is not `NOTHING`. -/
  blockedOn : Bool := false
  /-- `TEST_FUN`. -/
  testFun : TestFun := .ALL_SET
  /-- `TEST_MASK`. -/
  testMask : BitVec w := 0
  /-- The wait that has called `rt_schedule`. -/
  pending : Option (Kind × Wait w) := none

/-- What a wait has returned, and stored at `resulting_mask`. -/
structure Reply (T : Type) (w : Nat) where
  self : T
  kind : Kind
  wait : Wait w
  value : Int
  stored : Option (BitVec w)

/-- A wait returns 0 on success, `rt_bits_wait_if` 1. -/
def Reply.Success {T : Type} (r : Reply T w) : Prop := r.value = if r.kind = .waitIf then 1 else 0

/-- The object and the tasks, and what the last step returned. -/
structure State (T : Type) (w : Nat) where
  mask : BitVec w
  /-- The tasks of `queue`, in its order. -/
  queue : List T := []
  task : T → Task w := fun _ => {}
  reply : Option (Reply T w) := none

namespace State

variable {T : Type} [DecidableEq T]

def setTask (t : T) (task : Task w) (s : State T w) : State T w :=
  { s with task := update s.task t task }

def enqueueBlocked (t : T) (s : State T w) : State T w :=
  { s.setTask t { s.task t with blockedOn := true } with queue := s.queue ++ [t] }

def dequeueBlocked (t : T) (s : State T w) : State T w :=
  { s.setTask t { s.task t with blockedOn := false } with queue := s.queue.erase t }

/-- The task is taken off the timed list and made ready. -/
def makeReady (t : T) (s : State T w) : State T w :=
  s.setTask t { s.task t with semaphore := false, delayed := false }

/-- The loop of `rt_bits_signal` over the tasks of the queue. -/
def signalLoop : List T → State T w → State T w
  | [], s => s
  | t :: q, s =>
      if testFun (s.task t).testFun s.mask (s.task t).testMask then
        signalLoop q ((s.dequeueBlocked t).makeReady t)
      else signalLoop q s

def rtBitsSignal (setfun : ExecFun) (masks : BitVec w) (s : State T w) : State T w :=
  let s := { s with mask := execFun setfun s.mask masks, reply := none }
  signalLoop s.queue s

/-- The value of `bits->mask` that a wait stores. -/
def stored (wait : Wait w) (s : State T w) : Option (BitVec w) :=
  if wait.resulting then some s.mask else none

/-- The end of a wait that succeeds: `*resulting_mask = bits->mask`, then the exit operation. -/
def succeed (self : T) (kind : Kind) (wait : Wait w) (s : State T w) : State T w :=
  { s with
    mask := wait.exec s.mask
    reply := some ⟨self, kind, wait, if kind = .waitIf then 1 else 0, s.stored wait⟩ }

/-- The end of a wait that fails. -/
def fail (self : T) (kind : Kind) (wait : Wait w) (value : Int) (s : State T w) : State T w :=
  { s with reply := some ⟨self, kind, wait, value, s.stored wait⟩ }

/-- What a wait leaves for the signals. -/
def announce (self : T) (wait : Wait w) (s : State T w) : State T w :=
  s.setTask self { s.task self with testFun := wait.testfun, testMask := wait.testmasks }

/-- The call of `rt_schedule` by a task that is not ready any more. -/
def block (self : T) (kind : Kind) (wait : Wait w) (s : State T w) : State T w :=
  let s := s.enqueueBlocked self
  { s.setTask self { s.task self with
      semaphore := true
      delayed := kind = .waitUntil
      pending := some (kind, wait) } with reply := none }

/-- `rt_bits_wait` up to `rt_schedule`. -/
def rtBitsWait (self : T) (wait : Wait w) (s : State T w) : State T w :=
  if wait.test s.mask then s.succeed self .wait wait
  else (s.announce self wait).block self .wait wait

def rtBitsWaitIf (self : T) (wait : Wait w) (s : State T w) : State T w :=
  if wait.test s.mask then s.succeed self .waitIf wait
  else s.fail self .waitIf wait 0

/-- `rt_bits_wait_until` up to `rt_schedule`.  Where the time is `late`, not later than
`rt_get_time()`, the task is linked to itself and taken off again. -/
def rtBitsWaitUntil (self : T) (wait : Wait w) (late : Bool) (s : State T w) : State T w :=
  if wait.test s.mask then s.succeed self .waitUntil wait
  else if late then (s.announce self wait).fail self .waitUntil wait BITS_TIMOUT
  else (s.announce self wait).block self .waitUntil wait

/-- A wait behind `rt_schedule`. -/
def goOn (self : T) (kind : Kind) (wait : Wait w) (s : State T w) : State T w :=
  let s := s.setTask self { s.task self with pending := none }
  if (s.task self).blockedOn then
    match kind with
    | .waitUntil => (s.dequeueBlocked self).fail self kind wait BITS_TIMOUT
    | _ => s.fail self kind wait BITS_ERR
  else s.succeed self kind wait

/-- The timer of a task expires: the task is ready again, and stays in the queue. -/
def expire (t : T) (s : State T w) : State T w := { s.makeReady t with reply := none }

end State

/-! ## The machine -/

/-- A call, the expiry of a timer, or a task going on behind `rt_schedule`. -/
inductive Event (T : Type) (w : Nat) where
  | signal (setfun : ExecFun) (masks : BitVec w)
  | wait (self : T) (wait : Wait w)
  | waitIf (self : T) (wait : Wait w)
  | waitUntil (self : T) (wait : Wait w) (late : Bool)
  | expire (t : T)
  | goOn (self : T)
deriving DecidableEq

variable {T : Type} [DecidableEq T]

/-- A task calls only when it is not inside a wait, and goes on only when it is ready. -/
def step : Event T w → State T w → Option (State T w)
  | .signal setfun masks, s => some (s.rtBitsSignal setfun masks)
  | .wait self wait, s =>
      if (s.task self).pending.isNone then some (s.rtBitsWait self wait) else none
  | .waitIf self wait, s =>
      if (s.task self).pending.isNone then some (s.rtBitsWaitIf self wait) else none
  | .waitUntil self wait late, s =>
      if (s.task self).pending.isNone then some (s.rtBitsWaitUntil self wait late) else none
  | .expire t, s => if (s.task t).delayed then some (s.expire t) else none
  | .goOn self, s =>
      match (s.task self).pending with
      | some (kind, wait) =>
          if (s.task self).semaphore ∨ (s.task self).delayed then none
          else some (s.goOn self kind wait)
      | none => none

end Rtai.Bits
