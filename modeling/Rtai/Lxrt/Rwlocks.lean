import Rtai.Lib.Run
import Rtai.Lxrt.Resource
import Mathlib.Data.Fintype.Basic

/-!
# Readers-writer locks

`RWL` and its services.  A service holds the global lock up to `rt_schedule` or its end and
from there on again, except for `rt_rwl_unlock`, which gives the global lock back in its
middle.  `rdsem.owndby`, which counts the readers, is `readers` here.

Beside the lock the state records the holds: a task is in `reads` once for each read lock
that it has and has not unlocked, and in `writes` once for each write lock.
-/

namespace Rtai.Lxrt.Rwl

open Function Rtai.Lib

/-- The three semaphores of an `RWL`. -/
inductive RwlSem where
  | wrmtx
  | wrsem
  | rdsem
deriving DecidableEq

/-- Where a task is; a wait is plain or has a timer. -/
inductive Phase where
  /-- In no service. -/
  | idle
  /-- In a read lock, waiting on `rdsem`. -/
  | reading (timed : Bool)
  /-- In a write lock, waiting on `wrsem`. -/
  | writing (timed : Bool)
  /-- In a write lock, waiting on `wrmtx`. -/
  | claiming (timed : Bool)
  /-- In the middle of `rt_rwl_unlock`. -/
  | unlocking
deriving DecidableEq

/-- The wait of a task. -/
def Phase.wait : Phase → Option (RwlSem × Bool)
  | .reading timed => some (.rdsem, timed)
  | .writing timed => some (.wrsem, timed)
  | .claiming timed => some (.wrmtx, timed)
  | .idle | .unlocking => none

/-- An `RWL`, the tasks, and the holds. -/
structure State (T : Type) where
  kernel : Kernel RwlSem T
  /-- `rdsem.owndby`. -/
  readers : Int := 0
  phase : T → Phase
  reads : List T := []
  writes : List T := []

/-- The services, a timer, and a task going on behind `rt_schedule`.  Where a wait is until a
time, the time may be late whenever it is looked at. -/
inductive Event (T : Type) where
  /-- `rt_rwl_rdlock`, or `rt_rwl_rdlock_until`. -/
  | rdlock (self : T) (how : Option Bool)
  /-- `rt_rwl_wrlock`, or `rt_rwl_wrlock_until`. -/
  | wrlock (self : T) (how : Option Bool)
  /-- `rt_rwl_unlock` up to where it gives the global lock back, and from there on. -/
  | unlock (self : T)
  | unlockEnd (self : T)
  | goOn (self : T) (late : Bool)
  | expire (t : T)
  | priority (t : T) (p : Int)

namespace State

variable {T : Type}

def waits (s : State T) : T → Option (RwlSem × Bool) := Phase.wait ∘ s.phase

/-- The owner of `wrmtx`. -/
def owndby (s : State T) : Option T := (s.kernel.sem .wrmtx).owndby

/-- The first task of the queue of a semaphore. -/
def first (i : RwlSem) (s : State T) : Option T := (s.kernel.sem i).queue.head?

def priority (t : T) (s : State T) : Int := (s.kernel.task t).priority

/-- A waiting writer that is as urgent as the task. -/
def writerFirst (self : T) (s : State T) : Bool :=
  (s.first .wrsem).any fun wtask => s.priority wtask ≤ s.priority self

variable [DecidableEq T]

def setPhase (t : T) (p : Phase) (s : State T) : State T :=
  { s with phase := update s.phase t p }

/-- A read lock from its test on.  A round that does not block takes one from the count of
`rdsem`, so that there are no more than the count and one. -/
def rdlockLoop (self : T) (how : Option Bool) : Nat → State T → State T
  | 0, s => s
  | n + 1, s =>
      if s.owndby.isSome ∨ s.writerFirst self then
        if s.owndby = some self then s.setPhase self .idle
        else
          let (k, ret) := s.kernel.waitFor how .rdsem self
          let s := { s with kernel := k }
          match ret with
          | none => s.setPhase self (.reading how.isSome)
          | some ret => if ret ≥ SEM_TIMOUT then s.setPhase self .idle else rdlockLoop self how n s
      else { s.setPhase self .idle with readers := s.readers + 1, reads := self :: s.reads }

/-- The rounds of a loop that waits on the semaphore. -/
def rounds (i : RwlSem) (s : State T) : Nat := (s.kernel.sem i).count.toNat + 1

/-- The end of a write lock, a wait on `wrmtx`. -/
def claim (self : T) (how : Option Bool) (s : State T) : State T :=
  let (k, ret) := s.kernel.waitFor how .wrmtx self
  let s := { s with kernel := k }
  match ret with
  | none => s.setPhase self (.claiming how.isSome)
  | some ret =>
      if ret ≥ SEM_TIMOUT then s.setPhase self .idle
      else { s.setPhase self .idle with writes := self :: s.writes }

/-- A write lock from its test on. -/
def wrlockLoop (self : T) (how : Option Bool) : Nat → State T → State T
  | 0, s => s
  | n + 1, s =>
      if s.readers ≠ 0 then
        let (k, ret) := s.kernel.waitFor how .wrsem self
        let s := { s with kernel := k }
        match ret with
        | none => s.setPhase self (.writing how.isSome)
        | some ret => if ret ≥ SEM_TIMOUT then s.setPhase self .idle else wrlockLoop self how n s
      else s.claim self how

def rtRwlRdlock (self : T) (s : State T) : State T := s.rdlockLoop self none (s.rounds .rdsem)

def rtRwlRdlockUntil (self : T) (late : Bool) (s : State T) : State T :=
  s.rdlockLoop self (some late) (s.rounds .rdsem)

def rtRwlWrlock (self : T) (s : State T) : State T := s.wrlockLoop self none (s.rounds .wrsem)

def rtRwlWrlockUntil (self : T) (late : Bool) (s : State T) : State T :=
  s.wrlockLoop self (some late) (s.rounds .wrsem)

/-- One hold of the task ends. -/
def dropHold (self : T) (s : State T) : State T :=
  if self ∈ s.writes then { s with writes := s.writes.erase self }
  else { s with reads := s.reads.erase self }

/-- `rt_rwl_unlock` up to its middle. -/
def rtRwlUnlock (self : T) (s : State T) : State T :=
  let s := (s.dropHold self).setPhase self .unlocking
  if s.owndby.isSome then { s with kernel := s.kernel.rtSemSignal .wrmtx }
  else if s.readers ≠ 0 then { s with readers := s.readers - 1 }
  else s

/-- The semaphore that `rt_rwl_unlock` signals from its middle on. -/
def wakes (s : State T) : Option RwlSem :=
  if s.owndby = none ∧ s.readers = 0 then
    match s.first .wrsem, s.first .rdsem with
    | some wtask, some rtask =>
        if s.priority wtask < s.priority rtask then some .wrsem else some .rdsem
    | some _, none => some .wrsem
    | none, some _ => some .rdsem
    | none, none => none
  else none

/-- `rt_rwl_unlock` from its middle on. -/
def rtRwlUnlockEnd (self : T) (s : State T) : State T :=
  let s' := s.setPhase self .idle
  match s.wakes with
  | some i => { s' with kernel := s.kernel.rtSemSignal i }
  | none => s'

/-- A task goes on behind `rt_schedule`. -/
def goOn (self : T) (late : Bool) (s : State T) : State T :=
  let how (timed : Bool) : Option Bool := if timed then some late else none
  match s.phase self with
  | .reading timed =>
      let (k, ret) := s.kernel.waitForEnd timed .rdsem self
      let s := { s with kernel := k }
      if ret ≥ SEM_TIMOUT then s.setPhase self .idle
      else s.rdlockLoop self (how timed) (s.rounds .rdsem)
  | .writing timed =>
      let (k, ret) := s.kernel.waitForEnd timed .wrsem self
      let s := { s with kernel := k }
      if ret ≥ SEM_TIMOUT then s.setPhase self .idle
      else s.wrlockLoop self (how timed) (s.rounds .wrsem)
  | .claiming timed =>
      let (k, ret) := s.kernel.waitForEnd timed .wrmtx self
      let s := { s with kernel := k }
      if ret ≥ SEM_TIMOUT then s.setPhase self .idle
      else { s.setPhase self .idle with writes := self :: s.writes }
  | .idle | .unlocking => s

/-- `rt_rwl_init`, with every task ready and in no service. -/
structure Initial (s : State T) : Prop where
  wrmtx : s.kernel.sem .wrmtx = rtTypedSemInit 1 .RES_SEM
  wrsem : s.kernel.sem .wrsem = rtTypedSemInit 0 .CNT_SEM
  rdsem : s.kernel.sem .rdsem = rtTypedSemInit 0 .CNT_SEM
  readers : s.readers = 0
  ready : ∀ t, (s.kernel.task t).Ready
  phase : ∀ t, s.phase t = .idle
  reads : s.reads = []
  writes : s.writes = []

end State

variable {T : Type} [DecidableEq T]

/-- A task calls only outside a service, and unlocks only what it holds. -/
def step : Event T → State T → Option (State T)
  | .rdlock self how, s =>
      if s.phase self = .idle then
        some (match how with
          | none => s.rtRwlRdlock self
          | some late => s.rtRwlRdlockUntil self late)
      else none
  | .wrlock self how, s =>
      if s.phase self = .idle then
        some (match how with
          | none => s.rtRwlWrlock self
          | some late => s.rtRwlWrlockUntil self late)
      else none
  | .unlock self, s =>
      if s.phase self = .idle ∧ (self ∈ s.reads ∨ self ∈ s.writes) then
        some (s.rtRwlUnlock self)
      else none
  | .unlockEnd self, s =>
      if s.phase self = .unlocking then some (s.rtRwlUnlockEnd self) else none
  | .goOn self late, s =>
      if (s.phase self).wait.isSome ∧ (s.kernel.task self).Ready then some (s.goOn self late)
      else none
  | .expire t, s =>
      if (s.kernel.task t).delayed then some { s with kernel := s.kernel.expire t } else none
  | .priority t p, s => some { s with kernel := s.kernel.changePriority t p }

end Rtai.Lxrt.Rwl
