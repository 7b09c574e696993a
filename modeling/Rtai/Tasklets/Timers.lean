import Rtai.Lib.Priority
import Mathlib.Data.Fintype.Basic
import Mathlib.Algebra.Ring.Nat

/-!
# Timed tasklets

`timers_list` and the services on it, with the task `timers_manager` that serves it.  The
services hold a lock only while they write the list or the manager, so that each of them is
in several steps, and the steps of others come in between.

The head of the list, with `RT_TIME_END` for a firing time, is not in `timers`.  What is
asked of a caller is that a timer is inserted only while it is not on the list.
-/

namespace Rtai.Tasklets

open Function Rtai.Lib

def RT_TIME_END : Int := 0x7FFFFFFFFFFFFFFF
def RT_LOWEST_PRIORITY : Int := 0x3fffffff

/-- The sum of two `RTIME`. -/
def addTime (a b : Int) : Int := (a + b).bmod (2 ^ 64)

/-- What the services use of `struct rt_tasklet_struct`. -/
structure Timer where
  priority : Int
  firingTime : Int
  period : Int
deriving DecidableEq

/-- Where `rt_timers_manager` is. -/
inductive Manager (T : Type) where
  /-- It will read the first firing time. -/
  | reading
  /-- It has read it, and will call `rt_sleep_until`. -/
  | calling (time : Int)
  /-- `DELAYED`. -/
  | asleep
  /-- It will look for a timer to be fired. -/
  | scanning (now : Int)
  | firing (now : Int) (timer : T)
  /-- In `set_timer_firing_time`, before the lock. -/
  | relinking (now : Int) (timer : T) (time : Int)
deriving DecidableEq

/-- Where a service of another task is. -/
inductive Call (T : Type) where
  /-- In `rt_insert_timer`, before the first lock. -/
  | linking (timer : T) (time : Int)
  /-- In `set_timer_firing_time`, before the lock. -/
  | relinking (timer : T) (time : Int)
  /-- Before the section that corrects the manager. -/
  | correcting (timer : T) (time : Int)
deriving DecidableEq

/-- The timer of a service. -/
def Call.timer {T : Type} : Call T → T
  | .linking t _ | .relinking t _ | .correcting t _ => t

/-- The list, the manager, and the services of the tasks `C`. -/
structure State (T C : Type) where
  timers : List T := []
  timer : T → Timer
  manager : Manager T := .reading
  /-- `timers_manager.resume_time`. -/
  resumeTime : Int := 0
  calls : C → Option (Call T) := fun _ => none

/-- The steps of the services and of the manager.  The scheduler compares with `rt_time_h`. -/
inductive Event (T C : Type) where
  /-- `rt_insert_timer` up to the first lock. -/
  | insert (c : C) (t : T) (v : Timer)
  | link (c : C)
  /-- `rt_set_timer_firing_time` up to the first lock. -/
  | retime (c : C) (t : T) (time : Int)
  | relink (c : C)
  | correct (c : C)
  /-- `rt_remove_timer`. -/
  | remove (t : T)
  /-- `rt_timers_manager`. -/
  | read
  | sleepUntil (timeH : Int)
  | wake (timeH : Int)
  | scan
  | fire
  | relinkFired

namespace State

variable {T C : Type}

def firingTime (s : State T C) (t : T) : Int := (s.timer t).firingTime

/-- `(timers_list.next)->firing_time`. -/
def firstTime (s : State T C) : Int := (s.timers.head?.map s.firingTime).getD RT_TIME_END

/-- The search for a place goes past the timer. -/
def Past (s : State T C) (time : Int) (u _ : T) : Prop := s.firingTime u ≤ time

instance (s : State T C) (time : Int) : DecidableRel (s.Past time) :=
  fun u _ => inferInstanceAs (Decidable (s.firingTime u ≤ time))

variable [DecidableEq T] [DecidableEq C]

/-- The timer is put before the first one that fires later. -/
def link (t : T) (time : Int) (s : State T C) : State T C :=
  { s with timers := enqueue (s.Past time) t s.timers }

def unlink (t : T) (s : State T C) : State T C := { s with timers := s.timers.erase t }

def setTimer (t : T) (v : Timer) (s : State T C) : State T C :=
  { s with timer := update s.timer t v }

def setCall (c : C) (call : Option (Call T)) (s : State T C) : State T C :=
  { s with calls := update s.calls c call }

def setManager (m : Manager T) (s : State T C) : State T C := { s with manager := m }

/-- `set_timer_firing_time` up to the lock, for a timer on the list. -/
def storeTime (t : T) (time : Int) (s : State T C) : State T C :=
  s.setTimer t { s.timer t with firingTime := time }

/-- The last section of `rt_insert_timer` and `rt_set_timer_firing_time`. -/
def correct (t : T) (time : Int) (s : State T C) : State T C :=
  if s.timers.head? = some t ∧ s.manager = .asleep ∧ time < s.resumeTime then
    { s with resumeTime := time }
  else s

/-- The timer to be fired: of those that are due the first one of the highest priority. -/
def due (now : Int) (s : State T C) : Option T :=
  (s.timers.takeWhile fun t => s.firingTime t ≤ now).foldl
    (fun timer tmr =>
      if (s.timer tmr).priority < (timer.map fun t => (s.timer t).priority).getD RT_LOWEST_PRIORITY
      then some tmr else timer) none

end State

variable {T C : Type} [DecidableEq T] [DecidableEq C]

/-- A search for a place or for a due timer does not end with `RT_TIME_END`; `tol` is
`tuned.timers_tol[0]`. -/
def step (tol : Int) : Event T C → State T C → Option (State T C)
  | .insert c t v, s =>
      if s.calls c = none ∧ t ∉ s.timers then
        some ((s.setTimer t v).setCall c (some (.linking t v.firingTime)))
      else none
  | .link c, s =>
      match s.calls c with
      | some (.linking t time) =>
          if time < RT_TIME_END then
            some ((s.link t time).setCall c (some (.correcting t time)))
          else none
      | _ => none
  | .retime c t time, s =>
      if s.calls c = none then
        if t ∈ s.timers then
          some ((s.storeTime t time).setCall c (some (.relinking t time)))
        else some (s.setCall c (some (.correcting t time)))
      else none
  | .relink c, s =>
      match s.calls c with
      | some (.relinking t time) =>
          if time < RT_TIME_END then
            some (((s.unlink t).link t time).setCall c (some (.correcting t time)))
          else none
      | _ => none
  | .correct c, s =>
      match s.calls c with
      | some (.correcting t time) => some ((s.correct t time).setCall c none)
      | _ => none
  | .remove t, s => some (s.unlink t)
  | .read, s =>
      match s.manager with
      | .reading => some (s.setManager (.calling s.firstTime))
      | _ => none
  | .sleepUntil timeH, s =>
      match s.manager with
      | .calling time =>
          some { s with
            resumeTime := time
            manager := if time > timeH then .asleep else .scanning (addTime time tol) }
      | _ => none
  | .wake timeH, s =>
      match s.manager with
      | .asleep =>
          if s.resumeTime ≤ timeH then
            some (s.setManager (.scanning (addTime s.resumeTime tol)))
          else none
      | _ => none
  | .scan, s =>
      match s.manager with
      | .scanning now =>
          if now < RT_TIME_END then
            some (s.setManager
              (match s.due now with
              | some t => .firing now t
              | none => .reading))
          else none
      | _ => none
  | .fire, s =>
      match s.manager with
      | .firing now t =>
          some (if (s.timer t).period = 0 then (s.unlink t).setManager (.scanning now)
            else if t ∈ s.timers then
              (s.storeTime t (addTime (s.firingTime t) (s.timer t).period)).setManager
                (.relinking now t (addTime (s.firingTime t) (s.timer t).period))
            else s.setManager (.scanning now))
      | _ => none
  | .relinkFired, s =>
      match s.manager with
      | .relinking now t time =>
          if time < RT_TIME_END then
            some (((s.unlink t).link t time).setManager (.scanning now))
          else none
      | _ => none

end Rtai.Tasklets
