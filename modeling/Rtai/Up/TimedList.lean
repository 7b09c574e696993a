import Rtai.Up.Upkeep

/-!
# The timed list over whole runs

`timed_list` is the invariant for every run of the timed services and of those
that end a wait early: the circular list through `rt_linux_task.tnext` holds the
tasks whose `DELAYED` bit is set, each once, in the order of their resume times
and with Linux last.

The runs meet three conditions.  `rt_task_resume` takes a task off the list and
leaves its bit set, so it must not end the suspension of a sleeping task
(`timed_list_corrupted`); a task that is only about to be suspended is put on
the ready list twice, and may then run while it sleeps.
`rt_task_make_periodic` gives a sleeping task a new time and leaves it where it
is.  `rt_set_resume_time` does move it, but decides by the sign of a 64-bit
difference, which may overflow.
-/

namespace Rtai.Up

open Function Rtai.Lib

namespace TimedList

variable {n : Nat}

/-- The services of the runs. -/
def services : Event n → Bool
  | .call (.taskInit _ _ _) _ | .call (.typedSemInit _ _ _) _
  | .call (.sleep _) _ | .call (.sleepUntil _) _ | .call .taskWaitPeriod _
  | .call (.taskMakePeriodic _ _ _) _ | .call (.taskMakePeriodicRelativeNs _ _ _) _
  | .call (.setResumeTime _ _) _ | .call (.semWaitUntil _ _) _ | .call (.sendUntil _ _ _) _
  | .call (.receiveUntil _ _) _ | .call (.taskSuspend _) _ | .call (.taskResume _) _
  | .call (.taskWakeupSleeping _) _ | .call (.semSignal _) _ => true
  | .call _ _ => false
  | .resume _ | .timer _ => true

/-- `rt_task_resume` ends no suspension that was put off, nor that of a sleeping
task, and a new time for a sleeping task that is left where it is lies between
its neighbours'. -/
def keepsTimed (s : System n) : Event n → Bool
  | .call (.taskResume t) _ => s.suspdepth t ≠ 1 || (s.state t ≠ READY && !(s.state t).delayed)
  | .call (.taskMakePeriodicRelativeNs t startDelay _) c => !(s.state t).delayed ||
      Fits s.disp.timed s.disp.resumeTime t
        (s.disp.rtGetTime c + nano2count s.disp.timer startDelay)
  | .call (.taskMakePeriodic t startTime _) _ => !(s.state t).delayed ||
      Fits s.disp.timed s.disp.resumeTime t startTime
  | .call (.setResumeTime t time) _ => !(s.state t).delayed ||
      System.outOfPlace t time (s.disp.setResumeTime t time) ||
      Fits s.disp.timed s.disp.resumeTime t time
  | _ => true

/-- The list is right: its members, their order, and Linux at its end. -/
def Right (d : Dispatcher n) : Prop :=
  TimedIs True d.timed d.resumeTime (fun t => (d.state t).delayed = true) ∧
    d.resumeTime rtLinuxTask = RT_TIME_END

theorem safe_of_keepsTimed {s : System n} {e : Event n} (hs : services e = true)
    (hk : keepsTimed s e = true) : s.SafeEvent True e := by
  cases e with
  | call op c =>
      cases op <;> try first | exact True.intro | exact absurd hs Bool.false_ne_true
      case taskResume t =>
        intro last
        simpa [keepsTimed, last] using hk
      case taskMakePeriodicRelativeNs t delay period =>
        intro _ delayed
        simpa [keepsTimed, delayed] using hk
      case taskMakePeriodic t time period =>
        intro _ delayed
        simpa [keepsTimed, delayed] using hk
      case setResumeTime t time =>
        intro _ delayed inPlace
        simpa [keepsTimed, delayed, inPlace] using hk
  | resume c => trivial
  | timer c => trivial

/-- The timed list is right in every state of a run. -/
theorem timed_list {timer : Timer} {tr : List (Record (System n) (Event n))} {s : System n}
    (r : Run System.step (fun s e => services e = true ∧ keepsTimed s e = true)
      (boot n timer) tr s) : Right s.disp := by
  have ok : s.Ok True := r.invariant (System.boot_ok n timer True) fun {s s' e} h guard stepped =>
    h.step (safe_of_keepsTimed guard.1 guard.2) s' stepped
  refine ⟨ok.lists.timed.congr (fun t => ?_) fun _ _ => rfl, ok.lists.linuxTime⟩
  exact ⟨And.left, fun h => ⟨h, nofun⟩⟩

/-- Two tasks sleep, one is given an earlier time, and the timer wakes it. -/
theorem timed_list_moved : ∃ tr s,
    Run System.step (fun s e => services e = true ∧ keepsTimed s e = true)
      (boot 2 { oneshotTimer := true, oneshotRunning := true }) tr s ∧ Right s.disp := by
  let c : Clock := {}
  obtain ⟨tr, s, r, _⟩ := Run.of_execute System.step
    (fun s e => services e = true ∧ keepsTimed s e = true)
    (boot 2 { oneshotTimer := true, oneshotRunning := true })
    [.call (.taskInit 1 5 true) c, .call (.taskInit 2 3 true) c, .call (.taskResume 1) c,
      .call (.sleepUntil 10) c, .call (.taskResume 2) c, .call (.sleepUntil 20) c,
      .call (.setResumeTime 2 5) c, .timer { sched := 7 }]
    (fun s => s.current = 2) (by decide +kernel)
  exact ⟨tr, s, r, timed_list r⟩

/-- Without the conditions the list is lost: Linux suspends task 1, which sleeps,
and resumes it.  Task 1 leaves the list with its bit set. -/
theorem timed_list_corrupted :
    ¬∀ (n : Nat) (timer : Timer) (tr : List (Record (System n) (Event n))) (s : System n),
      Run System.step (fun _ e => services e = true) (boot n timer) tr s → Right s.disp := by
  intro h
  let c : Clock := {}
  obtain ⟨tr, s, r, bad⟩ := Run.of_execute System.step (fun _ e => services e = true)
    (boot 1 {})
    [.call (.taskInit 1 5 true) c, .call (.taskResume 1) c, .call (.sleepUntil 10) c,
      .call (.taskSuspend (some 1)) c, .call (.taskResume 1) c]
    (fun s => (s.state 1).delayed ∧ s.disp.timed.next rtLinuxTask = rtLinuxTask)
    (by decide +kernel)
  obtain ⟨hd, hn⟩ : (s.state 1).delayed ∧ s.disp.timed.next rtLinuxTask = rtLinuxTask := by
    simpa using bad
  obtain ⟨⟨l, ring, mem, -⟩, -⟩ := h 1 {} tr s r
  have h1 : (1 : Task 1) ∈ l := (mem 1).mpr hd
  cases l with
  | nil => simp at h1
  | cons x l =>
      have hx : x = rtLinuxTask := ring.next_head.symm.trans hn
      exact ring.head_notMem (by simp [hx])

end TimedList

end Rtai.Up
