import Rtai.Up.Upkeep

/-!
# The ready list over whole runs

`ready_list` is the invariant for every run of the suspension, timing,
priority and semaphore services: the circular list through
`rt_linux_task.rnext` holds the tasks whose state is `READY`, each once, and a
task that is dispatched is one of them.  The state the next task is picked from
is the state the step ends in, as nothing follows the choice but the
programming of the timer.

The runs are those in which `rt_task_resume` cancels no suspension that was put
off.  `rt_task_suspend` leaves the owner of a resource on its list, and
`rt_task_resume` puts the task on the ready list without asking whether it is
there (`ready_list_corrupted`); `rt_task_wakeup_sleeping` and the other services
ask.
-/

namespace Rtai.Up

open Function Rtai.Lib

namespace ReadyList

variable {n : Nat}

/-- The services of the runs. -/
def services : Event n → Bool
  | .call (.taskInit _ _ _) _ | .call (.taskSuspend _) _ | .call (.taskResume _) _
  | .call (.sleep _) _ | .call (.sleepUntil _) _ | .call .taskWaitPeriod _
  | .call (.taskMakePeriodic _ _ _) _ | .call (.taskMakePeriodicRelativeNs _ _ _) _
  | .call (.taskWakeupSleeping _) _ | .call (.changePrio _ _) _ | .call (.typedSemInit _ _ _) _
  | .call (.semWait _) _ | .call (.semWaitUntil _ _) _ | .call (.semSignal _) _ => true
  | .call _ _ => false
  | .resume _ | .timer _ => true

/-- The last `rt_task_resume` of a task finds it neither `READY` nor asleep: it
is suspended, not about to be. -/
def resumesSuspended (s : System n) : Event n → Bool
  | .call (.taskResume t) _ => s.suspdepth t ≠ 1 || (s.state t ≠ READY && !(s.state t).delayed)
  | _ => true

theorem safe_of_resumesSuspended {s : System n} {e : Event n} (hs : services e = true)
    (hr : resumesSuspended s e = true) : s.SafeEvent False e := by
  cases e with
  | call op c =>
      cases op <;>
        try first | exact True.intro | exact False.elim | exact absurd hs Bool.false_ne_true
      case taskResume t =>
        intro last
        simpa [resumesSuspended, last] using hr
  | resume c => trivial
  | timer c => trivial

/-- The ready list and the state words agree in every state of a run. -/
theorem ready_list {timer : Timer} {tr : List (Record (System n) (Event n))} {s : System n}
    (r : Run System.step (fun s e => services e = true ∧ resumesSuspended s e = true)
      (boot n timer) tr s) :
    ReadyIs s.disp.ready (fun t => s.state t = READY) ∧ s.state s.current = READY := by
  have ok : s.Ok False := r.invariant (System.boot_ok n timer False) fun {s s' e} h guard stepped =>
    h.step (safe_of_resumesSuspended guard.1 guard.2) s' stepped
  exact ⟨ok.lists.ready, ok.running⟩

/-- The owner of a resource is suspended and resumed, the suspension having come
into effect when the resource was released. -/
theorem ready_list_resumed : ∃ tr s,
    Run System.step (fun s e => services e = true ∧ resumesSuspended s e = true)
      (boot 2 {}) tr s ∧
    ReadyIs s.disp.ready (fun t => s.state t = READY) ∧ s.state s.current = READY := by
  let c : Clock := {}
  obtain ⟨tr, s, r, _⟩ := Run.of_execute System.step
    (fun s e => services e = true ∧ resumesSuspended s e = true) (boot 2 {})
    [.call (.taskInit 1 5 true) c, .call (.typedSemInit (.user 0) 1 RES_SEM) c,
      .call (.taskResume 1) c, .call (.semWait (.user 0)) c, .call (.taskSuspend (some 1)) c,
      .call (.semSignal (.user 0)) c, .call (.taskResume 1) c, .timer c]
    (fun s => s.current = 1) (by decide +kernel)
  exact ⟨tr, s, r, ready_list r⟩

/-- Without the condition the list is lost: task 1 owns a resource and is
preempted by task 2, which suspends it and resumes it.  Task 1 is put on the
ready list a second time. -/
theorem ready_list_corrupted :
    ¬∀ (n : Nat) (timer : Timer) (tr : List (Record (System n) (Event n))) (s : System n),
      Run System.step (fun _ e => services e = true) (boot n timer) tr s →
      ReadyIs s.disp.ready (fun t => s.state t = READY) := by
  intro h
  let c : Clock := {}
  obtain ⟨tr, s, r, bad⟩ := Run.of_execute System.step (fun _ e => services e = true)
    (boot 2 {})
    [.call (.taskInit 1 5 true) c, .call (.taskInit 2 3 true) c,
      .call (.typedSemInit (.user 0) 1 RES_SEM) c, .call (.taskResume 1) c,
      .call (.semWait (.user 0)) c, .call (.taskResume 2) c, .call (.taskSuspend (some 1)) c,
      .call (.taskResume 1) c]
    (fun s => s.state 2 = READY ∧ s.disp.ready.prev (s.disp.ready.next 2) ≠ 2)
    (by decide +kernel)
  obtain ⟨hr, hp⟩ : s.state 2 = READY ∧ s.disp.ready.prev (s.disp.ready.next 2) ≠ 2 := by
    simpa using bad
  obtain ⟨l, ring, mem⟩ := h 2 {} tr s r
  exact hp (ring.prev_next ((mem 2).mpr hr))

end ReadyList

end Rtai.Up
