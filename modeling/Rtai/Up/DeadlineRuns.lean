import Rtai.Up.DeadlineUpkeep
import Rtai.Up.Dispatching
import Rtai.Up.ReadyList

/-!
# EDF tasks over whole runs

`edf_order` is the invariant for every run of the services that wait, signal, exchange messages,
suspend and resume: the EDF tasks come first on the ready list, in the order of their deadlines,
so that a task that is dispatched while EDF tasks are `READY` is the one that ends first.

Only the expiry of a timer puts an EDF task at the place of its deadline.  The other services put
it behind all tasks of priority 0, and the runs are those in which it belongs there
(`edf_order_lost` is a run in which it does not).  As in `ReadyList` no suspension is ended that
was put off.
-/

namespace Rtai.Up

open Function Rtai.Lib

variable {n : Nat}

/-- The first task of the list ends no later than an EDF task on it. -/
theorem EdfIs.earliest {L : Links (Task n)} {policy : Task n → Int} {deadline : Task n → RTIME}
    {P : Task n → Prop} (h : EdfIs L policy deadline P) (linux : policy rtLinuxTask = 0)
    {t : Task n} (ready : P t) (edf : policy t < 0) :
    policy (L.next rtLinuxTask) < 0 ∧ deadline (L.next rtLinuxTask) ≤ deadline t := by
  obtain ⟨l, ring, mem, sorted⟩ := h
  have real : t ≠ rtLinuxTask := by
    rintro rfl
    rw [linux] at edf
    exact lt_irrefl 0 edf
  have inside : t ∈ l := by simpa [real] using (mem t).mpr ready
  rw [ring.next_head]
  cases l with
  | nil => cases inside
  | cons x l =>
      cases inside with
      | head => exact ⟨edf, Int64.le_refl _⟩
      | tail _ inside => exact (List.pairwise_cons.mp sorted).1 t inside edf

namespace DeadlineOrder

/-- The ready list is in the order of deadlines. -/
def Ordered (s : System n) : Prop :=
  EdfIs s.disp.ready s.disp.policy s.disp.period fun t => s.state t = READY

/-- If any EDF task is `READY`, `t` is an EDF task and ends first. -/
def Earliest (s : System n) (t : Task n) : Prop :=
  ∀ u, s.state u = READY → s.disp.policy u < 0 →
    s.disp.policy t < 0 ∧ s.disp.period t ≤ s.disp.period u

/-- The steps that keep the order: no suspension is ended that was put off, and no service puts
an EDF task on the ready list out of the order of deadlines. -/
def keepsOrder (s : System n) (e : Event n) : Bool :=
  ReadyList.resumesSuspended s e && s.byDeadlineEvent e

variable {s : System n} {e : Event n} {timer : Timer} {tr : List (Record (System n) (Event n))}

theorem safe_of_keepsOrder (scheduling : e.scheduling = true) (keeps : keepsOrder s e = true) :
    s.SafeEvent False e := by
  cases e with
  | call op c =>
      cases op <;>
        try first | exact True.intro | exact False.elim | exact absurd scheduling Bool.false_ne_true
      case taskResume t =>
        intro last
        have resumed := (Bool.and_eq_true_iff.mp keeps).1
        simpa [ReadyList.resumesSuspended, last] using resumed
  | resume c => trivial
  | timer c => trivial

theorem earliest_of_edf (edf : s.Edf) : Earliest s s.disp.taskToSchedule :=
  fun _ ready policy => edf.disp.ready.earliest edf.disp.linuxPolicy ready policy

/-- The order holds in every state of a run, and whoever is dispatched is the first. -/
theorem edf_order (r : Run System.step (fun s e => e.scheduling = true ∧ keepsOrder s e = true)
    (boot n timer) tr s) :
    Ordered s ∧ Earliest s s.disp.taskToSchedule ∧
      ∀ x ∈ tr, x.post.current = x.pre.current ∨ Earliest x.post x.post.current := by
  have all : s.Ok False ∧ s.Edf ∧
      ∀ x ∈ tr, x.post.current = x.pre.current ∨ Earliest x.post x.post.current := by
    refine and_assoc.mp (r.each (P := fun s => s.Ok False ∧ s.Edf)
      (R := fun x => x.post.current = x.pre.current ∨ Earliest x.post x.post.current)
      ⟨System.boot_ok n timer False, System.boot_edf n timer⟩ ?_)
    rintro s s' e ⟨ok, edf⟩ ⟨scheduling, keeps⟩ stepped
    have safe := safe_of_keepsOrder scheduling keeps
    have deadline : s.byDeadlineEvent e = true := by
      simp only [keepsOrder, Bool.and_eq_true] at keeps
      exact keeps.2
    have edf' := edf.step ok safe scheduling deadline s' stepped
    refine ⟨⟨ok.step safe s' stepped, edf'⟩, ?_⟩
    refine (System.Picks.step ok edf scheduling s' stepped).imp id fun first => ?_
    rw [first]
    exact earliest_of_edf edf'
  exact ⟨all.2.1.disp.ready, earliest_of_edf all.2.1, all.2.2⟩

/-- Task 2 ends before task 1, and signals the semaphore task 1 waits on. -/
theorem edf_order_signalled : ∃ tr s,
    Run System.step (fun s e => e.scheduling = true ∧ keepsOrder s e = true)
      (boot 2 { oneshotTimer := true, oneshotRunning := true }) tr s ∧ Ordered s := by
  let c : Clock := {}
  obtain ⟨tr, s, r, -⟩ := Run.of_execute System.step
    (fun s e => e.scheduling = true ∧ keepsOrder s e = true)
    (boot 2 { oneshotTimer := true, oneshotRunning := true })
    [.call (.taskInit 1 5 true) c, .call (.taskInit 2 5 true) c,
      .call (.typedSemInit (.user 0) 0 CNT_SEM) c,
      .call (.taskResume 1) c, .call (.taskSetResumeEndTimes 10 200) c,
      .call (.taskResume 2) c, .call (.taskSetResumeEndTimes 20 100) c,
      .timer { sched := 10 }, .call (.semWait (.user 0)) { sched := 11 },
      .timer { sched := 20 }, .call (.semSignal (.user 0)) { sched := 21 }]
    (fun s => s.state 1 = READY ∧ s.current = 2) (by decide +kernel)
  exact ⟨tr, s, r, (edf_order r).1⟩

/-- Without the condition the order is lost: now task 1 ends first, and is queued behind task 2,
which signals the semaphore and goes on. -/
theorem edf_order_lost :
    ¬∀ (n : Nat) (timer : Timer) (tr : List (Record (System n) (Event n))) (s : System n),
      Run System.step (fun s e => e.scheduling = true ∧ ReadyList.resumesSuspended s e = true)
        (boot n timer) tr s → Earliest s s.disp.taskToSchedule := by
  intro h
  let c : Clock := {}
  obtain ⟨tr, s, r, bad⟩ := Run.of_execute System.step
    (fun s e => e.scheduling = true ∧ ReadyList.resumesSuspended s e = true)
    (boot 2 { oneshotTimer := true, oneshotRunning := true })
    [.call (.taskInit 1 5 true) c, .call (.taskInit 2 5 true) c,
      .call (.typedSemInit (.user 0) 0 CNT_SEM) c,
      .call (.taskResume 1) c, .call (.taskSetResumeEndTimes 10 100) c,
      .call (.taskResume 2) c, .call (.taskSetResumeEndTimes 20 200) c,
      .timer { sched := 10 }, .call (.semWait (.user 0)) { sched := 11 },
      .timer { sched := 20 }, .call (.semSignal (.user 0)) { sched := 21 }]
    (fun s => s.state 1 = READY ∧ s.disp.policy 1 < 0 ∧
      ¬s.disp.period s.disp.taskToSchedule ≤ s.disp.period 1) (by decide +kernel)
  obtain ⟨ready, edf, late⟩ : s.state 1 = READY ∧ s.disp.policy 1 < 0 ∧
      ¬s.disp.period s.disp.taskToSchedule ≤ s.disp.period 1 := by simpa using bad
  exact late (h 2 _ tr s r 1 ready edf).2

end DeadlineOrder

end Rtai.Up
