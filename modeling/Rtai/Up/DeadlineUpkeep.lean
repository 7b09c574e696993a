import Rtai.Up.DeadlineMoves

/-!
# One step keeps the order of deadlines

For each service the theorem that it keeps the ready list in the order of deadlines, when it is
`byDeadline`.  They follow the theorems of `Upkeep`, whose results about the lists they use.
-/

namespace Rtai.Up

open Function Rtai.Lib

namespace System

variable {n : Nat} {s s' : System n} {t : Task n} {ordered : Prop} {mask : TaskState}
  {c : Clock} {sem : SemId}

/-- The condition of the receives. -/
def Takes (task : Option (Task n)) (s : System n) : Prop :=
  ∀ t, s.senderFor task = some t → s.sending t = true → (s.state t).send = true →
    s.placed s.disp.priority (SEND.set DELAYED) t = true

namespace Edf

/-! ## Tasks -/

theorem rtTaskInit {prio : Int} {memory : Bool} (h : s.Edf) (ok : Ok ordered s)
    (real : t ≠ rtLinuxTask) : Ensures (s.rtTaskInit t prio memory) Edf := by
  refine .ite (fun _ => .some ⟨h.disp, h.base, h.frames⟩) fun accepted => ?_
  refine .ite (fun _ => .some ⟨h.disp, h.base, h.frames⟩) fun _ => .some ?_
  have nonneg : 0 ≤ prio := by
    have := fun negative => accepted (.inr negative)
    omega
  have dead : s.disp.state t = DEAD :=
    ok.lists.dead t real (by simpa using fun live => accepted (.inl live))
  have idle : s.disp.state t ≠ READY := by
    rw [dead]
    decide
  have start : Dispatcher.Edf { s.disp with
      ready := s.disp.ready.reset t
      state := update s.disp.state t (SUSPENDED.set READY) } := by
    have reset : Dispatcher.Edf { s.disp with ready := s.disp.ready.reset t } :=
      { h.disp with ready := h.disp.ready.reset idle }
    exact reset.setState idle (by rw [if_neg (by decide)])
  have suspended : update s.disp.state t (SUSPENDED.set READY) t ≠ READY := by
    rw [update_self]
    decide
  have edf := start.reassign 0 prio 0 suspended real le_rfl nonneg nofun
  refine ⟨{ edf with }, fun u => ?_, fun u f mem => ?_⟩
  · change 0 ≤ update s.basePriority t prio u
    by_cases same : u = t
    · rw [same, update_self]
      exact nonneg
    · rw [update_of_ne same]
      exact h.base u
  · change f ∈ update s.stack t [] u at mem
    by_cases same : u = t
    · rw [same, update_self] at mem
      cases mem
    · rw [update_of_ne same] at mem
      exact h.frames u f mem

variable {task : Option (Task n)}

theorem rtTaskSuspend (h : s.Edf) (ok : Ok ordered s)
    (waits : task = none → s.current ≠ rtLinuxTask) : Ensures (s.rtTaskSuspend task c) Edf := by
  refine .ite (fun _ => .some ⟨h.disp, h.base, h.frames⟩) fun accepted => ?_
  have target : task.getD s.current ≠ rtLinuxTask ∧
      s.disp.magic (task.getD s.current) = true := by
    cases task with
    | none =>
        have live : s.state s.current ≠ DEAD := by
          rw [ok.running]
          decide
        exact ⟨waits rfl, ok.lists.magic (waits rfl) live⟩
    | some t =>
        have magic : s.disp.magic t = true := by simpa using fun e => accepted ⟨rfl, e⟩
        exact ⟨ok.lists.realTime magic, magic⟩
  generalize task.getD s.current = t at target
  obtain ⟨real, magic⟩ := target
  refine .ite (fun _ => ?_) fun _ => .some ⟨h.disp, h.base, h.frames⟩
  have lists := ok.lists.suspend real magic
  have counted : Linked ordered none ((s.setSuspdepth t (s.suspdepth t + 1)).ret (.int 0)) :=
    (ok.setSuspdepth real).ret
  have stops : (s.disp.state t).set SUSPENDED ≠ READY := by simp [TaskState.set, SUSPENDED, READY]
  have edf := h.disp.park real stops
  rw [Dispatcher.remReadyTask_eq] at lists edf ⊢
  have started : Edf { (s.setSuspdepth t (s.suspdepth t + 1)).ret (.int 0) with disp := _ } :=
    ⟨edf, h.base, h.frames⟩
  exact started.scheduleIf (counted.onDisp lists ok.linux.priority) c

theorem rtTaskResume (h : s.Edf) (ok : Ok ordered s)
    (safe : s.suspdepth t = 1 → s.state t ≠ READY ∧ (s.state t).delayed = false)
    (deadline : s.byDeadline (.taskResume t) = true) :
    Ensures (s.rtTaskResume t c) Edf := by
  refine .ite (fun _ => .some ⟨h.disp, h.base, h.frames⟩) fun accepted => ?_
  refine .ite (fun last => ?_) fun _ => .some ⟨h.disp, h.base, h.frames⟩
  have magic : s.disp.magic t = true := by simpa using accepted
  have depth : s.suspdepth t = 1 := by omega
  obtain ⟨idle, awake⟩ := safe depth
  have awake : (s.disp.state t).delayed = false := awake
  have stays : s.disp.remTimedTask t = s.disp := by
    rw [Dispatcher.remTimedTask, awake]
    rfl
  have still : (((s.disp.state t).clear SUSPENDED).clear DELAYED) =
      (s.disp.state t).clear SUSPENDED := by
    simp [TaskState.clear, DELAYED, SUSPENDED, awake]
  have counted : Linked ordered none ((s.setSuspdepth t (s.suspdepth t - 1)).ret (.int 0)) :=
    (ok.setSuspdepth (ok.lists.realTime magic)).ret
  change Ensures (
    let d := s.disp.remTimedTask t
    let d := d.setState t ((d.state t).clear SUSPENDED)
    let s := { (s.setSuspdepth t (s.suspdepth t - 1)).ret (.int 0) with disp := d }
    if (d.state t).clear DELAYED = READY then do
      let s ← s.onDisp (Dispatcher.enqReadyTask t)
      s.rtSchedule c
    else some s) Edf
  simp only [stays, Dispatcher.setState, update_self, still]
  refine .ite (fun joins => ?_) fun waits => .some ?_
  · have belongs : s.disp.Belongs s.disp.priority t := by
      have placed : s.placed s.disp.priority SUSPENDED t = true := by
        simpa [byDeadline, depth] using deadline
      simpa [System.placed, System.state, idle, joins] using placed
    rw [joins]
    have linked := counted.setReady idle awake magic
    have edf : Ensures (System.onDisp (Dispatcher.enqReadyTask t)
        { (s.setSuspdepth t (s.suspdepth t - 1)).ret (.int 0) with
          disp := s.disp.setState t READY }) Edf :=
      .map ((h.disp.setReady idle belongs).mono fun _ edf => ⟨edf, h.base, h.frames⟩)
    refine .bind (linked.and edf) ?_
    rintro _ ⟨⟨linked, -⟩, edf⟩
    exact edf.rtSchedule linked c
  · exact ⟨h.disp.setState idle (by rw [if_neg waits]), h.base, h.frames⟩

/-! ## Timing -/

theorem sleepCurrent (h : (s.blockCurrent DELAYED).Edf) (ok : Ok ordered s)
    (real : s.current ≠ rtLinuxTask) : Ensures (s.sleepCurrent c) Edf := by
  have delayed : ((s.blockCurrent DELAYED).state s.current).delayed = true := by
    show (update s.disp.state s.current _ s.current).delayed = true
    rw [update_self]
    simp [TaskState.set, DELAYED]
  have linked := (ok.block ok.running real (by decide)).enqTimedCurrent delayed real
  refine .bind (linked.and h.enqTimedCurrent) ?_
  rintro _ ⟨⟨linked, -⟩, edf⟩
  exact edf.rtSchedule linked c

variable {time : RTIME}

section

variable (h : s.Edf) (ok : Ok ordered s) (real : s.current ≠ rtLinuxTask)
include h ok real

theorem sleepLate :
    Ensures (if time > (s.setResumeTime time).disp.timeH then (s.setResumeTime time).sleepCurrent c
      else some (s.setResumeTime time)) Edf := by
  have late : (s.setResumeTime time).Edf := ⟨{ h.disp with }, h.base, h.frames⟩
  have lateOk : Ok ordered (s.setResumeTime time) :=
    ⟨ok.toLinked.setResumeTime real ok.running, ok.running⟩
  refine .ite (fun _ => sleepCurrent ?_ lateOk real) fun _ => .some late
  exact late.blockCurrent _ ok.running real (by decide)

theorem rtTaskWaitPeriod : Ensures (s.rtTaskWaitPeriod c) Edf :=
  .ite (fun _ => .some ⟨{ h.disp with }, h.base, h.frames⟩) fun _ => h.sleepLate ok real

theorem rtSleep {delay : RTIME} : Ensures (s.rtSleep delay c) Edf := h.sleepLate ok real

theorem rtSleepUntil : Ensures (s.rtSleepUntil time c) Edf := h.sleepLate ok real

/-- The caller becomes an EDF task when it is off the list already. -/
theorem rtTaskSetResumeEndTimes {resume finish : RTIME} :
    Ensures (s.rtTaskSetResumeEndTimes resume finish c) Edf := by
  have parked := h.disp.blockCurrent DELAYED ok.running real (by decide)
  have asleep : (s.disp.blockCurrent DELAYED).state s.current ≠ READY := by
    change update s.disp.state s.current _ s.current ≠ READY
    rw [update_self]
    simp [TaskState.set, DELAYED, READY]
  refine sleepCurrent ?_ (ok.setEndTimes real) real
  exact ⟨{ parked.reassign (-1) 0 _ asleep real (by decide) le_rfl fun _ => rfl
    with }, h.base, h.frames⟩

end

variable {startTime period : RTIME} {q : Queue n} {k : Nat} {x : QNode n}

theorem makePeriodic (h : s.Edf) (ok : Ok False s) (magic : s.disp.magic t = true) :
    Ensures (s.makePeriodic t startTime period c) Edf := by
  have real := ok.lists.realTime magic
  have linked := ok.periodic startTime period real nofun
  have reassign : ∀ {d : Dispatcher n}, d.Edf → d.state t ≠ READY →
      Dispatcher.Edf { d with period := update d.period t period } := by
    intro d edf idle
    have same := edf.reassign _ _ period idle real (edf.plain t) (edf.nonneg t) (edf.urgent t)
    simpa only [update_eq_self] using same
  refine .ite (fun asleep => rtSchedule ?_ linked c) fun awake => ?_
  · have idle : s.disp.state t ≠ READY := by
      intro ready
      have asleep : (s.disp.state t).delayed = true := asleep
      rw [ready] at asleep
      exact Bool.false_ne_true asleep
    exact ⟨{ reassign h.disp idle with }, h.base, h.frames⟩
  have awake : (s.disp.state t).delayed = false := eq_false_of_ne_true awake
  have stops : ((s.disp.state t).clear SUSPENDED).set DELAYED ≠ READY := by
    simp [TaskState.set, DELAYED, READY]
  have parked := h.disp.park real stops
  have lists := linked.lists.delay real magic awake
  rw [Dispatcher.remReadyTask_eq, Dispatcher.remReadyTask_ready] at lists parked ⊢
  have edf : Dispatcher.Edf { s.disp with
      resumeTime := update s.disp.resumeTime t startTime
      period := update s.disp.period t period
      ready := if s.disp.state t = READY then s.disp.ready.unlink t else s.disp.ready
      state := update s.disp.state t (((s.disp.state t).clear SUSPENDED).set DELAYED) } := by
    refine { reassign parked ?_ with }
    change update s.disp.state t _ t ≠ READY
    rw [update_self]
    exact stops
  have delayed : ((update s.disp.state t (((s.disp.state t).clear SUSPENDED).set DELAYED)) t).delayed =
      true := by
    rw [update_self]
    simp [TaskState.set, DELAYED]
  refine .bind ((lists.enqTimedTask delayed real).and edf.enqTimedTask) ?_
  rintro d ⟨⟨lists, T, rfl⟩, edf⟩
  refine rtSchedule ?_ (linked.onDisp lists ok.linux.priority) c
  exact ⟨edf, h.base, h.frames⟩

theorem rtTaskMakePeriodicRelativeNs {startDelay : RTIME} (h : s.Edf) (ok : Ok False s) :
    Ensures (s.rtTaskMakePeriodicRelativeNs t startDelay period c) Edf := by
  refine .ite (fun _ => .some ⟨h.disp, h.base, h.frames⟩) fun accepted => ?_
  exact h.makePeriodic ok (by simpa using accepted)

theorem rtTaskMakePeriodic (h : s.Edf) (ok : Ok False s) :
    Ensures (s.rtTaskMakePeriodic t startTime period c) Edf := by
  refine .ite (fun _ => .some ⟨h.disp, h.base, h.frames⟩) fun accepted => ?_
  exact h.makePeriodic ok (by simpa using accepted)

/-! ## Semaphores -/

theorem takeSem {count : Int} (h : s.Edf) : (s.takeSem sem count).Edf := by
  unfold System.takeSem
  split
  · exact ⟨h.disp, h.base, h.frames⟩
  · exact ⟨h.disp, h.base, h.frames⟩

theorem rtSemWait (h : s.Edf) (ok : Ok ordered s) (real : s.current ≠ rtLinuxTask) :
    Ensures (s.rtSemWait sem c) Edf := by
  refine .ite (fun _ => .some ⟨h.disp, h.base, h.frames⟩) fun _ => .ite (fun _ => ?_) fun _ =>
    .some (takeSem ⟨h.disp, h.base, h.frames⟩)
  refine .ite (fun _ => .some ⟨h.disp, h.base, h.frames⟩) fun _ => ?_
  refine .bind (ok.passPrioToOwner.and (h.passPrioToOwner ok.toLinked)) ?_
  rintro _ ⟨⟨ok, P, R, PP, Q, rfl, -⟩, edf⟩
  refine .bind ((Linked.enqueueBlocked
    (ok.setCount.blockUntimed SEMAPHORE ok.running real (by decide) rfl)).and
    (enqueueBlocked ?_)) ?_
  · have blocked := edf.disp.blockCurrent SEMAPHORE ok.running real (by decide)
    exact ⟨blocked, edf.base, edf.frames⟩
  rintro _ ⟨⟨linked, Q', rfl, -⟩, edf⟩
  exact (edf.push rfl).rtSchedule (linked.push fun e => absurd e real) c

theorem rtSemWaitUntilRest (h : s.Edf) : (s.rtSemWaitUntilRest sem).Edf := by
  unfold System.rtSemWaitUntilRest
  dsimp only
  split
  · exact ⟨h.disp, h.base, h.frames⟩
  split
  · exact ⟨h.disp, h.base, h.frames⟩
  · exact h.takeSem

theorem rtSemWaitUntil (h : s.Edf) (ok : Ok ordered s) (real : s.current ≠ rtLinuxTask) :
    Ensures (s.rtSemWaitUntil sem time c) Edf := by
  have late : ((s.setBlockedOn s.current (some (.sem sem))).setResumeTime time).Edf :=
    ⟨{ h.disp with }, h.base, h.frames⟩
  have lateOk : Ok ordered ((s.setBlockedOn s.current (some (.sem sem))).setResumeTime time) :=
    ⟨ok.setBlockedOn.setResumeTime real ok.running, ok.running⟩
  refine .ite (fun _ => .some ⟨h.disp, h.base, h.frames⟩) fun _ => .ite (fun _ => ?_) fun _ =>
    .some (takeSem ⟨h.disp, h.base, h.frames⟩)
  refine .ite (fun _ => .ite (fun _ => .some ⟨late.disp, late.base, late.frames⟩) fun _ => ?_)
    fun _ => .some (rtSemWaitUntilRest ⟨late.disp, late.base, late.frames⟩)
  refine .bind (lateOk.passPrioToOwner.and (late.passPrioToOwner lateOk.toLinked)) ?_
  rintro _ ⟨⟨ok₁, P, R, PP, Q, rfl, -⟩, edf⟩
  refine .bind ((Linked.enqueueBlocked (Ok.blockTimed (s := System.setCount _ _ _)
    ⟨ok₁.setCount, ok₁.running⟩ (SEMAPHORE.set DELAYED) real (by decide) rfl).1).and
    (enqueueBlocked ?_)) ?_
  · have blocked := edf.disp.blockCurrent (SEMAPHORE.set DELAYED) ok₁.running real
      (by decide)
    exact ⟨blocked, edf.base, edf.frames⟩
  rintro _ ⟨⟨linked, Q', rfl, -⟩, edf⟩
  have delayed := (ok.blockTimed (SEMAPHORE.set DELAYED) real (by decide) rfl).2
  refine .bind (edf.enqTimedCurrent.and (linked.enqTimedCurrent delayed real)) ?_
  rintro _ ⟨edf, linked, T, rfl⟩
  exact (edf.push rfl).rtSchedule (linked.push fun e => absurd e real) c

theorem releaseFirst (h : s.Edf)
    (placed : (s.firstWaiter sem).all (s.placed s.disp.priority (SEMAPHORE.set DELAYED)) = true) :
    Ensures (((s.ret (.int 0)).setCount sem (signalledCount (s.sem sem))).releaseFirst sem)
      fun p => p.1.Edf := by
  unfold System.releaseFirst
  split
  next => exact .some ⟨h.disp, h.base, h.frames⟩
  next t first =>
    have first : s.firstWaiter sem = some t := first
    have belongs : s.placed s.disp.priority (SEMAPHORE.set DELAYED) t = true := by
      simpa [first] using placed
    exact release ⟨h.disp, h.base, h.frames⟩ belongs

/-! A task whose deletion was put off is deleted when it gives back its last resource. -/

theorem queuedOn_congr (queue : s'.queue = s.queue) (tasks : s'.msgQueueTask = s.msgQueueTask) :
    queuedOn q s' k x = queuedOn q s k x := by
  induction k generalizing x with
  | zero => rfl
  | succ k ih =>
      have task : s'.taskOf x = s.taskOf x := by
        unfold taskOf
        rw [tasks]
      rw [queuedOn, queuedOn, task, queue, ih]

theorem ordinaryOnly_leaveQueue (queue : s'.queue = s.queue)
    (tasks : s'.msgQueueTask = s.msgQueueTask) (blocked : s'.blockedOn = s.blockedOn)
    (policy : s'.disp.policy = s.disp.policy) :
    (s'.leaveQueue t).ordinaryOnly t = (s.leaveQueue t).ordinaryOnly t := by
  obtain ⟨S, left⟩ := Linked.leaveQueue_eq s t
  obtain ⟨S', left'⟩ := Linked.leaveQueue_eq s' t
  have queue : (s'.leaveQueue t).queue = (s.leaveQueue t).queue := by
    rw [left, left', queue, blocked]
  have tasks : (s'.leaveQueue t).msgQueueTask = (s.leaveQueue t).msgQueueTask := by
    rw [left, left', tasks]
  have policy : (s'.leaveQueue t).disp.policy = (s.leaveQueue t).disp.policy := by
    rw [left, left', policy]
  rw [ordinaryOnly, ordinaryOnly, queuedOn_congr queue tasks, queuedOn_congr queue tasks, queue,
    policy]

theorem releaseQueue (h : s.Edf) (linked : Linked ordered none s) (timed : mask.delayed = true)
    (ordinary : ∀ u ∈ queuedOn q s k x, ¬s.disp.policy u < 0) :
    Ensures (s.releaseQueue q mask k x) fun s' => Edf s' ∧ s'.queue = s.queue ∧
      s'.msgQueueTask = s.msgQueueTask ∧ s'.disp.policy = s.disp.policy := by
  induction k generalizing s x with
  | zero => exact .none
  | succ k ih =>
      refine .ite (fun _ => .some ⟨h, rfl, rfl, rfl⟩) fun more => ?_
      rw [queuedOn, if_neg more] at ordinary
      refine .bind (P := fun u => s.taskOf x = some u) (fun _ => id) fun u task => ?_
      rw [task] at ordinary
      have first : ¬s.disp.policy u < 0 := ordinary u (List.mem_append_left _ (.head _))
      have placed : s.placed s.disp.priority mask u = true := by
        have belongs : s.disp.Belongs s.disp.priority u := fun edf => absurd edf first
        simp [System.placed, belongs]
      refine .bind ((h.release placed).and (linked.release timed)) ?_
      rintro ⟨_, b⟩ ⟨edf, linked, L, T, rfl⟩
      refine ih ⟨edf.disp, edf.base, edf.frames⟩ linked.setBlockedOn fun v queued => ?_
      refine ordinary v (List.mem_append_right _ ?_)
      exact (congrArg (v ∈ ·) (queuedOn_congr (by rfl) (by rfl))).mp queued

theorem deleteTask (h : s.Edf) (linked : Linked ordered none s) (real : t ≠ rtLinuxTask)
    (awake : (s.state t).delayed = false)
    (ordinary : (s.leaveQueue t).ordinaryOnly t = true) : Ensures (s.deleteTask t) Edf := by
  have stays : s.disp.remTimedTask t = s.disp := by
    rw [Dispatcher.remTimedTask, show (s.disp.state t).delayed = false from awake]
    rfl
  have same : (s.leaveQueue t).disp = s.disp := by
    obtain ⟨S, e⟩ := Linked.leaveQueue_eq s t
    rw [e]
  have left : (s.leaveQueue t).Edf := by
    obtain ⟨S, e⟩ := Linked.leaveQueue_eq s t
    rw [e]
    exact ⟨h.disp, h.base, h.frames⟩
  have leftLinked := linked.leaveQueue t
  have leftAwake : ((s.leaveQueue t).state t).delayed = false := by
    rw [System.state, same]
    exact awake
  simp only [ordinaryOnly, List.all_append, Bool.and_eq_true, List.all_eq_true,
    decide_eq_true_eq] at ordinary
  unfold System.deleteTask
  simp only [stays]
  refine .bind ((left.releaseQueue leftLinked rfl ordinary.1).and
    (leftLinked.releaseQueue rfl leftAwake)) ?_
  rintro s₁ ⟨⟨edf, queue, tasks, policy⟩, linked₁, awake₁, -⟩
  refine .bind (edf.releaseQueue linked₁ rfl ?_) ?_
  · intro u queued
    rw [queue, queuedOn_congr queue tasks] at queued
    rw [policy]
    exact ordinary.2 u queued
  rintro s₂ ⟨edf, -⟩
  have freed : Dispatcher.Edf { s₂.disp with magic := update s₂.disp.magic t false } :=
    { edf.disp with }
  exact .some ⟨freed.park real (by decide), edf.base, edf.frames⟩

/-- The caller gives back a resource. -/
theorem releaseOwned (h : s.Edf) (ok : Ok ordered s)
    (urgent : s.staysUrgent (owndresLeft (s.owndres s.current)) = true)
    (ordinary : s.suspdepth s.current < 0 → s.disp.magic s.current = true →
      s.leftPriority (owndresLeft (s.owndres s.current)) s.current ≠ RT_LINUX_PRIORITY →
      (s.leaveQueue s.current).ordinaryOnly s.current = true) :
    Ensures (s.releaseOwned c) Edf := by
  have counted : Ok ordered (s.setOwndres s.current (owndresLeft (s.owndres s.current))) :=
    ok.countDown
  have own : (s.setOwndres s.current (owndresLeft (s.owndres s.current))).owndres s.current =
      owndresLeft (s.owndres s.current) := update_self _ _ _
  have edf : (s.setOwndres s.current (owndresLeft (s.owndres s.current))).Edf :=
    ⟨h.disp, h.base, h.frames⟩
  have real : s.suspdepth s.current ≠ 0 → s.current ≠ rtLinuxTask := by
    intro pending e
    rw [e] at pending
    exact pending ok.linux.suspdepth
  have running : s.state s.current = READY := ok.running
  unfold System.releaseOwned
  simp only [ite_setOwndres]
  refine .bind (counted.renqByResources.and (edf.renqByResources counted ?_)) ?_
  · change staysUrgent ((s.setOwndres s.current (owndresLeft (s.owndres s.current))).owndres
      s.current) s = true
    rw [own]
    exact urgent
  rintro ⟨_, b⟩ ⟨⟨ok, L, p, rfl, -⟩, edf, left, -⟩
  have ok : Ok ordered (s.givenBack L p) := ok
  have edf : (s.givenBack L p).Edf := edf
  refine .ite (fun pending => ?_) fun _ => .ite (fun pending => .ite (fun del => ?_) fun _ => ?_)
    fun _ => ?_
  · have suspends : s.suspdepth s.current > 0 := pending
    have other := real (by omega)
    refine rtSchedule ?_ (ok.blockUntimed SUSPENDED ok.running other (by decide) rfl) c
    exact edf.blockCurrent _ ok.running other (by decide)
  · have deletes : s.suspdepth s.current < 0 := pending
    have other := real (by omega)
    have awake : (s.state s.current).delayed = false := by
      rw [running]
      rfl
    simp only [deletable, Bool.and_eq_true, decide_eq_true_eq] at del
    obtain ⟨magic, notLinux⟩ := del
    have nobody : ((s.givenBack L p).leaveQueue s.current).ordinaryOnly s.current = true := by
      refine (ordinaryOnly_leaveQueue (s := s) (by rfl) (by rfl) (by rfl) (by rfl)).trans ?_
      refine ordinary deletes magic ?_
      have same : p = s.leftPriority (owndresLeft (s.owndres s.current)) s.current := by
        have at_current := congrFun left s.current
        change update s.disp.priority s.current p s.current =
          update s.disp.priority s.current (s.leftPriority _ s.current) s.current at at_current
        rw [update_self, update_self] at at_current
        exact at_current.trans (congrArg (fun own => s.leftPriority own s.current) own)
      have notLinux : update s.disp.priority s.current p s.current ≠ RT_LINUX_PRIORITY := notLinux
      rw [update_self, same] at notLinux
      exact notLinux
    have linked := ok.toLinked.deleteTask other fun asleep =>
      absurd (awake.symm.trans asleep) Bool.false_ne_true
    refine .bind (linked.and (edf.deleteTask ok.toLinked other awake nobody)) ?_
    rintro s₂ ⟨⟨linked, -⟩, edf⟩
    exact edf.rtSchedule linked c
  · exact edf.scheduleIf ok.toLinked c
  · exact edf.scheduleIf ok.toLinked c

theorem granted_nobody (nobody : s.firstWaiter sem = none) : s.granted sem = s := by
  rw [granted, nobody]

theorem granted_first (first : s.firstWaiter sem = some t) :
    s.granted sem = s.dequeueBlocked t := by
  rw [granted, first]

theorem rtSemSignal (h : s.Edf) (ok : Ok ordered s)
    (deadline : s.byDeadline (.semSignal sem) = true) :
    Ensures (s.rtSemSignal sem c) Edf := by
  refine .ite (fun _ => .some ⟨h.disp, h.base, h.frames⟩) fun _ =>
    .ite (fun _ => .some ⟨h.disp, h.base, h.frames⟩) fun flat => ?_
  obtain ⟨placed, resource⟩ : (s.firstWaiter sem).all
      (s.placed s.disp.priority (SEMAPHORE.set DELAYED)) = true ∧ _ := by
    simpa only [byDeadline, flat, decide_false, Bool.false_or, Bool.and_eq_true] using deadline
  refine .bind (ok.releaseFirst_moves.and (h.releaseFirst placed)) ?_
  rintro ⟨g, b⟩ ⟨⟨okGrant, grant⟩, edf⟩
  refine .ite (fun res => ?_) fun _ => edf.scheduleIf okGrant.toLinked c
  have given : Ok ordered (g.setOwndby sem none) := ⟨okGrant.setOwndby nofun, okGrant.running⟩
  have edfGiven : (g.setOwndby sem none).Edf := ⟨edf.disp, edf.base, edf.frames⟩
  have kind : ¬(s.sem sem).type ≤ 0 := not_le.mpr res
  simp only [kind, decide_false, Bool.false_or, Bool.and_eq_true, Bool.or_eq_true,
    decide_eq_true_eq] at resource
  obtain ⟨urgent, deletion⟩ := resource
  have forsaken : s.suspdepth s.current < 0 → s.disp.magic s.current = true →
      (s.granted sem).leftPriority (owndresLeft (s.owndres s.current)) s.current ≠
        RT_LINUX_PRIORITY → ((s.granted sem).leaveQueue s.current).ordinaryOnly s.current = true :=
    fun pending magic left => deletion.resolve_left (by simp [deletes, pending, magic, left])
  cases grant with
  | nobody nobody =>
      rw [granted_nobody nobody] at urgent forsaken
      refine edfGiven.releaseOwned given urgent fun pending magic left => ?_
      refine (ordinaryOnly_leaveQueue (s := s) (by rfl) (by rfl) (by rfl) (by rfl)).trans ?_
      exact forsaken pending magic left
  | @first t L T first =>
      rw [granted_first first] at urgent forsaken
      refine edfGiven.releaseOwned given urgent fun pending magic left => ?_
      refine (ordinaryOnly_leaveQueue (s := s.dequeueBlocked t) (by rfl) (by rfl) (by rfl)
        (by rfl)).trans ?_
      exact forsaken pending magic left

/-! ## Messages -/

variable {msg : UInt32}

theorem deliver (h : s.Edf) (placed : s.placed s.disp.priority (RECEIVE.set DELAYED) t = true) :
    Ensures (s.deliver t msg) fun p => p.1.Edf :=
  release ⟨h.disp, h.base, h.frames⟩ placed

/-- The condition of the sends and the calls. -/
theorem placed_of_listening (listening : s.listening t = true)
    (deadline : (¬s.listening t || s.placed s.disp.priority (RECEIVE.set DELAYED) t) = true) :
    s.placed s.disp.priority (RECEIVE.set DELAYED) t = true := by
  simpa [listening] using deadline

variable {f : Frame n}

theorem sendNow (h : s.Edf) (ok : Ok ordered s) (listening : s.listening t = true)
    (plain : f.mailbox = false) (linux : s.current = rtLinuxTask → f.waits = false)
    (placed : s.placed s.disp.priority (RECEIVE.set DELAYED) t = true) :
    Ensures (do
      let (s, woken) ← s.deliver t msg
      (s.push f).scheduleIf woken c) Edf := by
  refine .bind ((ok.deliver listening).and (h.deliver placed)) ?_
  rintro ⟨_, b⟩ ⟨⟨ok, R, T, rfl⟩, edf⟩
  exact (edf.push plain).scheduleIf (ok.push linux) c

theorem rtSend (h : s.Edf) (ok : Ok ordered s) (real : s.current ≠ rtLinuxTask)
    (deadline : (¬s.listening t || s.placed s.disp.priority (RECEIVE.set DELAYED) t) = true) :
    Ensures (s.rtSend t msg c) Edf := by
  refine .ite (fun _ => .some ⟨h.disp, h.base, h.frames⟩) fun _ => .ite (fun listening => ?_)
    fun _ => ?_
  · exact h.sendNow ok listening rfl (fun e => absurd e real)
      (placed_of_listening listening deadline)
  · refine .bind ((Linked.enqueueBlocked ok.setMsg.setMsgQueueTask).and (enqueueBlocked ?_)) ?_
    · exact ⟨h.disp, h.base, h.frames⟩
    rintro _ ⟨⟨linked, Q, rfl, -⟩, edf⟩
    have blocked := linked.blockUntimed SEND ok.running real (by decide) rfl
    refine rtSchedule (push ?_ rfl) (blocked.push fun e => absurd e real) c
    exact edf.blockCurrent _ ok.running real (by decide)

theorem rtSendIf (h : s.Edf) (ok : Ok ordered s)
    (deadline : (¬s.listening t || s.placed s.disp.priority (RECEIVE.set DELAYED) t) = true) :
    Ensures (s.rtSendIf t msg c) Edf := by
  refine .ite (fun _ => .some ⟨h.disp, h.base, h.frames⟩) fun _ => .ite (fun listening => ?_)
    fun _ => .some ⟨h.disp, h.base, h.frames⟩
  exact h.sendNow ok listening rfl (fun _ => rfl) (placed_of_listening listening deadline)

theorem rtSendUntilRest (h : s.Edf) : (s.rtSendUntilRest t).Edf := by
  unfold System.rtSendUntilRest
  split
  · exact ⟨h.disp, h.base, h.frames⟩
  · exact ⟨h.disp, h.base, h.frames⟩

theorem rtSendUntil (h : s.Edf) (ok : Ok ordered s) (real : s.current ≠ rtLinuxTask)
    (deadline : (¬s.listening t || s.placed s.disp.priority (RECEIVE.set DELAYED) t) = true) :
    Ensures (s.rtSendUntil t msg time c) Edf := by
  refine .ite (fun _ => .some ⟨h.disp, h.base, h.frames⟩) fun _ => .ite (fun listening => ?_)
    fun _ => ?_
  · exact h.sendNow ok listening rfl (fun e => absurd e real)
      (placed_of_listening listening deadline)
  have late : ((s.setMsgQueueTask s.current (some t)).setResumeTime time).Edf :=
    ⟨{ h.disp with }, h.base, h.frames⟩
  have lateOk : Ok ordered ((s.setMsgQueueTask s.current (some t)).setResumeTime time) :=
    ⟨ok.setMsgQueueTask.setResumeTime real ok.running, ok.running⟩
  refine .ite (fun _ => ?_) fun _ => .some (rtSendUntilRest ⟨late.disp, late.base, late.frames⟩)
  refine .bind ((Linked.enqueueBlocked lateOk.setMsg).and (enqueueBlocked ?_)) ?_
  · exact ⟨late.disp, late.base, late.frames⟩
  rintro _ ⟨⟨linked, Q, rfl, -⟩, edf⟩
  obtain ⟨blocked, delayed⟩ := Ok.blockTimed ⟨linked, ok.running⟩ (SEND.set DELAYED) real
    (by decide) rfl
  have edf := edf.blockCurrent (SEND.set DELAYED) ok.running real (by decide)
  refine .bind (edf.enqTimedCurrent.and (blocked.enqTimedCurrent delayed real)) ?_
  rintro _ ⟨edf, linked, T, rfl⟩
  exact (edf.push rfl).rtSchedule (linked.push fun e => absurd e real) c

variable {toDo : UInt32}

theorem directRpc (h : s.Edf) (placed : s.placed s.disp.priority (RECEIVE.set DELAYED) t = true) :
    Ensures (s.directRpc t toDo) Edf := by
  refine .bind (deliver (s := s.setMsg s.current toDo) ⟨h.disp, h.base, h.frames⟩ placed) ?_
  exact fun _ edf => .some edf

theorem queueRpc (h : s.Edf) (ok : Ok ordered s) (real : t ≠ rtLinuxTask) :
    Ensures (s.queueRpc t toDo) Edf := by
  refine .bind (passPrio (s := (s.setMsg s.current toDo).setOwndres t (s.owndres t + RPCINC))
    ⟨h.disp, h.base, h.frames⟩ (ok.setMsg.setOwndres real) fun e => real (Option.some.inj e)) ?_
  exact fun _ edf => edf.enqueueBlocked

section

variable (h : s.Edf) (ok : Ok ordered s) (real : s.current ≠ rtLinuxTask)
include h ok real

theorem rtRpc
    (deadline : (¬s.listening t || s.placed s.disp.priority (RECEIVE.set DELAYED) t) = true) :
    Ensures (s.rtRpc t toDo c) Edf := by
  refine .ite (fun _ => .some ⟨h.disp, h.base, h.frames⟩) fun accepted => ?_
  have magic : s.disp.magic t = true := by simpa using accepted
  refine .bind (P := fun s' => Linked ordered none s' ∧ s'.current = s.current ∧ s'.Edf) ?_ ?_
  · refine .ite (fun listening => .map ?_) fun _ => .map ?_
    · have placed := placed_of_listening listening deadline
      refine ((ok.directRpc listening).and (h.directRpc placed)).mono ?_
      rintro _ ⟨⟨ok, R, T, rfl⟩, edf⟩
      exact ⟨ok.blockUntimed RETURN ok.running real (by decide) rfl, rfl,
        edf.blockCurrent _ ok.running real (by decide)⟩
    · have target := ok.lists.realTime magic
      refine ((ok.queueRpc target).and (h.queueRpc ok target)).mono ?_
      rintro _ ⟨⟨ok, P, R, Q, rfl, -⟩, edf⟩
      exact ⟨ok.blockUntimed RPC ok.running real (by decide) rfl, rfl,
        edf.blockCurrent _ ok.running real (by decide)⟩
  · rintro s₁ ⟨linked, current, edf⟩
    have real : s₁.current ≠ rtLinuxTask := current ▸ real
    refine rtSchedule (push ?_ rfl) (linked.setMsgQueueTask.push fun e => absurd e real) c
    exact ⟨edf.disp, edf.base, edf.frames⟩

theorem rtRpcIf
    (deadline : (¬s.listening t || s.placed s.disp.priority (RECEIVE.set DELAYED) t) = true) :
    Ensures (s.rtRpcIf t toDo c) Edf := by
  refine .ite (fun _ => .some ⟨h.disp, h.base, h.frames⟩) fun _ => .ite (fun listening => ?_)
    fun _ => .some ⟨h.disp, h.base, h.frames⟩
  have placed := placed_of_listening listening deadline
  refine .bind ((ok.directRpc listening).and (h.directRpc placed)) ?_
  rintro _ ⟨⟨ok, R, T, rfl⟩, edf⟩
  have blocked := ok.blockUntimed RETURN ok.running real (by decide) rfl
  refine rtSchedule (push ?_ rfl) (blocked.setMsgQueueTask.push fun e => absurd e real) c
  have edf := edf.blockCurrent RETURN ok.running real (by decide)
  exact ⟨edf.disp, edf.base, edf.frames⟩

/-- The caller of a remote procedure waits for a time. -/
theorem waitTimed (stops : READY.set mask ≠ READY) (timed : mask.delayed = true)
    (plain : f.mailbox = false) :
    Ensures (do
      let s' ← ((s.blockCurrent mask).setMsgQueueTask s.current (some t)).enqTimedCurrent
      (s'.push f).rtSchedule c) Edf := by
  obtain ⟨blocked, delayed⟩ := ok.blockTimed mask real stops timed
  have edf := h.blockCurrent _ ok.running real stops
  have edf : ((s.blockCurrent mask).setMsgQueueTask s.current (some t)).Edf :=
    ⟨edf.disp, edf.base, edf.frames⟩
  have linked : Linked ordered (some s.current)
      ((s.blockCurrent mask).setMsgQueueTask s.current (some t)) := blocked.setMsgQueueTask
  refine .bind (edf.enqTimedCurrent.and (linked.enqTimedCurrent delayed real)) ?_
  rintro _ ⟨edf, linked, T, rfl⟩
  exact (edf.push plain).rtSchedule (linked.push fun e => absurd e real) c

theorem rtRpcUntil
    (deadline : (¬s.listening t || s.placed s.disp.priority (RECEIVE.set DELAYED) t) = true) :
    Ensures (s.rtRpcUntil t toDo time c) Edf := by
  refine .ite (fun _ => .some ⟨h.disp, h.base, h.frames⟩) fun accepted => ?_
  have magic : s.disp.magic t = true := by simpa using accepted
  refine .ite (fun listening => ?_) fun _ => ?_
  · have placed := placed_of_listening listening deadline
    refine .bind ((ok.directRpc listening).and (h.directRpc placed)) ?_
    rintro _ ⟨⟨ok, R, T, rfl⟩, edf⟩
    exact edf.waitTimed ok real (by decide) rfl rfl
  · have late : (s.setResumeTime time).Edf := ⟨{ h.disp with }, h.base, h.frames⟩
    have lateOk : Ok ordered (s.setResumeTime time) :=
      ⟨ok.setResumeTime real ok.running, ok.running⟩
    refine .ite (fun _ => .some ⟨late.disp, late.base, late.frames⟩) fun _ => ?_
    have target := ok.lists.realTime magic
    refine .bind ((lateOk.queueRpc target).and (late.queueRpc lateOk target)) ?_
    rintro _ ⟨⟨ok, P, R, Q, rfl, -⟩, edf⟩
    exact edf.waitTimed ok real (by decide) rfl rfl

end

section

variable {result : UInt32} (h : s.Edf)
include h

theorem rtReturnLists (ok : Ok ordered s) (deadline : s.byDeadline (.ret t result) = true) :
    Ensures (s.rtReturnLists t result) fun p => p.1.Edf := by
  refine .ite (fun _ => .some ⟨h.disp, h.base, h.frames⟩) fun _ => .ite (fun client => ?_)
    fun _ => .some ⟨h.disp, h.base, h.frames⟩
  have waits : ¬s.disp.state t = READY := by
    intro ready
    have returning : (s.disp.state t).ret = true := client.1
    rw [ready] at returning
    exact Bool.false_ne_true returning
  simp only [byDeadline, client, and_self, not_true_eq_false, decide_false, Bool.false_or,
    Bool.and_eq_true] at deadline
  obtain ⟨urgent, placed⟩ := deadline
  have counted : Ok ordered (((s.dequeueBlocked t).ret (.task (some t))).setOwndres s.current
      (owndresReturned (s.owndres s.current))) :=
    Ok.countDown (s := (s.dequeueBlocked t).ret (.task (some t)))
      ⟨(ok.dequeueBlocked t).ret, ok.running⟩
  have edf : (((s.dequeueBlocked t).ret (.task (some t))).setOwndres s.current
      (owndresReturned (s.owndres s.current))).Edf := ⟨h.disp, h.base, h.frames⟩
  have own : update s.owndres s.current (owndresReturned (s.owndres s.current)) s.current =
      owndresReturned (s.owndres s.current) := update_self _ _ _
  dsimp only
  rw [ite_setOwndres]
  refine .bind (counted.renqByResources.and (edf.renqByResources counted ?_)) ?_
  · change staysUrgent (update s.owndres s.current (owndresReturned (s.owndres s.current))
      s.current) (s.dequeueBlocked t) = true
    rw [own]
    exact urgent
  rintro ⟨_, b⟩ ⟨⟨ok, L, p, rfl, -⟩, edf, left, -⟩
  have left : update s.disp.priority s.current p = update s.disp.priority s.current
      ((s.dequeueBlocked t).leftPriority (owndresReturned (s.owndres s.current)) s.current) := by
    rw [← own]
    exact left
  rw [← left] at placed
  refine .bind (Ensures.and (Ok.releaseWaiting ⟨ok.setMsg.setMsgQueueTask, ok.running⟩ rfl waits)
    (release ?_ ?_)) ?_
  · exact ⟨edf.disp, edf.base, edf.frames⟩
  · exact placed
  rintro ⟨_, b'⟩ ⟨-, edf⟩
  exact .some edf

theorem rtReturn (ok : Ok ordered s) (deadline : s.byDeadline (.ret t result) = true) :
    Ensures (s.rtReturn t result c) Edf := by
  refine .bind (ok.rtReturnLists_moves.and (rtReturnLists h ok deadline)) ?_
  rintro ⟨_, b⟩ ⟨⟨ok, -⟩, edf⟩
  exact edf.scheduleIf ok.toLinked c

/-! ## Receive -/

theorem takeMessage (sending : s.sending t = true)
    (placed : (s.state t).send = true → s.placed s.disp.priority (SEND.set DELAYED) t = true) :
    Ensures (s.takeMessage t) fun p => p.1.Edf := by
  have idle : s.disp.state t ≠ READY := by
    intro ready
    simp [System.sending, System.state, ready, READY] at sending
  unfold System.takeMessage
  simp only [show (s.dequeueBlocked t).disp = s.disp from rfl]
  rw [Dispatcher.remTimedTask_eq]
  have off : Dispatcher.Edf { s.disp with timed := (s.disp.remTimedTask t).timed } :=
    { h.disp with }
  refine .ite (fun send => ?_) fun _ => ?_
  · refine .bind (off.makeReady fun _ joins => ?_) ?_
    · have joins : (s.disp.state t).clear (SEND.set DELAYED) = READY := joins
      have belongs : s.disp.Belongs s.disp.priority t := by
        simpa [System.placed, System.state, idle, joins] using placed send
      exact belongs
    · exact fun _ edf => .some ⟨edf, h.base, h.frames⟩
  · refine .bind enqueueBlocked_spec ?_
    rintro _ ⟨L, rfl, -⟩
    have waits : ((s.disp.state t).clear (RPC.set DELAYED)).set RETURN ≠ READY := by
      simp [TaskState.set, RETURN, READY]
    have moved : Dispatcher.Edf { s.disp with
        timed := (s.disp.remTimedTask t).timed
        state := update s.disp.state t (((s.disp.state t).clear (RPC.set DELAYED)).set RETURN) } :=
      off.setState idle (by rw [if_neg waits])
    exact .some ⟨moved, h.base, h.frames⟩

theorem rtReceivedRest : s.rtReceivedRest.Edf := by
  unfold System.rtReceivedRest
  dsimp only
  split
  · exact ⟨h.disp, h.base, h.frames⟩
  · exact ⟨h.disp, h.base, h.frames⟩

variable {op : Op n}

theorem receiveNow (ok : Ok ordered s) (call : op.Receives task) (first : s.senderFor task = some t)
    (sending : s.sending t = true) (takes : s.Takes task) :
    Ensures (do
      let (s, woken) ← s.takeMessage t
      (s.push .rtReceived).scheduleIf woken c) Edf := by
  have taken := h.takeMessage sending (takes t first sending)
  refine .bind ((ok.takeMessage call first sending).and taken) ?_
  rintro ⟨s₁, b⟩ ⟨⟨ok, -⟩, edf⟩
  exact (edf.push rfl).scheduleIf (ok.push fun _ => rfl) c

theorem rtReceive (ok : Ok ordered s) (real : s.current ≠ rtLinuxTask) (takes : s.Takes task) :
    Ensures (s.rtReceive task c) Edf := by
  refine .ite (fun _ => .some ⟨h.disp, h.base, h.frames⟩) fun _ => ?_
  refine .bind (P := fun t => s.senderFor task = some t) (fun _ => id) fun t first =>
    .ite (fun sending => h.receiveNow ok .receive first sending takes) fun _ => ?_
  have linked : Linked ordered none ((s.setRetQueueTask s.current true).blockCurrent RECEIVE) :=
    ok.setRetQueueTask.blockUntimed _ ok.running real (by decide) rfl
  refine rtSchedule (push ?_ rfl) (linked.setMsgQueueTask.push fun e => absurd e real) c
  have edf := h.blockCurrent RECEIVE ok.running real (by decide)
  exact ⟨edf.disp, edf.base, edf.frames⟩

theorem rtReceiveIf (ok : Ok ordered s) (takes : s.Takes task) :
    Ensures (s.rtReceiveIf task c) Edf := by
  refine .ite (fun _ => .some ⟨h.disp, h.base, h.frames⟩) fun _ => ?_
  exact .bind (P := fun t => s.senderFor task = some t) (fun _ => id) fun t first =>
    .ite (fun sending => h.receiveNow ok .receiveIf first sending takes)
      fun _ => .some ⟨h.disp, h.base, h.frames⟩

theorem rtReceiveUntil (ok : Ok ordered s) (real : s.current ≠ rtLinuxTask) (takes : s.Takes task) :
    Ensures (s.rtReceiveUntil task time c) Edf := by
  have call : Op.Receives (.receiveUntil task time) task := .receiveUntil
  refine .ite (fun _ => .some ⟨h.disp, h.base, h.frames⟩) fun _ => ?_
  refine .bind (P := fun t => s.senderFor task = some t) (fun _ => id) fun t first =>
    .ite (fun sending => h.receiveNow ok call first sending takes)
      fun _ => ?_
  have late : ((s.setRetQueueTask s.current true).setResumeTime time).Edf :=
    ⟨{ h.disp with }, h.base, h.frames⟩
  have lateOk : Ok ordered ((s.setRetQueueTask s.current true).setResumeTime time) :=
    ⟨ok.setRetQueueTask.setResumeTime real ok.running, ok.running⟩
  refine .ite (fun _ => ?_) fun _ => .some late.rtReceivedRest
  obtain ⟨blocked, delayed⟩ := lateOk.blockTimed (RECEIVE.set DELAYED) real (by decide) rfl
  have parked := late.blockCurrent (RECEIVE.set DELAYED) ok.running real (by decide)
  have waiting : Edf (((((s.setRetQueueTask s.current true).setResumeTime time).blockCurrent
      (RECEIVE.set DELAYED)).waitFor t)) := ⟨parked.disp, parked.base, parked.frames⟩
  have linked : Linked ordered (some s.current) (((((s.setRetQueueTask s.current
      true).setResumeTime time).blockCurrent (RECEIVE.set DELAYED)).waitFor t)) :=
    blocked.setMsgQueueTask
  refine .bind (waiting.enqTimedCurrent.and (Linked.enqTimedCurrent linked delayed real)) ?_
  rintro _ ⟨edf, linked, T, rfl⟩
  exact (edf.push rfl).rtSchedule (linked.push fun e => absurd e real) c

/-! ## One step -/

theorem rtSemWaitIf : (s.rtSemWaitIf sem).Edf := by
  unfold System.rtSemWaitIf
  dsimp only
  split
  · exact ⟨h.disp, h.base, h.frames⟩
  split
  · split
    · exact ⟨h.disp, h.base, h.frames⟩
    · have taken : (s.takeSem sem (s.sem sem).count).Edf := h.takeSem
      exact ⟨taken.disp, taken.base, taken.frames⟩
  · exact ⟨h.disp, h.base, h.frames⟩

theorem rtSemWaitRest : (s.rtSemWaitRest sem).Edf := by
  unfold System.rtSemWaitRest
  split
  · exact ⟨h.disp, h.base, h.frames⟩
  · exact h.takeSem

end

/-- The condition as the receives use it. -/
theorem takes_of_byDeadline (call : op.Receives task) (deadline : s.byDeadline op = true) :
    s.Takes task := by
  have all : ((s.senderFor task).all fun t => ¬(s.sending t && (s.state t).send) ||
      s.placed s.disp.priority (SEND.set DELAYED) t) = true := by
    cases call <;> exact deadline
  intro t first sending send
  simpa [first, sending, send] using all

theorem service (h : s.Edf) (ok : Ok False s) (admits : s.admits op = true)
    (safe : s.Safe False c op) (deadline : s.byDeadline op = true)
    (scheduling : op.scheduling = true) : Ensures (s.service c op) Edf := by
  have real := admits_waits admits
  cases op with
  | taskInit t prio memory => exact h.rtTaskInit ok (by simpa [System.admits] using admits)
  | taskSuspend task => exact h.rtTaskSuspend ok fun e => real (by rw [e]; rfl)
  | taskResume t => exact h.rtTaskResume ok safe deadline
  | taskMakePeriodicRelativeNs t startDelay period => exact h.rtTaskMakePeriodicRelativeNs ok
  | taskMakePeriodic t startTime period => exact h.rtTaskMakePeriodic ok
  | taskWaitPeriod => exact h.rtTaskWaitPeriod ok (real rfl)
  | taskSetResumeEndTimes resume finish => exact h.rtTaskSetResumeEndTimes ok (real rfl)
  | sleep delay => exact h.rtSleep ok (real rfl)
  | sleepUntil time => exact h.rtSleepUntil ok (real rfl)
  | typedSemInit sem value type => exact .some ⟨h.disp, h.base, h.frames⟩
  | semSignal sem => exact h.rtSemSignal ok deadline
  | semWait sem => exact h.rtSemWait ok (real rfl)
  | semWaitIf sem => exact .some h.rtSemWaitIf
  | semWaitUntil sem time => exact h.rtSemWaitUntil ok (real rfl)
  | send t msg => exact h.rtSend ok (real rfl) deadline
  | sendIf t msg => exact h.rtSendIf ok deadline
  | sendUntil t msg time => exact h.rtSendUntil ok (real rfl) deadline
  | rpc t toDo => exact h.rtRpc ok (real rfl) deadline
  | rpcIf t toDo => exact h.rtRpcIf ok (real rfl) deadline
  | rpcUntil t toDo time => exact h.rtRpcUntil ok (real rfl) deadline
  | ret t result => exact h.rtReturn ok deadline
  | receive task => exact h.rtReceive ok (real rfl) (takes_of_byDeadline .receive deadline)
  | receiveIf task => exact h.rtReceiveIf ok (takes_of_byDeadline .receiveIf deadline)
  | receiveUntil task time =>
      have call : Op.Receives (.receiveUntil task time) task := .receiveUntil
      exact h.rtReceiveUntil ok (real rfl) (takes_of_byDeadline call deadline)
  | _ => cases scheduling

/-- Code behind `rt_schedule` puts no task on the ready list. -/
theorem proceed (h : s.Edf) (plain : f.mailbox = false) : Ensures (s.proceed c f) Edf := by
  cases f with
  | rtSemWait sem => exact .some h.rtSemWaitRest
  | rtSemWaitUntil sem => exact .some h.rtSemWaitUntilRest
  | rtSend t msg =>
      rw [System.proceed, rtSendRest_eq]
      exact .some ⟨h.disp, h.base, h.frames⟩
  | rtSendUntil t msg => exact .some h.rtSendUntilRest
  | rtRpc t toDo =>
      rw [System.proceed, rtRpcRest_eq]
      exact .some ⟨h.disp, h.base, h.frames⟩
  | rtRpcUntil t toDo =>
      rw [System.proceed, rtRpcUntilRest_eq]
      exact .some ⟨h.disp, h.base, h.frames⟩
  | rtReceive => exact .some (rtReceivedRest ⟨h.disp, h.base, h.frames⟩)
  | rtReceived => exact .some h.rtReceivedRest
  | _ => cases plain

theorem step {e : Event n} (h : s.Edf) (ok : Ok False s) (safe : s.SafeEvent False e)
    (scheduling : e.scheduling = true) (deadline : s.byDeadlineEvent e = true) :
    Ensures (System.step e s) Edf := by
  cases e with
  | call op c => exact .ite (fun called => h.service ok called.2 safe deadline scheduling) fun _ => .none
  | resume c =>
      simp only [System.step]
      split
      · exact .none
      next f fs stack =>
        refine h.pop.proceed (h.frames s.current f ?_)
        rw [stack]
        exact .head _
  | timer c =>
      refine .ite (fun _ => .map ((h.disp.rtTimerHandler ok.lists c).mono ?_)) fun _ => .none
      exact fun _ edf => ⟨edf, h.base, h.frames⟩

end Edf

theorem bootPriority_nonneg (u : Task n) :
    0 ≤ update (fun _ => (0 : Int)) rtLinuxTask RT_LINUX_PRIORITY u := by
  by_cases same : u = rtLinuxTask
  · rw [same, update_self]
    decide
  · rw [update_of_ne same]

theorem boot_edf (n : Nat) (t : Timer) : (boot n t).Edf where
  disp := {
    ready := ⟨[], ⟨by simp, rfl, rfl⟩, fun u => by
      by_cases same : u = rtLinuxTask
      · simp [boot, same]
      · simp [boot, same, DEAD, READY], .nil⟩
    urgent := fun u edf => absurd edf (lt_irrefl 0)
    nonneg := bootPriority_nonneg
    plain := fun _ => le_rfl
    linuxPolicy := rfl
    linuxPriority := by simp [boot] }
  base := bootPriority_nonneg
  frames := fun _ _ mem => absurd mem List.not_mem_nil

end System

end Rtai.Up
