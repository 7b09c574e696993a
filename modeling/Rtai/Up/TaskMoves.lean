import Rtai.Up.MessageMoves

/-!
# What the task services do

`TaskCall` lists the outcomes of the calls that start, suspend and delete tasks
and change their priorities, in the manner of `SemaphoreMoves`.
-/

namespace Rtai.Up

open Function Rtai.Lib

namespace System

variable {n : Nat}

/-- A deleted task that nobody is queued on. -/
def deleted (t : Task n) (R T : Links (Task n)) (s : System n) : System n :=
  { s.leaveQueue t with disp := { s.disp with
      magic := update s.disp.magic t false
      state := update s.disp.state t DEAD
      ready := R
      timed := T } }

/-- The outcomes of a call of a task service. -/
inductive TaskCall (s : System n) : Op n → System n → Prop
  | refuse {op : Op n} {v : Ret n} : TaskCall s op (s.ret v)
  | init {t : Task n} {prio : Int} {memory : Bool} (free : s.disp.magic t = false) :
      TaskCall s (.taskInit t prio memory) ((s.initTask t prio).ret (.int 0))
  /-- The suspension is counted only. -/
  | suspendLater {task : Option (Task n)} {t : Task n} (target : t = task.getD s.current)
      (busy : s.suspdepth t ≠ 0 ∨ s.owndres t ≠ 0) :
      TaskCall s (.taskSuspend task) ((s.setSuspdepth t (s.suspdepth t + 1)).ret (.int 0))
  | suspend {task : Option (Task n)} {t : Task n} {R : Links (Task n)}
      (target : t = task.getD s.current) (depth : s.suspdepth t = 0) (free : s.owndres t = 0) :
      TaskCall s (.taskSuspend task) { (s.setSuspdepth t (s.suspdepth t + 1)).ret (.int 0) with
        disp := { s.disp with
          ready := R
          state := update s.disp.state t ((s.disp.state t).set SUSPENDED) } }
  /-- One of several suspensions ends, or one that was put off is cancelled. -/
  | resumeLater {t : Task n} (depth : s.suspdepth t ≠ 1) :
      TaskCall s (.taskResume t) ((s.setSuspdepth t (s.suspdepth t - 1)).ret (.int 0))
  | resume {t : Task n} {R : Links (Task n)} (magic : s.disp.magic t = true)
      (depth : s.suspdepth t = 1) :
      TaskCall s (.taskResume t) { (s.setSuspdepth t (s.suspdepth t - 1)).ret (.int 0) with
        disp := { s.disp with
          ready := R
          state := update s.disp.state t ((s.disp.state t).clear SUSPENDED) } }
  /-- The base priority changes, the priority in effect does not. -/
  | changeBase {t : Task n} {prio : Int} :
      TaskCall s (.changePrio t prio) { s.ret (.int (s.basePriority t)) with
        basePriority := update s.basePriority t prio }
  | changePrio {t : Task n} {prio : Int} {P : Task n → Int} {R : Links (Task n)}
      {Q : Links (QNode n)} (queue : s.Requeues Q)
      (changes : prio < s.priority t ∨ s.basePriority t = s.priority t)
      (passes : Passes (update s.disp.priority t prio) s.prioPassedTo prio (s.prioPassedTo t) P) :
      TaskCall s (.changePrio t prio) { s.ret (.int (s.basePriority t)) with
        disp := { s.disp with
          priority := P
          ready := R }
        basePriority := update s.basePriority t prio
        queue := Q }
  /-- The deletion is put off. -/
  | deleteLater {t : Task n} (owner : s.owndres t &&& SEMHLF ≠ 0) (other : t ≠ s.current)
      (real : s.priority s.current ≠ RT_LINUX_PRIORITY) :
      TaskCall s (.taskDelete t) ((s.setSuspdepth t (-0x7FFFFFFF)).ret (.int 0))
  | delete {t : Task n} {R T : Links (Task n)} (magic : s.disp.magic t = true)
      (now : s.owndres t &&& SEMHLF = 0 ∨ t = s.current ∨
        s.priority s.current = RT_LINUX_PRIORITY) :
      TaskCall s (.taskDelete t) ((s.deleted t R T).ret (.int 0))

variable {s : System n} {t : Task n} {ordered : Prop} {c : Clock}

/-- The end of a suspension that was carried out. -/
theorem Linked.resume (h : Linked ordered none s) (hm : s.disp.magic t = true)
    (hr : s.state t ≠ READY) (awake : (s.state t).delayed = false)
    (running : s.state s.current = READY) :
    Ensures (
      let d := s.disp.remTimedTask t
      let d := d.setState t ((d.state t).clear SUSPENDED)
      let s := { s with disp := d }
      if (d.state t).clear DELAYED = READY then do
        let s ← s.onDisp (Dispatcher.enqReadyTask t)
        s.rtSchedule c
      else some s) fun s' => ∃ R, Scheduled ordered c { s with disp := { s.disp with
        ready := R
        state := update s.disp.state t ((s.disp.state t).clear SUSPENDED) } } s' := by
  have awake : (s.disp.state t).delayed = false := awake
  have stays : s.disp.remTimedTask t = s.disp := by
    rw [Dispatcher.remTimedTask, awake]
    rfl
  have still : (((s.disp.state t).clear SUSPENDED).clear DELAYED) =
      (s.disp.state t).clear SUSPENDED := by
    simp [TaskState.clear, DELAYED, SUSPENDED, awake]
  have hne : s.current ≠ t := by
    rintro rfl
    exact hr running
  simp only [stays, Dispatcher.setState, update_self, still]
  refine .ite (fun e => ?_) fun e => .some ⟨s.disp.ready, Ok.stays ⟨?_, ?_⟩⟩
  · rw [e]
    refine .bind (h.setReady hr awake hm) ?_
    rintro _ ⟨h', R, rfl⟩
    exact (Linked.scheduled h' c).mono fun s' hs => ⟨R, hs⟩
  · refine h.onDisp ((h.lists.unsettle awake).setState hr e ?_ fun hd => ?_) h.linux.priority
    · simp [TaskState.clear, awake]
    · exact absurd (hd.symm.trans hm) Bool.false_ne_true
  · exact (update_of_ne hne _ _).trans running

namespace Ok

variable {prio : Int}

theorem rtTaskInit_moves {memory : Bool} :
    Ensures (s.rtTaskInit t prio memory) (TaskCall s (.taskInit t prio memory)) := by
  refine .ite (fun _ => .some .refuse) fun hm => .ite (fun _ => .some .refuse) fun _ => .some ?_
  exact .init (by simpa using fun e => hm (Or.inl e))

theorem rtTaskSuspend_moves {task : Option (Task n)} (h : Ok ordered s)
    (hc : task = none → s.current ≠ rtLinuxTask) :
    Ensures (s.rtTaskSuspend task c) fun s' =>
      ∃ s₁, TaskCall s (.taskSuspend task) s₁ ∧ Scheduled ordered c s₁ s' := by
  refine .ite (fun _ => .some ⟨_, .refuse, stays ⟨h.ret, h.running⟩⟩) fun hm => ?_
  have ht : task.getD s.current ≠ rtLinuxTask ∧ s.disp.magic (task.getD s.current) = true := by
    cases task with
    | none =>
        have live : s.state s.current ≠ DEAD := by
          rw [h.running]
          decide
        exact ⟨hc rfl, h.lists.magic (hc rfl) live⟩
    | some t =>
        have hm : s.disp.magic t = true := by simpa using fun e => hm ⟨rfl, e⟩
        exact ⟨h.lists.realTime hm, hm⟩
  generalize target : task.getD s.current = t at ht
  obtain ⟨ht, hm⟩ := ht
  have h₁ : Linked ordered none ((s.setSuspdepth t (s.suspdepth t + 1)).ret (.int 0)) :=
    (h.setSuspdepth ht).ret
  refine .ite (fun now => ?_) fun later => .some
    ⟨_, .suspendLater target.symm ?_, stays ⟨h₁, h.running⟩⟩
  · have h₂ := h₁.lists.suspend ht hm
    rw [Dispatcher.remReadyTask_eq] at h₂ ⊢
    refine ((h₁.onDisp h₂ h.linux.priority).scheduleIf c fun hb => ?_).mono fun s' hs =>
      ⟨_, .suspend target.symm now.1 now.2, hs.1, hs.2⟩
    have e : s.current ≠ t := fun e => of_decide_eq_false hb e.symm
    exact (update_of_ne e _ _).trans h.running
  · exact not_and_or.mp later

/-- A suspension is ended only when it was carried out and the task is not
asleep besides. -/
theorem rtTaskResume_moves (h : Ok ordered s)
    (safe : s.suspdepth t = 1 → s.state t ≠ READY ∧ (s.state t).delayed = false) :
    Ensures (s.rtTaskResume t c) fun s' =>
      ∃ s₁, TaskCall s (.taskResume t) s₁ ∧ Scheduled ordered c s₁ s' := by
  refine .ite (fun _ => .some ⟨_, .refuse, stays ⟨h.ret, h.running⟩⟩) fun hm => ?_
  have hm : s.disp.magic t = true := by simpa using hm
  have h₁ : Linked ordered none ((s.setSuspdepth t (s.suspdepth t - 1)).ret (.int 0)) :=
    (h.setSuspdepth (h.lists.realTime hm)).ret
  refine .ite (fun now => ?_) fun later => .some
    ⟨_, .resumeLater (by omega), stays ⟨h₁, h.running⟩⟩
  have depth : s.suspdepth t = 1 := by omega
  obtain ⟨hr, awake⟩ := safe depth
  refine (h₁.resume hm hr awake h.running).mono ?_
  rintro s' ⟨R, hs⟩
  exact ⟨_, .resume hm depth, hs⟩

theorem rtChangePrio_moves (h : Ok ordered s) :
    Ensures (s.rtChangePrio t prio c) fun s' =>
      ∃ s₁, TaskCall s (.changePrio t prio) s₁ ∧ Scheduled ordered c s₁ s' := by
  refine .ite (fun _ => .some ⟨_, .refuse, stays ⟨h.ret, h.running⟩⟩) fun hm => ?_
  have ht := h.lists.realTime (t := t) (by simpa using fun e => hm (Or.inl e))
  refine .ite (fun _ => .some ⟨_, .refuse, stays ⟨h.ret, h.running⟩⟩) fun _ => ?_
  have h₁ : Linked ordered none { s.ret (.int (s.basePriority t)) with
      basePriority := update s.basePriority t prio } :=
    ⟨h.lists, { h.linux with base := (update_of_ne ht.symm _ _).trans h.linux.base }⟩
  refine .ite (fun changes => ?_) fun _ => .some ⟨_, .changeBase, stays ⟨h₁, h.running⟩⟩
  refine .bind (h₁.inherit ht) ?_
  rintro ⟨_, b⟩ ⟨h₂, R, Q, rfl, hQ⟩
  refine .bind (h₂.passPrioLoop (h.linux.prioPassedTo t)) ?_
  rintro ⟨_, b'⟩ ⟨h₃, P', R', Q', rfl, hQ', hP⟩
  refine (Ok.scheduled ⟨h₃, h.running⟩ c).mono fun s' hs => ⟨_, ?_, hs⟩
  have changes : prio < s.priority t ∨ s.basePriority t = s.priority t := changes
  exact .changePrio (fun b hb same => hQ' b (hQ b hb same) same) changes hP

/-- What `leaveQueue` does depends on the state word only. -/
theorem leaveQueue_disp {d : Dispatcher n} (h : d.state = s.disp.state) :
    { s with disp := d }.leaveQueue t = { s.leaveQueue t with disp := d } := by
  unfold System.leaveQueue
  cases s.blockedOn t with
  | none => simp
  | some q =>
      cases q with
      | sem sem =>
          cases waits : (s.disp.state t).semaphore with
          | true =>
              simp [System.state, unlinkQueue, h, waits, setCount, setSem]
              rfl
          | false => simp [System.state, unlinkQueue, h, waits]
      | msgQueue r => simp [unlinkQueue]
      | retQueue r => simp [unlinkQueue]

/-- Nobody is queued on the task that is deleted. -/
theorem deleteTask_eq (h : Linked.Alone (s.leaveQueue t).queue t) :
    Ensures (s.deleteTask t) fun s' => ∃ R T, s' = s.deleted t R T := by
  have state : (s.disp.remTimedTask t).state = s.disp.state := by
    rw [Dispatcher.remTimedTask_eq]
  unfold System.deleteTask
  dsimp only
  rw [leaveQueue_disp state, Dispatcher.remTimedTask_eq]
  refine .bind (Linked.releaseQueue_alone h.1) ?_
  rintro _ rfl
  refine .bind (Linked.releaseQueue_alone h.2) ?_
  rintro _ rfl
  rw [Dispatcher.remReadyTask_eq]
  exact .some ⟨_, _, rfl⟩

theorem rtTaskDelete_moves (h : Ok ordered s)
    (alone : s.disp.magic t = true → Linked.Alone (s.leaveQueue t).queue t) :
    Ensures (s.rtTaskDelete t c) fun s' =>
      ∃ s₁, TaskCall s (.taskDelete t) s₁ ∧ Scheduled ordered c s₁ s' := by
  refine .ite (fun _ => .some ⟨_, .refuse, stays ⟨h.ret, h.running⟩⟩) fun hm => ?_
  have hm : s.disp.magic t = true := by simpa using fun e => hm (Or.inl e)
  have ht := h.lists.realTime hm
  refine .ite (fun now => ?_) fun later => .some
    ⟨_, .deleteLater ?_ ?_ ?_, stays ⟨(h.setSuspdepth ht).ret, h.running⟩⟩
  · refine .bind ((h.toLinked.deleteTask ht fun _ => alone hm).and (deleteTask_eq (alone hm))) ?_
    rintro _ ⟨⟨h₁, current, keeps⟩, R, T, rfl⟩
    refine (h₁.ret.scheduleIf c fun hb => ?_).mono fun s' hs => ⟨_, .delete hm now, hs.1, hs.2⟩
    have other : t ≠ s.current := of_decide_eq_false hb
    exact keeps s.current other.symm h.running
  · exact fun e => later (Or.inl e)
  · exact fun e => later (Or.inr (Or.inl e))
  · exact fun e => later (Or.inr (Or.inr e))

end Ok

end System

end Rtai.Up
