import Rtai.Up.TaskMoves

/-!
# One step keeps the lists

For each service the theorem that it takes a state with right lists to one
with right lists.  Three services do so only under a condition, which `Safe`
collects: a suspension that is cancelled must have been carried out
(`rt_task_resume`), and a new resume time for a sleeping task must fit between
its neighbours on the timed list unless the task is moved
(`rt_task_make_periodic`, `rt_set_resume_time`).  The second matters for the
order of the timed list only.
-/

namespace Rtai.Up

open Function Rtai.Lib

namespace System

variable {n : Nat} {s s' : System n} {t : Task n} {ordered : Prop} {mask : TaskState} {c : Clock}
  {sem : SemId} {prio : Int} {op : Op n}

namespace Linked

theorem initTask (h : Linked ordered none s) (hm : s.disp.magic t = false) (ht : t ≠ rtLinuxTask) :
    Linked ordered none (s.initTask t prio) := by
  have hd : s.disp.state t = DEAD := h.lists.dead t ht hm
  refine ⟨{
    ready := ?_, timed := ?_, dead := fun u hu hmu => ?_
    linuxMagic := (update_of_ne ht.symm _ _).trans h.lists.linuxMagic
    linuxTime := (update_of_ne ht.symm _ _).trans h.lists.linuxTime
    linuxPolicy := (update_of_ne ht.symm _ _ : update s.disp.policy t 0 _ = _).trans_le
      h.lists.linuxPolicy }, {
    priority := (update_of_ne ht.symm _ _).trans h.linux.priority
    base := (update_of_ne ht.symm _ _).trans h.linux.base
    owndres := (update_of_ne ht.symm _ _).trans h.linux.owndres
    suspdepth := (update_of_ne ht.symm _ _).trans h.linux.suspdepth
    stack := fun f hf => h.linux.stack f ?_
    owndby := h.linux.owndby
    mbxOwndby := h.linux.mbxOwndby
    prioPassedTo := fun u => ?_ }⟩
  · refine (h.lists.ready.reset (t := t) (by rw [hd]; decide)).congr fun u => ?_
    show _ ↔ update s.disp.state t (SUSPENDED.set READY) u = READY
    by_cases e : u = t
    · subst e
      rw [update_self, hd]
      decide
    · rw [update_of_ne e]
  · refine (h.lists.timed.reset (t := t) (by rw [hd]; simp [DEAD]) ht).congr (fun u => ?_) ?_
    · show _ ↔ (update s.disp.state t (SUSPENDED.set READY) u).delayed = true ∧ _
      by_cases e : u = t
      · subst e
        rw [update_self, hd]
        exact Iff.rfl
      · rw [update_of_ne e]
    · rintro u ⟨hu, -⟩
      have : u ≠ t := by
        rintro rfl
        rw [hd] at hu
        exact Bool.false_ne_true hu
      exact update_of_ne this _ _
  · have e : u ≠ t := by
      rintro rfl
      exact Bool.false_ne_true (hmu.symm.trans (update_self _ _ _))
    refine (update_of_ne e _ _).trans (h.lists.dead u hu ?_)
    exact (update_of_ne e _ _).symm.trans hmu
  · exact (congrArg (f ∈ ·) (update_of_ne ht.symm _ _)).mp hf
  · show update s.prioPassedTo t none u ≠ some rtLinuxTask
    by_cases e : u = t
    · subst e; simp
    · rw [update_of_ne e]
      exact h.linux.prioPassedTo u

end Linked

/-! ## Tasks -/

namespace Ok

/-- What a service may leave behind is left behind by `rt_schedule`. -/
theorem of_moves {x : Option (System n)} {M : System n → Prop}
    (h : Ensures x fun s' => ∃ s₁, M s₁ ∧ Scheduled ordered c s₁ s') : Ensures x (Ok ordered) :=
  h.mono fun _ ⟨_, _, h⟩ => h.ok

theorem rtTaskInit {memory : Bool} (h : Ok ordered s) (ht : t ≠ rtLinuxTask) :
    Ensures (s.rtTaskInit t prio memory) (Ok ordered) := by
  refine .ite (fun _ => .some ⟨h.ret, h.running⟩) fun hm => ?_
  refine .ite (fun _ => .some ⟨h.ret, h.running⟩) fun _ => .some ?_
  have hm : s.disp.magic t = false := by simpa using fun e => hm (Or.inl e)
  have hne : s.current ≠ t := by
    rintro rfl
    exact absurd (h.running.symm.trans (h.lists.dead _ ht hm)) (by decide)
  exact ⟨(h.toLinked.initTask hm ht).ret, (update_of_ne hne _ _).trans h.running⟩

variable {task : Option (Task n)}

theorem rtTaskSuspend (h : Ok ordered s) (hc : task = none → s.current ≠ rtLinuxTask) :
    Ensures (s.rtTaskSuspend task c) (Ok ordered) :=
  of_moves (h.rtTaskSuspend_moves hc)

theorem rtTaskResume (h : Ok ordered s)
    (safe : s.suspdepth t = 1 → s.state t ≠ READY ∧ (s.state t).delayed = false) :
    Ensures (s.rtTaskResume t c) (Ok ordered) :=
  of_moves (h.rtTaskResume_moves safe)

/-! ## Timing -/

theorem sleepCurrent (h : Ok ordered s) (hc : s.current ≠ rtLinuxTask) :
    Ensures (s.sleepCurrent c) (Ok ordered) := by
  have delayed : ((s.blockCurrent DELAYED).state s.current).delayed = true := by
    show (update s.disp.state s.current _ s.current).delayed = true
    rw [update_self]
    simp [TaskState.set, DELAYED]
  refine .bind ((h.block h.running hc (by decide)).enqTimedCurrent delayed hc) ?_
  rintro _ ⟨h', T, rfl⟩
  exact (h'.rtSchedule c).mono fun _ h => h.1

/-- A task has its times set, and its suspensions are over. -/
theorem periodic (startTime period : RTIME) (h : Ok ordered s) (ht : t ≠ rtLinuxTask)
    (safe : ordered → (s.state t).delayed = true →
      Fits s.disp.timed s.disp.resumeTime t startTime) :
    Linked ordered none (({ s with disp := { s.disp with
      resumeTime := update s.disp.resumeTime t startTime
      period := update s.disp.period t period } }.setSuspdepth t 0).ret (.int 0)) := by
  refine Linked.ret (Linked.setSuspdepth (h.onDisp (d := { s.disp with
    resumeTime := update s.disp.resumeTime t startTime
    period := update s.disp.period t period }) ?_ h.linux.priority) ht)
  exact { h.lists with
    timed := h.lists.timed.retime fun ho hp => safe ho hp.1
    linuxTime := (update_of_ne ht.symm _ _).trans h.lists.linuxTime }

variable {startTime period : RTIME}

theorem makePeriodic (h : Ok ordered s) (ht : t ≠ rtLinuxTask)
    (hm : s.disp.magic t = true)
    (safe : ordered → (s.state t).delayed = true →
      Fits s.disp.timed s.disp.resumeTime t startTime) :
    Ensures (s.makePeriodic t startTime period c) (Ok ordered) := by
  have h₁ := h.periodic startTime period ht safe
  refine .ite (fun _ => (h₁.rtSchedule c).mono fun _ h => h.1) fun hd => ?_
  have parked := h₁.lists.delay ht hm (eq_false_of_ne_true hd)
  rw [Dispatcher.remReadyTask_eq] at parked ⊢
  refine .bind (parked.enqTimedTask ?_ ht) ?_
  · show (update s.disp.state t _ t).delayed = true
    rw [update_self]
    simp [TaskState.set, DELAYED]
  · rintro _ ⟨hl, T, rfl⟩
    exact ((h₁.onDisp hl h.linux.priority).rtSchedule c).mono fun _ h => h.1

theorem rtTaskMakePeriodicRelativeNs {startDelay : RTIME} (h : Ok ordered s)
    (safe : ordered → (s.state t).delayed = true → Fits s.disp.timed s.disp.resumeTime t
      (s.disp.rtGetTime c + nano2count s.disp.timer startDelay)) :
    Ensures (s.rtTaskMakePeriodicRelativeNs t startDelay period c) (Ok ordered) := by
  refine .ite (fun _ => .some ⟨h.ret, h.running⟩) fun hm => ?_
  have hm : s.disp.magic t = true := by simpa using hm
  exact h.makePeriodic (h.lists.realTime hm) hm safe

theorem rtTaskMakePeriodic (h : Ok ordered s)
    (safe : ordered → (s.state t).delayed = true →
      Fits s.disp.timed s.disp.resumeTime t startTime) :
    Ensures (s.rtTaskMakePeriodic t startTime period c) (Ok ordered) := by
  refine .ite (fun _ => .some ⟨h.ret, h.running⟩) fun hm => ?_
  have hm : s.disp.magic t = true := by simpa using hm
  exact h.makePeriodic (h.lists.realTime hm) hm safe

variable {time : RTIME}

section

variable {finish : RTIME} (h : Ok ordered s) (hc : s.current ≠ rtLinuxTask)
include h hc

/-- A running task has its time set and may then go to sleep. -/
theorem sleepLate :
    Ensures (if time > (s.setResumeTime time).disp.timeH then (s.setResumeTime time).sleepCurrent c
      else some (s.setResumeTime time)) (Ok ordered) := by
  have h₁ : Ok ordered (s.setResumeTime time) :=
    ⟨h.toLinked.setResumeTime hc h.running, h.running⟩
  exact .ite (fun _ => h₁.sleepCurrent hc) fun _ => .some h₁

theorem rtTaskWaitPeriod : Ensures (s.rtTaskWaitPeriod c) (Ok ordered) := by
  refine .ite (fun _ => .some ?_) fun _ => h.sleepLate hc
  have h₁ : Linked ordered none { s with resyncFrame := update s.resyncFrame s.current false } :=
    ⟨h.lists, { h.linux with }⟩
  exact ⟨h₁.setResumeTime hc h.running, h.running⟩

/-- A running task may become an EDF task. -/
theorem setEndTimes : Ok ordered { s with disp := { s.disp with
      policy := update s.disp.policy s.current (-1)
      priority := update s.disp.priority s.current 0
      resumeTime := update s.disp.resumeTime s.current time
      period := update s.disp.period s.current finish } } := by
  refine ⟨⟨?_, ?_⟩, h.running⟩
  · refine { h.lists with timed := ?_, linuxTime := ?_, linuxPolicy := ?_ }
    · refine h.lists.timed.retime fun _ hp => absurd hp.1 ?_
      rw [show s.disp.state s.disp.current = READY from h.running]
      decide
    · exact (update_of_ne hc.symm _ _).trans h.lists.linuxTime
    · exact (update_of_ne hc.symm _ _ : update s.disp.policy _ (-1) _ = _).trans_le
        h.lists.linuxPolicy
  · exact { h.linux with priority := (update_of_ne hc.symm _ _).trans h.linux.priority }

theorem rtTaskSetResumeEndTimes {resume : RTIME} :
    Ensures (s.rtTaskSetResumeEndTimes resume finish c) (Ok ordered) :=
  (h.setEndTimes hc).sleepCurrent hc

theorem rtSleep {delay : RTIME} : Ensures (s.rtSleep delay c) (Ok ordered) := h.sleepLate hc

theorem rtSleepUntil : Ensures (s.rtSleepUntil time c) (Ok ordered) := h.sleepLate hc

end

section

variable (h : Ok ordered s)
include h

theorem rtSetResumeTime
    (safe : ordered → (s.state t).delayed = true →
      outOfPlace t time (s.disp.setResumeTime t time) = false →
      Fits s.disp.timed s.disp.resumeTime t time) :
    Ensures (s.rtSetResumeTime t time c) (Ok ordered) := by
  refine .ite (fun _ => .some ⟨h.ret, h.running⟩) fun hm => ?_
  have ht := h.lists.realTime (by simpa using hm)
  refine .ite (fun hd => ?_) fun _ => .some ⟨h.ret, h.running⟩
  refine .ite (fun _ => ?_) fun place => .some ⟨Linked.ret ?_, h.running⟩
  · have off := h.lists.retimeOff (x := time) ht
    rw [Dispatcher.remTimedTask_eq] at off ⊢
    refine .bind (off.enqTimedTask hd ht) ?_
    rintro _ ⟨hl, T, rfl⟩
    exact Ok.rtSchedule (h.onDisp hl h.linux.priority).ret c
  · refine h.onDisp { h.lists with
      timed := h.lists.timed.retime fun ho _ => safe ho hd (eq_false_of_ne_true place)
      linuxTime := (update_of_ne ht.symm _ _).trans h.lists.linuxTime } h.linux.priority

theorem rtTaskWakeupSleeping : Ensures (s.rtTaskWakeupSleeping t c) (Ok ordered) := by
  refine .ite (fun _ => .some ⟨h.ret, h.running⟩) fun _ => ?_
  refine .bind (h.release (t := t) rfl) ?_
  rintro ⟨_, b⟩ ⟨h', -⟩
  exact Ok.scheduleIf ⟨h'.ret, h'.running⟩ c

theorem rtTaskYield (hc : s.current ≠ rtLinuxTask) : Ensures (s.rtTaskYield c) (Ok ordered) := by
  refine .bind (h.lists.moveBehindEquals h.running hc) ?_
  rintro ⟨_, b⟩ ⟨hl, L, rfl⟩
  exact Ok.scheduleIf ⟨h.onDisp hl h.linux.priority, h.running⟩ c

/-! ## Priorities and deletion -/

theorem rtChangePrio : Ensures (s.rtChangePrio t prio c) (Ok ordered) :=
  of_moves h.rtChangePrio_moves

theorem rtTaskDelete (alone : (s.state t).delayed = true → Linked.Alone (s.leaveQueue t).queue t) :
    Ensures (s.rtTaskDelete t c) (Ok ordered) := by
  refine .ite (fun _ => .some ⟨h.ret, h.running⟩) fun hm => ?_
  have hm : s.disp.magic t = true := by simpa using fun e => hm (Or.inl e)
  have ht := h.lists.realTime hm
  refine .ite (fun _ => ?_) fun _ => .some ⟨(h.setSuspdepth ht).ret, h.running⟩
  refine .bind (h.toLinked.deleteTask ht alone) ?_
  rintro s₁ ⟨h₁, current, keeps⟩
  refine .mono (h₁.ret.scheduleIf c fun hb => ?_) fun _ h => h.1
  show s₁.state s₁.current = READY
  rw [current]
  have hb : t ≠ s₁.current := of_decide_eq_false hb
  exact keeps _ (fun e => hb (current.trans e).symm) h.running

/-! ## Semaphores -/

theorem rtTypedSemInit {value : Int} {type : Nat} : Ok ordered (s.rtTypedSemInit sem value type) :=
  ⟨(h.setSem (v := typedSem value type) nofun).setQueue, h.running⟩

theorem releaseOwned : Ensures (s.releaseOwned c) (Ok ordered) :=
  of_moves h.releaseOwned_moves

theorem rtSemSignal : Ensures (s.rtSemSignal sem c) (Ok ordered) :=
  of_moves h.rtSemSignal_moves

end

theorem broadcastLoop : ∀ {k : Nat} {q : QNode n} {s : System n}, Ok ordered s →
    Ensures (s.broadcastLoop sem k q) fun p => Ok ordered p.1
  | 0, _, _, _ => .none
  | k + 1, q, s, h => by
      refine .ite (fun _ => .some h) fun _ => ?_
      refine .bind (P := fun _ => True) (fun _ _ => trivial) fun t _ => ?_
      have h₁ : Ok ordered (s.dequeueBlocked t) := ⟨h.dequeueBlocked t, h.running⟩
      refine .bind (h₁.release rfl) ?_
      rintro ⟨_, b⟩ ⟨h₂, -⟩
      refine .bind (broadcastLoop h₂) ?_
      rintro ⟨_, b'⟩ h₃
      exact .some h₃

theorem rtSemBroadcast (h : Ok ordered s) : Ensures (s.rtSemBroadcast sem c) (Ok ordered) := by
  refine .ite (fun _ => .some ⟨h.ret, h.running⟩) fun _ => ?_
  refine .bind h.broadcastLoop ?_
  rintro ⟨s₁, b⟩ h₁
  exact Ok.scheduleIf ⟨h₁.setCount.setQueue.ret, h₁.running⟩ c

section

variable (h : Ok ordered s) (hc : s.current ≠ rtLinuxTask)
include h hc

theorem rtSemWait : Ensures (s.rtSemWait sem c) (Ok ordered) :=
  of_moves (h.rtSemWait_moves hc)

theorem rtSemWaitUntil : Ensures (s.rtSemWaitUntil sem time c) (Ok ordered) :=
  of_moves (h.rtSemWaitUntil_moves hc)

theorem rtSemWaitRest : Ok ordered (s.rtSemWaitRest sem) := by
  unfold System.rtSemWaitRest
  split
  · exact ⟨h.clearPrioPassedTo.ret, h.running⟩
  · exact h.takeSem hc

theorem rtSemWaitIf : Ok ordered (s.rtSemWaitIf sem) := by
  unfold System.rtSemWaitIf
  dsimp only
  split
  · exact ⟨h.ret, h.running⟩
  split
  · split
    · exact ⟨h.setType.ret, h.running⟩
    · have taken : Ok ordered (s.takeSem sem (s.sem sem).count) := h.takeSem hc
      exact ⟨taken.setCount, taken.running⟩
  · exact ⟨h.ret, h.running⟩

end

variable {x : Transfer} {v : Int} {msg toDo : UInt32} {b : Nat} (h : Ok ordered s)
include h

theorem rtCntsemWaitIfAndLock : Ok ordered (s.rtCntsemWaitIfAndLock sem) := by
  unfold System.rtCntsemWaitIfAndLock
  dsimp only
  split
  · exact ⟨h.ret, h.running⟩
  · exact ⟨h.setCount.ret, h.running⟩

/-! ## Messages -/

theorem rtSend (hc : s.current ≠ rtLinuxTask) : Ensures (s.rtSend t msg c) (Ok ordered) :=
  of_moves (h.rtSend_moves hc)

theorem rtSendRest : Ok ordered (s.rtSendRest t) := by
  unfold System.rtSendRest
  split
  · exact ⟨h.ret, h.running⟩
  · exact ⟨h.setMsgQueueTask.ret, h.running⟩

theorem rtSendIf : Ensures (s.rtSendIf t msg c) (Ok ordered) :=
  of_moves h.rtSendIf_moves

theorem rtSendUntil (hc : s.current ≠ rtLinuxTask) :
    Ensures (s.rtSendUntil t msg time c) (Ok ordered) :=
  of_moves (h.rtSendUntil_moves hc)

theorem rtRpc (hc : s.current ≠ rtLinuxTask) : Ensures (s.rtRpc t toDo c) (Ok ordered) :=
  of_moves (h.rtRpc_moves hc)

theorem rtRpcRest : Ok ordered (s.rtRpcRest t) := by
  unfold System.rtRpcRest
  split
  · exact ⟨h.store.ret, h.running⟩
  · exact ⟨h.setMsgQueueTask.ret, h.running⟩

theorem rtRpcIf (hc : s.current ≠ rtLinuxTask) : Ensures (s.rtRpcIf t toDo c) (Ok ordered) :=
  of_moves (h.rtRpcIf_moves hc)

theorem rtRpcUntil (hc : s.current ≠ rtLinuxTask) :
    Ensures (s.rtRpcUntil t toDo time c) (Ok ordered) :=
  of_moves (h.rtRpcUntil_moves hc)

theorem rtRpcUntilRest : Ok ordered (s.rtRpcUntilRest t) := by
  unfold System.rtRpcUntilRest
  split
  · exact ⟨h.store.ret, h.running⟩
  · exact ⟨(h.dequeueBlocked s.current).setMsgQueueTask.ret, h.running⟩

theorem rtReturn {result : UInt32} : Ensures (s.rtReturn t result c) (Ok ordered) :=
  of_moves h.rtReturn_moves

theorem rtReceiveRest : Ok ordered s.rtReceiveRest :=
  Ok.rtReceivedRest ⟨h.store, h.running⟩

theorem rtReceive (hc : s.current ≠ rtLinuxTask) : Ensures (s.rtReceive task c) (Ok ordered) :=
  of_moves (h.rtReceive_moves hc)

theorem rtReceiveIf : Ensures (s.rtReceiveIf task c) (Ok ordered) :=
  of_moves h.rtReceiveIf_moves

theorem rtReceiveUntil (hc : s.current ≠ rtLinuxTask) :
    Ensures (s.rtReceiveUntil task time c) (Ok ordered) :=
  of_moves (h.rtReceiveUntil_moves hc)

/-! ## Mailboxes -/

theorem rtMbxInit {size : Int} : Ok ordered (s.rtMbxInit b size) := by
  have h₂ : Ok ordered ((s.rtTypedSemInit (.sndsem b) 1 (BIN_SEM ||| PRIO_Q)).rtTypedSemInit
      (.rcvsem b) 1 (BIN_SEM ||| PRIO_Q)) := h.rtTypedSemInit.rtTypedSemInit
  have h₃ := h₂.setMbx (b := b) (v := ⟨true, none, none, (s.mbx b).bufadr, size, 0, 0, 0, size⟩) nofun
  exact ⟨h₃.ret, h₂.running⟩

theorem mbxWake : Ensures (s.mbxWake b) fun p => Ok ordered p.1 ∧ p.1.current = s.current := by
  unfold System.mbxWake
  split
  · exact .some ⟨h, rfl⟩
  next t _ =>
    have h₁ : Ok ordered
        ((s.setMbx b { s.mbx b with waitingTask := none }).setPrioPassedTo t none) :=
      ⟨Linked.setPrioPassedTo (h.setMbx (h.linux.mbxOwndby b)) nofun, h.running⟩
    refine (h₁.release rfl).mono ?_
    rintro ⟨_, woken⟩ ⟨h₂, L, T, rfl⟩
    exact ⟨h₂, rfl⟩

theorem mbxSignal : Ensures (s.mbxSignal x c) (Ok ordered) := by
  refine .bind h.mbxWake ?_
  rintro ⟨s₁, woken⟩ ⟨h₁, -⟩
  refine .ite (fun _ => Ok.rtSchedule h₁.toLinked c) fun _ => .ite (fun _ => ?_) fun _ => .some h₁
  exact Ok.releaseOwned ⟨h₁.setMbx nofun, h₁.running⟩

section

variable (hc : s.current ≠ rtLinuxTask)
include hc

theorem mbxWaitDone : Ok ordered (s.mbxWaitDone x) := by
  unfold System.mbxWaitDone
  dsimp only
  split
  · exact ⟨Linked.push (Linked.setOwndres (h.setMbx fun e => hc (Option.some.inj e)) hc)
      fun e => absurd e hc, h.running⟩
  · exact ⟨h.push fun e => absurd e hc, h.running⟩

theorem mbxWait : Ensures (s.mbxWait x c) (Ok ordered) := by
  have pass : ∀ {s : System n}, Ok ordered s → Ensures (if (s.sem (.sndsem x.mbx)).type > 0 then
      s.passPrio (s.mbx x.mbx).owndby s.current else some s)
      fun s' => Ok ordered s' ∧ s'.current = s.current := by
    intro s h
    refine .ite (fun _ => ?_) fun _ => .some ⟨h, rfl⟩
    refine (h.passPrio (h.linux.mbxOwndby x.mbx)).mono ?_
    rintro _ ⟨h', P, R, Q, rfl, -⟩
    exact ⟨⟨h', h.running⟩, rfl⟩
  refine .ite (fun _ => .some (h.mbxWaitDone hc)) fun _ => ?_
  dsimp only
  split
  · refine .bind (pass h) ?_
    rintro s₁ ⟨h₁, current⟩
    have hc₁ : s₁.current ≠ rtLinuxTask := current ▸ hc
    have h₂ : Linked ordered none (s₁.blockCurrent MBXSUSP) :=
      h₁.blockUntimed _ h₁.running hc₁ (by decide) rfl
    refine Ok.rtSchedule (Linked.push (h₂.setMbx ?_) fun e => absurd e hc₁) c
    exact h₁.linux.mbxOwndby x.mbx
  next time _ =>
    have h₁ : Ok ordered ((s.setMbx x.mbx
        { s.mbx x.mbx with waitingTask := some s.current }).setResumeTime time) :=
      ⟨Linked.setResumeTime (h.setMbx (h.linux.mbxOwndby x.mbx)) hc h.running, h.running⟩
    refine .ite (fun _ => ?_) fun _ => .some ⟨h₁.push fun e => absurd e hc, h.running⟩
    refine .bind (pass h₁) ?_
    rintro s₂ ⟨h₂, current⟩
    have hc₂ : s₂.current ≠ rtLinuxTask := current ▸ hc
    obtain ⟨h₃, delayed⟩ := h₂.blockTimed (MBXSUSP.set DELAYED) hc₂ (by decide) rfl
    refine .bind (Linked.enqTimedCurrent h₃ delayed hc₂) ?_
    rintro _ ⟨h₄, T, rfl⟩
    exact Ok.rtSchedule (h₄.push fun e => absurd e hc₂) c

theorem mbxLeave : Ensures (s.mbxLeave x v c) (Ok ordered) :=
  Ok.rtSemSignal ⟨h.push fun e => absurd e hc, h.running⟩

theorem mbxWoken : Ensures (s.mbxWoken x c) (Ok ordered) := by
  refine .ite (fun _ => ?_) fun _ => .some (h.mbxWaitDone hc)
  split
  · exact Ok.mbxLeave ⟨Linked.clearPrioPassedTo
      (h.setMbx (h.linux.mbxOwndby x.mbx)), h.running⟩ hc
  · exact Ok.mbxLeave ⟨h.clearPrioPassedTo, h.running⟩ hc

theorem mbxLoop : Ensures (s.mbxLoop x c) (Ok ordered) :=
  .ite (fun _ => h.mbxLeave hc) fun _ => h.mbxWait hc

theorem mbxWaited : Ok ordered (s.mbxWaited x) := by
  unfold System.mbxWaited
  split
  · split
    · exact ⟨h.push fun e => absurd e hc, h.running⟩
    · exact ⟨h.push fun e => absurd e hc, h.running⟩
  · exact ⟨h.push fun e => absurd e hc, h.running⟩

theorem mbxCopy {p : CopyPoint} : Ensures (s.mbxCopy x p c) (Ok ordered) := by
  have next : ∀ {m : Mbx n} {f : Frame n}, m.owndby = (s.mbx x.mbx).owndby →
      Ok ordered ((s.setMbx x.mbx m).push f) := fun e =>
    ⟨Linked.push (h.setMbx (e ▸ h.linux.mbxOwndby x.mbx)) fun e => absurd e hc, h.running⟩
  have push : ∀ {f : Frame n}, Ok ordered (s.push f) := fun {f} =>
    ⟨h.push fun e => absurd e hc, h.running⟩
  cases p with
  | test => exact .ite (fun _ => .some push) fun _ => push.mbxSignal
  | room => exact .some push
  | clip tocpy => exact .some push
  | assign tocpy => exact .some push
  | copy tocpy =>
      unfold System.mbxCopy
      dsimp only
      split
      · exact .some (next rfl)
      · exact .some push
  | commit tocpy => exact .some (next (by unfold Mbx.commit; split <;> rfl))
  | advance tocpy => exact .some (next (by unfold Mbx.advance; split <;> rfl))

end

theorem mbxReturn : Ok ordered (s.mbxReturn x v) :=
  ⟨⟨h.lists, { h.linux with }⟩, h.running⟩

theorem mbxBlocking (hc : s.current ≠ rtLinuxTask) :
    Ensures (s.mbxBlocking x c) (Ok ordered) := by
  refine .ite (fun _ => .some ⟨h.ret, h.running⟩) fun _ => ?_
  have h₁ : Ok ordered (s.push (.mbxWaited x)) := ⟨h.push fun e => absurd e hc, h.running⟩
  dsimp only
  split
  · exact h₁.rtSemWait hc
  · exact h₁.rtSemWaitUntil hc

theorem mbxConditional {room : Bool} (hc : s.current ≠ rtLinuxTask) :
    Ok ordered (s.mbxConditional x room) := by
  unfold System.mbxConditional
  split
  · exact ⟨h.ret, h.running⟩
  split
  swap
  · exact h.mbxReturn
  dsimp only
  split
  · refine ⟨Linked.push (Linked.setOwndres (Linked.setMbx (Linked.setOwndby h.setCount ?_) ?_) hc)
      fun e => absurd e hc, h.running⟩
    · exact fun e => hc (Option.some.inj e)
    · exact fun e => hc (Option.some.inj e)
  · exact ⟨h.setCount.push fun e => absurd e hc, h.running⟩

end Ok

/-! ## One step -/

/-- The calls that keep the lists, and when `ordered` the order of the timed
one. -/
def Safe (ordered : Prop) (s : System n) (c : Clock) : Op n → Prop
  | .taskResume t => s.suspdepth t = 1 → s.state t ≠ READY ∧ (s.state t).delayed = false
  | .taskMakePeriodicRelativeNs t startDelay _ => ordered → (s.state t).delayed = true →
      Fits s.disp.timed s.disp.resumeTime t
        (s.disp.rtGetTime c + nano2count s.disp.timer startDelay)
  | .taskMakePeriodic t startTime _ => ordered → (s.state t).delayed = true →
      Fits s.disp.timed s.disp.resumeTime t startTime
  | .setResumeTime t time => ordered → (s.state t).delayed = true →
      outOfPlace t time (s.disp.setResumeTime t time) = false →
      Fits s.disp.timed s.disp.resumeTime t time
  | .taskDelete t => (s.state t).delayed = true → Linked.Alone (s.leaveQueue t).queue t
  | .schedLock | .schedUnlock | .semDelete _ => False
  | _ => True

theorem admits_waits (h : s.admits op = true) (hw : op.waits = true) : s.current ≠ rtLinuxTask := by
  have admitted : s.admits op = !(op.waits && s.current = rtLinuxTask) := by
    cases op <;> first | rfl | cases hw
  simpa [admitted, hw] using h

theorem Ok.service (h : Ok ordered s) (ha : s.admits op = true) (safe : s.Safe ordered c op) :
    Ensures (s.service c op) (Ok ordered) := by
  have hc := admits_waits ha
  cases op with
  | taskInit t prio memory => exact h.rtTaskInit (by simpa [admits] using ha)
  | taskSuspend task => exact h.rtTaskSuspend fun e => hc (by rw [e]; rfl)
  | taskResume t => exact h.rtTaskResume safe
  | taskMakePeriodicRelativeNs t startDelay period => exact h.rtTaskMakePeriodicRelativeNs safe
  | taskMakePeriodic t startTime period => exact h.rtTaskMakePeriodic safe
  | taskWaitPeriod => exact h.rtTaskWaitPeriod (hc rfl)
  | taskSetResumeEndTimes resume finish => exact h.rtTaskSetResumeEndTimes (hc rfl)
  | setResumeTime t time => exact h.rtSetResumeTime safe
  | sleep delay => exact h.rtSleep (hc rfl)
  | sleepUntil time => exact h.rtSleepUntil (hc rfl)
  | taskWakeupSleeping t => exact h.rtTaskWakeupSleeping
  | taskYield => exact h.rtTaskYield (hc rfl)
  | changePrio t prio => exact h.rtChangePrio
  | schedLock => exact safe.elim
  | schedUnlock => exact safe.elim
  | taskDelete t => exact h.rtTaskDelete safe
  | typedSemInit sem value type => exact .some h.rtTypedSemInit
  | semDelete sem => exact safe.elim
  | semSignal sem => exact h.rtSemSignal
  | semBroadcast sem => exact h.rtSemBroadcast
  | semWait sem => exact h.rtSemWait (hc rfl)
  | semWaitIf sem => exact .some (h.rtSemWaitIf (hc rfl))
  | cntsemWaitIfAndLock sem => exact .some h.rtCntsemWaitIfAndLock
  | semWaitUntil sem time => exact h.rtSemWaitUntil (hc rfl)
  | send t msg => exact h.rtSend (hc rfl)
  | sendIf t msg => exact h.rtSendIf
  | sendUntil t msg time => exact h.rtSendUntil (hc rfl)
  | rpc t toDo => exact h.rtRpc (hc rfl)
  | rpcIf t toDo => exact h.rtRpcIf (hc rfl)
  | rpcUntil t toDo time => exact h.rtRpcUntil (hc rfl)
  | ret t result => exact h.rtReturn
  | receive task => exact h.rtReceive (hc rfl)
  | receiveIf task => exact h.rtReceiveIf
  | receiveUntil task time => exact h.rtReceiveUntil (hc rfl)
  | mbxInit b size => exact .some h.rtMbxInit
  | mbxSend b msg => exact h.mbxBlocking (hc rfl)
  | mbxSendWp b msg => exact .some (h.mbxConditional (hc rfl))
  | mbxSendIf b msg => exact .some (h.mbxConditional (hc rfl))
  | mbxSendUntil b msg time => exact h.mbxBlocking (hc rfl)
  | mbxReceive b size => exact h.mbxBlocking (hc rfl)
  | mbxReceiveWp b size => exact .some (h.mbxConditional (hc rfl))
  | mbxReceiveIf b size => exact .some (h.mbxConditional (hc rfl))
  | mbxReceiveUntil b size time => exact h.mbxBlocking (hc rfl)

theorem Ok.proceed {f : Frame n} (h : Ok ordered s)
    (hc : f.waits = true → s.current ≠ rtLinuxTask) : Ensures (s.proceed c f) (Ok ordered) := by
  cases f with
  | rtSemWait sem => exact .some (h.rtSemWaitRest (hc rfl))
  | rtSemWaitUntil sem => exact .some (h.rtSemWaitUntilRest (hc rfl))
  | rtSend t msg => exact .some h.rtSendRest
  | rtSendUntil t msg => exact .some h.rtSendUntilRest
  | rtRpc t toDo => exact .some h.rtRpcRest
  | rtRpcUntil t toDo => exact .some h.rtRpcUntilRest
  | rtReceive => exact .some h.rtReceiveRest
  | rtReceived => exact .some h.rtReceivedRest
  | mbxWaited x => exact .some (h.mbxWaited (hc rfl))
  | mbxLoop x => exact h.mbxLoop (hc rfl)
  | mbxWoken x => exact h.mbxWoken (hc rfl)
  | mbxCopy x p => exact h.mbxCopy (hc rfl)
  | mbxSignalled x => exact h.mbxLeave (hc rfl)
  | mbxReturn x v => exact .some h.mbxReturn

/-- The guard of a run in which every call is safe. -/
def SafeEvent (ordered : Prop) (s : System n) : Event n → Prop
  | .call op c => s.Safe ordered c op
  | _ => True

theorem Ok.step {e : Event n} (h : Ok ordered s) (safe : s.SafeEvent ordered e) :
    Ensures (step e s) (Ok ordered) := by
  cases e with
  | call op c => exact .ite (fun ha => h.service ha.2 safe) fun _ => .none
  | resume c =>
      simp only [System.step]
      split
      · exact .none
      next f _ hs =>
        refine Ok.proceed ⟨h.pop, h.running⟩ fun hw e => ?_
        have := h.linux.stack f (by rw [← show s.current = rtLinuxTask from e, hs]; simp)
        exact Bool.false_ne_true (this.symm.trans hw)
  | timer c =>
      refine .ite (fun _ => .map ((h.lists.rtTimerHandler c).mono ?_)) fun _ => .none
      rintro d ⟨hd, w, hr⟩
      exact ⟨h.onDisp hd (w.priority ▸ h.linux.priority), hr⟩

theorem boot_ok (n : Nat) (t : Timer) (ordered : Prop) : Ok ordered (boot n t) where
  lists := {
    ready := ⟨[], ⟨by simp, rfl, rfl⟩, fun u => by
      by_cases e : u = rtLinuxTask
      · subst e; simp [boot]
      · simp [boot, e, DEAD, READY]⟩
    timed := ⟨[], ⟨by simp, rfl, rfl⟩, fun u => by
      by_cases e : u = rtLinuxTask
      · subst e; simp [boot, READY]
      · simp [boot, e, DEAD], fun _ => .nil⟩
    dead := fun u hu _ => by simp [boot, hu]
    linuxMagic := rfl
    linuxTime := by simp [boot]
    linuxPolicy := le_refl _ }
  linux := {
    priority := by simp [boot, System.priority]
    base := by simp [boot]
    owndres := rfl
    suspdepth := rfl
    stack := fun _ mem => absurd mem List.not_mem_nil
    owndby := nofun
    mbxOwndby := nofun
    prioPassedTo := nofun }
  running := by simp [boot, System.state, System.current]

end System

end Rtai.Up
