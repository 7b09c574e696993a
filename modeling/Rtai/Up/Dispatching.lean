import Rtai.Up.DeadlineMoves

/-!
# Who runs after a step

A step either leaves the current task alone or ends in a call of `rt_schedule`, and then the
first task of the ready list runs.
-/

namespace Rtai.Up

open Function Rtai.Lib

variable {n : Nat}

namespace Dispatcher

theorem rtSchedule_picks (c : Clock) (d : Dispatcher n) :
    Ensures (d.rtSchedule c) fun d' => d'.current = d'.taskToSchedule := by
  refine .bind (P := fun _ => True) (fun _ _ => trivial) fun d₁ _ => .ite (fun _ => ?_) fun _ => ?_
  · refine .bind (P := fun _ => True) (fun _ _ => trivial) fun d₂ _ => ?_
    refine .bind (scheduleShot_spec c.shot d₂.taskToSchedule d₂) ?_
    rintro _ ⟨Y, T, rfl⟩
    exact .some rfl
  · obtain ⟨Y, e⟩ := rrSetyt_eq d₁.taskToSchedule d₁
    simp only [e]
    exact .some rfl

theorem rtTimerHandler_picks (c : Clock) (d : Dispatcher n) :
    Ensures (d.rtTimerHandler c) fun d' => d'.current = d'.taskToSchedule := by
  refine .bind (P := fun _ => True) (fun _ _ => trivial) fun d₁ _ => ?_
  refine .bind (P := fun _ => True) (fun _ _ => trivial) fun d₂ _ => ?_
  refine .bind (handlerShot_spec c.shot d₂.taskToSchedule d₂) ?_
  rintro _ ⟨Y, T, rfl⟩
  exact .some rfl

end Dispatcher

namespace System

/-- The task `t` runs on, or the first task of the ready list does. -/
def Picks (t : Task n) (s : System n) : Prop :=
  s.current = t ∨ s.current = s.disp.taskToSchedule

variable {s s' : System n} {t : Task n} {ordered : Prop} {mask : TaskState} {c : Clock}
  {sem : SemId}

namespace Picks

variable {x : Task n}

theorem rtSchedule : Ensures (s.rtSchedule c) (Picks x) :=
  .map ((Dispatcher.rtSchedule_picks c s.disp).mono fun _ picked => .inr picked)

/-- Whatever the computation is, `rt_schedule` follows. -/
theorem schedules {x : Option (System n)} {u : Task n} {f : System n → System n} :
    Ensures (do
      let s ← x
      (f s).rtSchedule c) (Picks u) :=
  .bind (P := fun _ => True) (fun _ _ => trivial) fun _ _ => rtSchedule

theorem scheduleIf {b : Bool} : Ensures (s.scheduleIf b c) (Picks s.current) :=
  .ite (fun _ => rtSchedule) fun _ => .some (.inl rfl)

/-! ## The services -/

variable {task : Option (Task n)}

theorem rtTaskSuspend : Ensures (s.rtTaskSuspend task c) (Picks s.current) := by
  refine .ite (fun _ => .some (.inl rfl)) fun _ => .ite (fun _ => ?_) fun _ => .some (.inl rfl)
  rw [Dispatcher.remReadyTask_eq]
  exact scheduleIf

theorem rtTaskResume : Ensures (s.rtTaskResume t c) (Picks s.current) := by
  refine .ite (fun _ => .some (.inl rfl)) fun _ => .ite (fun _ => ?_) fun _ => .some (.inl rfl)
  rw [Dispatcher.remTimedTask_eq]
  refine .ite (fun _ => schedules) fun _ => .some (.inl rfl)

theorem makePeriodic {startTime period : RTIME} :
    Ensures (s.makePeriodic t startTime period c) (Picks x) := by
  refine .ite (fun _ => rtSchedule) fun _ => ?_
  exact .bind (P := fun _ => True) (fun _ _ => trivial) fun _ _ => rtSchedule

variable {time : RTIME} {f : Frame n}

theorem sleepLate :
    Ensures (if time > (s.setResumeTime time).disp.timeH then (s.setResumeTime time).sleepCurrent c
      else some (s.setResumeTime time)) (Picks s.current) :=
  .ite (fun _ => schedules) fun _ => .some (.inl rfl)

theorem takeSem {count : Int} : (s.takeSem sem count).current = s.current := by
  unfold System.takeSem
  split
  · rfl
  · rfl

theorem rtSemWait : Ensures (s.rtSemWait sem c) (Picks s.current) := by
  refine .ite (fun _ => .some (.inl rfl)) fun _ => .ite (fun _ => ?_) fun _ => .some (.inl takeSem)
  refine .ite (fun _ => .some (.inl rfl)) fun _ => ?_
  exact .bind (P := fun _ => True) (fun _ _ => trivial) fun _ _ => schedules

theorem rtSemWaitUntilRest : (s.rtSemWaitUntilRest sem).current = s.current := by
  unfold System.rtSemWaitUntilRest
  dsimp only
  split
  · rfl
  split
  · rfl
  · exact takeSem

theorem rtSemWaitUntil : Ensures (s.rtSemWaitUntil sem time c) (Picks s.current) := by
  refine .ite (fun _ => .some (.inl rfl)) fun _ => .ite (fun _ => ?_) fun _ => .some (.inl takeSem)
  refine .ite (fun _ => .ite (fun _ => .some (.inl rfl)) fun _ => ?_) fun _ =>
    .some (.inl rtSemWaitUntilRest)
  refine .bind (P := fun _ => True) (fun _ _ => trivial) fun _ _ => ?_
  exact .bind (P := fun _ => True) (fun _ _ => trivial) fun _ _ => schedules

section

variable (ok : Ok ordered s)
include ok

theorem releaseOwned : Ensures (s.releaseOwned c) (Picks s.current) := by
  have counted : Ok ordered (s.setOwndres s.current (owndresLeft (s.owndres s.current))) :=
    ok.countDown
  unfold System.releaseOwned
  simp only [ite_setOwndres]
  refine .bind counted.renqByResources ?_
  rintro ⟨_, b⟩ ⟨-, L, p, rfl, -⟩
  refine .ite (fun _ => rtSchedule) fun _ => .ite (fun _ => ?_) fun _ => scheduleIf
  refine .ite (fun _ => ?_) fun _ => scheduleIf
  exact .bind (P := fun _ => True) (fun _ _ => trivial) fun _ _ => rtSchedule

theorem rtSemSignal : Ensures (s.rtSemSignal sem c) (Picks s.current) := by
  refine .ite (fun _ => .some (.inl rfl)) fun _ => .ite (fun _ => .some (.inl rfl)) fun _ => ?_
  refine .bind ok.releaseFirst_moves ?_
  rintro ⟨g, b⟩ ⟨okGrant, grant⟩
  have current : g.current = s.current := by
    cases grant with
    | nobody => rfl
    | first => rfl
  have given : Ok ordered (g.setOwndby sem none) := ⟨okGrant.setOwndby nofun, okGrant.running⟩
  rw [← current]
  exact .ite (fun _ => releaseOwned given) fun _ => scheduleIf

variable {msg : UInt32}

theorem sendNow (listening : s.listening t = true) :
    Ensures (do
      let (s, woken) ← s.deliver t msg
      (s.push f).scheduleIf woken c) (Picks s.current) := by
  refine .bind (ok.deliver listening) ?_
  rintro ⟨_, b⟩ ⟨-, R, T, rfl⟩
  exact scheduleIf

theorem rtSend : Ensures (s.rtSend t msg c) (Picks s.current) := by
  refine .ite (fun _ => .some (.inl rfl)) fun _ => .ite (fun listening => sendNow ok listening)
    fun _ => ?_
  exact .bind (P := fun _ => True) (fun _ _ => trivial) fun _ _ => rtSchedule

theorem rtSendIf : Ensures (s.rtSendIf t msg c) (Picks s.current) :=
  .ite (fun _ => .some (.inl rfl)) fun _ => .ite (fun listening => sendNow ok listening)
    fun _ => .some (.inl rfl)

theorem rtSendUntil : Ensures (s.rtSendUntil t msg time c) (Picks s.current) := by
  refine .ite (fun _ => .some (.inl rfl)) fun _ => .ite (fun listening => sendNow ok listening)
    fun _ => .ite (fun _ => ?_) fun _ => .some ?_
  · refine .bind (P := fun _ => True) (fun _ _ => trivial) fun _ _ => ?_
    exact schedules
  · rw [rtSendUntilRest_eq]
    exact .inl rfl

end

variable {toDo result : UInt32}

theorem rtRpc : Ensures (s.rtRpc t toDo c) (Picks s.current) := by
  refine .ite (fun _ => .some (.inl rfl)) fun _ => ?_
  exact .bind (P := fun _ => True) (fun _ _ => trivial) fun _ _ => rtSchedule

theorem rtRpcIf : Ensures (s.rtRpcIf t toDo c) (Picks s.current) := by
  refine .ite (fun _ => .some (.inl rfl)) fun _ => .ite (fun _ => ?_) fun _ => .some (.inl rfl)
  exact .bind (P := fun _ => True) (fun _ _ => trivial) fun _ _ => rtSchedule

theorem rtRpcUntil : Ensures (s.rtRpcUntil t toDo time c) (Picks s.current) := by
  refine .ite (fun _ => .some (.inl rfl)) fun _ => .ite (fun _ => ?_) fun _ =>
    .ite (fun _ => .some (.inl rfl)) fun _ => ?_
  · exact .bind (P := fun _ => True) (fun _ _ => trivial) fun _ _ => schedules
  · exact .bind (P := fun _ => True) (fun _ _ => trivial) fun _ _ => schedules

theorem rtReturnLists (ok : Ok ordered s) :
    Ensures (s.rtReturnLists t result) fun p => p.1.current = s.current := by
  refine .ite (fun _ => .some rfl) fun _ => .ite (fun client => ?_) fun _ => .some rfl
  have counted : Ok ordered (((s.dequeueBlocked t).ret (.task (some t))).setOwndres s.current
      (owndresReturned (s.owndres s.current))) :=
    Ok.countDown (s := (s.dequeueBlocked t).ret (.task (some t)))
      ⟨(ok.dequeueBlocked t).ret, ok.running⟩
  dsimp only
  rw [ite_setOwndres]
  refine .bind counted.renqByResources ?_
  rintro ⟨_, b⟩ ⟨ok, L, p, rfl, -⟩
  refine .bind (Ok.release ⟨ok.setMsg.setMsgQueueTask, ok.running⟩ rfl) ?_
  rintro ⟨_, b'⟩ ⟨-, R, T, rfl⟩
  exact .some rfl

theorem rtReturn (ok : Ok ordered s) : Ensures (s.rtReturn t result c) (Picks s.current) := by
  refine .bind (rtReturnLists ok) fun p same => ?_
  rw [← same]
  exact scheduleIf

theorem takeMessage : Ensures (s.takeMessage t) fun p => p.1.current = s.current := by
  unfold System.takeMessage
  simp only [show (s.dequeueBlocked t).disp = s.disp from rfl]
  rw [Dispatcher.remTimedTask_eq]
  refine .ite (fun _ => ?_) fun _ => ?_
  · exact .bind (Dispatcher.makeReady_current _) fun _ same => .some same
  · refine .bind enqueueBlocked_spec ?_
    rintro _ ⟨L, rfl, -⟩
    exact .some rfl

theorem receiveNow : Ensures (do
    let (s, woken) ← s.takeMessage t
    (s.push .rtReceived).scheduleIf woken c) (Picks s.current) := by
  refine .bind takeMessage ?_
  rintro ⟨s₁, b⟩ current
  have picks := scheduleIf (s := s₁.push .rtReceived) (b := b) (c := c)
  rw [show (s₁.push .rtReceived).current = s.current from current] at picks
  exact picks

theorem rtReceivedRest : s.rtReceivedRest.current = s.current := by rw [rtReceivedRest_eq]

theorem rtReceive : Ensures (s.rtReceive task c) (Picks s.current) := by
  refine .ite (fun _ => .some (.inl rfl)) fun _ => ?_
  exact .bind (P := fun _ => True) (fun _ _ => trivial) fun _ _ =>
    .ite (fun _ => receiveNow) fun _ => rtSchedule

theorem rtReceiveIf : Ensures (s.rtReceiveIf task c) (Picks s.current) := by
  refine .ite (fun _ => .some (.inl rfl)) fun _ => ?_
  exact .bind (P := fun _ => True) (fun _ _ => trivial) fun _ _ =>
    .ite (fun _ => receiveNow) fun _ => .some (.inl rfl)

theorem rtReceiveUntil : Ensures (s.rtReceiveUntil task time c) (Picks s.current) := by
  refine .ite (fun _ => .some (.inl rfl)) fun _ => ?_
  refine .bind (P := fun _ => True) (fun _ _ => trivial) fun _ _ =>
    .ite (fun _ => receiveNow) fun _ => .ite (fun _ => schedules) fun _ => .some ?_
  exact .inl rtReceivedRest

theorem service {op : Op n} (ok : Ok ordered s) (scheduling : op.scheduling = true) :
    Ensures (s.service c op) (Picks s.current) := by
  cases op with
  | taskInit t prio memory =>
      exact .ite (fun _ => .some (.inl rfl)) fun _ =>
        .ite (fun _ => .some (.inl rfl)) fun _ => .some (.inl rfl)
  | taskSuspend task => exact rtTaskSuspend
  | taskResume t => exact rtTaskResume
  | taskMakePeriodicRelativeNs t startDelay period =>
      exact .ite (fun _ => .some (.inl rfl)) fun _ => makePeriodic
  | taskMakePeriodic t startTime period =>
      exact .ite (fun _ => .some (.inl rfl)) fun _ => makePeriodic
  | taskWaitPeriod => exact .ite (fun _ => .some (.inl rfl)) fun _ => sleepLate
  | taskSetResumeEndTimes resume finish => exact schedules
  | sleep delay => exact sleepLate
  | sleepUntil time => exact sleepLate
  | typedSemInit sem value type => exact .some (.inl rfl)
  | semSignal sem => exact rtSemSignal ok
  | semWait sem => exact rtSemWait
  | semWaitIf sem =>
      refine .some (.inl ?_)
      unfold System.rtSemWaitIf
      dsimp only
      split
      · rfl
      split
      · split
        · rfl
        · have taken : (s.takeSem sem (s.sem sem).count).current = s.current := takeSem
          exact taken
      · rfl
  | semWaitUntil sem time => exact rtSemWaitUntil
  | send t msg => exact rtSend ok
  | sendIf t msg => exact rtSendIf ok
  | sendUntil t msg time => exact rtSendUntil ok
  | rpc t toDo => exact rtRpc
  | rpcIf t toDo => exact rtRpcIf
  | rpcUntil t toDo time => exact rtRpcUntil
  | ret t result => exact rtReturn ok
  | receive task => exact rtReceive
  | receiveIf task => exact rtReceiveIf
  | receiveUntil task time => exact rtReceiveUntil
  | _ => cases scheduling

theorem proceed (plain : f.mailbox = false) :
    Ensures (s.proceed c f) fun s' => s'.current = s.current := by
  cases f with
  | rtSemWait sem =>
      refine .some ?_
      unfold System.rtSemWaitRest
      split
      · rfl
      · exact takeSem
  | rtSemWaitUntil sem => exact .some rtSemWaitUntilRest
  | rtSend t msg => exact .some (by rw [rtSendRest_eq])
  | rtSendUntil t msg => exact .some (by rw [rtSendUntilRest_eq])
  | rtRpc t toDo => exact .some (by rw [rtRpcRest_eq])
  | rtRpcUntil t toDo => exact .some (by rw [rtRpcUntilRest_eq])
  | rtReceive => exact .some rtReceivedRest
  | rtReceived => exact .some rtReceivedRest
  | _ => cases plain

theorem step {e : Event n} (ok : Ok ordered s) (edf : s.Edf) (scheduling : e.scheduling = true) :
    Ensures (System.step e s) (Picks s.current) := by
  cases e with
  | call op c => exact .ite (fun _ => service ok scheduling) fun _ => .none
  | resume c =>
      simp only [System.step]
      split
      · exact .none
      next f fs stack =>
        refine (proceed (s := s.pop) (edf.frames s.current f ?_)).mono fun _ same => .inl same
        rw [stack]
        exact .head _
  | timer c =>
      refine .ite (fun _ => .map ((Dispatcher.rtTimerHandler_picks c s.disp).mono ?_)) fun _ => .none
      exact fun _ picked => .inr picked

end Picks

end System

end Rtai.Up
