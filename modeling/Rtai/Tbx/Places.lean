import Rtai.Tbx.Calls

/-!
# The places of the tasks

A step changes the place of the task that takes it only: a task that is woken, taken off a queue,
suspended or resumed stays where it is.
-/

namespace Rtai.Tbx

open Function Rtai.Lib

namespace Mailbox

variable {Task : Type} [DecidableEq Task] {s s' : Mailbox Task} {t t' : Task} {n : Nat}
  {e : Event Task} {x : Smx} {op : Op} {out : Out} {type : UInt8}

/-! ## What a function leaves of the places -/

@[simp] theorem enqueueBlocked_pc : ((s.enqueueBlocked t x).task t').pc = (s.task t').pc := by
  rw [enqueueBlocked, modify_pc]
  exact fun _ => rfl

@[simp] theorem dequeueBlocked_pc : ((s.dequeueBlocked t).task t').pc = (s.task t').pc := by
  rw [dequeueBlocked, modify_pc]
  · split <;> rfl
  · exact fun _ => rfl

@[simp] theorem tbxSmxSignal_pc : ((s.tbxSmxSignal x).task t).pc = (s.task t).pc := by
  rw [tbxSmxSignal]
  split
  · rfl
  · rw [modify_pc TaskWords.dequeued_pc]
    rfl

theorem tbxSmxSignal_buffer : (s.tbxSmxSignal x).buffer = s.buffer := by
  rw [tbxSmxSignal]
  split <;> rfl

@[simp] theorem tbxSignal_pc : (s.tbxSignal.task t).pc = (s.task t).pc := by
  rw [tbxSignal]
  split
  · rfl
  · rw [modify_pc TaskWords.signalled_pc]
    rfl

@[simp] theorem rtSemBroadcast_pc : (s.rtSemBroadcast.task t).pc = (s.task t).pc := by
  rw [rtSemBroadcast]
  dsimp only
  generalize s.queue .bcbsmx = q
  induction q generalizing s with
  | nil => rfl
  | cons u q ih =>
      rw [List.foldl_cons, ih, modify_pc]
      intro w
      split
      · exact TaskWords.remTimed_pc _
      · rw [TaskWords.release_pc]
        exact TaskWords.remTimed_pc _

/-! ## The places of the others -/

/-- The task whose step the event is. -/
def Event.runner : Event Task → Option Task
  | .call t _ | .goOn t => some t
  | .suspend _ | .resume _ | .timer _ => none

theorem finish_of_ne (ne : t' ≠ t) : (s.finish t out).task t' = s.task t' := setPc_of_ne ne

theorem await_of_ne (ne : t' ≠ t) {f : TaskWords → TaskWords} : (s.await t f).task t' = s.task t' :=
  modify_of_ne ne

theorem smxPassed_of_ne (ne : t' ≠ t) : (s.smxPassed t op).task t' = s.task t' := by
  rw [smxPassed]
  split
  · exact setPc_of_ne ne
  · exact finish_of_ne ne

theorem roomPassed_of_ne (ne : t' ≠ t) {k : Sending} {msg : List UInt8} :
    (s.roomPassed t k msg).task t' = s.task t' := by
  rw [roomPassed]
  split <;> exact setPc_of_ne ne

theorem msgPassed_of_ne (ne : t' ≠ t) : (s.msgPassed t n type).task t' = s.task t' := by
  rw [msgPassed]
  split <;> exact setPc_of_ne ne

theorem timedOut_of_ne (ne : t' ≠ t) : (s.timedOut t op).task t' = s.task t' := modify_of_ne ne

section

omit [DecidableEq Task]

@[simp] theorem setCount_task {v : Int} : (s.setCount x v).task = s.task := rfl

@[simp] theorem addWaiting_task {i : Int} : (s.addWaiting i).task = s.task := rfl

@[simp] theorem takeType_task : s.takeType.task = s.task := rfl

end

/-- A task that calls leaves the places of the others. -/
theorem start_pc (ne : t' ≠ t) : ((s.start t op).task t').pc = (s.task t').pc := by
  rw [start.eq_def]
  split
  · rw [finish_of_ne ne]
  · split
    · rw [tbxCheckRoom]
      split <;> simp [finish_of_ne ne, setPc_of_ne ne]
    · rw [tbxCheckMsg]
      dsimp only
      split_ifs <;> simp [finish_of_ne ne, setPc_of_ne ne]
    · rw [tbxSmxWaitUntil]
      split <;> simp [modify_of_ne ne, setPc_of_ne ne]
    · rw [tbxSmxWaitUntil]
      split <;> simp [modify_of_ne ne, setPc_of_ne ne]
    · rw [tbxSmxWait]
      split <;> simp [modify_of_ne ne, smxPassed_of_ne ne]
    · rw [tbxSmxWait]
      split <;> simp [modify_of_ne ne, smxPassed_of_ne ne]

theorem call_pc (ne : t' ≠ t) {c : Call} : ((s.call t c).task t').pc = (s.task t').pc := by
  cases c with
  | send form msg => exact start_pc ne
  | urgent form msg => exact start_pc ne
  | broadcast form msg =>
      rw [call, rtTbxBroadcast]
      split
      · rw [finish_of_ne ne]
      · exact start_pc ne
  | receive form msgSize => exact start_pc ne

theorem waited_pc (ne : t' ≠ t) (h : s.waited t type op = some s') :
    (s'.task t').pc = (s.task t').pc := by
  rw [waited.eq_def] at h
  split at h
  · cases h
    rw [roomPassed_of_ne ne]
  · split at h <;> cases h <;> simp [setPc_of_ne ne, timedOut_of_ne ne]
  · cases h
    simp [msgPassed_of_ne ne]
  · split at h <;> cases h <;> simp [setPc_of_ne ne, timedOut_of_ne ne]
  · cases h
  · cases h

/-- A task that goes on leaves the places of the others. -/
theorem goOn_pc (ne : t' ≠ t) (h : s.goOn t = some s') : (s'.task t').pc = (s.task t').pc := by
  rw [goOn] at h
  split at h
  · cases h
  · cases h
    rw [smxWaited]
    split_ifs <;> simp [setPc_of_ne ne, finish_of_ne ne, smxPassed_of_ne ne]
  · cases h
    rw [tbxWaitRoom]
    split <;> simp [await_of_ne ne, roomPassed_of_ne ne]
  · cases h
    rw [tbxWaitRoomUntil]
    split <;> simp [await_of_ne ne, setPc_of_ne ne]
  · cases h
    rw [tbxWaitMsg]
    split_ifs <;> simp [await_of_ne ne, msgPassed_of_ne ne]
  · cases h
    rw [tbxWaitMsgUntil]
    split_ifs <;> simp [await_of_ne ne, setPc_of_ne ne]
  · cases h
  · cases h
  · exact waited_pc ne h
  · obtain ⟨p, -, rfl⟩ := Option.map_eq_some_iff.mp h
    rw [setPc_of_ne ne]
  · rw [tbxReceiveCore] at h
    split at h
    · dsimp only at h
      split at h <;> cases h <;> simp [setPc_of_ne ne]
    · obtain ⟨p, -, h⟩ := Option.bind_eq_some_iff.mp h
      dsimp only at h
      split at h <;> cases h <;> simp [setPc_of_ne ne]
  · cases h
    rw [shareMsg]
    split <;> simp [setPc_of_ne ne]
  · cases h
    simp [setPc_of_ne ne]
  · cases h
    rw [leaveSmx]
    split <;> simp [setPc_of_ne ne, finish_of_ne ne]
  · cases h
    rw [rtSemWait]
    dsimp only
    split <;> simp [modify_of_ne ne, finish_of_ne ne]
  · cases h
    rw [finish_of_ne ne]

/-- A step of another leaves the place of a task. -/
theorem step_pc (h : step e s = some s') (other : e.runner ≠ some t) :
    (s'.task t).pc = (s.task t).pc := by
  cases e with
  | call u c =>
      simp only [step] at h
      split at h <;> cases h
      exact call_pc fun e => other (congrArg some e.symm)
  | goOn u =>
      simp only [step] at h
      split at h
      · have ne : t ≠ u := fun e => other (congrArg some e.symm)
        have left := goOn_pc ne h
        exact left
      · cases h
  | suspend u =>
      cases h
      exact modify_pc TaskWords.rtTaskSuspend_pc
  | resume u =>
      cases h
      exact modify_pc TaskWords.rtTaskResume_pc
  | timer u =>
      simp only [step] at h
      split at h <;> cases h
      exact modify_pc TaskWords.wakeUp_pc

end Mailbox

end Rtai.Tbx
