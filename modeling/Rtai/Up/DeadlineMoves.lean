import Rtai.Up.Deadlines
import Rtai.Up.Upkeep

/-!
# The services and the order of deadlines

For each service the condition under which it keeps the ready list in the order of deadlines
(`byDeadline`), and the theorem that it does.  The condition is about the tasks that the service
makes ready and, when the caller gives back a resource or returns a call, about the priority it
is left with.  A service that makes nothing ready has none.
-/

namespace Rtai.Up

open Function Rtai.Lib

variable {n : Nat}

/-- The frames of the mailbox services. -/
def Frame.mailbox : Frame n → Bool
  | .mbxWaited _ | .mbxLoop _ | .mbxWoken _ | .mbxCopy _ _ | .mbxSignalled _ | .mbxReturn _ _ => true
  | _ => false

/-- The services that wait, signal, exchange messages, suspend and resume, or let time pass. -/
def Op.scheduling : Op n → Bool
  | .taskInit _ _ _ | .taskSuspend _ | .taskResume _ | .taskMakePeriodicRelativeNs _ _ _
  | .taskMakePeriodic _ _ _ | .taskWaitPeriod | .taskSetResumeEndTimes _ _ | .sleep _
  | .sleepUntil _ | .typedSemInit _ _ _ | .semSignal _ | .semWait _ | .semWaitIf _
  | .semWaitUntil _ _ | .send _ _ | .sendIf _ _ | .sendUntil _ _ _ | .rpc _ _ | .rpcIf _ _
  | .rpcUntil _ _ _ | .ret _ _ | .receive _ | .receiveIf _ | .receiveUntil _ _ => true
  | _ => false

def Event.scheduling : Event n → Bool
  | .call op _ => op.scheduling
  | _ => true

namespace System

/-! ## The conditions -/

/-- A task that loses the bits of `mask` stays away from the list, or belongs where it goes. -/
def placed (prio : Task n → Int) (mask : TaskState) (t : Task n) (s : System n) : Bool :=
  s.state t = READY || (s.state t).clear mask ≠ READY || s.disp.Belongs prio t

/-- The task a signal is for. -/
def firstWaiter (sem : SemId) (s : System n) : Option (Task n) :=
  s.taskOf (s.queue.next (.head (.sem sem)))

/-- The priority a task is left with when it owns `own`. -/
def leftPriority (own : BitVec 32) (t : Task n) (s : System n) : Int :=
  if own = 0 then s.basePriority t
  else if own &&& SEMHLF = 0 then
    match s.taskOf (s.queue.next (.head (.msgQueue t))) with
    | some first =>
        if s.basePriority t > s.priority first then s.priority first else s.basePriority t
    | none => s.basePriority t
  else s.priority t

/-- An EDF task that is left with `own` keeps the highest priority. -/
def staysUrgent (own : BitVec 32) (s : System n) : Bool :=
  ¬s.disp.policy s.current < 0 || s.leftPriority own s.current = 0

/-- The state in which the caller of `rt_sem_signal` gives back the semaphore. -/
def granted (sem : SemId) (s : System n) : System n :=
  match s.firstWaiter sem with
  | some t => s.dequeueBlocked t
  | none => s

/-- The tasks a loop of `rt_task_delete` meets from `x` on. -/
def queuedOn (q : Queue n) (s : System n) : Nat → QNode n → List (Task n)
  | 0, _ => []
  | k + 1, x =>
      if x = .head q then [] else (s.taskOf x).toList ++ queuedOn q s k (s.queue.next x)

/-- No EDF task waits on the message queues of `t`. -/
def ordinaryOnly (t : Task n) (s : System n) : Bool :=
  (s.queuedOn (.msgQueue t) (fuel n) (s.queue.next (.head (.msgQueue t))) ++
    s.queuedOn (.retQueue t) (fuel n) (s.queue.next (.head (.retQueue t)))).all
      fun u => ¬s.disp.policy u < 0

/-- A resource is given back by a task whose deletion has been put off. -/
def deletes (sem : SemId) (s : System n) : Bool :=
  s.suspdepth s.current < 0 && s.disp.magic s.current &&
    (s.granted sem).leftPriority (owndresLeft (s.owndres s.current)) s.current ≠ RT_LINUX_PRIORITY

/-- No EDF task is put on the ready list out of the order of deadlines. -/
def byDeadline (s : System n) : Op n → Bool
  | .taskResume t => s.suspdepth t ≠ 1 || s.placed s.disp.priority SUSPENDED t
  | .semSignal sem => (s.sem sem).type > 1 ||
      (s.firstWaiter sem).all (s.placed s.disp.priority (SEMAPHORE.set DELAYED)) &&
        ((s.sem sem).type ≤ 0 ||
          (s.granted sem).staysUrgent (owndresLeft (s.owndres s.current)) &&
            (¬s.deletes sem || ((s.granted sem).leaveQueue s.current).ordinaryOnly s.current))
  | .send t _ | .sendIf t _ | .sendUntil t _ _ | .rpc t _ | .rpcIf t _ | .rpcUntil t _ _ =>
      ¬s.listening t || s.placed s.disp.priority (RECEIVE.set DELAYED) t
  | .ret t _ =>
      let own := owndresReturned (s.owndres s.current)
      let left := (s.dequeueBlocked t).leftPriority own s.current
      ¬((s.state t).ret ∧ s.msgQueueTask t = some s.current) ||
        (s.dequeueBlocked t).staysUrgent own &&
          s.placed (update s.disp.priority s.current left) (RETURN.set DELAYED) t
  | .receive task | .receiveIf task | .receiveUntil task _ =>
      (s.senderFor task).all fun t => ¬(s.sending t && (s.state t).send) ||
        s.placed s.disp.priority (SEND.set DELAYED) t
  | _ => true

def byDeadlineEvent (s : System n) : Event n → Bool
  | .call op _ => s.byDeadline op
  | _ => true

/-! ## The helpers -/

/-- The dispatcher is in the order of deadlines, and stays so when priorities are restored. -/
structure Edf (s : System n) : Prop where
  disp : s.disp.Edf
  base : ∀ t, 0 ≤ s.basePriority t
  frames : ∀ t, ∀ f ∈ s.stack t, f.mailbox = false

variable {s s' : System n} {t : Task n} {off : Option (Task n)} {mask : TaskState} {c : Clock}
  {sem : SemId} {ordered : Prop}

namespace Edf

variable {prio : Int}

section

variable (h : s.Edf)
include h

theorem push {f : Frame n} (plain : f.mailbox = false) : (s.push f).Edf := by
  refine ⟨h.disp, h.base, fun t g mem => ?_⟩
  change g ∈ update s.stack s.current (f :: s.stack s.current) t at mem
  by_cases same : t = s.current
  · rw [same, update_self] at mem
    cases mem with
    | head => exact plain
    | tail _ mem => exact h.frames _ g mem
  · rw [update_of_ne same] at mem
    exact h.frames t g mem

theorem pop : s.pop.Edf := by
  refine ⟨h.disp, h.base, fun t g mem => ?_⟩
  change g ∈ update s.stack s.current (s.stack s.current).tail t at mem
  by_cases same : t = s.current
  · rw [same, update_self] at mem
    exact h.frames _ g (List.mem_of_mem_tail mem)
  · rw [update_of_ne same] at mem
    exact h.frames t g mem

theorem release (placed : s.placed s.disp.priority mask t = true) :
    Ensures (s.release t mask) fun p => p.1.Edf := by
  refine .bind (h.disp.release fun idle joins => ?_) ?_
  · simp only [System.placed, Bool.or_eq_true, decide_eq_true_eq] at placed
    rcases placed with (ready | stays) | belongs
    · exact absurd ready idle
    · exact absurd joins stays
    · exact belongs
  · exact fun _ edf => .some ⟨edf, h.base, h.frames⟩

theorem blockCurrent (mask : TaskState) (ready : s.state s.current = READY)
    (real : s.current ≠ rtLinuxTask) (stops : READY.set mask ≠ READY) : (s.blockCurrent mask).Edf :=
  ⟨h.disp.blockCurrent mask ready real stops, h.base, h.frames⟩

theorem enqTimedCurrent : Ensures s.enqTimedCurrent Edf :=
  .map (h.disp.enqTimedTask.mono fun _ edf => ⟨edf, h.base, h.frames⟩)

theorem enqueueBlocked {q : Queue n} {fifo : Bool} : Ensures (s.enqueueBlocked t q fifo) Edf := by
  refine enqueueBlocked_spec.mono ?_
  rintro _ ⟨L, rfl, -⟩
  exact ⟨h.disp, h.base, h.frames⟩

theorem rtSchedule (linked : Linked ordered none s) (c : Clock) : Ensures (s.rtSchedule c) Edf :=
  .map ((h.disp.rtSchedule linked.lists c).mono fun _ edf => ⟨edf, h.base, h.frames⟩)

theorem scheduleIf {b : Bool} (linked : Linked ordered none s) (c : Clock) :
    Ensures (s.scheduleIf b c) Edf :=
  .ite (fun _ => h.rtSchedule linked c) fun _ => .some h

/-- Only an ordinary task is less urgent than some other. -/
theorem inherit (real : t ≠ rtLinuxTask) (nonneg : 0 ≤ prio) (less : s.priority t > prio) :
    Ensures (s.inherit t prio) fun p => p.1.Edf := by
  have ordinary : ¬s.disp.policy t < 0 := by
    intro edf
    have urgent : s.priority t = 0 := h.disp.urgent t edf
    omega
  have edf : (s.disp.setPriority t prio).Edf := h.disp.setPriority real ordinary nonneg
  refine .ite (fun ready => ?_) fun idle => ?_
  · refine .bind (.map (R := Edf) ((edf.requeue ready real ordinary).mono ?_)) ?_
    · exact fun _ edf => ⟨edf, h.base, h.frames⟩
    · exact fun _ edf => .some edf
  · refine (requeueBlocked_spec idle).mono ?_
    rintro ⟨_, b⟩ ⟨Q, rfl, -⟩
    exact ⟨edf, h.base, h.frames⟩

end

variable {dest : Option (Task n)}

theorem passPrioLoop (nonneg : 0 ≤ prio) {k : Nat} (h : s.Edf) (linked : Linked ordered off s)
    (real : dest ≠ some rtLinuxTask) : Ensures (s.passPrioLoop prio k dest) fun p => p.1.Edf := by
  induction k generalizing dest s with
  | zero =>
      cases dest with
      | none => exact .some h
      | some dest => exact .none
  | succ k ih =>
      cases dest with
      | none => exact .some h
      | some dest =>
          have other : dest ≠ rtLinuxTask := fun e => real (congrArg some e)
          refine .ite (fun less => ?_) fun _ => .some h
          refine .bind ((linked.inherit other).and (h.inherit other nonneg less)) ?_
          rintro ⟨_, b⟩ ⟨⟨linked, R, Q, rfl, -⟩, edf⟩
          refine .bind (ih edf linked (linked.linux.prioPassedTo dest)) ?_
          exact fun _ edf => .some edf

theorem passPrio (h : s.Edf) (linked : Linked ordered off s) (real : dest ≠ some rtLinuxTask) :
    Ensures (s.passPrio dest t) Edf := by
  have start : (s.setPrioPassedTo t dest).Edf := ⟨h.disp, h.base, h.frames⟩
  refine .bind (passPrioLoop (h.disp.nonneg t) start (linked.setPrioPassedTo real) real) ?_
  exact fun _ edf => .some edf

theorem passPrioToOwner (h : s.Edf) (linked : Linked ordered off s) :
    Ensures (s.passPrioToOwner sem) Edf :=
  .ite (fun _ => h.passPrio linked (linked.linux.owndby sem)) fun _ => .some h

theorem leftPriority_nonneg (h : s.Edf) (own : BitVec 32) (t : Task n) :
    0 ≤ s.leftPriority own t := by
  have base := h.base t
  rw [leftPriority]
  split
  · exact base
  split
  · split
    next first _ =>
      have := h.disp.nonneg first
      split
      · exact this
      · exact base
    · exact base
  · exact h.disp.nonneg t

/-- The caller gives back what it owned. -/
theorem renqByResources (h : s.Edf) (ok : Ok ordered s)
    (urgent : s.staysUrgent (s.owndres s.current) = true) :
    Ensures (s.renqByResources s.current) fun p => p.1.Edf ∧
      p.1.disp.priority = update s.disp.priority s.current
        (s.leftPriority (s.owndres s.current) s.current) ∧
      p.1.disp.policy = s.disp.policy ∧ p.1.disp.period = s.disp.period := by
  have renq : ∀ prio, s.leftPriority (s.owndres s.current) s.current = prio →
      (s.current = rtLinuxTask → prio = RT_LINUX_PRIORITY) →
      Ensures (s.disp.renqReadyTask s.current prio) fun p => p.1.Edf ∧
        ∃ L, p.1 = { s.disp with ready := L, priority := update s.disp.priority s.current prio } := by
    intro prio left linux
    have nonneg : 0 ≤ prio := left ▸ h.leftPriority_nonneg _ _
    have stays : s.disp.policy s.current < 0 → prio = 0 := by
      intro edf
      simpa [staysUrgent, edf, left] using urgent
    have edf := h.disp.renqReadyTask ok.running nonneg linux stays
    refine (edf.and (ok.lists.renqReadyTask ok.running ?_)).mono fun _ both => ⟨both.1, both.2.2⟩
    intro e
    rw [e, linux e]
    exact ok.linux.priority
  refine .ite (fun nothing => ?_) fun owns => .ite (fun calls => ?_) fun sems => ?_
  · have left : s.leftPriority (s.owndres s.current) s.current = s.basePriority s.current :=
      if_pos nothing
    refine .bind (renq _ left fun e => e ▸ ok.linux.base) ?_
    rintro ⟨_, b⟩ ⟨edf, L, rfl⟩
    rw [left]
    exact .some ⟨⟨edf, h.base, h.frames⟩, rfl, rfl, rfl⟩
  · refine .bind (P := fun first => s.taskOf (s.queue.next (.head (.msgQueue s.current))) =
      some first) (fun _ e => e) fun first found => ?_
    have left : s.leftPriority (s.owndres s.current) s.current =
        if s.basePriority s.current > s.priority first then s.priority first
        else s.basePriority s.current := by
      rw [leftPriority, if_neg owns, if_pos calls, found]
    refine .bind (renq _ left fun e => absurd (e ▸ ok.linux.owndres) owns) ?_
    rintro ⟨_, b⟩ ⟨edf, L, rfl⟩
    rw [left]
    exact .some ⟨⟨edf, h.base, h.frames⟩, rfl, rfl, rfl⟩
  · have left : s.leftPriority (s.owndres s.current) s.current = s.disp.priority s.current := by
      rw [leftPriority, if_neg owns, if_neg sems]
    rw [left, update_eq_self]
    exact .some ⟨h, rfl, rfl, rfl⟩

end Edf

end System

end Rtai.Up
