import Rtai.Up.Linked

/-!
# What the semaphore services do

`SemWait` lists the outcomes of a wait and `SemSignal` those of a signal, each
with the state it leaves to `rt_schedule`; the links of the ready and the timed
list are left open there, as `Linked` already accounts for them.  `Scheduled`
is the effect of the call of `rt_schedule` itself.

Every statement about semaphores below is proved by cases on these outcomes.
-/

namespace Rtai.Up

open Function Rtai.Lib

variable {n : Nat}

/-- The frames of the timed waits, sends and calls. -/
def Frame.timed : Frame n → Bool
  | .rtSemWaitUntil _ | .rtSendUntil _ _ | .rtRpcUntil _ _ => true
  | _ => false

/-- What the code of a frame waits for. -/
inductive Aim (n : Nat) where
  | semaphore (sem : SemId)
  | send (task : Task n)
  | rpc (task : Task n)
  | other

def Frame.aim : Frame n → Aim n
  | .rtSemWait sem | .rtSemWaitUntil sem => .semaphore sem
  | .rtSend r _ | .rtSendUntil r _ => .send r
  | .rtRpc r _ | .rtRpcUntil r _ => .rpc r
  | _ => .other

/-- The state of a task that waits with the given bit, also for a time or not. -/
def waiting (bit : TaskState) (timed : Bool) : TaskState :=
  READY.set (if timed then bit.set DELAYED else bit)

section

variable {bit : TaskState} {timed : Bool}

@[simp] theorem waiting_ready : (waiting bit timed).ready = true := by
  cases timed <;> simp [waiting, TaskState.set, READY]

@[simp] theorem waiting_send : (waiting bit timed).send = bit.send := by
  cases timed <;> simp [waiting, TaskState.set, READY, DELAYED]

@[simp] theorem waiting_receive : (waiting bit timed).receive = bit.receive := by
  cases timed <;> simp [waiting, TaskState.set, READY, DELAYED]

@[simp] theorem waiting_rpc : (waiting bit timed).rpc = bit.rpc := by
  cases timed <;> simp [waiting, TaskState.set, READY, DELAYED]

@[simp] theorem waiting_ret : (waiting bit timed).ret = bit.ret := by
  cases timed <;> simp [waiting, TaskState.set, READY, DELAYED]

end

namespace System

/-- The state after `rt_schedule`, if it was called: tasks may have timed out,
the current one may be another. -/
structure Scheduled (ordered : Prop) (c : Clock) (s₁ s' : System n) : Prop where
  ok : Ok ordered s'
  woken : ∃ d, s' = { s₁ with disp := d } ∧ s₁.disp.Woken (s₁.disp.scheduleTime c) d

/-- A wait on `sem` that leaves the frame `f` if it blocks. -/
inductive SemWait (s : System n) (sem : SemId) (f : Frame n) : System n → Prop
  /-- The semaphore does not exist. -/
  | refuse : (s.sem sem).magic = false → SemWait s sem f (s.ret (.int SEM_ERR))
  /-- The owner waits once more. -/
  | nest {s₁ : System n} (count : (s.sem sem).count ≤ 0) (type : (s.sem sem).type > 0)
      (owner : (s.sem sem).owndby = some s.current)
      (eq : f = .rtSemWait sem ∧
          s₁ = (s.setType sem ((s.sem sem).type + 1)).ret (.int (s.sem sem).count) ∨
        f = .rtSemWaitUntil sem ∧ ∃ time > s.disp.timeH,
          s₁ = ((((s.setBlockedOn s.current (some (.sem sem))).setResumeTime time).setType sem
            ((s.sem sem).type + 1)).ret (.int 0))) :
      SemWait s sem f s₁
  /-- The semaphore is free. -/
  | take (magic : (s.sem sem).magic = true) (count : (s.sem sem).count > 0) :
      SemWait s sem f ((s.setCount sem ((s.sem sem).count - 1)).takeSem sem (s.sem sem).count)
  /-- The caller blocks. -/
  | block {st : TaskState} {P : Task n → Int} {R T : Links (Task n)} {M : Task n → RTIME}
      {PP : Task n → Option (Task n)} {Q : Links (QNode n)} {B : Task n → Option (Queue n)}
      (magic : (s.sem sem).magic = true) (count : (s.sem sem).count ≤ 0)
      (other : ¬((s.sem sem).type > 0 ∧ (s.sem sem).owndby = some s.current))
      (frame : f.aim = .semaphore sem) (state : st = waiting SEMAPHORE f.timed)
      (blocked : B = update s.blockedOn s.current (some (.sem sem)))
      (queue : ∀ b, OnQueues s.queue b →
        ((s.sem sem).type > 0 →
          ∀ u q, s.state u ≠ READY → s.blockedOn u = some q → b u = some q) →
        b s.current = none → OnQueues Q (update b s.current (some (.sem sem))))
      (prio : if (s.sem sem).type > 0 then
          PP = update s.prioPassedTo s.current (s.sem sem).owndby ∧
            Passes s.disp.priority PP (s.disp.priority s.current) (s.sem sem).owndby P
        else PP = s.prioPassedTo ∧ P = s.disp.priority) :
      SemWait s sem f { s with
        disp := { s.disp with
          state := update s.disp.state s.current st
          priority := P, resumeTime := M, ready := R, timed := T }
        prioPassedTo := PP
        queue := Q
        blockedOn := B
        sem := update s.sem sem { s.sem sem with count := (s.sem sem).count - 1 }
        stack := update s.stack s.current (f :: s.stack s.current) }
  /-- The time is over before the caller has blocked. -/
  | late {T : RTIME} (hf : f = .rtSemWaitUntil sem) (magic : (s.sem sem).magic = true)
      (count : (s.sem sem).count ≤ 0) :
      SemWait s sem f ({ ((s.setBlockedOn s.current (some (.sem sem))).setResumeTime T).setCount
          sem ((s.sem sem).count - 1) with
        queue := s.queue.reset (.queue s.current) }.rtSemWaitUntilRest sem)

variable {s s' s₁ : System n} {sem : SemId} {ordered : Prop} {c : Clock}

/-- The count after a signal. -/
def signalledCount (v : Sem n) : Int :=
  if v.type = 0 then v.count + 1 else if v.count + 1 > 1 then 1 else v.count + 1

/-- A signal hands the semaphore to its first waiter. -/
inductive Grant (s : System n) (sem : SemId) : System n → Prop
  | nobody (none : s.taskOf (s.queue.next (.head (.sem sem))) = none) :
      Grant s sem ((s.ret (.int 0)).setCount sem (signalledCount (s.sem sem)))
  | first {t : Task n} {L T : Links (Task n)}
      (first : s.taskOf (s.queue.next (.head (.sem sem))) = some t) :
      Grant s sem { (s.ret (.int 0)).setCount sem (signalledCount (s.sem sem)) with
        disp := { s.disp with
          ready := L, timed := T
          state := update s.disp.state t (if s.disp.state t = READY then READY
            else (s.disp.state t).clear (SEMAPHORE.set DELAYED)) }
        prioPassedTo := update s.prioPassedTo t Option.none
        queue := s.queue.unlink (.queue t)
        blockedOn := update s.blockedOn t Option.none }

/-- `--rt_current->owndres`, unless its semaphore half is 0. -/
def owndresLeft (own : BitVec 32) : BitVec 32 := if own &&& SEMHLF = 0 then own else own - 1

/-- A resource given back, and the priority `p` that follows. -/
def givenBack (L : Links (Task n)) (p : Int) (s : System n) : System n :=
  { s.setOwndres s.current (owndresLeft (s.owndres s.current)) with
    disp := { s.disp with ready := L, priority := update s.disp.priority s.current p } }

/-- `Linked.LeftWith` behind the decrement of `owndres`. -/
def LeftBy (s : System n) (p : Int) : Prop :=
  Linked.LeftWith (s.setOwndres s.current (owndresLeft (s.owndres s.current))) s.current p

/-- The current task gives back a resource. -/
inductive GiveBack (s : System n) : System n → Prop
  | keeps {L : Links (Task n)} {p : Int} (left : LeftBy s p)
      (none : s.suspdepth s.current = 0 ∨
        s.suspdepth s.current < 0 ∧ (s.givenBack L p).deletable s.current = false) :
      GiveBack s (s.givenBack L p)
  | suspends {L R : Links (Task n)} {p : Int} (left : LeftBy s p)
      (pending : s.suspdepth s.current > 0) :
      GiveBack s { s.givenBack L p with disp := { (s.givenBack L p).disp with
        ready := R
        state := update s.disp.state s.current ((s.disp.state s.current).set SUSPENDED) } }
  | deletes {L : Links (Task n)} {p : Int} {s₁ : System n} (left : LeftBy s p)
      (pending : s.suspdepth s.current < 0)
      (deletable : (s.givenBack L p).deletable s.current = true)
      (deleted : (s.givenBack L p).deleteTask s.current = some s₁) : GiveBack s s₁

inductive SemSignal (s : System n) (sem : SemId) : System n → Prop
  | refuse : (s.sem sem).magic = false → SemSignal s sem (s.ret (.int SEM_ERR))
  /-- The owner ends a nested wait. -/
  | unnest (magic : (s.sem sem).magic = true) (type : (s.sem sem).type > 1) :
      SemSignal s sem ((s.ret (.int 0)).setType sem ((s.sem sem).type - 1))
  | plain {g : System n} (magic : (s.sem sem).magic = true) (type : (s.sem sem).type ≤ 0)
      (grant : Grant s sem g) : SemSignal s sem g
  | resource {g s₁ : System n} (magic : (s.sem sem).magic = true) (type : (s.sem sem).type = 1)
      (grant : Grant s sem g) (back : GiveBack (g.setOwndby sem none) s₁) : SemSignal s sem s₁

theorem Linked.scheduled (h : Linked ordered none s) (c : Clock) :
    Ensures (s.rtSchedule c) (Scheduled ordered c s) :=
  (h.rtSchedule c).mono fun _ h => ⟨h.1, h.2⟩

theorem Ok.scheduled {b : Bool} (h : Ok ordered s) (c : Clock) :
    Ensures (s.scheduleIf b c) (Scheduled ordered c s) :=
  (h.toLinked.scheduleIf c fun _ => h.running).mono fun _ h => ⟨h.1, h.2⟩

/-- `rt_schedule` was not called. -/
theorem Ok.stays (h : Ok ordered s) : Scheduled ordered c s s :=
  ⟨h, s.disp, rfl, rfl, rfl, rfl, fun _ => Or.inl rfl⟩

theorem setOwndres_self (s : System n) (t : Task n) : s.setOwndres t (s.owndres t) = s := by
  rw [System.setOwndres, update_eq_self]

theorem ite_setOwndres {p : Prop} [Decidable p] (s : System n) (t : Task n) (own : BitVec 32) :
    (if p then s else s.setOwndres t own) = s.setOwndres t (if p then s.owndres t else own) := by
  split
  · rw [setOwndres_self]
  · rfl

namespace Ok

variable (h : Ok ordered s)
include h

theorem takeSem {count : Int} (hc : s.current ≠ rtLinuxTask) :
    Ok ordered (s.takeSem sem count) := by
  unfold System.takeSem
  split
  · refine ⟨((h.setOwndby fun e => hc (Option.some.inj e)).setOwndres hc).ret, h.running⟩
  · exact ⟨h.ret, h.running⟩

theorem rtSemWaitUntilRest (hc : s.current ≠ rtLinuxTask) :
    Ok ordered (s.rtSemWaitUntilRest sem) := by
  unfold System.rtSemWaitUntilRest
  dsimp only
  split
  · exact ⟨h.clearPrioPassedTo.ret, h.running⟩
  split
  · exact ⟨(h.dequeueBlocked s.current).setCount.ret, h.running⟩
  · exact h.takeSem hc

theorem blockTimed (mask : TaskState) (hc : s.current ≠ rtLinuxTask) (hm : READY.set mask ≠ READY)
    (hd : mask.delayed = true) :
    Linked ordered (some s.current) (s.blockCurrent mask) ∧
      ((s.blockCurrent mask).state s.current).delayed = true := by
  refine ⟨h.block h.running hc hm, ?_⟩
  show (update s.disp.state s.current _ s.current).delayed = true
  rw [update_self]
  simp [TaskState.set, hd]

theorem passPrioToOwner :
    Ensures (s.passPrioToOwner sem) fun s' => Ok ordered s' ∧ ∃ P R PP Q,
      s' = { s with
        disp := { s.disp with priority := P, ready := R }, prioPassedTo := PP, queue := Q } ∧
      (∀ b, OnQueues s.queue b → ((s.sem sem).type > 0 →
        ∀ u q, s.state u ≠ READY → s.blockedOn u = some q → b u = some q) → OnQueues Q b) ∧
      if (s.sem sem).type > 0 then
        PP = update s.prioPassedTo s.current (s.sem sem).owndby ∧
          Passes s.disp.priority PP (s.disp.priority s.current) (s.sem sem).owndby P
      else PP = s.prioPassedTo ∧ P = s.disp.priority := by
  refine .ite (fun ht => ?_) fun ht => .some ⟨h, _, _, _, _, rfl, fun _ hb _ => hb, ?_⟩
  · refine (h.passPrio (h.linux.owndby sem)).mono ?_
    rintro _ ⟨h', P, R, Q, rfl, hQ, hP⟩
    refine ⟨⟨h', h.running⟩, P, R, _, Q, rfl, fun b hb same => hQ b hb (same ht), ?_⟩
    rw [if_pos ht]
    exact ⟨rfl, hP⟩
  · rw [if_neg ht]
    exact ⟨rfl, rfl⟩

theorem rtSemWait_moves (hc : s.current ≠ rtLinuxTask) :
    Ensures (s.rtSemWait sem c) fun s' =>
      ∃ s₁, SemWait s sem (.rtSemWait sem) s₁ ∧ Scheduled ordered c s₁ s' := by
  refine .ite (fun hm => .some ⟨_, .refuse (by simpa using hm), ?_⟩) fun hm =>
    .ite (fun count => ?_) fun count => .some ⟨_, .take (by simpa using hm) (by omega), ?_⟩
  · exact stays ⟨h.ret, h.running⟩
  · refine .ite (fun owner => .some ⟨_, .nest count owner.1 owner.2 (.inl ⟨rfl, rfl⟩), ?_⟩)
      fun owner => ?_
    · exact stays ⟨h.setType.ret, h.running⟩
    refine .bind h.passPrioToOwner ?_
    rintro _ ⟨h₁, P, R, PP, Q, rfl, hQ, hP⟩
    refine .bind (Linked.enqueueBlocked
      (h₁.setCount.blockUntimed SEMAPHORE h₁.running hc (by decide) rfl)) ?_
    rintro _ ⟨h₃, Q', rfl, hQ'⟩
    refine (Linked.scheduled (h₃.push fun e => absurd e hc) c).mono fun s' hs => ⟨_, ?_, hs⟩
    have running : s.disp.state s.current = READY := h.running
    exact .block (by simpa using hm) count owner rfl (congrArg (·.set SEMAPHORE) running) rfl
      (fun b hb same ht => hQ' b (hQ b hb same) ht) hP
  · exact stays (takeSem ⟨h.setCount, h.running⟩ hc)

theorem rtSemWaitUntil_moves {time : RTIME} (hc : s.current ≠ rtLinuxTask) :
    Ensures (s.rtSemWaitUntil sem time c) fun s' =>
      ∃ s₁, SemWait s sem (.rtSemWaitUntil sem) s₁ ∧ Scheduled ordered c s₁ s' := by
  refine .ite (fun hm => .some ⟨_, .refuse (by simpa using hm), ?_⟩) fun hm =>
    .ite (fun count => ?_) fun count => .some ⟨_, .take (by simpa using hm) (by omega), ?_⟩
  · exact stays ⟨h.ret, h.running⟩
  · have h₁ : Ok ordered ((s.setBlockedOn s.current (some (.sem sem))).setResumeTime time) :=
      ⟨h.setBlockedOn.setResumeTime hc h.running, h.running⟩
    refine .ite (fun future => .ite (fun owner => .some ⟨_, .nest count owner.1 owner.2
      (.inr ⟨rfl, time, future, rfl⟩), ?_⟩) fun owner => ?_) fun _ => .some
      ⟨_, .late (T := time) rfl (by simpa using hm) count, ?_⟩
    · exact stays ⟨h₁.setType.ret, h₁.running⟩
    · refine .bind h₁.passPrioToOwner ?_
      rintro _ ⟨h₂, P, R, PP, Q, rfl, hQ, hP⟩
      refine .bind (Linked.enqueueBlocked (blockTimed (s := System.setCount _ _ _)
        ⟨h₂.setCount, h₂.running⟩ (SEMAPHORE.set DELAYED) hc (by decide) rfl).1) ?_
      rintro _ ⟨h₄, Q', rfl, hQ'⟩
      refine .bind (h₄.enqTimedCurrent ?_ hc) ?_
      · exact (blockTimed h (SEMAPHORE.set DELAYED) hc (by decide) rfl).2
      rintro _ ⟨h₅, T, rfl⟩
      refine (Linked.scheduled (h₅.push fun e => absurd e hc) c).mono fun s' hs => ⟨_, ?_, hs⟩
      have running : s.disp.state s.current = READY := h.running
      refine .block (P := P) (by simpa using hm) count owner
        rfl (congrArg (·.set (SEMAPHORE.set DELAYED)) running) (update_idem _ _ _)
        (fun b hb same ht => hQ' b (hQ b hb fun res u q hu hq => same res u q hu ?_) ht) hP
      have hne : u ≠ s.current := by
        rintro rfl
        exact hu running
      exact (update_of_ne hne _ _).symm.trans hq
    · exact stays (rtSemWaitUntilRest ⟨h₁.setCount.setQueue, h₁.running⟩ hc)
  · exact stays (takeSem ⟨h.setCount, h.running⟩ hc)

theorem releaseFirst_moves :
    Ensures (((s.ret (.int 0)).setCount sem (signalledCount (s.sem sem))).releaseFirst sem)
      fun p => Ok ordered p.1 ∧ Grant s sem p.1 := by
  unfold System.releaseFirst
  have h₀ : Ok ordered ((s.ret (.int 0)).setCount sem (signalledCount (s.sem sem))) :=
    ⟨h.ret.setCount, h.running⟩
  split
  next none => exact .some ⟨h₀, .nobody none⟩
  next t first =>
    have h₁ : Ok ordered (((s.ret (.int 0)).setCount sem
        (signalledCount (s.sem sem))).dequeueBlocked t) := ⟨h₀.dequeueBlocked t, h.running⟩
    refine (h₁.release rfl).mono ?_
    rintro ⟨_, b⟩ ⟨h₂, L, T, rfl⟩
    exact ⟨h₂, .first first⟩

/-- Half of `owndres` is counted down unless it is 0. -/
theorem countDown {half own : BitVec 32} :
    Ok ordered (s.setOwndres s.current
      (if s.owndres s.current &&& half = 0 then s.owndres s.current else own)) := by
  split
  · rw [setOwndres_self]
    exact h
  next owns =>
    refine ⟨h.setOwndres fun e => owns ?_, h.running⟩
    rw [e, h.linux.owndres]
    exact BitVec.zero_and

/-- The caller is awake, so its deletion needs no condition. -/
theorem releaseOwned_moves :
    Ensures (s.releaseOwned c) fun s' => ∃ s₁, GiveBack s s₁ ∧ Scheduled ordered c s₁ s' := by
  have h₁ : Ok ordered (s.setOwndres s.current (owndresLeft (s.owndres s.current))) := h.countDown
  have real : s.suspdepth s.current ≠ 0 → s.current ≠ rtLinuxTask := by
    intro hs e
    rw [e] at hs
    exact hs h.linux.suspdepth
  unfold System.releaseOwned
  simp only [ite_setOwndres]
  refine .bind h₁.renqByResources ?_
  rintro ⟨_, b⟩ ⟨h₂, L, p, rfl, hp⟩
  have h₂ : Ok ordered (s.givenBack L p) := h₂
  refine .ite (fun hs => ?_) fun hs => .ite (fun hs' => .ite (fun del => ?_) fun del => ?_) fun hs' => ?_
  · have hs : s.suspdepth s.current > 0 := hs
    have h₃ : Linked ordered none ((s.givenBack L p).blockCurrent SUSPENDED) :=
      h₂.blockUntimed SUSPENDED h₂.running (real (by omega)) (by decide) rfl
    exact (Linked.scheduled h₃ c).mono fun s' hs' => ⟨_, .suspends hp hs, hs'⟩
  · have hs' : s.suspdepth s.current < 0 := hs'
    have awake : ((s.givenBack L p).state s.current).delayed = false := by
      rw [show (s.givenBack L p).state s.current = READY from h₂.running]
      rfl
    refine .bind (P := fun s₂ => Linked ordered none s₂ ∧
      (s.givenBack L p).deleteTask s.current = some s₂) (fun s₂ e => ⟨?_, e⟩) fun s₂ h₃ => ?_
    · exact (h₂.toLinked.deleteTask (real (by omega))
        (fun hd => absurd (awake.symm.trans hd) Bool.false_ne_true) s₂ e).1
    · exact (Linked.scheduled h₃.1 c).mono fun s' hs => ⟨_, .deletes hp hs' del h₃.2, hs⟩
  · refine (h₂.scheduled c).mono fun s' hs'' => ⟨_, .keeps hp (.inr ⟨hs', ?_⟩), hs''⟩
    exact eq_false_of_ne_true del
  · have hs : ¬s.suspdepth s.current > 0 := hs
    have hs' : ¬s.suspdepth s.current < 0 := hs'
    exact (h₂.scheduled c).mono fun s' hs'' => ⟨_, .keeps hp (.inl (by omega)), hs''⟩

theorem rtSemSignal_moves :
    Ensures (s.rtSemSignal sem c) fun s' =>
      ∃ s₁, SemSignal s sem s₁ ∧ Scheduled ordered c s₁ s' := by
  refine .ite (fun hm => .some ⟨_, .refuse (by simpa using hm), ?_⟩) fun hm =>
    .ite (fun nested => .some ⟨_, .unnest (by simpa using hm) nested, ?_⟩) fun nested => ?_
  · exact stays ⟨h.ret, h.running⟩
  · exact stays ⟨h.ret.setType, h.running⟩
  refine .bind h.releaseFirst_moves ?_
  rintro ⟨g, b⟩ ⟨hg, grant⟩
  refine .ite (fun res => ?_) fun res => ?_
  · have h₂ : Ok ordered (g.setOwndby sem none) := ⟨hg.setOwndby nofun, hg.running⟩
    refine h₂.releaseOwned_moves.mono ?_
    rintro s' ⟨s₁, back, hs⟩
    exact ⟨s₁, .resource (by simpa using hm) (by omega) grant back, hs⟩
  · exact (hg.scheduled c).mono fun s' hs => ⟨g, .plain (by simpa using hm) (by omega) grant, hs⟩

end Ok

end System

end Rtai.Up
