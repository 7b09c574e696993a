import Rtai.Lxrt.RwlockMoves

/-!
# Conditional locks

`rt_rwl_rdlock_if` and `rt_rwl_wrlock_if` beside the services of `Rwlocks`.  A write lock
takes the count that `rt_sem_wait_if` returns for success unless it is negative, and the
count of a `wrmtx` that is not free, with nobody in its queue, is 0.

`reads` and `writes` have the tasks that were told to have the lock.
-/

namespace Rtai.Lxrt.Rwl

open Function Rtai.Lib

variable {T : Type} [DecidableEq T]

namespace State

/-- `rt_rwl_rdlock_if`, with what it returns. -/
def rtRwlRdlockIf (self : T) (s : State T) : State T × Int :=
  if s.owndby = none ∧ s.writerFirst self = false then
    ({ s with readers := s.readers + 1, reads := self :: s.reads }, 0)
  else (s, -1)

/-- `rt_rwl_wrlock_if`, with what it returns. -/
def rtRwlWrlockIf (self : T) (s : State T) : State T × Int :=
  if s.readers = 0 then
    let (k, ret) := s.kernel.rtSemWaitIf .wrmtx self
    let s := { s with kernel := k }
    if ret ≥ 0 then ({ s with writes := self :: s.writes }, 0) else (s, -1)
  else (s, -1)

end State

namespace Conditional

/-- The services of `Rwlocks`, and the conditional forms. -/
inductive Event (T : Type) where
  | service (e : Rwl.Event T)
  | rdlockIf (self : T)
  | wrlockIf (self : T)

/-- A task calls only outside a service. -/
def step : Event T → State T → Option (State T)
  | .service e, s => Rwl.step e s
  | .rdlockIf self, s => if s.phase self = .idle then some (s.rtRwlRdlockIf self).1 else none
  | .wrlockIf self, s => if s.phase self = .idle then some (s.rtRwlWrlockIf self).1 else none

/-- The second state has one read lock more, and no writer. -/
def ReadMore (s s' : State T) : Prop := s'.readers = s.readers + 1 ∧ s'.owndby = none

/-- In the second state the task has one level of the write lock more, and nobody reads. -/
def WriteMore (self : T) (s s' : State T) : Prop :=
  s'.owndby = some self ∧ s'.readers = 0 ∧
    (s'.kernel.sem .wrmtx).depth self = (s.kernel.sem .wrmtx).depth self + 1

/-- What a conditional lock should return and leave. -/
def Tells (more : State T → State T → Prop) (s : State T) (call : State T × Int) : Prop :=
  (call.2 = 0 ↔ more s call.1) ∧ (call.2 ≠ 0 → call.1 = s)

/-- `wrmtx` is another task's, or on its way to one, and nobody is in its queue. -/
def Engaged (self : T) (s : State T) : Prop :=
  s.readers = 0 ∧ (s.kernel.sem .wrmtx).count = 0 ∧ s.owndby ≠ some self

instance (self : T) (s : State T) : Decidable (Engaged self s) :=
  inferInstanceAs (Decidable (_ ∧ _ ∧ _))

/-! ## The calls -/

variable {s s' s₀ : State T} {self : T} {e : Event T} {how : Option Bool}

omit [DecidableEq T] in
theorem rdlockIf_tells (s : State T) (self : T) : Tells ReadMore s (s.rtRwlRdlockIf self) := by
  unfold State.rtRwlRdlockIf
  split
  next passes => exact ⟨⟨fun _ => ⟨rfl, passes.1⟩, fun _ => rfl⟩, fun other => absurd rfl other⟩
  next =>
    refine ⟨⟨nofun, fun more => ?_⟩, fun _ => rfl⟩
    have readers := more.1
    dsimp only at readers
    omega

/-- A write lock is refused for a reader, refused with a negative count, told to be had with a
count of 0, or had. -/
inductive WriteIf (self : T) (s : State T) : State T × Int → Prop where
  | read : s.readers ≠ 0 → WriteIf self s (s, -1)
  | queued : s.readers = 0 → (s.kernel.sem .wrmtx).count < 0 → s.owndby ≠ some self →
      WriteIf self s (s, -1)
  | told : Engaged self s → WriteIf self s ({ s with writes := self :: s.writes }, 0)
  | has {k : Kernel RwlSem T} {v : Int} : s.readers = 0 → s.kernel.Wait none .wrmtx self k (some v) →
      WriteIf self s ({ s with kernel := k, writes := self :: s.writes }, 0)

theorem wrlockIf_cases (deep : 0 < (s.kernel.sem .wrmtx).type) :
    WriteIf self s (s.rtRwlWrlockIf self) := by
  unfold State.rtRwlWrlockIf
  split
  next unread =>
    rcases s.kernel.rtSemWaitIf_cases .wrmtx self with ⟨busy, other, same⟩ | ⟨wait, pos⟩
    · have other : s.owndby ≠ some self := fun mine => other ⟨deep, mine⟩
      rw [same]
      dsimp only
      split
      next => exact .told ⟨unread, by omega, other⟩
      next queued => exact .queued unread (by omega) other
    · dsimp only
      rw [if_pos pos]
      exact .has unread wait
  next read => exact .read read

/-- A write lock tells the truth unless the lock is engaged. -/
theorem wrlockIf_tells (ok : s.Ok) (level : s.kernel.Level .wrmtx) :
    Tells (WriteMore self) s (s.rtRwlWrlockIf self) ↔ ¬Engaged self s := by
  have h : WriteIf self s (s.rtRwlWrlockIf self) := wrlockIf_cases ok.resource.deep
  generalize s.rtRwlWrlockIf self = call at h
  cases h with
  | read read =>
      refine iff_of_true ⟨⟨nofun, fun more => absurd more.2.1 read⟩, fun _ => rfl⟩ ?_
      exact fun engaged => read engaged.1
  | queued _ queued other =>
      refine iff_of_true ⟨⟨nofun, fun more => absurd more.1 other⟩, fun _ => rfl⟩ ?_
      exact fun engaged => queued.ne engaged.2.1
  | told engaged =>
      exact iff_of_false (fun tells => engaged.2.2 (tells.1.mp rfl).1) (not_not.mpr engaged)
  | @has k _ unread wait =>
      have gains : WriteMore self s { s with kernel := k, writes := self :: s.writes } ∧
          ¬Engaged self s := by
        cases wait with
        | takes free =>
            have owner : (s.kernel.sem .wrmtx).takenBy self = some self :=
              if_pos ok.resource.deep
            have unowned : (s.kernel.sem .wrmtx).owndby = none := by
              by_contra owned
              obtain ⟨t, owned⟩ := Option.ne_none_iff_exists'.mp owned
              exact ok.resource.busy owned free
            refine ⟨⟨?_, unread, ?_⟩, fun engaged => ?_⟩
            · simp [State.owndby, owner]
            · simp [Sem.depth, owner, unowned, level unowned]
            · have none := engaged.2.1
              omega
        | nested _ _ mine =>
            refine ⟨⟨?_, unread, ?_⟩, fun engaged => engaged.2.2 mine⟩
            · simp [State.owndby, mine]
            · simp [Sem.depth, mine]
        | late timed => cases timed
      exact iff_of_true ⟨⟨fun _ => gains.1, fun _ => rfl⟩, fun other => absurd rfl other⟩ gains.2

/-! ## Runs -/

theorem level_of_readLock (level : s.kernel.Level .wrmtx) (h : State.ReadLock self how s s') :
    s'.kernel.Level .wrmtx := by
  cases h with
  | refused => exact level
  | takes => exact level
  | late => exact level
  | blocks _ wait =>
      have same := wait.other (j := .wrmtx) nofun
      exact level.congr (congrArg Sem.type same) (congrArg Sem.owndby same)

theorem level_of_writeLock (ok : s.Ok) (level : s.kernel.Level .wrmtx)
    (h : State.WriteLock self how s s') : s'.kernel.Level .wrmtx := by
  cases h with
  | late => exact level
  | blocks _ wait =>
      have same := wait.other (j := .wrmtx) nofun
      exact level.congr (congrArg Sem.type same) (congrArg Sem.owndby same)
  | claims _ wait => exact level.waitFor ok.resource.deep wait
  | has _ wait => exact level.waitFor ok.resource.deep wait

theorem level_of_goOn (ok : s.Ok) (level : s.kernel.Level .wrmtx) (h : State.GoOn self s s') :
    s'.kernel.Level .wrmtx := by
  cases h with
  | @inVain i =>
      rcases eq_or_ne i .wrmtx with rfl | flat
      · exact level.congr (by simp [State.comeOut, State.setPhase])
          (by simp [State.comeOut, State.setPhase])
      · exact level.congr (by simp [State.comeOut, State.setPhase, flat.symm])
          (by simp [State.comeOut, State.setPhase, flat.symm])
  | read _ _ lock => exact level_of_readLock level lock
  | write _ _ lock => exact level_of_writeLock ok level lock
  | claim =>
      intro unowned
      simp [State.setPhase] at unowned

/-- The services leave one level where nobody owns the lock. -/
theorem level_of_move {e : Rwl.Event T} (ok : s.Ok) (level : s.kernel.Level .wrmtx)
    (h : State.Move s e s') : s'.kernel.Level .wrmtx := by
  cases h with
  | rdlock _ lock => exact level_of_readLock level lock
  | wrlock _ lock => exact level_of_writeLock ok level lock
  | release _ _ _ signal => exact level.signal ok.resource.deep signal
  | leave => simpa [Kernel.Level, State.setPhase] using level
  | leaveFree => simpa [Kernel.Level, State.setPhase] using level
  | wake _ wakes signal =>
      have same := signal.other (State.wakes_cases wakes).2.1.symm
      exact level.congr (congrArg Sem.type same) (congrArg Sem.owndby same)
  | quit => exact level
  | goOn _ goes => exact level_of_goOn ok level goes
  | expire => exact level
  | priority => exact level.changePriority

/-- What holds in every run: the semaphores are in order. -/
structure Kept (s : State T) : Prop where
  ok : s.Ok
  level : s.kernel.Level .wrmtx

omit [DecidableEq T] in
theorem Kept.rdlockIf (kept : Kept s) : Kept (s.rtRwlRdlockIf self).1 := by
  unfold State.rtRwlRdlockIf
  split
  · exact ⟨kept.ok, kept.level⟩
  · exact kept

theorem Kept.wrlockIf (kept : Kept s) (idle : s.phase self = .idle) :
    Kept (s.rtRwlWrlockIf self).1 := by
  have h : WriteIf self s (s.rtRwlWrlockIf self) := wrlockIf_cases kept.ok.resource.deep
  generalize s.rtRwlWrlockIf self = call at h
  cases h with
  | read => exact kept
  | queued => exact kept
  | told => exact ⟨kept.ok, kept.level⟩
  | has _ wait =>
      have waits : s.waits self = none := congrArg Phase.wait idle
      have sound := Sound.wait kept.ok waits wait
      rw [if_neg nofun, ← waits, update_eq_self] at sound
      exact ⟨sound, kept.level.waitFor kept.ok.resource.deep wait⟩

theorem Kept.step (kept : Kept s) (h : Conditional.step e s = some s') : Kept s' := by
  cases e with
  | service e =>
      have move := State.step_cases kept.ok h
      exact ⟨move.ok kept.ok, level_of_move kept.ok kept.level move⟩
  | rdlockIf self =>
      obtain ⟨idle, h⟩ := Option.ite_none_right_eq_some.mp h
      cases h
      exact kept.rdlockIf
  | wrlockIf self =>
      obtain ⟨idle, h⟩ := Option.ite_none_right_eq_some.mp h
      cases h
      exact kept.wrlockIf idle

omit [DecidableEq T] in
theorem Kept.initial (init : s.Initial) : Kept s where
  ok := init.ok
  level := by
    intro _
    rw [init.wrmtx]
    rfl

/-- In every state of a run a conditional read lock tells whether it takes the lock, and a
conditional write lock does so exactly if the lock is not engaged by another task with nobody
in the queue. -/
theorem conditional_locks_tell {trace : List (Record (State T) (Event T))} (init : s₀.Initial)
    (run : Run step (fun _ _ => True) s₀ trace s) :
    Tells ReadMore s (s.rtRwlRdlockIf self) ∧
      (Tells (WriteMore self) s (s.rtRwlWrlockIf self) ↔ ¬Engaged self s) := by
  have kept : Kept s :=
    run.invariant (P := Kept) (.initial init) fun kept _ h => kept.step h
  exact ⟨rdlockIf_tells s self, wrlockIf_tells kept.ok kept.level⟩

/-- A writer nests by a conditional lock, and another task waits. -/
theorem conditional_locks_tell_queued : ∃ trace s, Run step (fun _ _ => True) fresh trace s ∧
    s.writes = [0, 0] ∧ Tells ReadMore s (s.rtRwlRdlockIf 2) ∧
      (Tells (WriteMore 2) s (s.rtRwlWrlockIf 2) ↔ ¬Engaged 2 s) := by
  obtain ⟨trace, s, run, test⟩ := Run.of_execute step (fun _ _ => True) fresh
    [.wrlockIf 0, .service (.wrlock 1 none), .wrlockIf 0, .wrlockIf 2]
    (fun s => s.writes == [0, 0]) (by decide)
  exact ⟨trace, s, run, beq_iff_eq.mp test, conditional_locks_tell fresh_initial run⟩

/-- A task is told to have the lock that another one has. -/
theorem conditional_lock_lies : ∃ trace s, Run step (fun _ _ => True) fresh trace s ∧
    s.phase 1 = .idle ∧ ¬Tells (WriteMore 1) s (s.rtRwlWrlockIf 1) := by
  obtain ⟨trace, s, run, test⟩ := Run.of_execute step (fun _ _ => True) fresh
    [.wrlockIf 0]
    (fun s => s.phase 1 == .idle && (s.rtRwlWrlockIf 1).2 == 0 &&
      (s.rtRwlWrlockIf 1).1.owndby == some 0) (by decide)
  simp only [Bool.and_eq_true, beq_iff_eq] at test
  obtain ⟨⟨idle, told⟩, owner⟩ := test
  refine ⟨trace, s, run, idle, fun tells => ?_⟩
  have mine := (tells.1.mp told).1
  cases owner.symm.trans mine

end Conditional

end Rtai.Lxrt.Rwl
