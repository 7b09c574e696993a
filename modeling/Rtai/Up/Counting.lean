import Rtai.Up.Messaging
import Rtai.Lib.Counter

/-!
# Runs of the semaphore services

Tasks are created and started, wait on counting and binary semaphores, signal
them, and are deleted.  `CountStep` lists the steps of such a run.

A deleted task keeps its `blocked_on`, and its stack.  `swept` is the system
without them: what holds of the waits of all tasks in other runs (`Waits`) holds
of the swept system here.
-/

namespace Rtai.Up

open Function Rtai.Lib

variable {n : Nat}

/-- The frames of the semaphore services. -/
def Frame.semaphore : Frame n → Bool
  | .rtSemWait _ | .rtSemWaitUntil _ => true
  | _ => false

theorem Frame.semaphore_aim {f : Frame n} (h : f.semaphore = true) :
    ∃ sem, f.aim = .semaphore sem := by
  cases f with
  | rtSemWait sem | rtSemWaitUntil sem => exact ⟨sem, rfl⟩
  | _ => cases h

/-- The services that wait for a semaphore, with the frames they leave. -/
inductive Op.WaitsFor : Op n → SemId → Frame n → Prop
  | semWait {sem : SemId} : WaitsFor (.semWait sem) sem (.rtSemWait sem)
  | semWaitUntil {sem : SemId} {time : RTIME} :
      WaitsFor (.semWaitUntil sem time) sem (.rtSemWaitUntil sem)

namespace System

/-- The structure is that of a task, or of Linux. -/
def lives (s : System n) (t : Task n) : Bool := s.disp.magic t || t = rtLinuxTask

/-- A field of the tasks, wiped where there is none. -/
def kept {α : Type} (s : System n) (none : α) (g : Task n → α) (t : Task n) : α :=
  if s.lives t then g t else none

/-- The system without what is left of deleted tasks. -/
def swept (s : System n) : System n :=
  { s with stack := s.kept [] s.stack, blockedOn := s.kept none s.blockedOn }

variable {s s₁ s' : System n} {t : Task n} {sem : SemId} {c : Clock} {f : Frame n}
  {q : Option (Queue n)} {count : Int} {op : Op n} {R T : Links (Task n)} {e : Event n}

theorem swept_stack (h : s.lives t = true) : s.swept.stack t = s.stack t := if_pos h

theorem swept_blockedOn (h : s.lives t = true) : s.swept.blockedOn t = s.blockedOn t := if_pos h

/-- A write to the structure of a live task, or one that wipes it. -/
theorem kept_update {α : Type} {x none : α} {g : Task n → α}
    (h : s.lives t = true ∨ x = none) :
    s.kept none (update g t x) = update (s.kept none g) t x := by
  funext u
  by_cases e : u = t
  · subst e
    rw [kept, update_self, update_self]
    rcases h with live | rfl
    · exact if_pos live
    · exact ite_self _
  · rw [kept, update_of_ne e, update_of_ne e, kept]

theorem swept_setBlockedOn (h : s.lives t = true ∨ q = none) :
    (s.setBlockedOn t q).swept = s.swept.setBlockedOn t q :=
  congrArg (fun B => { s.swept with blockedOn := B }) (kept_update h)

theorem swept_pop (h : s.lives s.current = true) : s.pop.swept = s.swept.pop := by
  rw [pop, pop, show s.swept.current = s.current from rfl, swept_stack h]
  exact congrArg (fun S => { s.swept with stack := S }) (kept_update (.inl h))

theorem swept_takeSem : (s.takeSem sem count).swept = s.swept.takeSem sem count := by
  rw [Phased.takeSem_eq, Phased.takeSem_eq]
  rfl

theorem swept_rtSemWaitUntilRest (h : s.lives s.current = true) :
    (s.rtSemWaitUntilRest sem).swept = s.swept.rtSemWaitUntilRest sem := by
  have blocked : s.swept.blockedOn s.swept.current = s.blockedOn s.current := swept_blockedOn h
  unfold rtSemWaitUntilRest
  dsimp only
  rw [blocked]
  by_cases dead : ¬(s.sem sem).magic = true
  · rw [if_pos dead]
    exact (if_pos dead).symm
  rw [if_neg dead]
  by_cases queued : (s.blockedOn s.current).isSome = true
  · rw [if_pos queued]
    have left := swept_setBlockedOn (s := (s.setPrioPassedTo s.current none).unlinkQueue s.current)
      (t := s.current) (q := none) (.inr rfl)
    refine .trans ?_ ((if_neg dead).trans (if_pos queued)).symm
    exact congrArg (fun s₁ => (System.setCount sem _ s₁).ret _) left
  · rw [if_neg queued]
    exact swept_takeSem.trans ((if_neg dead).trans (if_neg queued)).symm

theorem swept_rtSemWaitRest (h : s.lives s.current = true) :
    (s.rtSemWaitRest sem).swept = s.swept.rtSemWaitRest sem := by
  have blocked : s.swept.blockedOn s.swept.current = s.blockedOn s.current := swept_blockedOn h
  unfold rtSemWaitRest
  rw [blocked]
  by_cases refused : (s.blockedOn s.current).isSome = true ∨ ¬(s.sem sem).magic = true
  · rw [if_pos refused]
    exact (if_pos refused).symm
  · rw [if_neg refused]
    exact swept_takeSem.trans (if_neg refused).symm

/-- Expiries leave alone who lives. -/
theorem swept_woken {d : Dispatcher n} {now : RTIME} (woken : s.disp.Woken now d) :
    { s with disp := d }.swept = { s.swept with disp := d } := by
  have same {α : Type} (none : α) (g : Task n → α) :
      ({ s with disp := d } : System n).kept none g = s.kept none g := by
    funext t
    rw [kept, kept, lives, lives, woken.magic]
  rw [swept, same, same]
  rfl

/-- A wait for a semaphore that has no owner. -/
theorem SemWait.swept (h : SemWait s sem f s₁) (live : s.lives s.current = true)
    (kind : (s.sem sem).type ≤ 0) : SemWait s.swept sem f s₁.swept := by
  cases h with
  | refuse magic => exact .refuse (s := s.swept) magic
  | nest count type owner eq => omega
  | take magic count =>
      rw [swept_takeSem]
      exact .take (s := s.swept) magic count
  | @block st P R T M PP Q B magic count other frame state blocked queue prio =>
      have stack : s.kept [] (update s.stack s.current (f :: s.stack s.current)) =
          update s.swept.stack s.current (f :: s.swept.stack s.current) := by
        rw [swept_stack live]
        exact kept_update (.inl live)
      have wiped : s.kept none B =
          update s.swept.blockedOn s.current (some (.sem sem)) := by
        rw [blocked]
        exact kept_update (.inl live)
      have moves : SemWait s.swept sem f { s.swept with
          disp := { s.disp with
            state := update s.disp.state s.current st
            priority := P, resumeTime := M, ready := R, timed := T }
          prioPassedTo := PP
          queue := Q
          blockedOn := s.kept none B
          sem := update s.sem sem { s.sem sem with count := (s.sem sem).count - 1 }
          stack := update s.swept.stack s.current (f :: s.swept.stack s.current) } := by
        refine .block (s := s.swept) magic count other frame state wiped ?_ prio
        intro b hb _ ht
        exact queue b hb (fun res => absurd res (by omega)) ht
      rw [← stack] at moves
      exact moves
  | @late T hf magic count =>
      let s₂ : System n := { ((s.setBlockedOn s.current (some (.sem sem))).setResumeTime T).setCount
        sem ((s.sem sem).count - 1) with queue := s.queue.reset (.queue s.current) }
      have moves := SemWait.late (s := s.swept) (T := T) hf magic count
      have blocked := swept_setBlockedOn (s := s) (q := some (.sem sem)) (.inl live)
      rw [show s.swept.current = s.current from rfl, ← blocked] at moves
      have rest : (s₂.rtSemWaitUntilRest sem).swept = s₂.swept.rtSemWaitUntilRest sem :=
        swept_rtSemWaitUntilRest live
      rw [show _ = _ from rest]
      exact moves

/-- A signal. -/
theorem Grant.swept {g : System n} (h : Grant s sem g) : Grant s.swept sem g.swept := by
  cases h with
  | nobody none => exact .nobody (s := s.swept) none
  | @first t L T first =>
      have wiped : s.kept none (update s.blockedOn t none) = update s.swept.blockedOn t none :=
        kept_update (.inr rfl)
      have moves := Grant.first (s := s.swept) (L := L) (T := T) first
      rw [← wiped] at moves
      exact moves

/-- Creating and starting tasks. -/
theorem TaskCall.swept (h : TaskCall s op s₁) (starts : s.starts op = true) :
    TaskCall s.swept op s₁.swept := by
  cases h with
  | refuse => exact .refuse (s := s.swept)
  | @init t prio memory free =>
      have same {α : Type} (none : α) (g : Task n → α) :
          (s.initTask t prio).kept none (update g t none) = update (s.kept none g) t none := by
        funext u
        by_cases e : u = t
        · subst e
          simp [kept]
        · simp [kept, lives, initTask, e]
      have swept : ((s.initTask t prio).ret (.int 0)).swept =
          (s.swept.initTask t prio).ret (.int 0) := by
        show { (s.initTask t prio).ret (.int 0) with
          stack := (s.initTask t prio).kept [] (update s.stack t [])
          blockedOn := (s.initTask t prio).kept none (update s.blockedOn t none) } = _
        rw [same, same]
        rfl
      rw [swept]
      exact .init (s := s.swept) free
  | resumeLater depth => exact .resumeLater (s := s.swept) depth
  | resume magic depth => exact .resume (s := s.swept) magic depth
  | _ => cases starts

/-- A deleted task is blocked nowhere. -/
theorem swept_deleted (ht : t ≠ rtLinuxTask) :
    (s.deleted t R T).swept.stack = update s.swept.stack t [] ∧
      (s.deleted t R T).swept.blockedOn = update s.swept.blockedOn t none := by
  obtain ⟨S, e⟩ := Linked.leaveQueue_eq s t
  have same {α : Type} (none : α) (g : Task n → α) :
      (s.deleted t R T).kept none g = update (s.kept none g) t none := by
    funext u
    by_cases hu : u = t
    · subst hu
      simp [kept, lives, deleted, ht]
    · simp [kept, lives, deleted, hu]
  constructor
  · show (s.deleted t R T).kept [] (s.leaveQueue t).stack = _
    rw [same, e]
    rfl
  · show (s.deleted t R T).kept none (s.leaveQueue t).blockedOn = _
    rw [same, e]
    rfl

/-! ## The steps -/

/-- The events of the runs. -/
def ofCounting (s : System n) : Event n → Bool
  | .call (.semWait _) _ | .call (.semWaitIf _) _ | .call (.semWaitUntil _ _) _
  | .call (.semSignal _) _ | .call (.taskDelete _) _ => true
  | .call (.typedSemInit _ value type) _ =>
      type &&& 3 ≠ RES_SEM && (type &&& 3 ≠ CNT_SEM || 0 ≤ value)
  | .call op _ => s.starts op
  | .resume _ | .timer _ => true

/-- The task is blocked on a counting semaphore. -/
def countedIn (s : System n) (t : Task n) : Bool :=
  match s.blockedOn t with
  | some (.sem sem) => (s.sem sem).type = 0
  | _ => false

/-- No task is deleted that has timed out on a counting semaphore and has not run
since, and no timed wait returns a count that is `SEM_TIMOUT`. -/
def settlesWaits (s : System n) : Event n → Bool
  | .call (.taskDelete t) _ => !s.disp.magic t || (s.state t).semaphore || !s.countedIn t
  | .call (.semWaitUntil sem _) _ => (s.sem sem).count ≠ SEM_TIMOUT
  | .resume _ =>
      match s.stack s.current with
      | [.rtSemWaitUntil sem] =>
          (s.blockedOn s.current).isSome || (s.sem sem).count ≠ SEM_TIMOUT
      | _ => true
  | _ => true

/-- The steps of a run of the semaphore services. -/
inductive CountStep (s : System n) : Event n → System n → Prop
  | wait {op : Op n} {sem : SemId} {f : Frame n} {c : Clock} {s₁ s' : System n}
      (idle : s.stack s.current = []) (waits : op.WaitsFor sem f) (moves : SemWait s sem f s₁)
      (hs : Scheduled False c s₁ s') : CountStep s (.call op c) s'
  | waitIf {sem : SemId} {c : Clock} (idle : s.stack s.current = [])
      : CountStep s (.call (.semWaitIf sem) c) (s.rtSemWaitIf sem)
  | signal {sem : SemId} {c : Clock} {s₁ s' : System n} (idle : s.stack s.current = [])
      (moves : SemSignal s sem s₁) (hs : Scheduled False c s₁ s') :
      CountStep s (.call (.semSignal sem) c) s'
  | init {sem : SemId} {value : Int} {type : Nat} {c : Clock} (idle : s.stack s.current = [])
      (unused : (s.sem sem).magic = false) (kind : type &&& 3 ≠ RES_SEM)
      (positive : type &&& 3 = CNT_SEM → 0 ≤ value) :
      CountStep s (.call (.typedSemInit sem value type) c) (s.rtTypedSemInit sem value type)
  | start {op : Op n} {c : Clock} {s₁ s' : System n} (idle : s.stack s.current = [])
      (starts : s.starts op = true) (moves : TaskCall s op s₁) (hs : Scheduled False c s₁ s') :
      CountStep s (.call op c) s'
  | delete {t : Task n} {c : Clock} {s₁ s' : System n} (idle : s.stack s.current = [])
      (moves : TaskCall s (.taskDelete t) s₁) (hs : Scheduled False c s₁ s') :
      CountStep s (.call (.taskDelete t) c) s'
  | resume {f : Frame n} {c : Clock} {s' : System n} (stack : s.stack s.current = [f])
      (waits : f.semaphore = true) (goes : s.pop.proceed c f = some s') :
      CountStep s (.resume c) s'
  | timer {c : Clock} {d : Dispatcher n} (idle : s.stack s.current = [])
      (woken : s.disp.Woken (s.disp.handlerTime c) d) :
      CountStep s (.timer c) { s with disp := d }

/-- What holds of the tasks in a run of the semaphore services. -/
structure Counting (s : System n) : Prop where
  ok : Ok False s
  waits : Waits True s.swept
  frames : ∀ t, ∀ f ∈ s.swept.stack t, f.semaphore = true
  free : ∀ t, s.owndres t = 0
  kinds : ∀ sem, (s.sem sem).type ≤ 0

namespace Counting

variable (h : Counting s)
include h

/-- The current task has a structure. -/
theorem live : s.lives s.current = true := by
  by_cases e : s.current = rtLinuxTask
  · simp [lives, e]
  · have running : s.disp.state s.current = READY := h.ok.running
    have magic := h.ok.lists.magic e (by rw [running]; decide)
    simp [lives, magic]

/-- A task on a queue is in a wait for a semaphore. -/
theorem waiter {q : Queue n} (waits : s.swept.waitsOn t = some q) :
    ∃ f sem, q = .sem sem ∧ s.swept.stack t = [f] ∧ f.aim = .semaphore sem ∧
      (s.state t = waiting SEMAPHORE f.timed ∨ s.state t = READY ∧ f.timed = true) := by
  obtain ⟨busy, blocked⟩ := waitsOn_some waits
  cases stack : s.swept.stack t with
  | nil => exact absurd stack busy
  | cons f fs =>
      have phase := h.waits.phased t
      rw [stack] at phase
      obtain rfl := phase.single
      obtain ⟨sem, aim⟩ := Frame.semaphore_aim (h.frames t f (by simp [stack]))
      rcases phase.of_waiter aim with ⟨clear, -⟩ | ⟨queued, state⟩
      · rw [blocked] at clear
        cases clear
      · rw [blocked] at queued
        cases queued
        exact ⟨f, sem, rfl, rfl, aim, state⟩

/-- What a live task waits on is its `blocked_on`. -/
theorem waitsOn (live : s.lives t = true) : s.swept.waitsOn t = s.blockedOn t := by
  rw [h.waits.phased.waitsOn_eq, swept_blockedOn live]

/-- A task leaves its queue. -/
theorem left (live : s.lives t = true) :
    OnQueues (s.leaveQueue t).queue (update s.swept.waitsOn t none) := by
  obtain ⟨S, e⟩ := Linked.leaveQueue_eq s t
  rw [e]
  have waits := h.waitsOn live
  cases blocked : s.blockedOn t with
  | none =>
      rw [blocked] at waits
      rw [waitsOn_stays waits]
      exact h.waits.queues
  | some q =>
      rw [blocked] at waits
      exact h.waits.queues.dequeue waits

/-- Nobody is queued on a task. -/
theorem alone (live : s.lives t = true) : Linked.Alone (s.leaveQueue t).queue t := by
  have sems : ∀ u q, update s.swept.waitsOn t none u = some q → ∃ sem, q = .sem sem := by
    intro u q hu
    by_cases e : u = t
    · rw [e, update_self] at hu
      cases hu
    · rw [update_of_ne e] at hu
      obtain ⟨f, sem, rfl, -⟩ := h.waiter hu
      exact ⟨sem, rfl⟩
  constructor
  · refine ((h.left live).of_empty fun u hu => ?_).1
    obtain ⟨sem, e⟩ := sems u (.msgQueue t) hu
    cases e
  · refine ((h.left live).of_empty fun u hu => ?_).1
    obtain ⟨sem, e⟩ := sems u (.retQueue t) hu
    cases e

/-- A task that is blocked with a time is alive. -/
theorem delayed (delayed : (s.state t).delayed = true) : s.lives t = true := by
  by_cases e : t = rtLinuxTask
  · simp [lives, e]
  · have magic := h.ok.lists.magic e fun dead => by
      rw [state, dead] at delayed
      cases delayed
    simp [lives, magic]

theorem safe (guard : s.ofCounting e = true) : s.SafeEvent False e := by
  cases e with
  | call op c =>
      cases op with
      | taskResume u =>
          intro _
          have fresh : s.state u = SUSPENDED.set READY := by simpa [ofCounting, starts] using guard
          rw [fresh]
          exact ⟨by decide, rfl⟩
      | taskDelete u =>
          intro delayed
          exact h.alone (h.delayed delayed)
      | taskMakePeriodicRelativeNs | taskMakePeriodic | setResumeTime | schedLock | schedUnlock
      | semDelete => simp [ofCounting, starts] at guard
      | _ => trivial
  | resume c => trivial
  | timer c => trivial

/-- The frames of the semaphore services run with interrupts disabled. -/
theorem idle (ready : s.interruptible = true) : s.stack s.current = [] := by
  cases stack : s.stack s.current with
  | nil => rfl
  | cons f fs =>
      have waits := h.frames s.current f (by simp [swept_stack h.live, stack])
      simp only [interruptible, stack, List.head?_cons, Option.all_some] at ready
      cases f <;> simp_all [Frame.semaphore, Frame.cli]

theorem cases (guard : s.ofCounting e = true) (stepped : step e s = some s') :
    CountStep s e s' := by
  cases e with
  | call op c =>
      obtain ⟨idle, admits, called⟩ := step_call stepped
      have hc := admits_waits admits
      cases op with
      | semWait sem =>
          obtain ⟨s₁, moves, hs⟩ := h.ok.rtSemWait_moves (hc rfl) s' called
          exact .wait idle .semWait moves hs
      | semWaitUntil sem time =>
          obtain ⟨s₁, moves, hs⟩ := h.ok.rtSemWaitUntil_moves (hc rfl) s' called
          exact .wait idle .semWaitUntil moves hs
      | semWaitIf sem =>
          cases called
          exact .waitIf idle
      | semSignal sem =>
          obtain ⟨s₁, moves, hs⟩ := h.ok.rtSemSignal_moves s' called
          exact .signal idle moves hs
      | typedSemInit sem value type =>
          cases called
          have unused : (s.sem sem).magic = false := by
            cases sem with
            | user i => simpa [System.admits] using admits
            | sndsem b | rcvsem b => cases admits
          have kind : type &&& 3 ≠ RES_SEM ∧ (type &&& 3 = CNT_SEM → 0 ≤ value) := by
            simp only [ofCounting, ne_eq, decide_not, Bool.and_eq_true, Bool.not_eq_eq_eq_not,
              Bool.not_true, decide_eq_false_iff_not, Bool.or_eq_true, decide_eq_true_eq] at guard
            exact ⟨guard.1, fun e => guard.2.resolve_left fun hne => hne e⟩
          exact .init idle unused kind.1 kind.2
      | taskInit t prio memory =>
          have ok : Ok False s' := h.ok.service admits trivial s' called
          exact .start idle rfl (Ok.rtTaskInit_moves s' called) ok.stays
      | taskResume t =>
          obtain ⟨s₁, moves, hs⟩ := h.ok.rtTaskResume_moves (h.safe (e := .call (.taskResume t) c) guard) s' called
          exact .start idle guard moves hs
      | taskDelete t =>
          have alone : s.disp.magic t = true → Linked.Alone (s.leaveQueue t).queue t :=
            fun magic => h.alone (by simp [lives, magic])
          obtain ⟨s₁, moves, hs⟩ := h.ok.rtTaskDelete_moves alone s' called
          exact .delete idle moves hs
      | _ => simp [ofCounting, starts] at guard
  | resume c =>
      obtain ⟨f, fs, stack, goes⟩ := step_resume stepped
      have phase := h.waits.phased s.current
      rw [swept_stack h.live, stack] at phase
      obtain rfl := phase.single
      exact .resume stack (h.frames s.current f (by simp [swept_stack h.live, stack])) goes
  | timer c =>
      obtain ⟨ready, d, handled, rfl⟩ := step_timer stepped
      exact .timer (h.idle ready) (h.ok.lists.rtTimerHandler c d handled).2.1

/-- What a service has to keep besides the waits. -/
theorem of_waits (hs : Scheduled False c s₁ s') (waits : Waits True s₁.swept)
    (stack : ∀ t, ∀ f ∈ s₁.swept.stack t, f ∈ s.swept.stack t ∨ f.semaphore = true)
    (free : ∀ t, s₁.owndres t = 0) (kinds : ∀ sem, (s₁.sem sem).type ≤ 0) : Counting s' := by
  obtain ⟨d, rfl, woken⟩ := hs.woken
  have swept := swept_woken woken
  refine ⟨hs.ok, ?_, fun t f hf => ?_, free, kinds⟩
  · rw [swept]
    exact waits.woken woken
  · rw [swept] at hf
    exact (stack t f hf).elim (h.frames t f) id

end Counting

/-- A task that leaves its queue while it waits for a semaphore gives its place back. -/
theorem leaveQueue_sem (s : System n) (t : Task n) : (s.leaveQueue t).sem = s.sem ∧
      (∀ sem, s.blockedOn t = some (.sem sem) → (s.state t).semaphore = false) ∨
    ∃ sem, s.blockedOn t = some (.sem sem) ∧ (s.leaveQueue t).sem = update s.sem sem { s.sem sem with
      count := if (s.sem sem).type = 0 then (s.sem sem).count + 1 else 1 } := by
  unfold System.leaveQueue
  split
  next off => exact .inl ⟨rfl, fun sem queued => by cases off.symm.trans queued⟩
  next q blocked =>
    dsimp only
    split
    next sem =>
      split
      next waits => exact .inr ⟨sem, blocked, rfl⟩
      next woken => exact .inl ⟨rfl, fun _ _ => Bool.eq_false_of_not_eq_true woken⟩
    next other => exact .inl ⟨rfl, fun sem queued => absurd (Option.some.inj (blocked.symm.trans queued)) (other sem)⟩

/-- A change of a semaphore that keeps its type. -/
theorem type_update {S : SemId → Sem n} {v : Sem n} (hv : v.type = (S sem).type)
    (sem' : SemId) : (update S sem v sem').type = (S sem').type := by
  by_cases e : sem' = sem
  · subst e
    rw [update_self, hv]
  · rw [update_of_ne e]

/-- A semaphore without an owner is taken. -/
theorem takeSem_plain (kind : (s.sem sem).type ≤ 0) : s.takeSem sem count = s.ret (.int count) := by
  rw [takeSem, if_neg (Int.not_lt.mpr kind)]

theorem rtSemWaitIf_plain (kind : (s.sem sem).type ≤ 0) : s.rtSemWaitIf sem =
    if (s.sem sem).magic = true ∧ 0 < (s.sem sem).count then
      (s.setCount sem ((s.sem sem).count - 1)).ret (.int (s.sem sem).count)
    else s.ret (.int (if (s.sem sem).magic then (s.sem sem).count else SEM_ERR)) := by
  have plain : ¬((s.sem sem).type > 0 ∧ (s.sem sem).owndby = some s.current) :=
    fun h => absurd kind (Int.not_le.mpr h.1)
  unfold rtSemWaitIf
  by_cases magic : (s.sem sem).magic = true
  · by_cases count : 0 < (s.sem sem).count
    · simp [magic, count, plain, takeSem_plain kind]
      rfl
    · simp [magic, count]
  · simp [magic]

/-- A wait for a semaphore without an owner writes to the semaphore's count only. -/
theorem SemWait.keeps (moves : SemWait s sem f s₁) (kind : (s.sem sem).type ≤ 0) :
    s₁.owndres = s.owndres ∧ (∀ sem', (s₁.sem sem').type = (s.sem sem').type) ∧
      (s₁.stack = s.stack ∨ s₁.stack = update s.stack s.current (f :: s.stack s.current) ∧
        s₁.blockedOn = update s.blockedOn s.current (some (.sem sem))) := by
  cases moves with
  | refuse => exact ⟨rfl, fun _ => rfl, .inl rfl⟩
  | nest count type => omega
  | take =>
      have same : ∀ sem', ((s.setCount sem ((s.sem sem).count - 1)).sem sem').type =
          (s.sem sem').type := type_update rfl
      rw [takeSem_plain ((same sem).trans_le kind)]
      exact ⟨rfl, same, .inl rfl⟩
  | block magic count other frame state blocked =>
      exact ⟨rfl, type_update rfl, .inr ⟨rfl, blocked⟩⟩
  | @late T hf magic count =>
      have live : ({ ((s.setBlockedOn s.current (some (.sem sem))).setResumeTime T).setCount sem
          ((s.sem sem).count - 1) with queue := s.queue.reset (.queue s.current) }.sem sem).magic =
          true := (magic_update (by rfl) sem).trans magic
      rw [Waits.rtSemWaitUntilRest_timedOut live (q := .sem sem) (update_self _ _ _)]
      refine ⟨rfl, fun sem' => ?_, .inl rfl⟩
      exact (type_update (by rfl) sem').trans (type_update (by rfl) sem')

namespace Counting

variable {v : Ret n} (h : Counting s)
include h

theorem wait (idle : s.stack s.current = []) (waits : op.WaitsFor sem f)
    (moves : SemWait s sem f s₁) (hs : Scheduled False c s₁ s') : Counting s' := by
  have kind := h.kinds sem
  have swept := moves.swept h.live kind
  have idle : s.swept.stack s.swept.current = [] := (swept_stack h.live).trans idle
  have running : s.swept.disp.state s.swept.current = READY := h.ok.running
  obtain ⟨free, kinds, -⟩ := moves.keeps kind
  refine h.of_waits hs ?_ (fun t f' hf => ?_) (fun t => ?_) fun sem' => ?_
  · exact h.waits.semWait running idle swept fun _ res => absurd kind (Int.not_le.mpr res)
  · rcases (swept.keeps kind).2.2 with same | ⟨pushed, -⟩
    · rw [same] at hf
      exact .inl hf
    · rw [pushed, idle] at hf
      by_cases e : t = s.current
      · have top : f' ∈ update s.swept.stack s.current [f] t := hf
        rw [e, update_self, List.mem_singleton] at top
        rw [top]
        cases waits <;> exact .inr rfl
      · have other : f' ∈ update s.swept.stack s.current [f] t := hf
        rw [update_of_ne e] at other
        exact .inl other
  · rw [free]
    exact h.free t
  · rw [kinds]
    exact h.kinds sem'

/-- A step that writes a semaphore's count and what the caller returns. -/
theorem counts (hs : Scheduled False c ((s.setCount sem count).ret v) s') : Counting s' := by
  refine h.of_waits hs ?_ (fun t f hf => .inl hf) h.free fun sem' => ?_
  · refine h.waits.same h.waits.phased rfl (fun _ => rfl) ⟨fun sem' live => ?_, fun _ live => live⟩
    exact (magic_update (by rfl) sem').trans live
  · exact (type_update (by rfl) sem').trans_le (h.kinds sem')

/-- A step that writes what the caller returns. -/
theorem returns (hs : Scheduled False c (s.ret v) s') : Counting s' :=
  h.of_waits hs (h.waits.same h.waits.phased rfl (fun _ => rfl) ⟨fun _ live => live, fun _ live => live⟩)
    (fun _ _ hf => .inl hf) h.free h.kinds

theorem waitIf (ok : Ok False (s.rtSemWaitIf sem)) : Counting (s.rtSemWaitIf sem) := by
  have stays := ok.stays (c := {})
  rw [rtSemWaitIf_plain (h.kinds sem)] at stays ⊢
  by_cases free : (s.sem sem).magic = true ∧ 0 < (s.sem sem).count
  · rw [if_pos free] at stays ⊢
    exact h.counts stays
  · rw [if_neg free] at stays ⊢
    exact h.returns stays

theorem signal (moves : SemSignal s sem s₁) (hs : Scheduled False c s₁ s') : Counting s' := by
  have kind := h.kinds sem
  cases moves with
  | refuse => exact h.returns hs
  | unnest magic type => omega
  | resource magic type => omega
  | plain magic type grant =>
      have waits := h.waits.grant grant.swept
      refine h.of_waits hs waits ?_ ?_ ?_
      · cases grant <;> exact fun t f hf => .inl hf
      · cases grant <;> exact h.free
      · cases grant <;> exact fun sem' => (type_update (by rfl) sem').trans_le (h.kinds sem')

theorem init {value : Int} {type : Nat} (unused : (s.sem sem).magic = false)
    (kind : type &&& 3 ≠ RES_SEM) (ok : Ok False (s.rtTypedSemInit sem value type)) :
    Counting (s.rtTypedSemInit sem value type) := by
  refine h.of_waits (ok.stays (c := {})) (h.waits.initSem unused) (fun t f hf => .inl hf) h.free
    fun sem' => ?_
  have small : type &&& 3 ≤ 3 := Nat.and_le_right
  show (update s.sem sem (typedSem value type) sem').type ≤ 0
  by_cases e : sem' = sem
  · rw [e, update_self]
    simp only [typedSem, RES_SEM] at kind ⊢
    split <;> omega
  · rw [update_of_ne e]
    exact h.kinds sem'

/-- What is no task has no stack. -/
theorem dead (dead : s.disp.magic t = false) : s.swept.stack t = [] := by
  by_cases e : t = rtLinuxTask
  · have lives : s.lives t = true := by simp [lives, e]
    refine List.eq_nil_iff_forall_not_mem.mpr fun f hf => ?_
    have waits := h.frames t f hf
    rw [swept_stack lives, e] at hf
    have off := h.ok.linux.stack f hf
    cases f <;> simp_all [Frame.semaphore, Frame.waits]
  · exact if_neg (by simp [lives, dead, e])

theorem start (starts : s.starts op = true) (moves : TaskCall s op s₁)
    (hs : Scheduled False c s₁ s') : Counting s' := by
  have swept := moves.swept starts
  have kind : (∀ task, op ≠ .taskSuspend task) ∧ ∀ t, op ≠ .taskDelete t := by
    constructor <;> (intro t e; subst e; cases starts)
  refine h.of_waits hs ?_ (fun t f hf => .inl (starts_stack (s := s.swept) starts swept hf)) ?_ ?_
  · refine h.waits.taskCall swept (fun t e _ => ?_) kind fun t => h.dead
    subst e
    have fresh : s.state t = SUSPENDED.set READY := by simpa [System.starts] using starts
    exact fresh
  · cases moves with
    | @init t prio memory free =>
        intro u
        show update s.owndres t 0 u = 0
        by_cases e : u = t
        · rw [e, update_self]
        · rw [update_of_ne e]
          exact h.free u
    | refuse | resumeLater | resume => exact h.free
    | _ => cases starts
  · cases moves with
    | init | refuse | resumeLater | resume => exact h.kinds
    | _ => cases starts

/-- The waits when a task is deleted. -/
theorem waits_deleted (magic : s.disp.magic t = true) : Waits True (s.deleted t R T).swept := by
  have ht := h.ok.lists.realTime magic
  have live : s.lives t = true := by simp [lives, magic]
  obtain ⟨S, e⟩ := Linked.leaveQueue_eq s t
  obtain ⟨stack, blocked⟩ := swept_deleted (s := s) (R := R) (T := T) ht
  have waits : (s.deleted t R T).swept.waitsOn = update s.swept.waitsOn t none := by
    refine waitsOn_leaves (fun u hu => ?_) (fun u hu => ?_) (.inl ?_)
    · rw [stack, update_of_ne hu]
    · rw [blocked, update_of_ne hu]
    · rw [stack, update_self]
  refine ⟨?_, ?_, fun u q hq => ?_⟩
  · refine h.waits.phased.of_one t (fun u hu => ⟨?_, ?_, ?_, ?_⟩) ?_
    · rw [stack, update_of_ne hu]
    · exact update_of_ne hu _ _
    · rw [blocked, update_of_ne hu]
    · show (s.leaveQueue t).msgQueueTask u = _
      rw [e]
      rfl
    · rw [stack, blocked, update_self, update_self]
      show Phase True t [] (update s.disp.state t DEAD t) none _
      rw [update_self]
      exact .absent
  · exact (h.left live).congr (congrFun waits)
  · rw [waits] at hq
    by_cases hu : u = t
    · rw [hu, update_self] at hq
      cases hq
    · rw [update_of_ne hu] at hq
      obtain ⟨f, sem, rfl, -⟩ := h.waiter hq
      have live : (s.sem sem).magic = true := h.waits.inUse u _ hq
      show ((s.leaveQueue t).sem sem).magic = true
      rcases leaveQueue_sem s t with ⟨same, -⟩ | ⟨sem', -, counted⟩
      · rw [same]
        exact live
      · rw [counted]
        exact (magic_update (by rfl) sem).trans live

theorem delete (moves : TaskCall s (.taskDelete t) s₁) (hs : Scheduled False c s₁ s') :
    Counting s' := by
  cases moves with
  | refuse => exact h.returns hs
  | deleteLater owner => simp [h.free t] at owner
  | @delete t R T magic now =>
      obtain ⟨S, e⟩ := Linked.leaveQueue_eq s t
      obtain ⟨stack, -⟩ := swept_deleted (s := s) (R := R) (T := T) (h.ok.lists.realTime magic)
      have waits := h.waits_deleted (R := R) (T := T) magic
      refine h.of_waits hs ?_ (fun u f hf => .inl ?_) (fun u => ?_) fun sem => ?_
      · exact waits.same waits.phased rfl (fun _ => rfl) ⟨fun _ live => live, fun _ live => live⟩
      · have hf : f ∈ (s.deleted t R T).swept.stack u := hf
        rw [stack] at hf
        by_cases e : u = t
        · rw [e, update_self] at hf
          cases hf
        · rwa [update_of_ne e] at hf
      · show (s.leaveQueue t).owndres u = 0
        rw [e]
        exact h.free u
      · show ((s.leaveQueue t).sem sem).type ≤ 0
        rcases leaveQueue_sem s t with ⟨same, -⟩ | ⟨sem', -, counted⟩
        · rw [same]
          exact h.kinds sem
        · rw [counted]
          exact (type_update (by rfl) sem).trans_le (h.kinds sem)

/-- What the current task finds behind the `rt_schedule` of its wait: it was
granted the semaphore, or its time is out. -/
theorem rest (stack : s.stack s.current = [f]) (waits : f.semaphore = true)
    (goes : s.pop.proceed c f = some s') :
    (s.blockedOn s.current = none ∧ ∃ sem P v, f.aim = .semaphore sem ∧
      s' = { s.pop with prioPassedTo := P, retval := update s.retval s.current v } ∧
      ((s.sem sem).magic = true → v = .int (s.sem sem).count)) ∨
    ∃ sem, f = .rtSemWaitUntil sem ∧ s.blockedOn s.current = some (.sem sem) ∧
      (s.sem sem).magic = true ∧
      s' = ((s.pop.dequeueBlocked s.current).setCount sem (if (s.sem sem).count + 1 > 1 ∧
        (s.sem sem).type ≠ 0 then 1 else (s.sem sem).count + 1)).ret (.int SEM_TIMOUT) := by
  have phase := h.waits.phased s.current
  have running : s.swept.disp.state s.current = READY := h.ok.running
  rw [swept_stack h.live, swept_blockedOn h.live, stack, running] at phase
  obtain ⟨sem, aim⟩ := Frame.semaphore_aim waits
  have kind : (s.pop.sem sem).type ≤ 0 := h.kinds sem
  rcases (phase.of_semaphore aim rfl).2 with clear | ⟨timed, queued⟩
  · have nowhere : (s.pop.blockedOn s.pop.current).isSome = false := by simp [clear]
    refine .inl ⟨clear, sem, ?_⟩
    cases f with
    | rtSemWait sem' =>
        cases aim
        by_cases magic : (s.pop.sem sem).magic = true
        · rw [proceed, rtSemWaitRest, nowhere, magic] at goes
          exact ⟨s.prioPassedTo, _, rfl, (Option.some.inj goes).symm.trans (takeSem_plain kind),
            fun _ => rfl⟩
        · rw [proceed, rtSemWaitRest, if_pos (.inr magic)] at goes
          exact ⟨_, _, rfl, (Option.some.inj goes).symm, fun live => absurd live magic⟩
    | rtSemWaitUntil sem' =>
        cases aim
        by_cases magic : (s.pop.sem sem).magic = true
        · rw [proceed, Waits.rtSemWaitUntilRest_granted magic (by simp [clear])] at goes
          exact ⟨s.prioPassedTo, _, rfl, (Option.some.inj goes).symm.trans (takeSem_plain kind),
            fun _ => rfl⟩
        · rw [proceed, rtSemWaitUntilRest, if_pos magic] at goes
          exact ⟨_, _, rfl, (Option.some.inj goes).symm, fun live => absurd live magic⟩
    | _ => cases waits
  · refine .inr ⟨sem, ?_⟩
    have magic : (s.sem sem).magic = true := by
      refine h.waits.inUse s.current (.sem sem) ?_
      rw [h.waitsOn h.live, queued]
    cases f with
    | rtSemWaitUntil sem' =>
        cases aim
        have out := Waits.rtSemWaitUntilRest_timedOut (s := s.pop) magic queued
        rw [proceed, out] at goes
        exact ⟨rfl, queued, magic, (Option.some.inj goes).symm⟩
    | rtSemWait sem' => cases timed
    | _ => cases waits

theorem resume (ok : Ok False s') (stack : s.stack s.current = [f]) (waits : f.semaphore = true)
    (goes : s.pop.proceed c f = some s') : Counting s' := by
  have stack' : s.swept.stack s.swept.current = [f] := (swept_stack h.live).trans stack
  have running : s.swept.disp.state s.swept.current = READY := h.ok.running
  have live : s.pop.lives s.pop.current = true := h.live
  have swept : Waits True s'.swept := by
    cases f with
    | rtSemWait sem =>
        cases goes
        rw [swept_rtSemWaitRest live, swept_pop h.live]
        exact h.waits.rtSemWaitRest running stack'
    | rtSemWaitUntil sem =>
        cases goes
        rw [swept_rtSemWaitUntilRest live, swept_pop h.live]
        exact h.waits.rtSemWaitUntilRest running stack'
    | _ => cases waits
  have popped : ∀ t, ∀ f' ∈ s.pop.swept.stack t, f' ∈ s.swept.stack t := by
    intro t f' hf
    rw [swept_pop h.live] at hf
    change f' ∈ update s.swept.stack s.swept.current _ t at hf
    by_cases e : t = s.swept.current
    · rw [e, update_self, stack'] at hf
      cases hf
    · rwa [update_of_ne e] at hf
  rcases h.rest stack waits goes with ⟨-, sem, P, v, -, rfl, -⟩ | ⟨sem, -, -, -, rfl⟩
  · exact h.of_waits (ok.stays (c := c)) swept (fun t f' hf => .inl (popped t f' hf)) h.free h.kinds
  · refine h.of_waits (ok.stays (c := c)) swept (fun t f' hf => .inl (popped t f' hf)) h.free ?_
    exact fun sem' => (type_update (by rfl) sem').trans_le (h.kinds sem')

theorem step (guard : s.ofCounting e = true) (stepped : System.step e s = some s') :
    Counting s' := by
  have ok : Ok False s' := h.ok.step (h.safe guard) s' stepped
  cases h.cases guard stepped with
  | wait idle waits moves hs => exact h.wait idle waits moves hs
  | waitIf idle => exact h.waitIf ok
  | signal idle moves hs => exact h.signal moves hs
  | init idle unused kind positive => exact h.init unused kind ok
  | start idle starts moves hs => exact h.start starts moves hs
  | delete idle moves hs => exact h.delete moves hs
  | resume stack waits goes => exact h.resume ok stack waits goes
  | timer idle woken =>
      refine ⟨ok, ?_, fun t f hf => h.frames t f ?_, h.free, h.kinds⟩
      · rw [swept_woken woken]
        exact h.waits.woken woken
      · rw [swept_woken woken] at hf
        exact hf

end Counting

end System

end Rtai.Up
