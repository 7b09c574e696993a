import Rtai.Up.Counting
import Mathlib.Data.Fintype.Fin

/-!
# Counting semaphores

The count of a counting semaphore is the value it was initialised to and the
signals since, less the waits that were granted and the tasks on its queue.  The
queue is empty while the count is not negative and holds as many tasks as the
count is below 0, and a timed wait returns `SEM_TIMOUT` exactly when it was not
granted.  `Accounts` says so of a run up to a state, and `counting_semaphores`
that it holds in the runs that meet two conditions; in others it does not.

`Effect` is what a step does to the counts and to who waits for what.
-/

namespace Rtai.Up

open Function Rtai.Lib

variable {n : Nat}

namespace CountingSemaphores

/-- The value the event initialises the counting semaphore to. -/
def initialValue (sem : SemId) : Event n → Option Int
  | .call (.typedSemInit S value type) _ =>
      if S = sem ∧ type &&& 3 = CNT_SEM then some value else none
  | _ => none

/-- The event is a signal of the semaphore. -/
def signals (sem : SemId) (s : System n) : Event n → Bool
  | .call (.semSignal S) _ => S = sem && (s.sem sem).magic
  | _ => false

/-- The task the event grants the semaphore to: the caller of a wait that finds
the count positive, or the first task on the queue at a signal. -/
def granted (sem : SemId) (s : System n) : Event n → Option (Task n)
  | .call (.semWait S) _ | .call (.semWaitIf S) _ | .call (.semWaitUntil S _) _ =>
      if S = sem ∧ (s.sem sem).magic = true ∧ 0 < (s.sem sem).count then some s.current else none
  | .call (.semSignal S) _ =>
      if S = sem ∧ (s.sem sem).magic = true then s.taskOf (s.queue.next (.head (.sem sem)))
      else none
  | _ => none

/-- The event is a timed wait for the semaphore. -/
def waitsUntil (sem : SemId) : Event n → Bool
  | .call (.semWaitUntil S _) _ => S = sem
  | _ => false

def isResume : Event n → Bool
  | .resume _ => true
  | _ => false

/-- The tasks on the queue of the semaphore. -/
def Queued (s : System n) (sem : SemId) (ts : List (Task n)) : Prop :=
  Ring s.queue (.head (.sem sem)) (ts.map .queue)

abbrev Trace (n : Nat) := List (Record (System n) (Event n))

/-- The signals of the semaphore in the trace. -/
def signalCount (sem : SemId) (tr : Trace n) : Nat := tr.countP fun r => signals sem r.pre r.event

/-- The waits granted in the trace. -/
def grantCount (sem : SemId) (tr : Trace n) : Nat :=
  tr.countP fun r => (granted sem r.pre r.event).isSome

/-- What is said of a semaphore that was initialised to `v` in the trace. -/
structure Accounts (sem : SemId) (v : Int) (tr : Trace n) (s : System n) : Prop where
  count : ∃ ts, Queued s sem ts ∧
    (s.sem sem).count = v + signalCount sem tr - grantCount sem tr - ts.length ∧
    ((s.sem sem).count ≥ 0 → ts = []) ∧ ((s.sem sem).count < 0 → ts.length = -(s.sem sem).count)
  /-- A timed wait that returns at once. -/
  atOnce : ∀ tr₁ a, tr = tr₁ ++ [a] → waitsUntil sem a.event = true →
    a.post.stack a.pre.current = [] →
    (a.post.retval a.pre.current = .int SEM_TIMOUT ↔
      granted sem a.pre a.event ≠ some a.pre.current)
  /-- A timed wait of a task that blocks in it, and does not run until it
  returns. -/
  later : ∀ tr₁ a tr₂ b, tr = tr₁ ++ a :: tr₂ ++ [b] → waitsUntil sem a.event = true →
    a.post.stack a.pre.current ≠ [] → (∀ r ∈ tr₂, r.pre.current ≠ a.pre.current) →
    isResume b.event = true → b.pre.current = a.pre.current →
    (b.post.retval a.pre.current = .int SEM_TIMOUT ↔
      ∀ r ∈ tr₂, granted sem r.pre r.event ≠ some a.pre.current)

/-- The semaphore was initialised to `v`. -/
def Initialised (sem : SemId) (v : Int) (tr : Trace n) : Prop :=
  ∃ r ∈ tr, initialValue sem r.event = some v

/-! ## What a step does -/

open Rtai.Up.System

/-- A step neither signals nor grants a semaphore that is in use. -/
def Quiet (s : System n) (e : Event n) : Prop :=
  ∀ sem, (s.sem sem).magic = true → signals sem s e = false ∧ granted sem s e = none

/-- What a step does to the counts and to who waits for what. -/
inductive Effect (s : System n) (e : Event n) (s' : System n) : Prop
  | rest (sems : ∀ sem, (s.sem sem).magic = true → s'.sem sem = s.sem sem)
      (waits : s'.swept.waitsOn = s.swept.waitsOn) (quiet : Quiet s e)
  | take {S : SemId} (free : 0 < (s.sem S).count)
      (sems : s'.sem = update s.sem S { s.sem S with count := (s.sem S).count - 1 })
      (waits : s'.swept.waitsOn = s.swept.waitsOn)
      (label : ∀ sem, signals sem s e = false ∧
        granted sem s e = if S = sem then some s.current else none)
  | wait {S : SemId} (taken : (s.sem S).count ≤ 0)
      (sems : s'.sem = update s.sem S { s.sem S with count := (s.sem S).count - 1 })
      (out : s.swept.waitsOn s.current = none)
      (waits : s'.swept.waitsOn = update s.swept.waitsOn s.current (some (.sem S)))
      (quiet : Quiet s e)
  | signal {S : SemId} (nobody : ∀ t, s.swept.waitsOn t ≠ some (.sem S))
      (sems : s'.sem = update s.sem S { s.sem S with count := signalledCount (s.sem S) })
      (waits : s'.swept.waitsOn = s.swept.waitsOn)
      (label : ∀ sem, signals sem s e = decide (S = sem) ∧ granted sem s e = none)
  | grant {S : SemId} {t : Task n} (queued : s.swept.waitsOn t = some (.sem S))
      (sems : s'.sem = update s.sem S { s.sem S with count := signalledCount (s.sem S) })
      (waits : s'.swept.waitsOn = update s.swept.waitsOn t none)
      (label : ∀ sem, signals sem s e = decide (S = sem) ∧
        granted sem s e = if S = sem then some t else none)
  | leave {S : SemId} {t : Task n} {k : Int} (queued : s.swept.waitsOn t = some (.sem S))
      (sems : s'.sem = update s.sem S { s.sem S with count := k })
      (counted : (s.sem S).type = 0 → k = (s.sem S).count + 1)
      (waits : s'.swept.waitsOn = update s.swept.waitsOn t none)
      (gone : t = s.current ∨ s'.swept.stack t = []) (quiet : Quiet s e)

variable {s s₁ s' : System n} {t : Task n} {sem S : SemId} {c : Clock} {f : Frame n}
  {e : Event n} {op : Op n}

theorem Effect.scheduled (hs : Scheduled False c s₁ s') :
    s'.sem = s₁.sem ∧ s'.swept.waitsOn = s₁.swept.waitsOn ∧
      s'.swept.stack = s₁.swept.stack ∧ s'.queue = s₁.queue ∧ s'.retval = s₁.retval ∧
      s'.stack = s₁.stack := by
  obtain ⟨d, rfl, woken⟩ := hs.woken
  have swept := swept_woken woken
  refine ⟨rfl, ?_, ?_, rfl, rfl, rfl⟩
  · rw [swept]
    rfl
  · rw [swept]

/-- What a wait for a semaphore without an owner does. -/
inductive Waited (s : System n) (S : SemId) (f : Frame n) (s' : System n) : Prop
  | refused (dead : (s.sem S).magic = false) (sems : s'.sem = s.sem)
      (waits : s'.swept.waitsOn = s.swept.waitsOn) (swept : s'.swept.stack = s.swept.stack)
      (stack : s'.stack = s.stack)
  | took (magic : (s.sem S).magic = true) (free : 0 < (s.sem S).count)
      (sems : s'.sem = update s.sem S { s.sem S with count := (s.sem S).count - 1 })
      (waits : s'.swept.waitsOn = s.swept.waitsOn) (swept : s'.swept.stack = s.swept.stack)
      (stack : s'.stack = s.stack) (ret : s'.retval s.current = .int (s.sem S).count)
  | blocked (taken : (s.sem S).count ≤ 0)
      (sems : s'.sem = update s.sem S { s.sem S with count := (s.sem S).count - 1 })
      (out : s.swept.waitsOn s.current = none)
      (waits : s'.swept.waitsOn = update s.swept.waitsOn s.current (some (.sem S)))
      (swept : s'.swept.stack = update s.swept.stack s.current [f])
      (stack : s'.stack s.current = [f])
  | late (timed : f = .rtSemWaitUntil S) (taken : (s.sem S).count ≤ 0) (sems : s'.sem = s.sem)
      (waits : s'.swept.waitsOn = s.swept.waitsOn) (swept : s'.swept.stack = s.swept.stack)
      (stack : s'.stack = s.stack) (ret : s'.retval s.current = .int SEM_TIMOUT)

theorem Waited.of_moves (h : s.Counting) (idle : s.stack s.current = [])
    (moves : SemWait s S f s₁) (hs : Scheduled False c s₁ s') : Waited s S f s' := by
  obtain ⟨sems, waitsOn, swept, -, value, stack⟩ := Effect.scheduled hs
  have kind := h.kinds S
  have idle' : s.swept.stack s.current = [] := (swept_stack h.live).trans idle
  cases moves with
  | refuse dead => exact .refused dead sems waitsOn swept stack
  | nest count type => omega
  | take magic count =>
      have plain : ((s.setCount S ((s.sem S).count - 1)).sem S).type ≤ 0 :=
        (type_update (by rfl) S).trans_le kind
      rw [takeSem_plain plain] at sems waitsOn swept value stack
      exact .took magic count sems waitsOn swept stack
        ((congrFun value _).trans (update_self _ _ _))
  | block magic count other frame state blocked queue prio =>
      have pushed : s.kept [] (update s.stack s.current (f :: s.stack s.current)) =
          update s.swept.stack s.current [f] := by
        rw [idle]
        exact kept_update (.inl h.live)
      refine .blocked count sems (waitsOn_idle idle') (waitsOn.trans ?_) (swept.trans pushed) ?_
      · refine waitsOn_blocks (s := s.swept) (fun t ht => ?_) ?_ ?_
        · exact (congrFun pushed t).trans (update_of_ne ht _ _)
        · intro none
          have top := (congrFun pushed s.current).symm.trans none
          rw [update_self] at top
          cases top
        · rw [blocked]
          exact kept_update (.inl h.live)
      · refine (congrFun stack _).trans ((update_self _ _ _).trans ?_)
        rw [idle]
  | @late T hf magic count =>
      let s₂ : System n := { ((s.setBlockedOn s.current (some (.sem S))).setResumeTime T).setCount
        S ((s.sem S).count - 1) with queue := s.queue.reset (.queue s.current) }
      have sem₂ : s₂.sem S = { s.sem S with count := (s.sem S).count - 1 } := update_self _ _ _
      have live : (s₂.sem S).magic = true := by rw [sem₂, magic]
      have out := Waits.rtSemWaitUntilRest_timedOut (s := s₂) live (q := .sem S) (update_self _ _ _)
      have back : (s₂.rtSemWaitUntilRest S).sem = s.sem := by
        rw [out]
        show update s₂.sem S { s₂.sem S with count := if (s₂.sem S).count + 1 > 1 ∧
          (s₂.sem S).type ≠ 0 then 1 else (s₂.sem S).count + 1 } = _
        rw [sem₂]
        have same : (if (s.sem S).count - 1 + 1 > 1 ∧ (s.sem S).type ≠ 0 then 1
            else (s.sem S).count - 1 + 1) = (s.sem S).count := by
          rw [if_neg (by omega)]
          omega
        simp only [same]
        show update (update s.sem S _) S (s.sem S) = _
        rw [update_idem, update_eq_self]
      rw [show s₂.rtSemWaitUntilRest S = _ from out] at waitsOn swept value stack
      refine .late hf count (sems.trans back) (waitsOn.trans ?_) swept stack
        ((congrFun value _).trans (update_self _ _ _))
      refine .trans (b := update s.swept.waitsOn s.current none) (waitsOn_leaves (fun u hu => rfl)
        (fun u hu => ?_) (.inl idle')) (waitsOn_stays (waitsOn_idle idle'))
      show s.kept none (update (update s.blockedOn s.current _) s.current none) u =
        s.kept none s.blockedOn u
      rw [kept, kept, update_of_ne hu, update_of_ne hu]

/-- What a wait signals and grants. -/
theorem waits_label (waits : op.WaitsFor S f) (sem : SemId) :
    signals sem s (.call op c) = false ∧ granted sem s (.call op c) =
      if S = sem ∧ (s.sem sem).magic = true ∧ 0 < (s.sem sem).count then some s.current
      else none := by
  cases waits <;> exact ⟨rfl, rfl⟩

theorem Effect.of_wait (h : s.Counting) (idle : s.stack s.current = []) (waits : op.WaitsFor S f)
    (moves : SemWait s S f s₁) (hs : Scheduled False c s₁ s') :
    Effect s (.call op c) s' := by
  have label := waits_label (s := s) (c := c) waits
  have quiet : ¬((s.sem S).magic = true ∧ 0 < (s.sem S).count) → Quiet s (.call op c) := by
    intro none sem magic
    obtain ⟨signal, grant⟩ := label sem
    refine ⟨signal, grant.trans (if_neg fun h => none ?_)⟩
    obtain ⟨rfl, taken⟩ := h
    exact taken
  cases Waited.of_moves h idle moves hs with
  | refused dead sems waitsOn =>
      exact .rest (fun sem _ => congrFun sems sem) waitsOn (quiet (by simp [dead]))
  | took magic free sems waitsOn =>
      refine .take free sems waitsOn fun sem => ⟨(label sem).1, (label sem).2.trans ?_⟩
      by_cases e : S = sem
      · subst e
        simp [magic, free]
      · simp [e]
  | blocked taken sems out waitsOn =>
      exact .wait taken sems out waitsOn (quiet fun h => absurd h.2 (Int.not_lt.mpr taken))
  | late timed taken sems waitsOn =>
      exact .rest (fun sem _ => congrFun sems sem) waitsOn
        (quiet fun h => absurd h.2 (Int.not_lt.mpr taken))

/-- Calls that touch no semaphore in use. -/
theorem Effect.of_quiet (hs : Scheduled False c s₁ s') (sems : s₁.sem = s.sem)
    (waits : s₁.swept.waitsOn = s.swept.waitsOn) (quiet : Quiet s e) : Effect s e s' := by
  obtain ⟨sems', waitsOn, -⟩ := Effect.scheduled hs
  exact .rest (fun sem _ => congrFun (sems'.trans sems) sem) (waitsOn.trans waits) quiet

/-- What a signal does to a semaphore without an owner. -/
inductive Signalled (s : System n) (S : SemId) (s' : System n) : Prop
  | refused (dead : (s.sem S).magic = false) (sems : s'.sem = s.sem)
      (waits : s'.swept.waitsOn = s.swept.waitsOn) (swept : s'.swept.stack = s.swept.stack)
  | nobody (magic : (s.sem S).magic = true)
      (none : s.taskOf (s.queue.next (.head (.sem S))) = none)
      (idle : ∀ t, s.swept.waitsOn t ≠ some (.sem S))
      (sems : s'.sem = update s.sem S { s.sem S with count := signalledCount (s.sem S) })
      (waits : s'.swept.waitsOn = s.swept.waitsOn) (swept : s'.swept.stack = s.swept.stack)
  | first {t : Task n} (magic : (s.sem S).magic = true)
      (first : s.taskOf (s.queue.next (.head (.sem S))) = some t)
      (queued : s.swept.waitsOn t = some (.sem S))
      (sems : s'.sem = update s.sem S { s.sem S with count := signalledCount (s.sem S) })
      (waits : s'.swept.waitsOn = update s.swept.waitsOn t none)
      (swept : s'.swept.stack = s.swept.stack)

theorem Signalled.of_moves (h : s.Counting) (moves : SemSignal s S s₁)
    (hs : Scheduled False c s₁ s') : Signalled s S s' := by
  obtain ⟨sems, waitsOn, swept, -⟩ := Effect.scheduled hs
  have kind := h.kinds S
  cases moves with
  | refuse dead => exact .refused dead sems waitsOn swept
  | unnest magic type => omega
  | resource magic type => omega
  | plain magic type grant =>
      cases grant with
      | nobody none => exact .nobody magic none (h.waits.nobody none) sems waitsOn swept
      | @first t L T first =>
          obtain ⟨blocked, busy⟩ := h.waits.taskOf_sem (s := s.swept) first
          refine .first magic first ((waitsOn_busy busy).trans blocked) sems (waitsOn.trans ?_) swept
          refine waitsOn_leaves (fun u hu => rfl) (fun u hu => ?_) (.inr ?_)
          · show s.kept none (update s.blockedOn t none) u = s.kept none s.blockedOn u
            rw [kept, kept, update_of_ne hu]
          · show s.kept none (update s.blockedOn t none) t = none
            rw [kept, update_self, ite_self]

theorem Effect.of_signal (h : s.Counting) (moves : SemSignal s S s₁)
    (hs : Scheduled False c s₁ s') : Effect s (.call (.semSignal S) c) s' := by
  have label : (s.sem S).magic = true → ∀ sem,
      signals sem s (.call (.semSignal S) c) = decide (S = sem) ∧
        granted sem s (.call (.semSignal S) c) =
          if S = sem then s.taskOf (s.queue.next (.head (.sem S))) else none := by
    intro magic sem
    by_cases e : S = sem
    · subst e
      simp [signals, granted, magic]
    · simp [signals, granted, e]
  cases Signalled.of_moves h moves hs with
  | refused dead sems waits =>
      refine .rest (fun sem _ => congrFun sems sem) waits fun sem live => ?_
      by_cases e : S = sem
      · subst e
        exact absurd (dead.symm.trans live) Bool.false_ne_true
      · simp [signals, granted, e]
  | nobody magic none idle sems waits =>
      refine .signal idle sems waits fun sem => ⟨(label magic sem).1, ?_⟩
      rw [(label magic sem).2, none, ite_self]
  | first magic first queued sems waits =>
      refine .grant queued sems waits fun sem => ?_
      rw [(label magic sem).1, (label magic sem).2, first]
      exact ⟨rfl, rfl⟩

theorem Effect.of_waitIf (h : s.Counting) :
    Effect s (.call (.semWaitIf S) c) (s.rtSemWaitIf S) := by
  rw [rtSemWaitIf_plain (h.kinds S)]
  by_cases free : (s.sem S).magic = true ∧ 0 < (s.sem S).count
  · rw [if_pos free]
    refine .take free.2 rfl rfl fun sem => ⟨rfl, ?_⟩
    by_cases e : S = sem
    · subst e
      simp [granted, free]
    · simp [granted, e]
  · rw [if_neg free]
    refine .rest (fun _ _ => rfl) rfl fun sem magic => ⟨rfl, if_neg fun h => free ?_⟩
    obtain ⟨rfl, taken⟩ := h
    exact taken

theorem Effect.of_init {value : Int} {type : Nat} (unused : (s.sem S).magic = false) :
    Effect s (.call (.typedSemInit S value type) c) (s.rtTypedSemInit S value type) := by
  refine .rest (fun sem magic => update_of_ne ?_ _ _) rfl fun _ _ => ⟨rfl, rfl⟩
  rintro rfl
  exact absurd (unused.symm.trans magic) Bool.false_ne_true

/-- Creating and starting tasks touches no semaphore and no wait. -/
theorem start_keeps (h : s.Counting) (starts : s.starts op = true) (moves : TaskCall s op s₁) :
    s₁.sem = s.sem ∧ s₁.swept.waitsOn = s.swept.waitsOn ∧ s₁.swept.stack = s.swept.stack := by
  cases moves with
  | @init t prio memory free =>
      have same {α : Type} (none : α) (g : Task n → α) {u : Task n} (hu : u ≠ t) :
          (s.initTask t prio).kept none (update g t none) u = s.kept none g u := by
        simp [kept, lives, initTask, hu]
      have empty : (s.initTask t prio).kept [] (update s.stack t []) t = [] := by
        rw [kept, update_self, ite_self]
      refine ⟨rfl, ?_, funext fun u => ?_⟩
      · exact .trans (b := update s.swept.waitsOn t none) (waitsOn_leaves
          (fun u hu => same [] s.stack hu) (fun u hu => same none s.blockedOn hu) (.inl empty))
          (waitsOn_stays (waitsOn_idle (h.dead free)))
      · by_cases hu : u = t
        · rw [hu, h.dead free]
          exact empty
        · exact same [] s.stack hu
  | refuse | resumeLater | resume => exact ⟨rfl, rfl, rfl⟩
  | _ => cases starts

theorem Effect.of_start (h : s.Counting) (starts : s.starts op = true) (moves : TaskCall s op s₁)
    (hs : Scheduled False c s₁ s') : Effect s (.call op c) s' := by
  have quiet : Quiet s (.call op c) := by
    intro sem _
    cases op <;> first | exact ⟨rfl, rfl⟩ | cases starts
  obtain ⟨sems, waits, -⟩ := start_keeps h starts moves
  exact .of_quiet hs sems waits quiet

/-- A deletion takes a waiting task off its queue and gives its place back, if it
still waits. -/
theorem Effect.of_delete (h : s.Counting) (moves : TaskCall s (.taskDelete t) s₁)
    (hs : Scheduled False c s₁ s') (settles : s.settlesWaits (.call (.taskDelete t) c) = true) :
    Effect s (.call (.taskDelete t) c) s' := by
  have quiet : Quiet s (.call (.taskDelete t) c) := fun _ _ => ⟨rfl, rfl⟩
  obtain ⟨sems, waitsOn, stack', -⟩ := Effect.scheduled hs
  cases moves with
  | refuse => exact .of_quiet hs rfl rfl quiet
  | deleteLater owner => simp [h.free t] at owner
  | @delete t R T magic now =>
      have ht := h.ok.lists.realTime magic
      have live : s.lives t = true := by simp [lives, magic]
      obtain ⟨stack, blocked⟩ := swept_deleted (s := s) (R := R) (T := T) ht
      have leaves : s'.swept.waitsOn = update s.swept.waitsOn t none := by
        refine waitsOn.trans (waitsOn_leaves (fun u hu => ?_) (fun u hu => ?_) (.inl ?_))
        · exact (congrFun stack u).trans (update_of_ne hu _ _)
        · exact (congrFun blocked u).trans (update_of_ne hu _ _)
        · exact (congrFun stack t).trans (update_self _ _ _)
      have gone : s'.swept.stack t = [] := by
        rw [stack']
        exact (congrFun stack t).trans (update_self _ _ _)
      have sems : s'.sem = (s.leaveQueue t).sem := sems
      cases queued : s.blockedOn t with
      | none =>
          have same : s.leaveQueue t = s := by rw [leaveQueue, queued]
          refine .rest (fun sem _ => ?_) ?_ quiet
          · rw [sems, same]
          · rw [leaves]
            exact waitsOn_stays ((h.waitsOn live).trans queued)
      | some q =>
          have waits := (h.waitsOn live).trans queued
          obtain ⟨f, sem, rfl, -, -, -⟩ := h.waiter waits
          rcases leaveQueue_sem s t with ⟨same, woken⟩ | ⟨sem', queued', counted⟩
          · refine .leave (k := (s.sem sem).count) waits ?_ (fun type => ?_) leaves (.inr gone) quiet
            · rw [sems, same]
              exact (update_eq_self _ _).symm
            · simp [settlesWaits, magic, woken sem queued, countedIn, queued, type] at settles
          · cases queued.symm.trans queued'
            exact .leave waits (sems.trans counted) (fun type => if_pos type) leaves (.inr gone) quiet

/-- What a task finds behind the `rt_schedule` of its wait. -/
inductive Resumed (s : System n) (f : Frame n) (s' : System n) : Prop
  | granted (clear : s.blockedOn s.current = none) (sems : s'.sem = s.sem)
      (waits : s'.swept.waitsOn = s.swept.waitsOn)
      (swept : s'.swept.stack = update s.swept.stack s.current [])
      (stack : s'.stack s.current = [])
      (ret : ∀ S, f.aim = .semaphore S → (s.sem S).magic = true →
        s'.retval s.current = .int (s.sem S).count)
  | late {S : SemId} {count : Int} (timed : f = .rtSemWaitUntil S)
      (queued : s.blockedOn s.current = some (.sem S))
      (sems : s'.sem = update s.sem S { s.sem S with count := count })
      (counted : count =
        if (s.sem S).count + 1 > 1 ∧ (s.sem S).type ≠ 0 then 1 else (s.sem S).count + 1)
      (waits : s'.swept.waitsOn = update s.swept.waitsOn s.current none)
      (swept : s'.swept.stack = update s.swept.stack s.current [])
      (stack : s'.stack s.current = []) (ret : s'.retval s.current = .int SEM_TIMOUT)

section

variable (h : s.Counting) (stack : s.stack s.current = [f]) (waits : f.semaphore = true)
  (goes : s.pop.proceed c f = some s')
include h stack waits goes

theorem Resumed.of_rest : Resumed s f s' := by
  have popped : s.pop.swept.stack = update s.swept.stack s.current [] := by
    rw [swept_pop h.live]
    show update s.swept.stack s.current (s.swept.stack s.current).tail = _
    rw [swept_stack h.live, stack]
    rfl
  have empty : s.pop.stack s.current = [] := by
    show update s.stack s.current (s.stack s.current).tail s.current = []
    rw [update_self, stack]
    rfl
  have leaves : ∀ {s₁ : System n}, s₁.swept.stack = s.pop.swept.stack →
      (∀ u, u ≠ s.current → s₁.swept.blockedOn u = s.swept.blockedOn u) →
      s₁.swept.waitsOn = update s.swept.waitsOn s.current none := by
    intro s₁ stack₁ blocked
    refine waitsOn_leaves (fun u hu => ?_) blocked (.inl ?_)
    · rw [stack₁, popped, update_of_ne hu]
    · rw [stack₁, popped, update_self]
  rcases h.rest stack waits goes with ⟨clear, S, P, v, aim, rfl, value⟩ | ⟨S, rfl, queued, -, rfl⟩
  · refine .granted clear rfl ((leaves rfl fun u hu => rfl).trans (waitsOn_stays ?_)) popped empty
      fun S' aim' magic => ?_
    · exact (h.waitsOn h.live).trans clear
    · cases aim.symm.trans aim'
      exact (update_self _ _ _).trans (value magic)
  · refine .late rfl queued rfl rfl (leaves rfl fun u hu => ?_) popped empty (update_self _ _ _)
    show s.kept none (update s.blockedOn s.current none) u = s.kept none s.blockedOn u
    rw [kept, kept, update_of_ne hu]

theorem Effect.of_resume : Effect s (.resume c) s' := by
  have quiet : Quiet s (.resume c) := fun _ _ => ⟨rfl, rfl⟩
  cases Resumed.of_rest h stack waits goes with
  | granted clear sems waits => exact .rest (fun sem _ => congrFun sems sem) waits quiet
  | late timed queued sems counted waits =>
      refine .leave ((h.waitsOn h.live).trans queued) sems (fun type => ?_) waits (.inl rfl) quiet
      rw [counted, if_neg fun h => h.2 type]

end

theorem Effect.of_step (h : s.Counting) (settles : s.settlesWaits e = true)
    (step : CountStep s e s') : Effect s e s' := by
  cases step with
  | wait idle waits moves hs => exact .of_wait h idle waits moves hs
  | waitIf idle => exact .of_waitIf h
  | signal idle moves hs => exact .of_signal h moves hs
  | init idle unused kind positive => exact .of_init unused
  | start idle starts moves hs => exact .of_start h starts moves hs
  | delete idle moves hs => exact .of_delete h moves hs settles
  | resume stack waits goes => exact .of_resume h stack waits goes
  | timer idle woken =>
      have swept := swept_woken woken
      refine .rest (fun _ _ => rfl) ?_ fun _ _ => ⟨rfl, rfl⟩
      rw [swept]
      rfl

/-! ## The account -/

/-- The tasks that wait for the semaphore. -/
def waiters (s : System n) (sem : SemId) : Finset (Task n) :=
  Finset.univ.filter fun t => s.swept.waitsOn t = some (.sem sem)

/-- The semaphore as a counter and those who wait. -/
def counter (s : System n) (sem : SemId) : Counter (Task n) where
  count := (s.sem sem).count
  waiters := waiters s sem

theorem mem_waiters : t ∈ waiters s sem ↔ s.swept.waitsOn t = some (.sem sem) := by
  simp [waiters]

theorem waiters_insert (out : s.swept.waitsOn t = none)
    (waits : s'.swept.waitsOn = update s.swept.waitsOn t (some (.sem S))) :
    waiters s' sem = if S = sem then insert t (waiters s sem) else waiters s sem := by
  ext u
  by_cases e : u = t
  · subst e
    by_cases e' : S = sem
    · simp [mem_waiters, waits, e']
    · simp [mem_waiters, waits, out, e']
  · by_cases e' : S = sem <;> simp [mem_waiters, waits, e, e']

theorem waiters_erase (queued : s.swept.waitsOn t = some (.sem S))
    (waits : s'.swept.waitsOn = update s.swept.waitsOn t none) :
    waiters s' sem = if S = sem then (waiters s sem).erase t else waiters s sem := by
  ext u
  by_cases e : u = t
  · subst e
    by_cases e' : S = sem
    · simp [mem_waiters, waits, e']
    · simp [mem_waiters, waits, queued, e']
  · by_cases e' : S = sem <;> simp [mem_waiters, waits, e, e']

/-- A step of the system is a move of each counting semaphore. -/
theorem Effect.move (effect : Effect s e s') (magic : (s.sem sem).magic = true)
    (type : (s.sem sem).type = 0) :
    (s'.sem sem).magic = true ∧ (s'.sem sem).type = 0 ∧
      (counter s sem).Move (signals sem s e).toNat (granted sem s e).isSome.toNat
        (counter s' sem) := by
  have other : ∀ {S k}, S ≠ sem → s'.sem = update s.sem S { s.sem S with count := k } →
      s'.sem sem = s.sem sem := by
    intro S k hS sems
    rw [sems, update_of_ne hS.symm]
  have self : ∀ {k}, s'.sem = update s.sem sem { s.sem sem with count := k } →
      s'.sem sem = { s.sem sem with count := k } := by
    intro k sems
    rw [sems, update_self]
  have same : s'.swept.waitsOn = s.swept.waitsOn → waiters s' sem = waiters s sem := by
    intro waits
    rw [waiters, waits, waiters]
  have rest : s'.sem sem = s.sem sem → waiters s' sem = waiters s sem →
      signals sem s e = false → granted sem s e = none →
      (s'.sem sem).magic = true ∧ (s'.sem sem).type = 0 ∧
        (counter s sem).Move (signals sem s e).toNat (granted sem s e).isSome.toNat
          (counter s' sem) := by
    intro sems waits signal grant
    rw [counter, counter, sems, waits, signal, grant]
    exact ⟨magic, type, .rest⟩
  cases effect with
  | rest sems waits quiet =>
      exact rest (sems sem magic) (same waits) (quiet sem magic).1 (quiet sem magic).2
  | @take S free sems waits label =>
      obtain ⟨signal, grant⟩ := label sem
      by_cases e : S = sem
      · subst e
        rw [if_pos rfl] at grant
        rw [counter, counter, self sems, same waits, signal, grant]
        exact ⟨magic, type, .take free⟩
      · rw [if_neg e] at grant
        exact rest (other e sems) (same waits) signal grant
  | @wait S taken sems out waits quiet =>
      obtain ⟨signal, grant⟩ := quiet sem magic
      have more : waiters s' sem = _ := waiters_insert out waits
      by_cases e : S = sem
      · subst e
        rw [if_pos rfl] at more
        rw [counter, counter, self sems, more, signal, grant]
        refine ⟨magic, type, .wait taken ?_⟩
        rw [mem_waiters, out]
        exact (Option.some_ne_none _).symm
      · rw [if_neg e] at more
        exact rest (other e sems) more signal grant
  | @signal S nobody sems waits label =>
      obtain ⟨signal, grant⟩ := label sem
      by_cases e : S = sem
      · subst e
        have count : signalledCount (s.sem S) = (s.sem S).count + 1 := if_pos type
        rw [decide_eq_true rfl] at signal
        rw [counter, counter, self sems, same waits, signal, grant, count]
        refine ⟨magic, type, .signal (Finset.eq_empty_iff_forall_notMem.mpr fun t ht => ?_)⟩
        exact nobody t (mem_waiters.mp ht)
      · rw [decide_eq_false e] at signal
        exact rest (other e sems) (same waits) signal grant
  | @grant S t queued sems waits label =>
      obtain ⟨signal, grant⟩ := label sem
      have less : waiters s' sem = _ := waiters_erase queued waits
      by_cases e : S = sem
      · subst e
        have count : signalledCount (s.sem S) = (s.sem S).count + 1 := if_pos type
        rw [decide_eq_true rfl] at signal
        rw [if_pos rfl] at grant less
        rw [counter, counter, self sems, less, signal, grant, count]
        exact ⟨magic, type, .grant (mem_waiters.mpr queued)⟩
      · rw [decide_eq_false e] at signal
        rw [if_neg e] at grant less
        exact rest (other e sems) less signal grant
  | @leave S t k queued sems counted waits gone quiet =>
      obtain ⟨signal, grant⟩ := quiet sem magic
      have less : waiters s' sem = _ := waiters_erase queued waits
      by_cases e : S = sem
      · subst e
        rw [if_pos rfl] at less
        rw [counter, counter, self sems, less, signal, grant, counted type]
        exact ⟨magic, type, .leave (mem_waiters.mpr queued)⟩
      · rw [if_neg e] at less
        exact rest (other e sems) less signal grant

/-- A semaphore stays in use. -/
theorem Effect.magic (effect : Effect s e s') (magic : (s.sem sem).magic = true) :
    (s'.sem sem).magic = true := by
  cases effect with
  | rest sems => rw [sems sem magic, magic]
  | take free sems | wait taken sems | signal nobody sems | grant queued sems | leave queued sems =>
      rw [sems]
      exact (magic_update (by rfl) sem).trans magic

theorem quiet_unused (unused : (s.sem sem).magic = false) :
    signals sem s e = false ∧ granted sem s e = none := by
  unfold signals granted
  constructor <;> split <;> simp [unused]

theorem Waited.of_step (h : s.Counting) (step : CountStep s (.call op c) s')
    (waits : op.WaitsFor S f) : Waited s S f s' := by
  cases step with
  | wait idle waits' moves hs =>
      cases waits <;> cases waits' <;> exact .of_moves h idle moves hs
  | start idle starts => cases waits <;> cases starts
  | waitIf | signal | init | delete => cases waits

theorem Signalled.of_step (h : s.Counting) (step : CountStep s (.call (.semSignal S) c) s') :
    Signalled s S s' := by
  cases step with
  | wait idle waits => cases waits
  | signal idle moves hs => exact .of_moves h moves hs
  | start idle starts => cases starts

theorem Resumed.of_step (h : s.Counting) (step : CountStep s (.resume c) s') :
    ∃ f, s.stack s.current = [f] ∧ Resumed s f s' := by
  cases step with
  | resume stack waits goes => exact ⟨_, stack, .of_rest h stack waits goes⟩

/-- The other tasks keep their frames or lose them. -/
theorem stack_other (h : s.Counting) (step : CountStep s e s') (other : t ≠ s.current) :
    s'.swept.stack t = s.swept.stack t ∨ s'.swept.stack t = [] := by
  have wiped : ∀ {u : Task n} {S : Task n → List (Frame n)}, S = update s.swept.stack u [] →
      S t = s.swept.stack t ∨ S t = [] := by
    intro u S e
    rw [e]
    by_cases hu : t = u
    · exact .inr (by rw [hu, update_self])
    · exact .inl (update_of_ne hu _ _)
  cases step with
  | @wait op S f c s₁ s' idle waits moves hs =>
      cases Waited.of_moves h idle moves hs with
      | refused _ _ _ swept | took _ _ _ _ swept | late _ _ _ _ swept =>
          exact .inl (congrFun swept t)
      | blocked _ _ _ _ swept => exact .inl ((congrFun swept t).trans (update_of_ne other _ _))
  | @waitIf S c idle =>
      rw [rtSemWaitIf_plain (h.kinds S)]
      split <;> exact .inl rfl
  | @signal S c s₁ s' idle moves hs =>
      cases Signalled.of_moves h moves hs with
      | refused _ _ _ swept | nobody _ _ _ _ _ swept | first _ _ _ _ _ swept =>
          exact .inl (congrFun swept t)
  | init idle unused kind positive => exact .inl rfl
  | @start op c s₁ s' idle starts moves hs =>
      rw [(Effect.scheduled hs).2.2.1, (start_keeps h starts moves).2.2]
      exact .inl rfl
  | @delete u c s₁ s' idle moves hs =>
      rw [(Effect.scheduled hs).2.2.1]
      cases moves with
      | refuse => exact .inl rfl
      | deleteLater owner => simp [h.free u] at owner
      | @delete u R T magic now => exact wiped (swept_deleted (h.ok.lists.realTime magic)).1
  | resume stack waits goes =>
      cases Resumed.of_rest h stack waits goes with
      | granted _ _ _ swept | late _ _ _ _ _ swept => exact wiped swept
  | timer idle woken =>
      rw [swept_woken woken]
      exact .inl rfl

/-- Another task goes on waiting, is granted the semaphore, or loses its frame. -/
theorem Effect.other (effect : Effect s e s') (other : t ≠ s.current)
    (stays : s'.swept.stack t ≠ []) :
    s'.swept.waitsOn t = s.swept.waitsOn t ∧ (∀ sem, granted sem s e ≠ some t) ∨
      ∃ S, s.swept.waitsOn t = some (.sem S) ∧ s'.swept.waitsOn t = none ∧
        ∀ sem, granted sem s e = if S = sem then some t else none := by
  have quiet : Quiet s e → ∀ sem, granted sem s e ≠ some t := by
    intro quiet sem
    cases magic : (s.sem sem).magic with
    | true =>
        rw [(quiet sem magic).2]
        exact (Option.some_ne_none _).symm
    | false =>
        rw [(quiet_unused magic).2]
        exact (Option.some_ne_none _).symm
  cases effect with
  | rest sems waits none => exact .inl ⟨congrFun waits t, quiet none⟩
  | @take S free sems waits label =>
      refine .inl ⟨congrFun waits t, fun sem => ?_⟩
      rw [(label sem).2]
      by_cases e : S = sem <;> simp [e, other.symm]
  | wait taken sems out waits none =>
      refine .inl ⟨?_, quiet none⟩
      rw [waits, update_of_ne other]
  | signal nobody sems waits label =>
      refine .inl ⟨congrFun waits t, fun sem => ?_⟩
      rw [(label sem).2]
      exact (Option.some_ne_none _).symm
  | @grant S u queued sems waits label =>
      by_cases e : t = u
      · subst e
        refine .inr ⟨S, queued, ?_, fun sem => (label sem).2⟩
        rw [waits, update_self]
      · refine .inl ⟨?_, fun sem => ?_⟩
        · rw [waits, update_of_ne e]
        · rw [(label sem).2]
          by_cases e' : S = sem <;> simp [e', Ne.symm e]
  | @leave S u k queued sems counted waits gone none =>
      by_cases e : t = u
      · subst e
        exact absurd (gone.resolve_left other) stays
      · refine .inl ⟨?_, quiet none⟩
        rw [waits, update_of_ne e]

/-! ## A timed wait -/

/-- How a timed wait of `t` stands, called before the steps of the trace. -/
def Pending (sem : SemId) (t : Task n) (tr : Trace n) (s : System n) : Prop :=
  s.swept.stack t = [] ∨ s.swept.stack t = [.rtSemWaitUntil sem] ∧
    (s.swept.waitsOn t = none ∧ (∃ r ∈ tr, granted sem r.pre r.event = some t) ∨
      s.swept.waitsOn t = some (.sem sem) ∧ ∀ r ∈ tr, granted sem r.pre r.event ≠ some t)

theorem Pending.snoc {tr : Trace n} (pending : Pending sem t tr s) (h : s.Counting)
    (step : CountStep s e s') (effect : Effect s e s') (other : t ≠ s.current) :
    Pending sem t (tr ++ [⟨s, e, s'⟩]) s' := by
  by_cases gone : s'.swept.stack t = []
  · exact .inl gone
  have same := (stack_other h step other).resolve_right gone
  rcases pending with idle | ⟨stack, wait⟩
  · exact absurd (same.trans idle) gone
  refine .inr ⟨same.trans stack, ?_⟩
  rcases wait with ⟨clear, r, hr, grant⟩ | ⟨queued, none⟩
  · refine .inl ⟨?_, r, List.mem_append_left _ hr, grant⟩
    rcases effect.other other gone with ⟨waits, -⟩ | ⟨S, -, left, -⟩
    · rw [waits, clear]
    · exact left
  · rcases effect.other other gone with ⟨waits, label⟩ | ⟨S, here, left, label⟩
    · refine .inr ⟨waits.trans queued, fun r hr => ?_⟩
      rcases List.mem_append.mp hr with hr | hr
      · exact none r hr
      · rw [List.mem_singleton] at hr
        rw [hr]
        exact label sem
    · cases queued.symm.trans here
      refine .inl ⟨left, _, List.mem_append_right _ (List.mem_singleton.mpr rfl), ?_⟩
      exact (label sem).trans (if_pos rfl)

/-- The call of a timed wait. -/
theorem waitsUntil_call (step : CountStep s e s') (waits : waitsUntil sem e = true) :
    s.stack s.current = [] ∧ ∃ c time s₁, e = .call (.semWaitUntil sem time) c ∧
      SemWait s sem (.rtSemWaitUntil sem) s₁ ∧ Scheduled False c s₁ s' := by
  cases step with
  | @wait op S f c s₁ s' idle call moves hs =>
      cases call with
      | semWait => cases waits
      | semWaitUntil =>
          obtain rfl : S = sem := by simpa [waitsUntil] using waits
          exact ⟨idle, c, _, s₁, rfl, moves, hs⟩
  | @start op c s₁ s' idle starts moves hs => cases op <;> first | cases waits | cases starts
  | waitIf | signal | init | delete | resume | timer => cases waits

/-- A timed wait that does not return at once. -/
theorem Pending.call (h : s.Counting) (step : CountStep s e s') (waits : waitsUntil sem e = true)
    (blocks : s'.stack s.current ≠ []) : Pending sem s.current [] s' := by
  obtain ⟨idle, c, time, s₁, rfl, moves, hs⟩ := waitsUntil_call step waits
  cases Waited.of_moves h idle moves hs with
  | refused _ _ _ _ stack | took _ _ _ _ _ stack | late _ _ _ _ _ stack =>
      exact absurd ((congrFun stack _).trans idle) blocks
  | blocked taken sems out waitsOn swept =>
      refine .inr ⟨?_, .inr ⟨?_, by simp⟩⟩
      · rw [swept, update_self]
      · rw [waitsOn, update_self]

/-- A timed wait that returns at once. -/
theorem atOnce (h : s.Counting) (step : CountStep s e s') (settles : s.settlesWaits e = true)
    (magic : (s.sem sem).magic = true) (waits : waitsUntil sem e = true)
    (returns : s'.stack s.current = []) :
    s'.retval s.current = .int SEM_TIMOUT ↔ granted sem s e ≠ some s.current := by
  obtain ⟨idle, c, time, s₁, rfl, moves, hs⟩ := waitsUntil_call step waits
  have exact : (s.sem sem).count ≠ SEM_TIMOUT := by simpa [settlesWaits] using settles
  cases Waited.of_moves h idle moves hs with
  | refused dead => exact absurd (dead.symm.trans magic) Bool.false_ne_true
  | took magic free _ _ _ _ value =>
      have grant : granted sem s (.call (.semWaitUntil sem time) c) = some s.current :=
        if_pos ⟨rfl, magic, free⟩
      rw [value, grant]
      exact ⟨fun out => absurd (Ret.int.inj out) exact, fun other => absurd rfl other⟩
  | blocked _ _ _ _ _ stack => cases stack.symm.trans returns
  | late _ taken _ _ _ _ value =>
      have none : granted sem s (.call (.semWaitUntil sem time) c) = none :=
        if_neg fun h => absurd h.2.2 (Int.not_lt.mpr taken)
      rw [value, none]
      exact ⟨fun _ e => Option.some_ne_none _ e.symm, fun _ => rfl⟩

/-- A timed wait that returns when its caller runs again. -/
theorem Pending.returns {tr : Trace n} (pending : Pending sem s.current tr s) (h : s.Counting)
    (step : CountStep s e s') (settles : s.settlesWaits e = true)
    (magic : (s.sem sem).magic = true) (resumes : isResume e = true) :
    s'.retval s.current = .int SEM_TIMOUT ↔
      ∀ r ∈ tr, granted sem r.pre r.event ≠ some s.current := by
  cases step with
  | @resume f c s' stack waits goes =>
      have top : s.swept.stack s.current = [f] := (swept_stack h.live).trans stack
      rcases pending with idle | ⟨timed, wait⟩
      · cases top.symm.trans idle
      cases top.symm.trans timed
      rw [h.waitsOn h.live] at wait
      cases Resumed.of_rest h stack waits goes with
      | granted clear _ _ _ _ value =>
          have exact : (s.sem sem).count ≠ SEM_TIMOUT := by
            simpa [settlesWaits, stack, clear] using settles
          rcases wait with ⟨-, r, hr, grant⟩ | ⟨queued, -⟩
          · constructor
            · intro out
              exact absurd (Ret.int.inj ((value sem rfl magic).symm.trans out)) exact
            · intro none
              exact absurd grant (none r hr)
          · cases clear.symm.trans queued
      | late _ queued _ _ _ _ _ value =>
          rcases wait with ⟨clear, -⟩ | ⟨-, none⟩
          · cases clear.symm.trans queued
          · exact ⟨fun _ => none, fun _ => value⟩
  | start idle starts => cases resumes
  | wait | waitIf | signal | init | delete | timer => cases resumes

/-! ## Runs -/

/-- What holds of the trace of a run and the state it ends in. -/
structure Kept (tr : Trace n) (s : System n) : Prop where
  counting : s.Counting
  unused : ∀ sem, (s.sem sem).magic = false → signalCount sem tr = 0 ∧ grantCount sem tr = 0 ∧
    ∀ v, ¬Initialised sem v tr
  balanced : ∀ sem v, Initialised sem v tr → (s.sem sem).magic = true ∧ (s.sem sem).type = 0 ∧
    (counter s sem).Balanced v (signalCount sem tr) (grantCount sem tr)
  pending : ∀ sem tr₁ a tr₂, tr = tr₁ ++ a :: tr₂ → waitsUntil sem a.event = true →
    a.post.stack a.pre.current ≠ [] → (∀ r ∈ tr₂, r.pre.current ≠ a.pre.current) →
    Pending sem a.pre.current tr₂ s

variable {tr : Trace n} {v : Int}

theorem signalCount_snoc : signalCount sem (tr ++ [⟨s, e, s'⟩]) =
    signalCount sem tr + (signals sem s e).toNat := by
  cases h : signals sem s e <;> simp [signalCount, h]

theorem grantCount_snoc : grantCount sem (tr ++ [⟨s, e, s'⟩]) =
    grantCount sem tr + (granted sem s e).isSome.toNat := by
  cases h : granted sem s e <;> simp [grantCount, h]

/-- A counting semaphore is initialised: it was not in use, so nobody waits. -/
theorem init_spec (h : s.Counting) (step : CountStep s e s')
    (init : initialValue sem e = some v) :
    (s.sem sem).magic = false ∧ (s'.sem sem).magic = true ∧ (s'.sem sem).type = 0 ∧
      (counter s' sem).Balanced v 0 0 := by
  cases step with
  | @init S value type c idle unused kind positive =>
      simp only [initialValue] at init
      split at init
      next counting =>
        obtain ⟨rfl, cnt⟩ := counting
        cases init
        have new : (s.rtTypedSemInit S v type).sem S = typedSem v type := update_self _ _ _
        have zero : (typedSem v type : Sem n).type = 0 ∧ (typedSem v type : Sem n).count = v := by
          simp [typedSem, cnt, CNT_SEM]
        have nobody : waiters (s.rtTypedSemInit S v type) S = ∅ := by
          refine Finset.eq_empty_iff_forall_notMem.mpr fun t ht => ?_
          have live : (s.sem S).magic = true := h.waits.inUse t _ (mem_waiters.mp ht)
          exact absurd (unused.symm.trans live) Bool.false_ne_true
        refine ⟨unused, ?_, ?_, ?_⟩
        · rw [new]
          rfl
        · rw [new, zero.1]
        · rw [counter, new, zero.2, nobody]
          exact .init (positive cnt)
      next => cases init
  | @start op c s₁ s' idle starts moves hs => cases op <;> first | cases init | cases starts
  | wait idle waits => cases waits <;> cases init
  | waitIf | signal | delete | resume | timer => cases init

theorem initialised_snoc (init : Initialised sem v (tr ++ [⟨s, e, s'⟩])) :
    Initialised sem v tr ∨ initialValue sem e = some v := by
  obtain ⟨r, hr, value⟩ := init
  rcases List.mem_append.mp hr with hr | hr
  · exact .inl ⟨r, hr, value⟩
  · rw [List.mem_singleton] at hr
    rw [hr] at value
    exact .inr value

theorem Kept.snoc (kept : Kept tr s) (guard : s.ofCounting e = true)
    (settles : s.settlesWaits e = true) (stepped : step e s = some s') :
    Kept (tr ++ [⟨s, e, s'⟩]) s' := by
  have h := kept.counting
  have step := h.cases guard stepped
  have effect := Effect.of_step h settles step
  refine ⟨h.step guard stepped, fun sem unused => ?_, fun sem v init => ?_, ?_⟩
  · have before : (s.sem sem).magic = false := by
      cases magic : (s.sem sem).magic with
      | false => rfl
      | true => exact absurd (unused.symm.trans (effect.magic magic)) Bool.false_ne_true
    obtain ⟨signal, grant⟩ := quiet_unused (e := e) before
    obtain ⟨signals, grants, none⟩ := kept.unused sem before
    rw [signalCount_snoc, grantCount_snoc, signals, grants, signal, grant]
    refine ⟨rfl, rfl, fun v init => ?_⟩
    rcases initialised_snoc init with old | new
    · exact none v old
    · exact absurd (unused.symm.trans (init_spec h step new).2.1) Bool.false_ne_true
  · rw [signalCount_snoc, grantCount_snoc]
    rcases initialised_snoc init with old | new
    · obtain ⟨magic, type, balanced⟩ := kept.balanced sem v old
      obtain ⟨magic', type', move⟩ := effect.move magic type
      exact ⟨magic', type', move.balanced balanced⟩
    · obtain ⟨before, magic, type, balanced⟩ := init_spec h step new
      obtain ⟨signal, grant⟩ := quiet_unused (e := e) before
      obtain ⟨signals, grants, -⟩ := kept.unused sem before
      rw [signals, grants, signal, grant]
      exact ⟨magic, type, balanced⟩
  · intro sem tr₁ a tr₂ split waits blocks away
    rcases List.eq_nil_or_concat' tr₂ with rfl | ⟨tr₃, r, rfl⟩
    · obtain ⟨-, last⟩ := List.append_inj' split rfl
      cases last
      exact Pending.call h step waits blocks
    · have split' : tr ++ [⟨s, e, s'⟩] = (tr₁ ++ a :: tr₃) ++ [r] := by simpa using split
      obtain ⟨before, last⟩ := List.append_inj' split' rfl
      cases last
      have other : a.pre.current ≠ s.current :=
        (away ⟨s, e, s'⟩ (List.mem_append_right _ (List.mem_singleton.mpr rfl))).symm
      refine Pending.snoc ?_ h step effect other
      exact kept.pending sem tr₁ a tr₃ before waits blocks fun r hr => away r (by simp [hr])

theorem Kept.count (kept : Kept tr s) (init : Initialised sem v tr) : ∃ ts, Queued s sem ts ∧
    (s.sem sem).count = v + signalCount sem tr - grantCount sem tr - ts.length ∧
    ((s.sem sem).count ≥ 0 → ts = []) ∧
      ((s.sem sem).count < 0 → ts.length = -(s.sem sem).count) := by
  obtain ⟨-, -, count, waits⟩ := kept.balanced sem v init
  obtain ⟨ts, ring, nodup, mem⟩ := kept.counting.waits.queues.tasks (.sem sem)
  have card : (waiters s sem).card = ts.length := by
    have same : waiters s sem = ts.toFinset := by
      ext t
      rw [mem_waiters, List.mem_toFinset, mem]
    rw [same, List.toFinset_card_of_nodup nodup]
  simp only [counter, card] at count waits
  refine ⟨ts, ring, count, fun free => ?_, fun taken => ?_⟩
  · refine List.eq_nil_of_length_eq_zero ?_
    omega
  · omega

theorem boot_kept (n : Nat) (timer : Timer) : Kept [] (boot n timer) := by
  have swept : (boot n timer).swept = boot n timer := by
    have none {α : Type} (none : α) : (boot n timer).kept none (fun _ => none) = fun _ => none := by
      funext t
      rw [kept, ite_self]
    rw [System.swept]
    exact congrArg₂ (fun S B => { boot n timer with stack := S, blockedOn := B }) (none []) (none _)
  refine ⟨⟨boot_ok n timer False, ?_, ?_, fun _ => rfl, fun _ => le_refl _⟩, ?_, ?_, ?_⟩
  · rw [swept]
    exact boot_waits n timer True
  · intro t f hf
    rw [swept] at hf
    cases hf
  · refine fun sem _ => ⟨rfl, rfl, fun v init => ?_⟩
    obtain ⟨r, hr, -⟩ := init
    cases hr
  · intro sem v init
    obtain ⟨r, hr, -⟩ := init
    cases hr
  · intro sem tr₁ a tr₂ split
    simp at split

/-- What is said of a semaphore holds after each step. -/
theorem Kept.accounts (kept : Kept tr s) (guard : s.ofCounting e = true)
    (settles : s.settlesWaits e = true) (stepped : step e s = some s')
    (init : Initialised sem v (tr ++ [⟨s, e, s'⟩])) : Accounts sem v (tr ++ [⟨s, e, s'⟩]) s' := by
  have h := kept.counting
  have step := h.cases guard stepped
  refine ⟨(kept.snoc guard settles stepped).count init, ?_, ?_⟩
  · intro tr₁ a split waits returns
    obtain ⟨rfl, last⟩ := List.append_inj' split rfl
    cases last
    rcases initialised_snoc init with old | new
    · exact atOnce h step settles (kept.balanced sem v old).1 waits returns
    · obtain ⟨-, c, time, -, rfl, -⟩ := waitsUntil_call step waits
      cases new
  · intro tr₁ a tr₂ b split waits blocks away resumes same
    obtain ⟨before, last⟩ := List.append_inj' split rfl
    cases last
    have pending := kept.pending sem tr₁ a tr₂ before waits blocks away
    rcases initialised_snoc init with old | new
    · have current : s.current = a.pre.current := same
      rw [← current] at pending ⊢
      exact pending.returns h step settles (kept.balanced sem v old).1 resumes
    · cases e with
      | call op c => cases resumes
      | resume c => cases new
      | timer c => cases resumes

/-- Every counting semaphore is accounted for in a run in which no task is deleted
that has timed out on one and has not run since, and no count is `SEM_TIMOUT` when
a timed wait returns it. -/
theorem counting_semaphores {timer : Timer} {tr : Trace n} {s : System n} {sem : SemId} {v : Int}
    (r : Run System.step (fun s e => s.ofCounting e = true ∧ s.settlesWaits e = true)
      (boot n timer) tr s) (init : Initialised sem v tr) : Accounts sem v tr s := by
  have kept : Kept tr s ∧ ∀ sem v, Initialised sem v tr → Accounts sem v tr s := by
    refine r.history (P := fun tr s => Kept tr s ∧ ∀ sem v, Initialised sem v tr →
      Accounts sem v tr s) ⟨?_, fun sem v init => ?_⟩ fun kept guard stepped => ?_
    · exact boot_kept n timer
    · obtain ⟨r, hr, -⟩ := init
      cases hr
    · exact ⟨kept.1.snoc guard.1 guard.2 stepped,
        fun sem v => kept.1.accounts guard.1 guard.2 stepped⟩
  exact kept.2 sem v init

/-- A timed wait is granted by a signal. -/
theorem counting_semaphores_granted : ∃ tr s,
    Run System.step (fun s e => s.ofCounting e = true ∧ s.settlesWaits e = true)
      (boot 1 { oneshotTimer := true, oneshotRunning := true }) tr s ∧
      signalCount (.user 0) tr = 1 ∧ s.retval 1 = .int 0 ∧ Accounts (.user 0) 0 tr s := by
  let c : Clock := {}
  obtain ⟨tr, s, r, test⟩ := Run.of_records System.step
    (fun s e => s.ofCounting e = true ∧ s.settlesWaits e = true)
    (boot 1 { oneshotTimer := true, oneshotRunning := true })
    [.call (.taskInit 1 10 true) c, .call (.typedSemInit (.user 0) 0 CNT_SEM) c,
      .call (.taskResume 1) c, .call (.semWaitUntil (.user 0) 100) c,
      .call (.semSignal (.user 0)) c, .resume c]
    (fun tr s => tr.any (fun r => initialValue (.user 0) r.event = some 0) ∧
      signalCount (.user 0) tr = 1 ∧ s.retval 1 = .int 0) (by decide +kernel)
  obtain ⟨init, signalled, granted⟩ := of_decide_eq_true test
  obtain ⟨a, ha, value⟩ := List.any_eq_true.mp init
  exact ⟨tr, s, r, signalled, granted, counting_semaphores r ⟨a, ha, of_decide_eq_true value⟩⟩

/-- Without the conditions the count is lost: task 1 has timed out and has not run
when task 2 deletes it.  The count stays below 0, and nobody is on the queue. -/
theorem counting_semaphores_lost :
    ¬∀ (n : Nat) (timer : Timer) (tr : Trace n) (s : System n) (sem : SemId) (v : Int),
      Run System.step (fun s e => s.ofCounting e = true) (boot n timer) tr s →
        Initialised sem v tr → Accounts sem v tr s := by
  intro h
  let c : Clock := {}
  obtain ⟨tr, s, r, test⟩ := Run.of_records System.step (fun s e => s.ofCounting e = true)
    (boot 2 { oneshotTimer := true, oneshotRunning := true })
    [.call (.taskInit 1 10 true) c, .call (.taskInit 2 5 true) c,
      .call (.typedSemInit (.user 0) 0 CNT_SEM) c, .call (.taskResume 1) c,
      .call (.semWaitUntil (.user 0) 100) c, .call (.taskResume 2) c, .timer { sched := 100 },
      .call (.taskDelete 1) { sched := 100 }]
    (fun tr s => tr.any (fun r => initialValue (.user 0) r.event = some 0) ∧
      (s.sem (.user 0)).count = -1 ∧
      s.queue.next (.head (.sem (.user 0))) = .head (.sem (.user 0))) (by decide +kernel)
  obtain ⟨init, count, empty⟩ := of_decide_eq_true test
  obtain ⟨a, ha, value⟩ := List.any_eq_true.mp init
  obtain ⟨⟨ts, ring, -, -, queued⟩, -, -⟩ :=
    h 2 _ tr s (.user 0) 0 r ⟨a, ha, of_decide_eq_true value⟩
  have one := queued (by omega)
  cases ts with
  | nil => simp [count] at one
  | cons t ts =>
      have first := ring.next_head
      rw [empty] at first
      cases first

end CountingSemaphores

end Rtai.Up
