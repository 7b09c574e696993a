import Rtai.Up.Machine

/-!
# The barrier

`rt_sem_wait_barrier` keeps the number of tasks it waits for in `owndby`, which is
no task pointer then and is read nowhere else, as it makes the semaphore a counting
one.  `Barriers` holds that number beside the scheduler, and which tasks are in
`rt_sem_wait` for the barrier.

A run is one of the whole machine; a step that is no arrival leaves the semaphore
alone.  The test of the source lets every arrival broadcast, so that only a barrier
of one task works: `barrier_rounds`.
-/

namespace Rtai.Up

open Function Rtai.Lib

variable {n : Nat}

/-- The scheduler, and what `owndby` holds of a barrier. -/
structure Barriers (n : Nat) where
  sys : System n
  /-- `(int)sem->owndby`. -/
  owndby : SemId → Int := fun _ => 0
  /-- The tasks in `rt_sem_wait_barrier`. -/
  inside : Task n → Bool := fun _ => false

inductive BarrierEvent (n : Nat) where
  | arrive (c : Clock)
  | other (e : Event n)

namespace Barriers

/-- `if (!sem->owndby)`: the first arrival sets the size. -/
def rtSemBarrierInit (sem : SemId) (b : Barriers n) : Barriers n :=
  if b.owndby sem = 0 then
    let count := (b.sys.sem sem).count
    { b with
      owndby := update b.owndby sem (if count < 1 then 1 else count)
      sys := b.sys.setSem sem { b.sys.sem sem with count := 0, type := 0 } }
  else b

/-- The task returns 0 once it is behind `rt_sem_wait`. -/
def leave (t : Task n) (b : Barriers n) : Barriers n :=
  if b.inside t ∧ b.sys.stack t = [] then
    { b with
      sys := { b.sys with retval := update b.sys.retval t (.int 0) }
      inside := update b.inside t false }
  else b

def rtSemWaitBarrier (sem : SemId) (c : Clock) (b : Barriers n) : Option (Barriers n) :=
  if ¬(b.sys.sem sem).magic then some { b with sys := b.sys.ret (.int SEM_ERR) }
  else
    let b := b.rtSemBarrierInit sem
    if 1 - (b.sys.sem sem).count > b.owndby sem then do
      let s ← b.sys.rtSemWait sem c
      return { b with sys := s, inside := update b.inside b.sys.current true }.leave b.sys.current
    else do
      let s ← b.sys.rtSemBroadcast sem c
      return { b with sys := s }

def step (sem : SemId) : BarrierEvent n → Barriers n → Option (Barriers n)
  | .arrive c, b =>
      if b.sys.stack b.sys.current = [] ∧ b.sys.current ≠ rtLinuxTask then
        b.rtSemWaitBarrier sem c
      else none
  | .other e, b => do
      let s ← System.step e b.sys
      return { b with sys := s }.leave b.sys.current

/-- The step neither changes the semaphore nor who is blocked on it. -/
def Spares (sem : SemId) (s s' : System n) : Prop :=
  s'.sem sem = s.sem sem ∧
    ∀ t, s'.blockedOn t = some (.sem sem) ↔ s.blockedOn t = some (.sem sem)

/-- The semaphore is used only through `rt_sem_wait_barrier`. -/
def OnlyBarrier (sem : SemId) (b : Barriers n) : BarrierEvent n → Prop
  | .arrive _ => True
  | .other e => ∀ s, System.step e b.sys = some s → Spares sem b.sys s

/-- The semaphore is initialised with `count` and not yet used. -/
structure Fresh (sem : SemId) (count : Nat) (b : Barriers n) : Prop where
  magic : (b.sys.sem sem).magic = true
  count : (b.sys.sem sem).count = count
  owndby : b.owndby sem = 0
  nobody : ∀ t, b.sys.blockedOn t ≠ some (.sem sem)
  outside : ∀ t, b.inside t = false

/-! ## Rounds -/

/-- The task that arrives in a step. -/
def arrival (r : Record (Barriers n) (BarrierEvent n)) : Option (Task n) :=
  match r.event with
  | .arrive _ => some r.pre.sys.current
  | .other _ => none

/-- The tasks that have arrived, in order. -/
def arrivals (tr : List (Record (Barriers n) (BarrierEvent n))) : List (Task n) :=
  tr.filterMap arrival

/-- Those of them that have arrived since the last round of `count` was full. -/
def thisRound (count : Nat) (tr : List (Record (Barriers n) (BarrierEvent n))) : List (Task n) :=
  (arrivals tr).drop (count * ((arrivals tr).length / count))

/-- The tasks of the round that is not full are blocked, and no others; the count says how
many they are; and the task that has just arrived is blocked, or has returned when it
filled its round. -/
structure Rounds (sem : SemId) (count : Nat) (tr : List (Record (Barriers n) (BarrierEvent n)))
    (b : Barriers n) : Prop where
  blocked : ∀ t, b.sys.blockedOn t = some (.sem sem) ↔ t ∈ thisRound count tr
  many : arrivals tr ≠ [] → (b.sys.sem sem).count = -((thisRound count tr).length : Int)
  caller : ∀ tr₀ b₀ c, tr = tr₀ ++ [⟨b₀, .arrive c, b⟩] →
    if thisRound count tr = [] then
      b.inside b₀.sys.current = false ∧ b.sys.stack b₀.sys.current = [] ∧
        b.sys.retval b₀.sys.current = .int 0
    else b.inside b₀.sys.current = true

/-! ## A broadcast -/

/-- What a broadcast does to the fields the barrier is about. -/
structure Loosened (s s' : System n) : Prop where
  sem : s'.sem = s.sem
  stack : s'.stack = s.stack
  retval : s'.retval = s.retval
  current : s'.current = s.current
  blocked : ∀ t q, s'.blockedOn t = some q → s.blockedOn t = some q

variable {s s' : System n} {sem : SemId} {c : Clock}

theorem Loosened.refl (s : System n) : Loosened s s :=
  ⟨rfl, rfl, rfl, rfl, fun _ _ h => h⟩

theorem Loosened.trans {s₁ : System n} (h : Loosened s s₁) (h' : Loosened s₁ s') :
    Loosened s s' where
  sem := h'.sem.trans h.sem
  stack := h'.stack.trans h.stack
  retval := h'.retval.trans h.retval
  current := h'.current.trans h.current
  blocked t q e := h.blocked t q (h'.blocked t q e)

theorem release_loosened {t : Task n} {mask : TaskState} :
    Ensures (s.release t mask) fun r => Loosened s r.1 := by
  have current : (s.disp.remTimedTask t).current = s.current := by
    unfold Dispatcher.remTimedTask
    split
    · rfl
    · rfl
  exact Ensures.bind (Dispatcher.makeReady_current (s.disp.remTimedTask t)) fun r e =>
    .some ⟨rfl, rfl, rfl, e.trans current, fun _ _ h => h⟩

theorem dequeueBlocked_loosened (t : Task n) : Loosened s (s.dequeueBlocked t) := by
  refine ⟨rfl, rfl, rfl, rfl, fun u q h => ?_⟩
  have h : update s.blockedOn t none u = some q := h
  rcases eq_or_ne u t with rfl | other
  · rw [update_self] at h
    cases h
  · rwa [update_of_ne other] at h

theorem broadcastLoop_loosened (k : Nat) :
    ∀ (q : QNode n) (s : System n),
      Ensures (s.broadcastLoop sem k q) fun r => Loosened s r.1 := by
  induction k with
  | zero => exact fun _ _ => .none
  | succ k ih =>
      refine fun q s => Ensures.ite (fun _ => .some (.refl s)) fun _ => ?_
      refine Ensures.bind (P := fun _ => True) (fun _ _ => trivial) fun t _ => ?_
      refine Ensures.bind release_loosened fun r released => ?_
      refine Ensures.bind (ih _ r.1) fun r' rest => .some ?_
      exact ((dequeueBlocked_loosened t).trans released).trans rest

theorem scheduleIf_keeps {b : Bool} :
    Ensures (s.scheduleIf b c) fun s' =>
      s'.sem = s.sem ∧ s'.stack = s.stack ∧ s'.retval = s.retval ∧ s'.blockedOn = s.blockedOn :=
  Ensures.ite (fun _ => Ensures.map fun _ _ => ⟨rfl, rfl, rfl, rfl⟩) fun _ =>
    .some ⟨rfl, rfl, rfl, rfl⟩

/-- Nobody is blocked by a broadcast, the count is 0 and the caller returns 0. -/
theorem rtSemBroadcast_spec (magic : (s.sem sem).magic = true) :
    Ensures (s.rtSemBroadcast sem c) fun s' =>
      s'.sem sem = { s.sem sem with count := 0 } ∧ s'.stack = s.stack ∧
        s'.retval s.current = .int 0 ∧
          ∀ t q, s'.blockedOn t = some q → s.blockedOn t = some q := by
  refine Ensures.ite (fun none => absurd magic none) fun _ => ?_
  refine Ensures.bind (broadcastLoop_loosened _ _ s) fun r loosened => ?_
  refine scheduleIf_keeps.mono fun s' ⟨sem', stack, retval, blocked⟩ => ⟨?_, ?_, ?_, ?_⟩
  · rw [sem']
    show update r.1.sem sem { r.1.sem sem with count := 0 } sem = _
    rw [update_self, loosened.sem]
  · exact stack.trans loosened.stack
  · rw [retval]
    show update r.1.retval r.1.current (.int 0) s.current = _
    rw [loosened.current, update_self]
  · rw [blocked]
    exact loosened.blocked

/-! ## Every arrival broadcasts -/

variable {b b' : Barriers n} {count : Nat} {tr : List (Record (Barriers n) (BarrierEvent n))}

/-- Nobody is at the barrier. -/
structure Open (sem : SemId) (b : Barriers n) : Prop where
  magic : (b.sys.sem sem).magic = true
  size : b.owndby sem = 0 ∨ b.owndby sem ≥ 1 ∧ (b.sys.sem sem).count = 0
  nobody : ∀ t, b.sys.blockedOn t ≠ some (.sem sem)
  outside : ∀ t, b.inside t = false

theorem Fresh.isOpen (fresh : b.Fresh sem count) : b.Open sem :=
  ⟨fresh.magic, .inl fresh.owndby, fresh.nobody, fresh.outside⟩

/-- Behind its first `if` the barrier has a size and no count. -/
theorem Open.init (o : b.Open sem) :
    (b.rtSemBarrierInit sem).Open sem ∧ (b.rtSemBarrierInit sem).owndby sem ≥ 1 ∧
      ((b.rtSemBarrierInit sem).sys.sem sem).count = 0 ∧
      (b.rtSemBarrierInit sem).sys.current = b.sys.current ∧
      (b.rtSemBarrierInit sem).sys.stack = b.sys.stack := by
  unfold rtSemBarrierInit
  split
  next first =>
    have sem' : (update b.sys.sem sem { b.sys.sem sem with count := 0, type := 0 } sem) =
        { b.sys.sem sem with count := 0, type := 0 } := update_self ..
    have size : update b.owndby sem
        (if (b.sys.sem sem).count < 1 then 1 else (b.sys.sem sem).count) sem ≥ 1 := by
      rw [update_self]
      split
      · exact Int.le_refl 1
      · omega
    have zero : (update b.sys.sem sem { b.sys.sem sem with count := 0, type := 0 } sem).count = 0 := by
      rw [sem']
    refine ⟨⟨?_, .inr ⟨size, zero⟩, o.nobody, o.outside⟩, size, zero, rfl, rfl⟩
    show (update b.sys.sem sem { b.sys.sem sem with count := 0, type := 0 } sem).magic = true
    rw [sem']
    exact o.magic
  next later =>
    obtain ⟨size, zero⟩ := o.size.resolve_left later
    exact ⟨o, size, zero, rfl, rfl⟩

/-- An arrival passes. -/
theorem Open.arrive (o : b.Open sem) (idle : b.sys.stack b.sys.current = []) :
    Ensures (b.rtSemWaitBarrier sem c) fun b' =>
      b'.Open sem ∧ (b'.sys.sem sem).count = 0 ∧ b'.sys.stack b.sys.current = [] ∧
        b'.sys.retval b.sys.current = .int 0 := by
  obtain ⟨ready, size, zero, current, stack⟩ := o.init
  refine Ensures.ite (fun none => absurd o.magic none) fun _ => Ensures.ite (fun wait => ?_) fun _ => ?_
  · rw [zero] at wait
    omega
  · refine Ensures.bind (rtSemBroadcast_spec ready.magic) fun s' ⟨sem', stack', retval, blocked⟩ =>
      .some ⟨⟨?_, .inr ⟨size, ?_⟩, fun t h => ready.nobody t (blocked t _ h), ready.outside⟩, ?_, ?_, ?_⟩
    · show (s'.sem sem).magic = true
      rw [sem']
      exact ready.magic
    · show (s'.sem sem).count = 0
      rw [sem']
    · show (s'.sem sem).count = 0
      rw [sem']
    · show s'.stack b.sys.current = []
      rw [stack', stack]
      exact idle
    · rw [← current]
      exact retval

/-- Whatever else happens, nobody is at the barrier. -/
theorem Open.other {e : Event n} (o : b.Open sem) (only : b.OnlyBarrier sem (.other e))
    (h : step sem (.other e) b = some b') :
    b'.Open sem ∧ (b'.sys.sem sem).count = (b.sys.sem sem).count := by
  obtain ⟨s, stepped, e⟩ := Option.bind_eq_some_iff.mp h
  obtain ⟨sem', blocked⟩ := only s stepped
  have stays : (Barriers.mk s b.owndby b.inside).leave b.sys.current = ⟨s, b.owndby, b.inside⟩ :=
    if_neg fun h => by rw [o.outside] at h; cases h.1
  have e : ⟨s, b.owndby, b.inside⟩ = b' := stays.symm.trans (Option.some.inj e)
  subst e
  refine ⟨⟨?_, ?_, fun t h => o.nobody t ((blocked t).mp h), o.outside⟩, ?_⟩
  · show (s.sem sem).magic = true
    rw [sem']
    exact o.magic
  · show _ ∨ _ ∧ (s.sem sem).count = 0
    rw [sem']
    exact o.size
  · show (s.sem sem).count = _
    rw [sem']

/-- What a run of arrivals leads to: all of them have passed. -/
structure Passed (sem : SemId) (tr : List (Record (Barriers n) (BarrierEvent n)))
    (b : Barriers n) : Prop where
  isOpen : b.Open sem
  many : arrivals tr ≠ [] → (b.sys.sem sem).count = 0
  caller : ∀ tr₀ b₀ c, tr = tr₀ ++ [⟨b₀, .arrive c, b⟩] →
    b.sys.stack b₀.sys.current = [] ∧ b.sys.retval b₀.sys.current = .int 0

theorem Passed.step {e : BarrierEvent n} (passed : Passed sem tr b) (only : b.OnlyBarrier sem e)
    (h : step sem e b = some b') : Passed sem (tr ++ [⟨b, e, b'⟩]) b' := by
  cases e with
  | arrive c =>
      simp only [Barriers.step] at h
      split at h
      next call =>
        obtain ⟨isOpen, zero, returned⟩ := passed.isOpen.arrive call.1 b' h
        refine ⟨isOpen, fun _ => zero, fun tr₀ b₀ c e => ?_⟩
        obtain ⟨-, e⟩ := List.append_inj' e rfl
        cases e
        exact returned
      next => cases h
  | other e =>
      obtain ⟨isOpen, same⟩ := passed.isOpen.other only h
      refine ⟨isOpen, fun some => ?_, fun tr₀ b₀ c e => ?_⟩
      · rw [same]
        refine passed.many fun none => some ?_
        rw [arrivals, List.filterMap_append]
        exact (List.append_nil _).trans none
      · obtain ⟨-, e⟩ := List.append_inj' e rfl
        cases e

theorem passed {b₀ : Barriers n} (fresh : b₀.Fresh sem count)
    (run : Run (Barriers.step sem) (OnlyBarrier sem) b₀ tr b) : Passed sem tr b :=
  run.history ⟨fresh.isOpen, fun h => absurd rfl h, fun _ _ _ e => by simp at e⟩
    fun passed only h => passed.step only h

/-! ## The sizes that work -/

/-- Task 1 is started and runs. -/
def started : System 1 :=
  (execute System.step (fun _ _ => True)
    [.call (.taskInit 1 5 true) {}, .call (.taskResume 1) {}] (boot 1 {})).getD (boot 1 {})

/-- It initialises the semaphore. -/
def atBarrier (sem : SemId) (count : Nat) : Barriers 1 where
  sys := started.rtTypedSemInit sem count CNT_SEM

theorem started_idle : started.current = 1 ∧ started.stack 1 = [] ∧
    ∀ t, started.blockedOn t = none := by
  decide

theorem atBarrier_fresh (sem : SemId) (count : Nat) : (atBarrier sem count).Fresh sem count := by
  have sem' : (atBarrier sem count).sys.sem sem = System.typedSem count CNT_SEM := update_self ..
  refine ⟨?_, ?_, rfl, fun t h => ?_, fun _ => rfl⟩
  · rw [sem']
    rfl
  · rw [sem']
    rfl
  · have none : (atBarrier sem count).sys.blockedOn t = none := started_idle.2.2 t
    rw [none] at h
    cases h

/-- A broadcast with nobody on the queue. -/
theorem rtSemBroadcast_nobody (magic : (s.sem sem).magic = true)
    (queue : s.queue.next (.head (.sem sem)) = .head (.sem sem)) :
    ∃ s', s.rtSemBroadcast sem c = some s' := by
  have loop : s.broadcastLoop sem (fuel n) (s.queue.next (.head (.sem sem))) = some (s, false) :=
    if_pos queue
  rw [System.rtSemBroadcast, if_neg (not_not.mpr magic), loop]
  exact ⟨_, rfl⟩

/-- The first arrival passes a barrier of any size. -/
theorem atBarrier_arrives (sem : SemId) (count : Nat) :
    ∃ b, step sem (.arrive {}) (atBarrier sem count) = some b := by
  obtain ⟨current, stack, -⟩ := started_idle
  have idle : (atBarrier sem count).sys.stack (atBarrier sem count).sys.current = [] ∧
      (atBarrier sem count).sys.current ≠ rtLinuxTask := by
    show started.stack started.current = [] ∧ started.current ≠ rtLinuxTask
    rw [current]
    exact ⟨stack, by decide⟩
  have fresh := atBarrier_fresh sem count
  obtain ⟨ready, size, zero, -, -⟩ := fresh.isOpen.init
  have test : ¬1 - (((atBarrier sem count).rtSemBarrierInit sem).sys.sem sem).count >
      ((atBarrier sem count).rtSemBarrierInit sem).owndby sem := by
    rw [zero]
    omega
  have queue : ((atBarrier sem count).rtSemBarrierInit sem).sys.queue.next (.head (.sem sem)) =
      .head (.sem sem) := by
    rw [rtSemBarrierInit, if_pos fresh.owndby]
    exact update_self ..
  obtain ⟨s', done⟩ := rtSemBroadcast_nobody (c := {}) ready.magic queue
  rw [step, if_pos idle, rtSemWaitBarrier, if_neg (not_not.mpr fresh.magic), if_neg test, done]
  exact ⟨_, rfl⟩

theorem firstRun (sem : SemId) (count : Nat) {b : Barriers 1}
    (arrives : step sem (.arrive {}) (atBarrier sem count) = some b) :
    Run (step sem) (OnlyBarrier sem) (atBarrier sem count)
      [⟨atBarrier sem count, .arrive {}, b⟩] b := by
  have only : OnlyBarrier sem (atBarrier sem count) (.arrive {}) := trivial
  exact Run.nil.snoc only arrives

/-- The rounds are kept in every run exactly by a barrier of one task. -/
theorem barrier_rounds (sem : SemId) {count : Nat} (positive : 1 ≤ count) :
    (∀ (n : Nat) (b₀ b : Barriers n) (tr : List (Record (Barriers n) (BarrierEvent n))),
      b₀.Fresh sem count → Run (step sem) (OnlyBarrier sem) b₀ tr b → Rounds sem count tr b) ↔
    count = 1 := by
  constructor
  · intro rounds
    obtain ⟨b, arrives⟩ := atBarrier_arrives sem count
    have run := firstRun sem count arrives
    have fresh := atBarrier_fresh sem count
    have blocked := (rounds 1 _ b _ fresh run).blocked (atBarrier sem count).sys.current
    by_contra large
    have first : 1 / count = 0 := Nat.div_eq_of_lt (by omega)
    refine (passed fresh run).isOpen.nobody _ (blocked.mpr ?_)
    show _ ∈ [(atBarrier sem count).sys.current].drop (count * (1 / count))
    rw [first, Nat.mul_zero]
    exact List.mem_cons_self
  · rintro rfl n b₀ b tr fresh run
    have passed := passed fresh run
    have full : thisRound 1 tr = [] := by
      rw [thisRound, Nat.div_one, Nat.one_mul, List.drop_length]
    refine ⟨fun t => ?_, fun some => ?_, fun tr₀ b₀ c e => ?_⟩
    · rw [full]
      exact ⟨fun h => absurd h (passed.isOpen.nobody t), nofun⟩
    · rw [full]
      exact passed.many some
    · rw [if_pos full]
      exact ⟨passed.isOpen.outside _, passed.caller tr₀ b₀ c e⟩

/-- A task passes a barrier of one. -/
theorem barrier_rounds_one :
    ∃ tr b, Run (step (.user 0)) (OnlyBarrier (.user 0)) (atBarrier (.user 0) 1) tr b ∧
      arrivals tr = [1] ∧ Rounds (.user 0) 1 tr b := by
  obtain ⟨b, arrives⟩ := atBarrier_arrives (.user 0) 1
  have run := firstRun (.user 0) 1 arrives
  have fresh := atBarrier_fresh (.user 0) 1
  refine ⟨_, b, run, ?_, (barrier_rounds (.user 0) (Nat.le_refl 1)).mpr rfl 1 _ b _ fresh run⟩
  exact congrArg (fun t => [t]) started_idle.1

/-- The first task at a barrier of two passes. -/
theorem barrier_passed :
    ∃ tr b, Run (step (.user 0)) (OnlyBarrier (.user 0)) (atBarrier (.user 0) 2) tr b ∧
      arrivals tr = [1] ∧ b.sys.stack 1 = [] ∧ b.sys.retval 1 = .int 0 ∧
        ¬Rounds (.user 0) 2 tr b := by
  obtain ⟨b, arrives⟩ := atBarrier_arrives (.user 0) 2
  have run := firstRun (.user 0) 2 arrives
  have past := passed (atBarrier_fresh (.user 0) 2) run
  obtain ⟨stack, retval⟩ := past.caller [] _ _ rfl
  refine ⟨_, b, run, ?_, stack, retval, fun rounds => ?_⟩
  · exact congrArg (fun t => [t]) started_idle.1
  · refine past.isOpen.nobody started.current ((rounds.blocked _).mpr ?_)
    show started.current ∈ [started.current].drop (2 * (1 / 2))
    exact List.mem_cons_self

end Barriers

end Rtai.Up
