import Rtai.Lib.Run
import Rtai.Lxrt.Links
import Mathlib.Data.Fintype.Basic

/-!
# Condition variables

`rt_cond_wait` is `rt_sem_signal` on the mutex, `rt_sem_wait` on the condition and
`rt_sem_wait` on the mutex, and every other service may come between them.

A signal that finds nobody on the queue is kept by the binary semaphore.  `owed` records
the tasks that were between the first two services then: it is for one of them.
`none_left_asleep` says that a broadcast awakens every task that has released the mutex and
has not been awakened, and a signal at least one of them, in every run in which the
services of the tasks in between come in time.
-/

namespace Rtai.Lxrt.Conditions

open Function Rtai.Lib

/-- The two semaphores. -/
inductive CondSem where
  | cnd
  | mtx
deriving DecidableEq

/-- Where a task is. -/
inductive Phase where
  /-- In no service. -/
  | idle
  /-- In `rt_sem_wait` on the mutex. -/
  | locking
  /-- In `rt_cond_wait`, behind `rt_sem_signal` on the mutex. -/
  | released
  /-- In `rt_cond_wait`, in `rt_sem_wait` on the condition. -/
  | parked
  /-- In `rt_cond_wait`, behind `rt_sem_wait` on the condition. -/
  | awake
  /-- In `rt_cond_wait`, in `rt_sem_wait` on the mutex. -/
  | relocking
deriving DecidableEq

/-- The wait of a task. -/
def Phase.wait : Phase → Option (CondSem × Bool)
  | .locking | .relocking => some (.mtx, false)
  | .parked => some (.cnd, false)
  | .idle | .released | .awake => none

/-- The semaphores and tasks, and the tasks that a kept signal is for. -/
structure State (T : Type) where
  kernel : Kernel CondSem T
  phase : T → Phase
  owed : T → Bool

/-- The services, and a task going on behind `rt_schedule`. -/
inductive Event (T : Type) where
  | lock (self : T)
  | unlock (self : T)
  /-- The three services of `rt_cond_wait`. -/
  | release (self : T)
  | park (self : T)
  | relock (self : T)
  /-- `rt_cond_signal`. -/
  | signal (self : T)
  /-- `rt_cond_broadcast`. -/
  | broadcast (self : T)
  | goOn (self : T)
  | priority (t : T) (p : Int)

namespace State

variable {T : Type}

def waits (s : State T) : T → Option (CondSem × Bool) := Phase.wait ∘ s.phase

/-- The task is in no service and owns the mutex. -/
def Holds (s : State T) (self : T) : Prop :=
  s.phase self = .idle ∧ (s.kernel.sem .mtx).owndby = some self

/-- The task has released the mutex and has not been awakened. -/
def InPosition (s : State T) (t : T) : Prop :=
  s.phase t = .released ∨ s.phase t = .parked ∧ (s.kernel.task t).blockedOn.isSome

/-- The task is ready behind the condition, or to go on there. -/
def Awakened (s : State T) (t : T) : Prop :=
  s.phase t = .awake ∨
    s.phase t = .parked ∧ (s.kernel.task t).blockedOn = none ∧ (s.kernel.task t).Ready

/-- `rt_cond_init` and `rt_mutex_init`, with every task ready and in no service. -/
structure Initial (s : State T) : Prop where
  cnd : s.kernel.sem .cnd = rtTypedSemInit 0 .BIN_SEM
  mtx : s.kernel.sem .mtx = rtTypedSemInit 1 .RES_SEM
  ready : ∀ t, (s.kernel.task t).Ready
  phase : ∀ t, s.phase t = .idle
  owed : ∀ t, s.owed t = false

variable [DecidableEq T]

instance (s : State T) (self : T) : Decidable (s.Holds self) :=
  inferInstanceAs (Decidable (_ ∧ _))

instance (s : State T) (t : T) : Decidable (s.InPosition t) :=
  inferInstanceAs (Decidable (_ ∨ _ ∧ _))

instance (s : State T) (t : T) : Decidable (s.Awakened t) :=
  inferInstanceAs (Decidable (_ ∨ _ ∧ _ ∧ _))

/-- A wait on a semaphore, with the phases for a task that blocks and one that does not. -/
def wait (i : CondSem) (self : T) (blocks passes : Phase) (s : State T) : State T :=
  let (k, r) := s.kernel.waitFor none i self
  { s with kernel := k, phase := update s.phase self (if r = none then blocks else passes) }

/-- A wait on a semaphore behind `rt_schedule`. -/
def waitEnd (i : CondSem) (self : T) (passes : Phase) (s : State T) : State T :=
  { s with
    kernel := (s.kernel.waitForEnd false i self).1
    phase := update s.phase self passes }

end State

variable {T : Type} [DecidableEq T]

def step : Event T → State T → Option (State T)
  | .lock self, s =>
      if s.phase self = .idle then some (s.wait .mtx self .locking .idle) else none
  | .unlock self, s =>
      if s.Holds self then some { s with kernel := s.kernel.rtSemSignal .mtx } else none
  | .release self, s =>
      if s.Holds self then
        some { s with
          kernel := s.kernel.rtSemSignal .mtx, phase := update s.phase self .released }
      else none
  | .park self, s =>
      if s.phase self = .released then
        let s' := s.wait .cnd self .parked .awake
        -- a task that does not block takes the kept signal
        some { s' with owed := if s'.phase self = .parked then s.owed else fun _ => false }
      else none
  | .relock self, s =>
      if s.phase self = .awake then some (s.wait .mtx self .relocking .idle) else none
  | .signal self, s =>
      if s.Holds self then
        some { s with
          kernel := s.kernel.rtSemSignal .cnd
          owed := if (s.kernel.sem .cnd).queue = [] then fun t => s.phase t = .released
            else s.owed }
      else none
  | .broadcast self, s =>
      if s.Holds self then
        some { s with kernel := s.kernel.rtSemBroadcast .cnd, owed := fun _ => false }
      else none
  | .goOn self, s =>
      if (s.kernel.task self).Ready then
        match s.phase self with
        | .locking | .relocking => some (s.waitEnd .mtx self .idle)
        | .parked => some (s.waitEnd .cnd self .awake)
        | _ => none
      else none
  | .priority t p, s => some { s with kernel := s.kernel.changePriority t p }

/-- No broadcast comes while a task is between the first two services of `rt_cond_wait`, no
signal that is kept while another one is kept for such a task, and a kept signal is taken by
a task that it is for. -/
def InTime (s : State T) : Event T → Prop
  | .broadcast _ => ∀ t, s.phase t ≠ .released
  | .signal _ => (s.kernel.sem .cnd).queue = [] → ∀ t, s.owed t = false
  | .park self => (∃ t, s.owed t) → s.owed self
  | _ => True

/-- A broadcast awakens all tasks in position.  A signal awakens one of them, or it is kept
for them apart from any other signal, until it awakens one of them. -/
def Awakens (r : Record (State T) (Event T)) : Prop :=
  (∀ self, r.event = .broadcast self → ∀ t, r.pre.InPosition t → r.post.Awakened t) ∧
  (∀ self, r.event = .signal self → (∃ t, r.pre.InPosition t) →
    (∃ t, r.pre.InPosition t ∧ r.post.Awakened t) ∨
    (∃ t, r.post.owed t) ∧ (∀ t, r.post.owed t → r.pre.InPosition t) ∧ ∀ t, r.pre.owed t = false) ∧
  ((∃ t, r.pre.owed t) → r.post.owed = r.pre.owed ∨
    (∃ t, r.pre.owed t ∧ r.post.Awakened t) ∧ ∀ t, r.post.owed t = false)

/-- The tasks that a kept signal is for are on their way to it, and it is still there. -/
def Reachable (s : State T) : Prop :=
  ∀ t, s.owed t → s.phase t = .released ∧ (s.kernel.sem .cnd).count = 1

/-! ## One step -/

/-- The queues are linked, and a kept signal is there for those that it is for. -/
structure State.Ok (s : State T) : Prop where
  linked : s.kernel.Linked s.waits
  binary : (s.kernel.sem .cnd).type = -1
  reachable : Reachable s

section

variable {s : State T} {self t : T} {i : CondSem} {blocks passes : Phase}
  {k : Kernel CondSem T} {r : Option Int} {e : Event T} {s' : State T}

omit [DecidableEq T] in
theorem State.Initial.ok (h : s.Initial) : s.Ok where
  linked := by
    refine .initial (fun i => ?_) h.ready fun t => ?_
    · cases i with
      | cnd => simp [h.cnd, rtTypedSemInit]
      | mtx => simp [h.mtx, rtTypedSemInit]
    · simp [State.waits, h.phase, Phase.wait]
  binary := by
    rw [h.cnd]
    rfl
  reachable := by
    intro t owed
    cases (h.owed t).symm.trans owed

/-- The phase of one task changes. -/
theorem waits_update (p : Phase) :
    Phase.wait ∘ update s.phase self p = update s.waits self p.wait := comp_update _ _ _ _

/-- A task in position that is parked is on the queue. -/
theorem State.Ok.queued (ok : s.Ok) (position : s.InPosition t) (parked : s.phase t ≠ .released) :
    t ∈ (s.kernel.sem .cnd).queue := by
  obtain ⟨phase, blocked⟩ := position.resolve_left parked
  have inside : s.waits t = some (.cnd, false) := by
    simp [State.waits, phase, Phase.wait]
  exact (ok.linked.still inside blocked).2

omit [DecidableEq T] in
theorem State.Ok.of_queued (ok : s.Ok) (mem : t ∈ (s.kernel.sem .cnd).queue) :
    s.phase t = .parked ∧ s.InPosition t := by
  obtain ⟨inside, blocked⟩ := (ok.linked.queued .cnd t).mp mem
  have parked : s.phase t = .parked := by
    unfold State.waits at inside
    rw [comp_apply] at inside
    cases phase : s.phase t <;> rw [phase] at inside <;> cases inside <;> rfl
  exact ⟨parked, .inr ⟨parked, by rw [blocked]; rfl⟩⟩

/-- A service on the mutex. -/
theorem State.Ok.onMutex (ok : s.Ok) {phase : T → Phase}
    (linked : k.Linked (Phase.wait ∘ phase)) (cnd : k.sem .cnd = s.kernel.sem .cnd)
    (same : ∀ t, s.phase t = .released → phase t = .released) :
    State.Ok { s with kernel := k, phase := phase } where
  linked := linked
  binary := by
    rw [cnd]
    exact ok.binary
  reachable := by
    intro t owed
    obtain ⟨released, count⟩ := ok.reachable t owed
    exact ⟨same t released, by rw [cnd]; exact count⟩

theorem awakens_of_owed {s s' : State T} (e : Event T) (owed : s'.owed = s.owed)
    (signal : ∀ self, e ≠ .signal self) (broadcast : ∀ self, e ≠ .broadcast self) :
    Awakens ⟨s, e, s'⟩ :=
  ⟨fun self same => absurd same (broadcast self), fun self same => absurd same (signal self),
    fun _ => .inl owed⟩

/-- A wait begins. -/
theorem State.Ok.linked_wait (ok : s.Ok) (idle : (s.phase self).wait = none)
    (blocked : blocks.wait = some (i, false)) (passed : passes.wait = none) :
    (s.wait i self blocks passes).kernel.Linked (Phase.wait ∘ (s.wait i self blocks passes).phase) ∧
      s.kernel.Wait none i self (s.wait i self blocks passes).kernel
        (s.kernel.waitFor none i self).2 := by
  have off : self ∉ (s.kernel.sem i).queue := ok.linked.off idle i
  have h := Kernel.waitFor_cases none off
  have linked := ok.linked.waitFor idle h
  refine ⟨?_, h⟩
  unfold State.wait
  dsimp only
  rw [waits_update]
  split
  next none =>
    rw [blocked]
    rwa [if_pos none] at linked
  next some =>
    rw [passed]
    rwa [if_neg some] at linked

theorem State.wait_phase_of_ne (ne : t ≠ self) :
    (s.wait i self blocks passes).phase t = s.phase t := update_of_ne ne _ _

/-- A wait on the mutex by a task that is not released. -/
theorem State.Ok.wait_mtx (ok : s.Ok) (idle : (s.phase self).wait = none)
    (outside : s.phase self ≠ .released) (blocked : blocks.wait = some (.mtx, false))
    (passed : passes.wait = none) : (s.wait .mtx self blocks passes).Ok := by
  obtain ⟨linked, h⟩ := ok.linked_wait idle blocked passed
  refine ok.onMutex linked (h.other nofun) fun t released => ?_
  have ne : t ≠ self := by
    rintro rfl
    exact outside released
  exact (State.wait_phase_of_ne ne).trans released

/-- A wait on the condition. -/
theorem State.Ok.park (ok : s.Ok) (released : s.phase self = .released)
    (fair : (∃ t, s.owed t) → s.owed self)
    (h : s' = { s.wait .cnd self .parked .awake with
      owed := if (s.wait .cnd self .parked .awake).phase self = .parked then s.owed
        else fun _ => false }) :
    s'.Ok ∧ Awakens ⟨s, .park self, s'⟩ := by
  have idle : (s.phase self).wait = none := by
    rw [released]
    rfl
  obtain ⟨linked, wait⟩ := ok.linked_wait idle (rfl : Phase.parked.wait = _) (rfl : Phase.awake.wait = _)
  have phase : (s.wait .cnd self .parked .awake).phase self =
      if (s.kernel.waitFor none .cnd self).2 = none then .parked else .awake := by
    exact update_self _ _ _
  have kernel : s'.kernel = (s.wait .cnd self .parked .awake).kernel := by rw [h]
  have phase' : s'.phase = (s.wait .cnd self .parked .awake).phase := by rw [h]
  have owed' : s'.owed = if s'.phase self = .parked then s.owed else fun _ => false := by rw [h]
  rw [← kernel, ← phase'] at linked
  rw [← kernel] at wait
  rw [← phase'] at phase
  have binary : (s'.kernel.sem .cnd).type = -1 := by
    rw [wait.type_eq (by rw [ok.binary]; decide), ok.binary]
  clear h kernel
  cases result : (s.kernel.waitFor none .cnd self).2 with
  | none =>
      -- nothing is kept, or the task would not block
      rw [result] at wait phase
      rw [if_pos rfl] at phase
      rw [if_pos phase] at owed'
      refine ⟨⟨linked, binary, fun t owed => ?_⟩, awakens_of_owed _ owed' nofun nofun⟩
      rw [owed'] at owed
      have count := (ok.reachable t owed).2
      exact absurd (by omega) wait.busy
  | some v =>
      rw [result] at wait phase
      rw [if_neg nofun] at phase
      rw [if_neg (by rw [phase]; nofun)] at owed'
      refine ⟨⟨linked, binary, fun t owed => ?_⟩, nofun, nofun,
        fun some => .inr ⟨⟨self, fair some, .inl phase⟩, congrFun owed'⟩⟩
      rw [owed'] at owed
      cases owed

/-- A signal. -/
theorem State.Ok.signal (ok : s.Ok)
    (fair : (s.kernel.sem .cnd).queue = [] → ∀ t, s.owed t = false)
    (h : s' = { s with
      kernel := s.kernel.rtSemSignal .cnd
      owed := if (s.kernel.sem .cnd).queue = [] then fun t => s.phase t = .released
        else s.owed }) :
    s'.Ok ∧ Awakens ⟨s, .signal self, s'⟩ := by
  have signal := Kernel.rtSemSignal_cases (k := s.kernel) (i := .cnd)
  have linked := ok.linked.signal signal
  generalize s.kernel.rtSemSignal .cnd = k at h signal linked
  cases signal with
  | nested depth =>
      rw [ok.binary] at depth
      cases depth
  | kept _ empty =>
      rw [if_pos empty] at h
      subst h
      have count : (s.kernel.sem .cnd).countUp = 1 := by
        have idle := (ok.linked.counted .cnd).idle empty
        rw [Sem.countUp, ok.binary]
        split <;> omega
      refine ⟨⟨linked, ?_, fun t owed => ⟨of_decide_eq_true owed, ?_⟩⟩,
        by rintro _ ⟨⟩, ?_, ?_⟩
      · simpa using ok.binary
      · simpa using count
      · rintro _ - ⟨t, position⟩
        have released : s.phase t = .released := by
          by_contra parked
          have mem := ok.queued position parked
          rw [empty] at mem
          cases mem
        exact .inr ⟨⟨t, decide_eq_true released⟩, fun u owed => .inl (of_decide_eq_true owed),
          fair empty⟩
      · rintro ⟨t, owed⟩
        cases (fair empty t).symm.trans owed
  | @wakes t rest _ queue =>
      rw [if_neg (by simp [queue])] at h
      subst h
      have none (u : T) : ¬s.owed u := by
        intro owed
        have kept := (ok.reachable u owed).2
        have count := (ok.linked.counted .cnd).waiting (by simp [queue])
        omega
      obtain ⟨parked, position⟩ := ok.of_queued (t := t) (by simp [queue])
      refine ⟨⟨linked, ?_, fun u owed => absurd owed (none u)⟩, by rintro _ ⟨⟩, ?_,
        fun some => .inl rfl⟩
      · simpa using ok.binary
      · refine fun _ _ _ => .inl ⟨t, position, .inr ⟨parked, ?_⟩⟩
        simp [Task.woken, Task.Ready]

/-- A broadcast. -/
theorem State.Ok.broadcast (ok : s.Ok) (fair : ∀ t, s.phase t ≠ .released)
    (h : s' = { s with kernel := s.kernel.rtSemBroadcast .cnd, owed := fun _ => false }) :
    s'.Ok ∧ Awakens ⟨s, .broadcast self, s'⟩ := by
  obtain ⟨sem, task⟩ := Kernel.rtSemBroadcast_spec (k := s.kernel) (i := .cnd)
  subst h
  refine ⟨⟨ok.linked.broadcast, ?_, nofun⟩, fun _ _ t position => ?_, nofun, ?_⟩
  · simpa [sem] using ok.binary
  · have parked := (position.resolve_left (fair t)).1
    refine .inr ⟨parked, ?_⟩
    rw [task, if_pos (ok.queued position (fair t))]
    exact ⟨rfl, rfl, rfl⟩
  · rintro ⟨t, owed⟩
    exact absurd (ok.reachable t owed).1 (fair t)

/-- A wait goes on behind `rt_schedule`. -/
theorem State.Ok.waitEnd (ok : s.Ok) (inside : (s.phase self).wait = some (i, false))
    (ready : (s.kernel.task self).Ready) (passed : passes.wait = none) :
    (s.waitEnd i self passes).Ok := by
  have h := Kernel.waitForEnd_cases s.kernel i self false
  have linked := ok.linked.waitForEnd inside ready h
  rw [← passed, ← waits_update] at linked
  have cnd : ((s.waitEnd i self passes).kernel.sem .cnd).type = (s.kernel.sem .cnd).type ∧
      ((s.waitEnd i self passes).kernel.sem .cnd).count = (s.kernel.sem .cnd).count := by
    cases i with
    | cnd => exact ⟨h.type_eq, h.count_eq⟩
    | mtx =>
        have same := h.other (j := .cnd) nofun
        exact ⟨congrArg Sem.type same, congrArg Sem.count same⟩
  refine ⟨linked, cnd.1.trans ok.binary, fun t owed => ?_⟩
  obtain ⟨released, count⟩ := ok.reachable t owed
  have ne : t ≠ self := by
    rintro rfl
    rw [released] at inside
    cases inside
  exact ⟨(update_of_ne ne _ _).trans released, cnd.2.trans count⟩

theorem State.Ok.step (ok : s.Ok) (fair : InTime s e) (h : step e s = some s') :
    s'.Ok ∧ Awakens ⟨s, e, s'⟩ := by
  cases e with
  | lock self =>
      obtain ⟨idle, h⟩ := Option.ite_none_right_eq_some.mp h
      cases h
      exact ⟨ok.wait_mtx (by rw [idle]; rfl) (by rw [idle]; nofun) rfl rfl,
        awakens_of_owed _ rfl nofun nofun⟩
  | unlock self =>
      obtain ⟨holds, h⟩ := Option.ite_none_right_eq_some.mp h
      cases h
      have signal := Kernel.rtSemSignal_cases (k := s.kernel) (i := .mtx)
      exact ⟨ok.onMutex (ok.linked.signal signal) (signal.other nofun) fun _ => id,
        awakens_of_owed _ rfl nofun nofun⟩
  | release self =>
      obtain ⟨holds, h⟩ := Option.ite_none_right_eq_some.mp h
      cases h
      have signal := Kernel.rtSemSignal_cases (k := s.kernel) (i := .mtx)
      have idle : s.waits self = none := by
        rw [State.waits, comp_apply, holds.1]
        rfl
      have linked := ok.linked.signal signal
      rw [← update_eq_self self s.waits, idle] at linked
      have linked' : (s.kernel.rtSemSignal .mtx).Linked
          (Phase.wait ∘ update s.phase self .released) := by
        rw [waits_update]
        exact linked
      refine ⟨ok.onMutex linked' (signal.other nofun) fun t released => ?_,
        awakens_of_owed _ rfl nofun nofun⟩
      rcases eq_or_ne t self with rfl | ne
      · exact update_self _ _ _
      · exact (update_of_ne ne _ _).trans released
  | park self =>
      obtain ⟨released, h⟩ := Option.ite_none_right_eq_some.mp h
      exact ok.park released fair (Option.some.inj h).symm
  | relock self =>
      obtain ⟨awake, h⟩ := Option.ite_none_right_eq_some.mp h
      cases h
      exact ⟨ok.wait_mtx (by rw [awake]; rfl) (by rw [awake]; nofun) rfl rfl,
        awakens_of_owed _ rfl nofun nofun⟩
  | signal self =>
      obtain ⟨holds, h⟩ := Option.ite_none_right_eq_some.mp h
      exact ok.signal fair (Option.some.inj h).symm
  | broadcast self =>
      obtain ⟨holds, h⟩ := Option.ite_none_right_eq_some.mp h
      exact ok.broadcast fair (Option.some.inj h).symm
  | goOn self =>
      obtain ⟨ready, h⟩ := Option.ite_none_right_eq_some.mp h
      have mtx (inside : (s.phase self).wait = some (.mtx, false))
          (h : s' = s.waitEnd .mtx self .idle) : s'.Ok ∧ Awakens ⟨s, .goOn self, s'⟩ := by
        subst h
        exact ⟨ok.waitEnd inside ready rfl, awakens_of_owed _ rfl nofun nofun⟩
      cases phase : s.phase self with
      | locking =>
          rw [phase] at h
          exact mtx (by rw [phase]; rfl) (Option.some.inj h).symm
      | relocking =>
          rw [phase] at h
          exact mtx (by rw [phase]; rfl) (Option.some.inj h).symm
      | parked =>
          rw [phase] at h
          cases h
          exact ⟨ok.waitEnd (by rw [phase]; rfl) ready rfl, awakens_of_owed _ rfl nofun nofun⟩
      | idle =>
          rw [phase] at h
          cases h
      | released =>
          rw [phase] at h
          cases h
      | awake =>
          rw [phase] at h
          cases h
  | priority t p =>
      cases h
      obtain ⟨-, sem⟩ := Kernel.changePriority_spec s.kernel t p
      have cnd : ((s.kernel.changePriority t p).sem .cnd).type = (s.kernel.sem .cnd).type ∧
          ((s.kernel.changePriority t p).sem .cnd).count = (s.kernel.sem .cnd).count := by
        rcases sem .cnd with same | ⟨-, -, queue, -, moved⟩
        · rw [same]
          exact ⟨rfl, rfl⟩
        · rw [moved]
          exact ⟨rfl, rfl⟩
      refine ⟨⟨ok.linked.changePriority, cnd.1.trans ok.binary, fun t owed => ?_⟩,
        awakens_of_owed _ rfl nofun nofun⟩
      obtain ⟨released, count⟩ := ok.reachable t owed
      exact ⟨released, cnd.2.trans count⟩

/-- A broadcast awakens every task in position and a signal one of them, when no task is
overtaken on its way to the condition. -/
theorem none_left_asleep {s₀ : State T} {tr : List (Record (State T) (Event T))}
    (initial : s₀.Initial) (run : Run Conditions.step InTime s₀ tr s) :
    (∀ r ∈ tr, Awakens r) ∧ Reachable s := by
  have kept : s.Ok ∧ ∀ r ∈ tr, Awakens r :=
    run.each initial.ok fun ok fair stepped => ok.step fair stepped
  exact ⟨kept.2, kept.1.reachable⟩

end

instance [Fintype T] (s : State T) : ∀ e, Decidable (InTime s e)
  | .broadcast _ => inferInstanceAs (Decidable (∀ t, s.phase t ≠ .released))
  | .signal _ =>
      inferInstanceAs (Decidable ((s.kernel.sem .cnd).queue = [] → ∀ t, s.owed t = false))
  | .park self => inferInstanceAs (Decidable ((∃ t, s.owed t) → s.owed self))
  | .lock _ | .unlock _ | .release _ | .relock _ | .goOn _ | .priority _ _ =>
      inferInstanceAs (Decidable True)

/-- A new condition and a new mutex. -/
def fresh : State Bool where
  kernel :=
    { sem := fun | .cnd => rtTypedSemInit 0 .BIN_SEM
                 | .mtx => rtTypedSemInit 1 .RES_SEM
      task := fun _ => {} }
  phase := fun _ => .idle
  owed := fun _ => false

theorem fresh_initial : fresh.Initial :=
  ⟨rfl, rfl, fun _ => ⟨rfl, rfl⟩, fun _ => rfl, fun _ => rfl⟩

/-- A task awakened by a kept signal waits once more, and is awakened by a broadcast. -/
theorem none_left_asleep_twice : ∃ tr s, Run step InTime fresh tr s ∧
    ((∀ r ∈ tr, Awakens r) ∧ Reachable s) ∧ s.Awakened true := by
  obtain ⟨tr, s, run, test⟩ := Run.of_execute step InTime fresh
    [.lock true, .release true, .lock false, .signal false, .park true, .unlock false,
      .relock true, .release true, .park true, .lock false, .broadcast false]
    (fun s => s.Awakened true) (by decide)
  exact ⟨tr, s, run, none_left_asleep fresh_initial run, of_decide_eq_true test⟩

/-- A broadcast between the first two services of `rt_cond_wait` is lost. -/
theorem broadcast_lost : ∃ tr s, Run step (fun _ _ => True) fresh tr s ∧
    ¬((∀ r ∈ tr, Awakens r) ∧ Reachable s) := by
  obtain ⟨tr, s, run, test⟩ := Run.of_records step (fun _ _ => True) fresh
    [.lock true, .release true, .lock false, .broadcast false, .park true]
    (fun tr _ => tr.any fun r => (match r.event with | .broadcast _ => true | _ => false) &&
      (r.pre.InPosition true && !r.post.Awakened true)) (by decide)
  refine ⟨tr, s, run, fun awakens => ?_⟩
  obtain ⟨r, mem, found⟩ := List.any_eq_true.mp test
  simp only [Bool.and_eq_true, decide_eq_true_eq, Bool.not_eq_true', decide_eq_false_iff_not] at found
  obtain ⟨broadcast, position, asleep⟩ := found
  split at broadcast
  next self event => exact asleep ((awakens.1 r mem).1 self event true position)
  next => cases broadcast

end Rtai.Lxrt.Conditions
