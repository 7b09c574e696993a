import Rtai.Lib.Run
import Rtai.Lxrt.Mutexes
import Mathlib.Data.Fintype.Basic

/-!
# The mutex behind a wait on a condition

`rt_cond_wait` and `rt_cond_wait_until`, service by service, for any number of mutexes and
conditions.  `rt_cond_wait_timed` is `rt_cond_wait_until` from its first service on.

Whoever waits until a time goes without the mutex when the time is over: the wait on the
condition returns at once then, and the wait on the mutex is until the same time.
-/

namespace Rtai.Lxrt.TimedConditions

open Function Rtai.Lib

/-- A call of `rt_cond_wait`, or of `rt_cond_wait_until`, which is `timed`, and the levels of
the mutex that its task had then. -/
structure Call (S : Type) where
  cnd : S
  mtx : S
  timed : Bool
  depth : Int
deriving DecidableEq

/-- Where a task is in a call. -/
inductive Place where
  /-- Behind `rt_sem_signal` on the mutex. -/
  | released
  /-- In the wait on the condition. -/
  | parked
  /-- Behind the wait on the condition. -/
  | awake
  /-- In the wait on the mutex. -/
  | relocking
deriving DecidableEq

/-- Where a task is. -/
inductive Phase (S : Type) where
  /-- In no service. -/
  | idle
  /-- In `rt_mutex_lock`, or `rt_mutex_timedlock`. -/
  | locking (m : S) (timed : Bool)
  | waiting (call : Call S) (place : Place)
deriving DecidableEq

/-- The wait of a task. -/
def Phase.wait {S : Type} : Phase S → Option (S × Bool)
  | .locking m timed => some (m, timed)
  | .waiting call .parked => some (call.cnd, call.timed)
  | .waiting call .relocking => some (call.mtx, call.timed)
  | .idle | .waiting _ .released | .waiting _ .awake => none

/-- The semaphores and tasks, and what the last call of a task returned. -/
structure State (S T : Type) where
  kernel : Kernel S T
  phase : T → Phase S
  ret : T → Int

/-- The services, a timer, and a task going on behind `rt_schedule`.  Where a wait is until a
time, the time may be late whenever it is looked at. -/
inductive Event (S T : Type) where
  | lock (self : T) (m : S) (how : Option Bool)
  /-- `rt_mutex_trylock`. -/
  | tryLock (self : T) (m : S)
  | unlock (self : T) (m : S)
  /-- The three services of a call. -/
  | release (self : T) (c m : S) (timed : Bool)
  | park (self : T) (late : Bool)
  | relock (self : T) (late : Bool)
  /-- `rt_cond_signal`. -/
  | signal (c : S)
  /-- `rt_cond_broadcast`. -/
  | broadcast (c : S)
  | goOn (self : T)
  | expire (t : T)
  | priority (t : T) (p : Int)

/-- How the waits of a call are made. -/
def Call.how {S : Type} (call : Call S) (late : Bool) : Option Bool :=
  if call.timed then some late else none

namespace State

variable {S T : Type}

def waits (s : State S T) : T → Option (S × Bool) := Phase.wait ∘ s.phase

/-- The task is in no service and owns the mutex. -/
def Holds (self : T) (m : S) (s : State S T) : Prop :=
  s.phase self = .idle ∧ (s.kernel.sem m).owndby = some self

/-- New mutexes and conditions, with every task ready and in no service. -/
structure Initial (mutex : S → Bool) (s : State S T) : Prop where
  cnd : ∀ i, mutex i = false → s.kernel.sem i = rtTypedSemInit 0 .BIN_SEM
  mtx : ∀ i, mutex i = true → s.kernel.sem i = rtTypedSemInit 1 .RES_SEM
  ready : ∀ t, (s.kernel.task t).Ready
  phase : ∀ t, s.phase t = .idle

variable [DecidableEq T]

def setPhase (t : T) (p : Phase S) (s : State S T) : State S T :=
  { s with phase := update s.phase t p }

/-- A call returns. -/
def leave (self : T) (ret : Int) (s : State S T) : State S T :=
  { s.setPhase self .idle with ret := update s.ret self ret }

/-- A call behind its wait on the condition. -/
def behindCnd (self : T) (call : Call S) (ret : Int) (s : State S T) : State S T :=
  if call.timed ∧ ret ≥ SEM_TIMOUT then s.leave self (-1)
  else s.setPhase self (.waiting call .awake)

/-- A call behind its wait on the mutex. -/
def behindMtx (self : T) (call : Call S) (ret : Int) (s : State S T) : State S T :=
  s.leave self (if call.timed ∧ ret ≥ SEM_TIMOUT then -1 else 0)

variable [DecidableEq S]

/-- A wait of a call on the semaphore, with what comes behind it. -/
def wait (i : S) (self : T) (call : Call S) (late : Bool) (blocks : Place)
    (behind : Int → State S T → State S T) (s : State S T) : State S T :=
  let (k, ret) := s.kernel.waitFor (call.how late) i self
  let s := { s with kernel := k }
  match ret with
  | none => s.setPhase self (.waiting call blocks)
  | some ret => behind ret s

/-- The end of a wait of a call, with what comes behind it. -/
def waitEnd (i : S) (self : T) (call : Call S) (behind : Int → State S T → State S T)
    (s : State S T) : State S T :=
  let (k, ret) := s.kernel.waitForEnd call.timed i self
  behind ret { s with kernel := k }

instance (self : T) (m : S) (s : State S T) : Decidable (s.Holds self m) :=
  inferInstanceAs (Decidable (_ ∧ _))

end State

variable {S T : Type} [DecidableEq S] [DecidableEq T] {mutex : S → Bool}

/-- A task calls only outside a service, and unlocks only what it owns. -/
def step (mutex : S → Bool) : Event S T → State S T → Option (State S T)
  | .lock self m how, s =>
      if mutex m = true ∧ s.phase self = .idle then
        let (k, ret) := s.kernel.waitFor how m self
        some ({ s with kernel := k }.setPhase self
          (if ret = none then .locking m how.isSome else .idle))
      else none
  | .tryLock self m, s =>
      if mutex m = true ∧ s.phase self = .idle then
        some { s with kernel := (s.kernel.rtSemWaitIf m self).1 }
      else none
  | .unlock self m, s =>
      if mutex m = true ∧ s.Holds self m then some { s with kernel := s.kernel.rtSemSignal m }
      else none
  | .release self c m timed, s =>
      if (mutex c = false ∧ mutex m = true) ∧ s.Holds self m then
        some ({ s with kernel := s.kernel.rtSemSignal m }.setPhase self
          (.waiting ⟨c, m, timed, (s.kernel.sem m).depth self⟩ .released))
      else none
  | .park self late, s =>
      match s.phase self with
      | .waiting call .released =>
          some (s.wait call.cnd self call late .parked (State.behindCnd self call))
      | _ => none
  | .relock self late, s =>
      match s.phase self with
      | .waiting call .awake =>
          some (s.wait call.mtx self call late .relocking (State.behindMtx self call))
      | _ => none
  | .signal c, s =>
      if mutex c = false then some { s with kernel := s.kernel.rtSemSignal c } else none
  | .broadcast c, s =>
      if mutex c = false then some { s with kernel := s.kernel.rtSemBroadcast c } else none
  | .goOn self, s =>
      if (s.kernel.task self).Ready then
        match s.phase self with
        | .locking m timed =>
            some ({ s with kernel := (s.kernel.waitForEnd timed m self).1 }.setPhase self .idle)
        | .waiting call .parked => some (s.waitEnd call.cnd self call (State.behindCnd self call))
        | .waiting call .relocking =>
            some (s.waitEnd call.mtx self call (State.behindMtx self call))
        | _ => none
      else none
  | .expire t, s =>
      if (s.kernel.task t).delayed then some { s with kernel := s.kernel.expire t } else none
  | .priority t p, s => some { s with kernel := s.kernel.changePriority t p }

/-- A task whose call returns has the mutex as often as before. -/
def Regains (r : Record (State S T) (Event S T)) : Prop :=
  ∀ self call place, r.pre.phase self = .waiting call place → r.post.phase self = .idle →
    (r.post.kernel.sem call.mtx).depth self = call.depth

/-- A call comes too late for a wait, or goes on because its timer has expired. -/
def TimesOut (s : State S T) : Event S T → Prop
  | .park self late =>
      ∃ call, s.phase self = .waiting call .released ∧ call.how late = some true ∧
        ¬(s.kernel.sem call.cnd).count > 0
  | .relock self late =>
      ∃ call, s.phase self = .waiting call .awake ∧ call.how late = some true ∧
        ¬(s.kernel.sem call.mtx).count > 0
  | .goOn self =>
      ∃ call place, s.phase self = .waiting call place ∧ call.timed = true ∧
        (s.kernel.task self).blockedOn.isSome
  | _ => False

/-! ## One step -/

/-- A task in a call has one level of the mutex less than before. -/
structure Ok (mutex : S → Bool) (s : State S T) : Prop where
  mutexes : Mutexes mutex s.waits s.kernel
  kinds : ∀ {t call place}, s.phase t = .waiting call place →
    mutex call.cnd = false ∧ mutex call.mtx = true
  inside : ∀ {t call place}, s.phase t = .waiting call place →
    (s.kernel.sem call.mtx).depth t = call.depth - 1

section

variable {s s' : State S T} {self t : T} {e : Event S T} {k : Kernel S T} {p : Phase S}
  {call : Call S} {place : Place} {late : Bool} {i : S}

/-- One task moves. -/
theorem Ok.move (ok : Ok mutex s) (ret : T → Int)
    (mutexes : Mutexes mutex (update s.waits self p.wait) k)
    (others : ∀ m, mutex m = true → ∀ t, t ≠ self →
      (k.sem m).depth t = (s.kernel.sem m).depth t)
    (mine : ∀ {call place}, p = .waiting call place →
      (mutex call.cnd = false ∧ mutex call.mtx = true) ∧
        (k.sem call.mtx).depth self = call.depth - 1) :
    Ok mutex ⟨k, update s.phase self p, ret⟩ where
  mutexes := by
    have same : Phase.wait ∘ update s.phase self p = update s.waits self p.wait :=
      comp_update _ _ _ _
    rw [← same] at mutexes
    exact mutexes
  kinds := by
    intro t call place waiting
    dsimp only at waiting
    rcases eq_or_ne t self with rfl | ne
    · rw [update_self] at waiting
      exact (mine waiting).1
    · rw [update_of_ne ne] at waiting
      exact ok.kinds waiting
  inside := by
    intro t call place waiting
    dsimp only at waiting ⊢
    rcases eq_or_ne t self with rfl | ne
    · rw [update_self] at waiting
      exact (mine waiting).2
    · rw [update_of_ne ne] at waiting
      rw [others call.mtx (ok.kinds waiting).2 t ne]
      exact ok.inside waiting

theorem Ok.apart (ok : Ok mutex s) (waiting : s.phase self = .waiting call place) :
    call.mtx ≠ call.cnd := by
  obtain ⟨cnd, mtx⟩ := ok.kinds waiting
  intro same
  rw [same, cnd] at mtx
  cases mtx

/-- No task moves. -/
theorem Ok.still (ok : Ok mutex s) (mutexes : Mutexes mutex s.waits k)
    (depth : ∀ {t call place}, s.phase t = .waiting call place →
      (k.sem call.mtx).depth t = (s.kernel.sem call.mtx).depth t) :
    Ok mutex { s with kernel := k } where
  mutexes := mutexes
  kinds := ok.kinds
  inside := by
    intro t call place waiting
    rw [depth waiting]
    exact ok.inside waiting

theorem regains_still (phase : s'.phase = s.phase) : Regains ⟨s, e, s'⟩ := by
  intro self call place waiting idle
  rw [phase] at idle
  cases waiting.symm.trans idle

theorem regains_move (phase : s'.phase = update s.phase self p) :
    Regains ⟨s, e, s'⟩ ↔ ∀ call place, s.phase self = .waiting call place → p = .idle →
      (s'.kernel.sem call.mtx).depth self = call.depth := by
  constructor
  · intro regains call place waiting idle
    refine regains self call place waiting ?_
    rw [phase, update_self, idle]
  · intro mine t call place waiting idle
    dsimp only at idle waiting
    rw [phase] at idle
    rcases eq_or_ne t self with rfl | ne
    · rw [update_self] at idle
      exact mine call place waiting idle
    · rw [update_of_ne ne] at idle
      cases waiting.symm.trans idle

/-- A wait of a call: what it leaves, and when it is late. -/
theorem Ok.call_wait (ok : Ok mutex s) (call : Call S) (i : S) (late : Bool)
    (idle : s.waits self = none) :
    let (k, r) := s.kernel.waitFor (call.how late) i self
    Mutexes mutex (update s.waits self (if r = none then some (i, call.timed) else none)) k ∧
    (∀ m, mutex m = true → ∀ t, (k.sem m).depth t = (s.kernel.sem m).depth t +
      if m = i ∧ t = self ∧ r.any (· < SEM_TIMOUT) then 1 else 0) ∧
    (r = none ∨ (∃ v, r = some v ∧ v < SEM_TIMOUT) ∨ r = some SEM_TIMOUT) ∧
    (r = some SEM_TIMOUT ↔ call.how late = some true ∧ ¬(s.kernel.sem i).count > 0) := by
  have off : self ∉ (s.kernel.sem i).queue := ok.mutexes.linked.off idle i
  have h := Kernel.waitFor_cases (call.how late) off
  have timed : (call.how late).isSome = call.timed := by
    unfold Call.how
    cases call.timed <;> rfl
  have mutexes := ok.mutexes.wait idle h
  rw [timed] at mutexes
  refine ⟨mutexes, fun m kind t => ok.mutexes.depth_wait kind h t, ?_, ?_⟩
  · rcases ok.mutexes.wait_cases h with none | early | ⟨late, -⟩
    · exact .inl none
    · exact .inr (.inl early)
    · exact .inr (.inr late)
  · constructor
    · intro isLate
      rcases ok.mutexes.wait_cases h with none | ⟨v, some, early⟩ | ⟨-, late⟩
      · cases none.symm.trans isLate
      · cases some.symm.trans isLate
        exact absurd early (lt_irrefl _)
      · exact late
    · rintro ⟨how, busy⟩
      rw [how]
      exact Kernel.waitFor_late busy

/-- A call goes on, returns with the mutex, or is over without it. -/
theorem Ok.call_moves {b : Prop} [Decidable b] (ok : Ok mutex s) (ret : T → Int)
    (waiting : s.phase self = .waiting call place)
    (mutexes : Mutexes mutex (update s.waits self p.wait) k)
    (depth : ∀ m, mutex m = true → ∀ t, (k.sem m).depth t = (s.kernel.sem m).depth t +
      if m = i ∧ t = self ∧ b then 1 else 0)
    (mine : (∃ place, p = .waiting call place) ∧ (k.sem call.mtx).depth self = call.depth - 1 ∧
        ¬TimesOut s e ∨
      p = .idle ∧ (k.sem call.mtx).depth self = call.depth ∧ ¬TimesOut s e ∨
      p = .idle ∧ (k.sem call.mtx).depth self = call.depth - 1 ∧ TimesOut s e) :
    Ok mutex ⟨k, update s.phase self p, ret⟩ ∧
      (Regains ⟨s, e, ⟨k, update s.phase self p, ret⟩⟩ ↔ ¬TimesOut s e) := by
  rw [regains_move rfl]
  have others (m : S) (kind : mutex m = true) (t : T) (ne : t ≠ self) :
      (k.sem m).depth t = (s.kernel.sem m).depth t := by
    rw [depth m kind t, if_neg fun mine => ne mine.2.1, Int.add_zero]
  rcases mine with ⟨⟨place, rfl⟩, depth, inTime⟩ | ⟨rfl, depth, inTime⟩ | ⟨rfl, depth, out⟩
  · refine ⟨ok.move ret mutexes others ?_, iff_of_true (fun _ _ _ => nofun) inTime⟩
    rintro _ _ ⟨⟩
    exact ⟨ok.kinds waiting, depth⟩
  · refine ⟨ok.move ret mutexes others nofun, iff_of_true (fun call' place' same _ => ?_) inTime⟩
    cases waiting.symm.trans same
    exact depth
  · refine ⟨ok.move ret mutexes others nofun, iff_of_false (fun regains => ?_) (not_not.mpr out)⟩
    have same := regains call place waiting rfl
    dsimp only at same
    omega

section

variable {b : Prop} [Decidable b] {r : Int} (ok : Ok mutex s)
  (waiting : s.phase self = .waiting call place)
include ok waiting

/-- A wait on the condition leaves the mutex as the caller left it. -/
theorem Ok.depth_cnd (depth : ∀ m, mutex m = true → ∀ t, (k.sem m).depth t =
      (s.kernel.sem m).depth t + if m = call.cnd ∧ t = self ∧ b then 1 else 0) :
    (k.sem call.mtx).depth self = call.depth - 1 := by
  rw [depth _ (ok.kinds waiting).2, if_neg fun mine => ok.apart waiting mine.1, Int.add_zero]
  exact ok.inside waiting

/-- A call behind its wait on the condition. -/
theorem Ok.behindCnd (mutexes : Mutexes mutex (update s.waits self none) k)
    (depth : ∀ m, mutex m = true → ∀ t, (k.sem m).depth t = (s.kernel.sem m).depth t +
      if m = call.cnd ∧ t = self ∧ b then 1 else 0)
    (returns : r < SEM_TIMOUT ∨ r = SEM_TIMOUT ∧ call.timed = true)
    (times : TimesOut s e ↔ r = SEM_TIMOUT)
    (h : s' = { s with kernel := k }.behindCnd self call r) :
    Ok mutex s' ∧ (Regains ⟨s, e, s'⟩ ↔ ¬TimesOut s e) := by
  have mine := ok.depth_cnd waiting depth
  unfold State.behindCnd at h
  rcases returns with early | ⟨rfl, timed⟩
  · rw [if_neg fun late => absurd early (not_lt.mpr late.2)] at h
    subst h
    refine ok.call_moves s.ret waiting mutexes depth (.inl ⟨⟨_, rfl⟩, mine, ?_⟩)
    rw [times]
    exact early.ne
  · rw [if_pos ⟨timed, le_rfl⟩] at h
    subst h
    exact ok.call_moves _ waiting mutexes depth (.inr (.inr ⟨rfl, mine, times.mpr rfl⟩))

/-- A call behind its wait on the mutex. -/
theorem Ok.behindMtx (mutexes : Mutexes mutex (update s.waits self none) k)
    (depth : ∀ m, mutex m = true → ∀ t, (k.sem m).depth t = (s.kernel.sem m).depth t +
      if m = call.mtx ∧ t = self ∧ b then 1 else 0) (taken : b ↔ r < SEM_TIMOUT)
    (returns : r < SEM_TIMOUT ∨ r = SEM_TIMOUT) (times : TimesOut s e ↔ r = SEM_TIMOUT)
    (h : s' = { s with kernel := k }.behindMtx self call r) :
    Ok mutex s' ∧ (Regains ⟨s, e, s'⟩ ↔ ¬TimesOut s e) := by
  subst h
  have mine := depth _ (ok.kinds waiting).2 self
  rw [ok.inside waiting] at mine
  refine ok.call_moves _ waiting mutexes depth (.inr ?_)
  rcases returns with early | rfl
  · rw [if_pos ⟨rfl, rfl, taken.mpr early⟩, Int.sub_add_cancel] at mine
    refine .inl ⟨rfl, mine, ?_⟩
    rw [times]
    exact early.ne
  · rw [if_neg fun here => lt_irrefl _ (taken.mp here.2.2), Int.add_zero] at mine
    exact .inr ⟨rfl, mine, times.mpr rfl⟩

end

theorem timed_of_how (how : call.how late = some true) : call.timed = true := by
  by_contra plain
  simp [Call.how, plain] at how

/-- The call a task waits in is the one its phase names. -/
theorem exists_waiting {P : Call S → Prop} (waiting : s.phase self = .waiting call place) :
    (∃ call', s.phase self = .waiting call' place ∧ P call') ↔ P call := by
  constructor
  · rintro ⟨call', waiting', holds⟩
    cases waiting.symm.trans waiting'
    exact holds
  · exact fun holds => ⟨call, waiting, holds⟩

section

variable {m : S} {timed : Bool} (ok : Ok mutex s)
include ok

theorem Ok.park (waiting : s.phase self = .waiting call .released)
    (h : s' = s.wait call.cnd self call late .parked (State.behindCnd self call)) :
    Ok mutex s' ∧ (Regains ⟨s, .park self late, s'⟩ ↔ ¬TimesOut s (.park self late)) := by
  have idle : s.waits self = none := congrArg Phase.wait waiting
  have spec := ok.call_wait call call.cnd late idle
  unfold State.wait at h
  generalize s.kernel.waitFor (call.how late) call.cnd self = result at spec h
  obtain ⟨k, r⟩ := result
  obtain ⟨mutexes, depth, cases, isLate⟩ := spec
  have times : TimesOut s (.park self late) ↔ r = some SEM_TIMOUT :=
    (exists_waiting waiting).trans isLate.symm
  cases r with
  | none =>
      subst h
      refine ok.call_moves s.ret waiting mutexes depth
        (.inl ⟨⟨_, rfl⟩, ok.depth_cnd waiting depth, ?_⟩)
      rw [times]
      intro isLate
      cases isLate
  | some r =>
      rw [Option.some_inj] at times isLate
      refine ok.behindCnd waiting mutexes depth ?_ times h
      rcases cases with ⟨⟨⟩⟩ | ⟨_, ⟨⟩, early⟩ | ⟨⟨⟩⟩
      · exact .inl early
      · exact .inr ⟨rfl, timed_of_how (isLate.mp rfl).1⟩

theorem Ok.relock (waiting : s.phase self = .waiting call .awake)
    (h : s' = s.wait call.mtx self call late .relocking (State.behindMtx self call)) :
    Ok mutex s' ∧ (Regains ⟨s, .relock self late, s'⟩ ↔ ¬TimesOut s (.relock self late)) := by
  have idle : s.waits self = none := congrArg Phase.wait waiting
  have spec := ok.call_wait call call.mtx late idle
  unfold State.wait at h
  generalize s.kernel.waitFor (call.how late) call.mtx self = result at spec h
  obtain ⟨k, r⟩ := result
  obtain ⟨mutexes, depth, cases, isLate⟩ := spec
  have times : TimesOut s (.relock self late) ↔ r = some SEM_TIMOUT :=
    (exists_waiting waiting).trans isLate.symm
  cases r with
  | none =>
      subst h
      have mine := depth _ (ok.kinds waiting).2 self
      rw [ok.inside waiting] at mine
      refine ok.call_moves s.ret waiting mutexes depth (.inl ⟨⟨_, rfl⟩, by simpa using mine, ?_⟩)
      rw [times]
      intro isLate
      cases isLate
  | some r =>
      rw [Option.some_inj] at times
      refine ok.behindMtx waiting mutexes depth (by simp) ?_ times h
      rcases cases with ⟨⟨⟩⟩ | ⟨_, ⟨⟩, early⟩ | ⟨⟨⟩⟩
      · exact .inl early
      · exact .inr rfl

/-- A call goes on behind `rt_schedule`. -/
theorem Ok.call_waitEnd (waiting : s.phase self = .waiting call place)
    (inside : s.waits self = some (i, call.timed)) (ready : (s.kernel.task self).Ready) :
    let (k, r) := s.kernel.waitForEnd call.timed i self
    Mutexes mutex (update s.waits self none) k ∧
    (∀ m, mutex m = true → ∀ t, (k.sem m).depth t = (s.kernel.sem m).depth t +
      if m = i ∧ t = self ∧ r < SEM_TIMOUT then 1 else 0) ∧
    (r < SEM_TIMOUT ∨ r = SEM_TIMOUT ∧ call.timed = true) ∧
    (TimesOut s (.goOn self) ↔ r = SEM_TIMOUT) := by
  have h := Kernel.waitForEnd_cases s.kernel i self call.timed
  refine ⟨ok.mutexes.waitEnd inside ready h,
    fun m kind t => ok.mutexes.depth_waitEnd kind inside ready h t, ?_⟩
  rcases ok.mutexes.waitEnd_cases inside ready h with ⟨early, off⟩ | ⟨late, timed, still⟩
  · refine ⟨.inl early, iff_of_false ?_ early.ne⟩
    rintro ⟨_, _, _, _, still⟩
    rw [off] at still
    cases still
  · exact ⟨.inr ⟨late, timed⟩, iff_of_true ⟨call, place, waiting, timed, still⟩ late⟩

theorem Ok.goOn_cnd (waiting : s.phase self = .waiting call .parked)
    (ready : (s.kernel.task self).Ready)
    (h : s' = s.waitEnd call.cnd self call (State.behindCnd self call)) :
    Ok mutex s' ∧ (Regains ⟨s, .goOn self, s'⟩ ↔ ¬TimesOut s (.goOn self)) := by
  have spec := ok.call_waitEnd waiting (congrArg Phase.wait waiting) ready
  unfold State.waitEnd at h
  generalize s.kernel.waitForEnd call.timed call.cnd self = result at spec h
  obtain ⟨k, r⟩ := result
  obtain ⟨mutexes, depth, returns, times⟩ := spec
  exact ok.behindCnd waiting mutexes depth returns times h

theorem Ok.goOn_mtx (waiting : s.phase self = .waiting call .relocking)
    (ready : (s.kernel.task self).Ready)
    (h : s' = s.waitEnd call.mtx self call (State.behindMtx self call)) :
    Ok mutex s' ∧ (Regains ⟨s, .goOn self, s'⟩ ↔ ¬TimesOut s (.goOn self)) := by
  have spec := ok.call_waitEnd waiting (congrArg Phase.wait waiting) ready
  unfold State.waitEnd at h
  generalize s.kernel.waitForEnd call.timed call.mtx self = result at spec h
  obtain ⟨k, r⟩ := result
  obtain ⟨mutexes, depth, returns, times⟩ := spec
  exact ok.behindMtx waiting mutexes depth .rfl (returns.imp_right And.left) times h

theorem Ok.lock {how : Option Bool} (idle : s.phase self = .idle)
    (h : s' = { s with kernel := (s.kernel.waitFor how m self).1 }.setPhase self
      (if (s.kernel.waitFor how m self).2 = none then .locking m how.isSome else .idle)) :
    Ok mutex s' ∧ (Regains ⟨s, e, s'⟩) := by
  have out : s.waits self = none := congrArg Phase.wait idle
  have wait := Kernel.waitFor_cases how (ok.mutexes.linked.off out m)
  have mutexes := ok.mutexes.wait out wait
  generalize s.kernel.waitFor how m self = result at h wait mutexes
  obtain ⟨k, r⟩ := result
  subst h
  refine ⟨ok.move s.ret ?_ (fun i kind t ne => ?_) ?_, (regains_move rfl).mpr ?_⟩
  · cases r with
    | none => exact mutexes
    | some r => exact mutexes
  · rw [ok.mutexes.depth_wait kind wait, if_neg fun mine => ne mine.2.1, Int.add_zero]
  · intro call place waiting
    split at waiting <;> cases waiting
  · intro call place waiting
    cases idle.symm.trans waiting

theorem Ok.tryLock (idle : s.phase self = .idle) :
    Ok mutex { s with kernel := (s.kernel.rtSemWaitIf m self).1 } := by
  have out : s.waits self = none := congrArg Phase.wait idle
  rcases s.kernel.rtSemWaitIf_cases m self with ⟨-, -, same⟩ | ⟨wait, -⟩
  · rw [same]
    exact ok
  · have mutexes := ok.mutexes.wait out wait
    rw [if_neg nofun, ← out, update_eq_self] at mutexes
    refine ok.still mutexes fun {t call place} waiting => ?_
    have ne : t ≠ self := by
      rintro rfl
      cases idle.symm.trans waiting
    rw [ok.mutexes.depth_wait (ok.kinds waiting).2 wait, if_neg fun mine => ne mine.2.1,
      Int.add_zero]

theorem Ok.signal
    (use : mutex i = true → ∃ t, s.phase t = .idle ∧ (s.kernel.sem i).owndby = some t) :
    Ok mutex { s with kernel := s.kernel.rtSemSignal i } := by
  have signal := Kernel.rtSemSignal_cases (k := s.kernel) (i := i)
  refine ok.still (ok.mutexes.signal (fun kind => ?_) signal) fun {t call place} waiting => ?_
  · obtain ⟨t, -, owned⟩ := use kind
    exact ⟨t, owned⟩
  · have mtx := (ok.kinds waiting).2
    rw [ok.mutexes.depth_signal mtx signal, if_neg, Int.sub_zero]
    rintro ⟨rfl, mine⟩
    obtain ⟨u, idle, owned⟩ := use mtx
    cases mine.symm.trans owned
    cases idle.symm.trans waiting

theorem Ok.release {c : S} (kinds : mutex c = false ∧ mutex m = true) (holds : s.Holds self m)
    (h : s' = { s with kernel := s.kernel.rtSemSignal m }.setPhase self
      (.waiting ⟨c, m, timed, (s.kernel.sem m).depth self⟩ .released)) :
    Ok mutex s' ∧ Regains ⟨s, e, s'⟩ := by
  obtain ⟨idle, owned⟩ := holds
  have out : s.waits self = none := congrArg Phase.wait idle
  have signal := Kernel.rtSemSignal_cases (k := s.kernel) (i := m)
  have mutexes := ok.mutexes.signal (fun _ => ⟨self, owned⟩) signal
  rw [← update_eq_self self s.waits, out] at mutexes
  subst h
  refine ⟨ok.move s.ret mutexes (fun i kind t ne => ?_) ?_, (regains_move rfl).mpr fun _ _ _ => nofun⟩
  · rw [ok.mutexes.depth_signal kind signal, if_neg, Int.sub_zero]
    rintro ⟨rfl, mine⟩
    exact ne (Option.some.inj (mine.symm.trans owned))
  · rintro _ _ ⟨⟩
    refine ⟨kinds, ?_⟩
    rw [ok.mutexes.depth_signal kinds.2 signal, if_pos ⟨rfl, owned⟩]

theorem Ok.locked (locking : s.phase self = .locking m timed) (ready : (s.kernel.task self).Ready)
    (h : s' = { s with kernel := (s.kernel.waitForEnd timed m self).1 }.setPhase self .idle) :
    Ok mutex s' ∧ Regains ⟨s, e, s'⟩ := by
  have inside : s.waits self = some (m, timed) := congrArg Phase.wait locking
  have waitEnd := Kernel.waitForEnd_cases s.kernel m self timed
  subst h
  refine ⟨ok.move s.ret (ok.mutexes.waitEnd inside ready waitEnd) (fun i kind t ne => ?_) nofun,
    (regains_move rfl).mpr fun call place waiting => ?_⟩
  · rw [ok.mutexes.depth_waitEnd kind inside ready waitEnd, if_neg fun mine => ne mine.2.1,
      Int.add_zero]
  · cases locking.symm.trans waiting

theorem Ok.step (h : TimedConditions.step mutex e s = some s') :
    Ok mutex s' ∧ (Regains ⟨s, e, s'⟩ ↔ ¬TimesOut s e) := by
  have still {k : Kernel S T} {e : Event S T} (inTime : ¬TimesOut s e)
      (ok : Ok mutex { s with kernel := k }) :
      Ok mutex { s with kernel := k } ∧ (Regains ⟨s, e, { s with kernel := k }⟩ ↔ ¬TimesOut s e) :=
    ⟨ok, iff_of_true (regains_still rfl) inTime⟩
  cases e with
  | lock self m how =>
      obtain ⟨⟨-, idle⟩, h⟩ := Option.ite_none_right_eq_some.mp h
      obtain ⟨ok, regains⟩ := ok.lock idle (Option.some.inj h).symm
      exact ⟨ok, iff_of_true regains nofun⟩
  | tryLock self m =>
      obtain ⟨⟨-, idle⟩, h⟩ := Option.ite_none_right_eq_some.mp h
      cases h
      exact still nofun (ok.tryLock idle)
  | unlock self m =>
      obtain ⟨⟨-, holds⟩, h⟩ := Option.ite_none_right_eq_some.mp h
      cases h
      exact still nofun (ok.signal fun _ => ⟨self, holds⟩)
  | release self c m timed =>
      obtain ⟨⟨kinds, holds⟩, h⟩ := Option.ite_none_right_eq_some.mp h
      obtain ⟨ok, regains⟩ := ok.release kinds holds (Option.some.inj h).symm
      exact ⟨ok, iff_of_true regains nofun⟩
  | park self late =>
      dsimp only [TimedConditions.step] at h
      split at h
      next call waiting => exact ok.park waiting (Option.some.inj h).symm
      next => cases h
  | relock self late =>
      dsimp only [TimedConditions.step] at h
      split at h
      next call waiting => exact ok.relock waiting (Option.some.inj h).symm
      next => cases h
  | signal c =>
      obtain ⟨kind, h⟩ := Option.ite_none_right_eq_some.mp h
      cases h
      refine still nofun (ok.signal fun mtx => ?_)
      cases kind.symm.trans mtx
  | broadcast c =>
      obtain ⟨kind, h⟩ := Option.ite_none_right_eq_some.mp h
      cases h
      refine still nofun (ok.still (ok.mutexes.broadcast kind) fun {t call place} waiting => ?_)
      have ne : call.mtx ≠ c := by
        rintro rfl
        cases kind.symm.trans (ok.kinds waiting).2
      rw [(Kernel.rtSemBroadcast_spec (k := s.kernel) (i := c)).1, update_of_ne ne]
  | goOn self =>
      obtain ⟨ready, h⟩ := Option.ite_none_right_eq_some.mp h
      split at h
      next m timed locking =>
        obtain ⟨ok, regains⟩ := ok.locked locking ready (Option.some.inj h).symm
        refine ⟨ok, iff_of_true regains ?_⟩
        rintro ⟨call, place, waiting, -⟩
        cases locking.symm.trans waiting
      next call waiting => exact ok.goOn_cnd waiting ready (Option.some.inj h).symm
      next call waiting => exact ok.goOn_mtx waiting ready (Option.some.inj h).symm
      next => cases h
  | expire t =>
      obtain ⟨delayed, h⟩ := Option.ite_none_right_eq_some.mp h
      cases h
      exact still nofun (ok.still (ok.mutexes.expire delayed) fun _ => rfl)
  | priority t p =>
      cases h
      refine still nofun (ok.still ok.mutexes.changePriority fun {u call place} waiting => ?_)
      rcases (Kernel.changePriority_spec s.kernel t p).2 call.mtx with
        same | ⟨-, -, queue, -, moved⟩
      · rw [same]
      · rw [moved]
        rfl

end

theorem Ok.initial (init : s.Initial mutex) : Ok mutex s where
  mutexes := .initial init.ready (fun t => congrArg Phase.wait (init.phase t)) init.cnd init.mtx
  kinds := by
    intro t call place waiting
    cases (init.phase t).symm.trans waiting
  inside := by
    intro t call place waiting
    cases (init.phase t).symm.trans waiting

/-- In every run the calls that return have the mutex as often as before, exactly if none of
them comes too late or returns because its timer has expired. -/
theorem mutex_regained {s₀ : State S T} {trace : List (Record (State S T) (Event S T))}
    (init : s₀.Initial mutex) (run : Run (step mutex) (fun _ _ => True) s₀ trace s) :
    (∀ r ∈ trace, Regains r) ↔ ∀ r ∈ trace, ¬TimesOut r.pre r.event := by
  have kept : Ok mutex s ∧ ∀ r ∈ trace, Regains r ↔ ¬TimesOut r.pre r.event :=
    run.each (R := fun r => Regains r ↔ ¬TimesOut r.pre r.event) (.initial init)
      fun ok _ stepped => ok.step stepped
  exact forall₂_congr kept.2

end

/-- A mutex and a condition, which are new. -/
def fresh : State Bool Bool where
  kernel :=
    { sem := fun i => if i then rtTypedSemInit 1 .RES_SEM else rtTypedSemInit 0 .BIN_SEM
      task := fun _ => {} }
  phase := fun _ => .idle
  ret := fun _ => 0

theorem fresh_initial : fresh.Initial id where
  cnd := by
    rintro _ ⟨⟩
    rfl
  mtx := by
    rintro _ ⟨⟩
    rfl
  ready := fun _ => ⟨rfl, rfl⟩
  phase := fun _ => rfl

/-- A task waits until a time, is signalled before, and has the mutex once more. -/
theorem mutex_regained_signalled : ∃ trace s, Run (step id) (fun _ _ => True) fresh trace s ∧
    s.Holds true true ∧ ((∀ r ∈ trace, Regains r) ↔ ∀ r ∈ trace, ¬TimesOut r.pre r.event) := by
  obtain ⟨trace, s, run, test⟩ := Run.of_execute (step id) (fun _ _ => True) fresh
    [.lock true true none, .release true false true true, .park true false,
      .lock false true none, .signal false, .goOn true, .relock true false, .unlock false true,
      .goOn true]
    (fun s => s.Holds true true) (by decide)
  exact ⟨trace, s, run, of_decide_eq_true test, mutex_regained fresh_initial run⟩

/-- A task whose timer expires returns without the mutex. -/
theorem mutex_lost : ∃ trace s, Run (step id) (fun _ _ => True) fresh trace s ∧
    ¬∀ r ∈ trace, ∀ self call place, r.pre.phase self = .waiting call place → call.depth = 1 →
      r.post.phase self = .idle → (r.post.kernel.sem call.mtx).depth self = 1 := by
  let call : Call Bool := ⟨false, true, true, 1⟩
  obtain ⟨trace, s, run, test⟩ := Run.of_records (step id) (fun _ _ => True) fresh
    [.lock true true none, .release true false true true, .park true false, .expire true,
      .goOn true]
    (fun trace _ => trace.any fun r => r.pre.phase true = .waiting call .parked &&
      r.post.phase true = .idle && (r.post.kernel.sem true).depth true = 0) (by decide)
  refine ⟨trace, s, run, fun regains => ?_⟩
  obtain ⟨r, mem, found⟩ := List.any_eq_true.mp test
  simp only [Bool.and_eq_true, decide_eq_true_eq] at found
  obtain ⟨⟨parked, idle⟩, none⟩ := found
  have once := regains r mem true call .parked parked rfl idle
  cases none.symm.trans once

end Rtai.Lxrt.TimedConditions
