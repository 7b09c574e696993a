import Rtai.Lib.Run
import Rtai.Lxrt.Mutexes

/-!
# POSIX-like mutexes

The `rt_pmutex` calls of `rtai_sched.h` on any number of mutexes, each a resource semaphore.
The state counts the lock calls of a task that have returned 0 and the unlocks of what it
owned, beside the levels that the semaphore has for its owner.

`rt_sem_wait_if` of the owner adds a level and returns 0, which `rt_pmutex_trylock` takes for
a refusal, and `rt_sem_signal` takes a level from the owner whoever calls it.
-/

namespace Rtai.Lxrt.Pmutex

open Function Rtai.Lib

def EBUSY : Int := 16
def EINVAL : Int := 22

/-- `rt_pmutex_lock`, from what the wait returns. -/
def rtPmutexLock (ret : Int) : Int := if ret < SEM_TIMOUT then 0 else -EINVAL

/-- `rt_pmutex_timedlock`. -/
def rtPmutexTimedlock (ret : Int) : Int := if ret < SEM_TIMOUT then 0 else -1

/-- `rt_pmutex_trylock`. -/
def rtPmutexTrylock (ret : Int) : Int := if ret > 0 then 0 else -EBUSY

/-- The first two. -/
def lockReturns (timed : Bool) (ret : Int) : Int :=
  if timed then rtPmutexTimedlock ret else rtPmutexLock ret

/-- The semaphores and tasks, the wait that a task is in, and the counts of its calls. -/
structure State (S T : Type) where
  kernel : Kernel S T
  waits : T → Option (S × Bool)
  /-- The lock calls that have returned 0. -/
  locks : T → S → Nat
  /-- The unlocks of a mutex that the task owned. -/
  unlocks : T → S → Nat

/-- The calls, a timer, and a task going on behind `rt_schedule`.  `how` is whether a lock is
timed, and then whether it is late. -/
inductive Event (S T : Type) where
  | lock (self : T) (m : S) (how : Option Bool)
  | trylock (self : T) (m : S)
  | unlock (self : T) (m : S)
  | goOn (self : T)
  | expire (t : T)
  | priority (t : T) (p : Int)

namespace State

variable {S T : Type}

/-- New mutexes, with every task ready and in no call. -/
structure Initial (s : State S T) : Prop where
  mutex : ∀ m, s.kernel.sem m = rtTypedSemInit 1 .RES_SEM
  ready : ∀ t, (s.kernel.task t).Ready
  waits : ∀ t, s.waits t = none
  locks : ∀ t m, s.locks t m = 0
  unlocks : ∀ t m, s.unlocks t m = 0

/-- The mutex is free, or given to a task that waits for it and has still to run. -/
def Available (m : S) (s : State S T) : Prop :=
  (s.kernel.sem m).count > 0 ∨ ∃ t, s.kernel.Handed s.waits m t

variable [DecidableEq S] [DecidableEq T]

/-- A lock call returns. -/
def returns (self : T) (m : S) (ret : Int) (s : State S T) : State S T :=
  if ret = 0 then
    { s with locks := update s.locks self (update (s.locks self) m (s.locks self m + 1)) }
  else s

def lock (self : T) (m : S) (how : Option Bool) (s : State S T) : State S T :=
  let (k, ret) := s.kernel.waitFor how m self
  let s := { s with kernel := k }
  match ret with
  | none => { s with waits := update s.waits self (some (m, how.isSome)) }
  | some ret => s.returns self m (lockReturns how.isSome ret)

def trylock (self : T) (m : S) (s : State S T) : State S T :=
  let (k, ret) := s.kernel.rtSemWaitIf m self
  { s with kernel := k }.returns self m (rtPmutexTrylock ret)

/-- `rt_pmutex_unlock`; `rt_sem_signal` returns 0. -/
def unlock (self : T) (m : S) (s : State S T) : State S T :=
  { s with
    kernel := s.kernel.rtSemSignal m
    unlocks := if (s.kernel.sem m).owndby = some self then
        update s.unlocks self (update (s.unlocks self) m (s.unlocks self m + 1))
      else s.unlocks }

/-- A lock call behind `rt_schedule`. -/
def goOn (self : T) (m : S) (timed : Bool) (s : State S T) : State S T :=
  let (k, ret) := s.kernel.waitForEnd timed m self
  { s with kernel := k, waits := update s.waits self none }.returns self m (lockReturns timed ret)

end State

variable {S T : Type} [DecidableEq S] [DecidableEq T]

/-- A task calls only outside a call. -/
def step : Event S T → State S T → Option (State S T)
  | .lock self m how, s => if s.waits self = none then some (s.lock self m how) else none
  | .trylock self m, s => if s.waits self = none then some (s.trylock self m) else none
  | .unlock self m, s => if s.waits self = none then some (s.unlock self m) else none
  | .goOn self, s =>
      if (s.kernel.task self).Ready then
        match s.waits self with
        | some (m, timed) => some (s.goOn self m timed)
        | none => none
      else none
  | .expire t, s =>
      if (s.kernel.task t).delayed then some { s with kernel := s.kernel.expire t } else none
  | .priority t p, s => some { s with kernel := s.kernel.changePriority t p }

/-- Each lock call that has returned 0 has given its task a level, no other has, and a mutex is
available to others when its levels have all been given back. -/
structure Accounted (s : State S T) : Prop where
  levels : ∀ m t, (s.kernel.sem m).depth t = s.locks t m - s.unlocks t m
  available : ∀ m, s.Available m ↔ ∀ t, s.locks t m = s.unlocks t m

/-- The owner does not try the mutex, and nobody else unlocks it. -/
def Proper (s : State S T) : Event S T → Prop
  | .trylock self m => (s.kernel.sem m).owndby ≠ some self
  | .unlock self m => (s.kernel.sem m).owndby = some self ∨ (s.kernel.sem m).count > 0
  | _ => True

instance (s : State S T) : (e : Event S T) → Decidable (Proper s e)
  | .trylock _ _ => inferInstanceAs (Decidable (_ ≠ _))
  | .unlock _ _ => inferInstanceAs (Decidable (_ ∨ _))
  | .lock .. | .goOn _ | .expire _ | .priority .. => inferInstanceAs (Decidable True)

/-! ## Steps -/

/-- The semaphores are mutexes, with the levels counted. -/
structure Ok (s : State S T) : Prop where
  mutexes : Mutexes (fun _ => true) s.waits s.kernel
  levels : ∀ m t, (s.kernel.sem m).depth t = s.locks t m - s.unlocks t m

section

variable {s s' : State S T} {self t : T} {m i : S} {how : Option Bool} {timed : Bool}
  {k : Kernel S T} {ret : Int} {waits : T → Option (S × Bool)} {got : Prop}

omit [DecidableEq S] in
/-- Who has no level does not own the mutex, and if all have none nobody owns it. -/
theorem unowned_iff (mutexes : Mutexes (fun _ => true) s.waits s.kernel) :
    (s.kernel.sem m).owndby = none ↔ ∀ t, (s.kernel.sem m).depth t = 0 := by
  have deep := (mutexes.resource m rfl).deep
  constructor
  · intro unowned t
    rw [Sem.depth, unowned, if_neg (Option.some_ne_none t).symm]
  · intro none
    by_contra owned
    obtain ⟨t, owned⟩ := Option.ne_none_iff_exists'.mp owned
    have level := none t
    rw [Sem.depth, if_pos owned] at level
    omega

theorem Ok.accounted (ok : Ok s) : Accounted s := by
  refine ⟨ok.levels, fun m => ?_⟩
  have resource := ok.mutexes.resource m rfl
  have all : (∀ t, s.locks t m = s.unlocks t m) ↔ ∀ t, (s.kernel.sem m).depth t = 0 := by
    refine forall_congr' fun t => ?_
    rw [ok.levels]
    omega
  rw [all, ← unowned_iff ok.mutexes]
  constructor
  · intro available
    by_contra owned
    obtain ⟨t, owned⟩ := Option.ne_none_iff_exists'.mp owned
    rcases available with free | ⟨u, handed⟩
    · exact resource.busy owned free
    · exact resource.not_handed owned handed
  · intro unowned
    by_cases free : (s.kernel.sem m).count > 0
    · exact .inl free
    · exact .inr (resource.handed free unowned)

/-- A lock call that returns 0 is counted where its level has been given. -/
theorem levels_returns [Decidable got] (ok : Ok s) (result : ret = 0 ↔ got)
    (depth : ∀ i t, (k.sem i).depth t =
      (s.kernel.sem i).depth t + if i = m ∧ t = self ∧ got then 1 else 0) (i : S) (t : T) :
    (k.sem i).depth t =
      (State.returns self m ret { s with kernel := k, waits := waits }).locks t i -
        (State.returns self m ret { s with kernel := k, waits := waits }).unlocks t i := by
  have levels := ok.levels i t
  rw [depth, levels]
  by_cases zero : ret = 0
  · rw [State.returns, if_pos zero]
    dsimp only
    rcases eq_or_ne t self with rfl | other
    · rcases eq_or_ne i m with rfl | elsewhere
      · rw [update_self, update_self, if_pos ⟨rfl, rfl, result.mp zero⟩]
        omega
      · rw [update_self, update_of_ne elsewhere, if_neg fun same => elsewhere same.1, Int.add_zero]
    · rw [update_of_ne other, if_neg fun same => other same.2.1, Int.add_zero]
  · have missed := zero ∘ result.mpr
    rw [State.returns, if_neg zero, if_neg fun same => missed same.2.2, Int.add_zero]

theorem returns_kernel : (s.returns self m ret).kernel = s.kernel := by
  rw [State.returns]
  split <;> rfl

theorem returns_waits : (s.returns self m ret).waits = s.waits := by
  rw [State.returns]
  split <;> rfl

/-- A lock call returns. -/
theorem Ok.returns [Decidable got] (ok : Ok s) (mutexes : Mutexes (fun _ => true) waits k)
    (result : ret = 0 ↔ got)
    (depth : ∀ i t, (k.sem i).depth t =
      (s.kernel.sem i).depth t + if i = m ∧ t = self ∧ got then 1 else 0) :
    Ok (State.returns self m ret { s with kernel := k, waits := waits }) where
  mutexes := by
    rw [returns_kernel, returns_waits]
    exact mutexes
  levels := by
    intro i t
    rw [returns_kernel]
    exact levels_returns ok result depth i t

theorem lockReturns_eq_zero : lockReturns timed ret = 0 ↔ ret < SEM_TIMOUT := by
  rw [lockReturns, rtPmutexTimedlock, rtPmutexLock]
  split <;> split <;> simp_all [EINVAL]

theorem Ok.lock (ok : Ok s) (idle : s.waits self = none) : Ok (s.lock self m how) := by
  have off : self ∉ (s.kernel.sem m).queue := ok.mutexes.linked.off idle m
  have h := Kernel.waitFor_cases how off
  have mutexes := ok.mutexes.wait idle h
  have depth := fun i t => ok.mutexes.depth_wait (i := i) rfl h t
  rw [State.lock]
  generalize s.kernel.waitFor how m self = result at h mutexes depth
  obtain ⟨k, _ | ret⟩ := result
  · refine ⟨mutexes, fun i t => ?_⟩
    have level := depth i t
    rw [if_neg (by simp), Int.add_zero] at level
    exact level.trans (ok.levels i t)
  · have same : update s.waits self none = s.waits := by
      rw [← idle, update_eq_self]
    rw [if_neg nofun, same] at mutexes
    refine ok.returns mutexes ?_ depth
    rw [lockReturns_eq_zero, Option.any_some, decide_eq_true_iff]

/-- What a wait returns that does not nest. -/
theorem wait_count {k' : Kernel S T} (h : k.Wait none m self k' (some ret))
    (other : (k.sem m).owndby ≠ some self) : ret > 0 ∧ ret = (k.sem m).count := by
  cases h with
  | takes free => exact ⟨free, rfl⟩
  | nested _ _ mine => exact absurd mine other
  | late timed => cases timed

/-- Another than the owner has a level if it is told so. -/
theorem Ok.trylock (ok : Ok s) (idle : s.waits self = none)
    (other : (s.kernel.sem m).owndby ≠ some self) : Ok (s.trylock self m) := by
  have same : update s.waits self none = s.waits := by
    rw [← idle, update_eq_self]
  rw [State.trylock]
  rcases Kernel.rtSemWaitIf_cases s.kernel m self with ⟨busy, -, refused⟩ | ⟨h, -⟩
  · rw [refused]
    have result : rtPmutexTrylock (s.kernel.sem m).count = 0 ↔ False := by
      rw [rtPmutexTrylock, if_neg busy]
      decide
    refine ok.returns ok.mutexes result fun i t => ?_
    rw [if_neg fun got => got.2.2, Int.add_zero]
  · have mutexes := ok.mutexes.wait idle h
    have depth := fun i t => ok.mutexes.depth_wait (i := i) rfl h t
    have count := wait_count h other
    have cap := (ok.mutexes.resource m rfl).cap
    have late : (1 : Int) < SEM_TIMOUT := by decide
    rw [if_neg nofun, same] at mutexes
    generalize s.kernel.rtSemWaitIf m self = result at mutexes depth count ⊢
    obtain ⟨k, ret⟩ := result
    obtain ⟨free, count⟩ := count
    refine ok.returns mutexes ?_ depth
    rw [rtPmutexTrylock, if_pos free, Option.any_some, decide_eq_true_iff]
    exact iff_of_true rfl (by omega)

/-- The owner gives one level back, and a mutex that is free stays free. -/
theorem Ok.unlock (ok : Ok s)
    (proper : (s.kernel.sem m).owndby = some self ∨ (s.kernel.sem m).count > 0) :
    Ok (s.unlock self m) := by
  have signal := Kernel.rtSemSignal_cases (k := s.kernel) (i := m)
  rcases proper with owned | free
  · have depth := fun i t => ok.mutexes.depth_signal (i := i) rfl signal t
    refine ⟨ok.mutexes.signal (fun _ => ⟨self, owned⟩) signal, fun i t => ?_⟩
    rw [State.unlock]
    dsimp only
    rw [if_pos owned, depth, ok.levels]
    rcases eq_or_ne t self with rfl | other
    · rcases eq_or_ne i m with rfl | elsewhere
      · rw [update_self, update_self, if_pos ⟨rfl, owned⟩]
        omega
      · rw [update_self, update_of_ne elsewhere, if_neg fun same => elsewhere same.1, Int.sub_zero]
    · rw [update_of_ne other, if_neg, Int.sub_zero]
      rintro ⟨rfl, mine⟩
      exact other (Option.some.inj (mine.symm.trans owned))
  · have unowned : (s.kernel.sem m).owndby = none := by
      by_contra owned
      obtain ⟨t, owned⟩ := Option.ne_none_iff_exists'.mp owned
      exact (ok.mutexes.resource m rfl).busy owned free
    have kept : s.kernel.rtSemSignal m = s.kernel := ok.mutexes.signal_free rfl free
    have same : s.unlock self m = s := by
      rw [State.unlock, kept, if_neg (by rw [unowned]; nofun)]
    rw [same]
    exact ok

theorem Ok.goOn (ok : Ok s) (inside : s.waits self = some (m, timed))
    (ready : (s.kernel.task self).Ready) : Ok (s.goOn self m timed) := by
  have h := Kernel.waitForEnd_cases s.kernel m self timed
  have mutexes := ok.mutexes.waitEnd inside ready h
  have depth := fun i t => ok.mutexes.depth_waitEnd (i := i) rfl inside ready h t
  rw [State.goOn]
  exact ok.returns mutexes lockReturns_eq_zero depth

theorem Ok.step {e : Event S T} (ok : Ok s) (proper : Proper s e) (stepped : step e s = some s') :
    Ok s' := by
  cases e with
  | lock self m how =>
      obtain ⟨idle, rfl⟩ := (Option.ite_none_right_eq_some.mp stepped).imp id Option.some.inj
      exact ok.lock idle
  | trylock self m =>
      obtain ⟨idle, rfl⟩ := (Option.ite_none_right_eq_some.mp stepped).imp id Option.some.inj
      exact ok.trylock idle proper
  | unlock self m =>
      obtain ⟨-, rfl⟩ := (Option.ite_none_right_eq_some.mp stepped).imp id Option.some.inj
      exact ok.unlock proper
  | goOn self =>
      obtain ⟨ready, goes⟩ := Option.ite_none_right_eq_some.mp stepped
      split at goes
      next m timed inside =>
        cases goes
        exact ok.goOn inside ready
      next => cases goes
  | expire t =>
      obtain ⟨delayed, rfl⟩ := (Option.ite_none_right_eq_some.mp stepped).imp id Option.some.inj
      exact ⟨ok.mutexes.expire delayed, ok.levels⟩
  | priority t p =>
      cases stepped
      refine ⟨ok.mutexes.changePriority, fun i u => ?_⟩
      rw [← ok.levels]
      dsimp only
      rcases (Kernel.changePriority_spec s.kernel t p).2 i with same | ⟨-, -, queue, -, moved⟩
      · rw [same]
      · rw [moved]
        rfl

end

/-- As long as the owner does not try the mutex and nobody else unlocks it, the calls that return
0 are the levels that the tasks have, and a mutex is available when none is left. -/
theorem pmutexes_accounted {s₀ s : State S T} {tr : List (Record (State S T) (Event S T))}
    (initial : s₀.Initial) (run : Run step Proper s₀ tr s) : Accounted s := by
  refine (run.invariant (P := Ok) ⟨?_, fun m t => ?_⟩ Ok.step).accounted
  · exact .initial initial.ready initial.waits nofun fun m _ => initial.mutex m
  · rw [initial.mutex, initial.locks, initial.unlocks]
    rfl

/-- One mutex and two tasks. -/
def fresh : State Unit Bool where
  kernel := { sem := fun _ => rtTypedSemInit 1 .RES_SEM, task := fun _ => {} }
  waits := fun _ => none
  locks := fun _ _ => 0
  unlocks := fun _ _ => 0

theorem fresh_initial : fresh.Initial :=
  ⟨fun _ => rfl, fun _ => ⟨rfl, rfl⟩, fun _ => rfl, fun _ _ => rfl, fun _ _ => rfl⟩

/-- A task locks the mutex twice, and another gets it after two unlocks. -/
theorem pmutexes_accounted_fresh : ∃ s : State Unit Bool,
    Accounted s ∧ s.locks true () = 1 ∧ (s.kernel.sem ()).owndby = some true := by
  obtain ⟨tr, s, run, here⟩ := Run.of_execute step Proper fresh
    [.lock false () none, .lock false () (some false), .lock true () none, .unlock false (),
      .unlock false (), .goOn true]
    (fun s => s.locks true () = 1 ∧ (s.kernel.sem ()).owndby = some true) (by decide)
  exact ⟨s, pmutexes_accounted fresh_initial run, of_decide_eq_true here⟩

/-- The owner tries the mutex: it is refused, and has a second level. -/
theorem not_accounted_tried : ¬∀ (s₀ s : State Unit Bool)
    (tr : List (Record (State Unit Bool) (Event Unit Bool))), s₀.Initial →
    Run step (fun _ _ => True) s₀ tr s → Accounted s := by
  intro accounted
  obtain ⟨tr, s, run, here⟩ := Run.of_execute step (fun _ _ => True) fresh
    [.lock false () none, .trylock false ()]
    (fun s => (s.kernel.sem ()).depth false = 2 ∧ s.locks false () = 1 ∧ s.unlocks false () = 0)
    (by decide)
  obtain ⟨depth, locks, unlocks⟩ := of_decide_eq_true here
  have levels := (accounted fresh s tr fresh_initial run).levels () false
  rw [depth, locks, unlocks] at levels
  cases levels

end Rtai.Lxrt.Pmutex
