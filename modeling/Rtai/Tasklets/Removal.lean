import Rtai.Tasklets.Round

/-!
# Removed timers

The manager chooses a timer in one section, takes it off the list or puts it in its next place
in another, and calls its handler with no lock held.  A removal in between is not seen: the
handler is called all the same, and a periodic timer that is removed behind the test of
`set_timer_firing_time` is on the list again.

`not_called_when_removed` says that nothing else calls the handler of a removed timer.
-/

namespace Rtai.Tasklets.Removal

open Function Rtai.Lib

/-- The state of `Timers`, and the timer whose handler the manager has to call before it looks
for the next one. -/
structure State (T C : Type) extends Tasklets.State T C where
  handler : Option T := none

/-- The steps of `Timers`, and the call of the handler, or `rt_task_resume` for the task that
calls it. -/
inductive Event (T C : Type) where
  | service (e : Tasklets.Event T C)
  | handler

/-- The step is one of the manager. -/
def manages {T C : Type} : Tasklets.Event T C → Bool
  | .read | .sleepUntil _ | .wake _ | .scan | .fire | .relinkFired => true
  | _ => false

variable {T C : Type} [DecidableEq T] [DecidableEq C]

/-- The timer whose handler is called behind a step of the manager to the given state. -/
def served (e : Tasklets.Event T C) (s s' : Tasklets.State T C) : Option T :=
  match e with
  | .fire => if s'.manager.moves = none then s.manager.fires else none
  | .relinkFired => s.manager.moves
  | _ => none

def step (tol : Int) : Event T C → State T C → Option (State T C)
  | .service e, s =>
      if manages e ∧ s.handler.isSome then none
      else (Tasklets.step tol e s.toState).map fun s' =>
        ⟨s', (served e s.toState s').or s.handler⟩
  | .handler, s => if s.handler.isSome then some { s with handler := none } else none

/-- The manager has chosen the timer, and has not yet called its handler. -/
def Serves (s : State T C) (t : T) : Prop :=
  s.manager.fires = some t ∨ s.manager.moves = some t ∨ s.handler = some t

/-- A timer is not removed while the manager serves it, nor between the test and the lock of
`set_timer_firing_time`.  A task inserts a timer only while no service on it is under way. -/
def Alone (s : State T C) : Event T C → Prop
  | .service (.remove t) => ¬Serves s t ∧ ∀ c, (s.calls c).bind Call.moves ≠ some t
  | .service (.insert _ t _) => s.Unused t
  | _ => True

/-- What a step says of the timer: it is removed, or inserted. -/
def change (t : T) (r : Record (State T C) (Event T C)) : Option Bool :=
  match r.event with
  | .service (.remove u) => if u = t then some true else none
  | .service (.link c) =>
      match r.pre.calls c with
      | some (.linking u _) => if u = t then some false else none
      | _ => none
  | _ => none

/-- The timer was removed, and has not been inserted since. -/
def removed (t : T) (trace : List (Record (State T C) (Event T C))) : Bool :=
  trace.foldl (fun gone r => (change t r).getD gone) false

/-! ## One step -/

/-- The timers of the calls that have still to put them on the list. -/
def places : Call T → Option T
  | .linking t _ | .relinking t _ => some t
  | .correcting _ _ => none

/-- The list has every timer once, those that are served or move are on the list, and a timer
that was removed is neither on the list nor on the way to it. -/
structure Safe (trace : List (Record (State T C) (Event T C))) (s : State T C) : Prop where
  nodup : s.timers.Nodup
  linking : ∀ {c t time}, s.calls c = some (.linking t time) → t ∉ s.timers
  alone : ∀ {c c' t time}, s.calls c = some (.linking t time) →
    (s.calls c').bind places = some t → c' = c
  moves : ∀ {t}, s.manager.moves = some t → t ∈ s.timers
  gone : ∀ t, removed t trace = true → t ∉ s.timers ∧ ¬Serves s t ∧
    ∀ c, (s.calls c).bind Call.moves ≠ some t

section

variable {s s' : State T C} {e : Event T C} {tol time : Int}
  {trace : List (Record (State T C) (Event T C))} {t : T} {c : C} {r : T → T → Prop} {l : List T}

omit [DecidableEq C] in
theorem removed_append (t : T) (r : Record (State T C) (Event T C)) :
    removed t (trace ++ [r]) = (change t r).getD (removed t trace) := by
  rw [removed, List.foldl_append]
  rfl

/-- A step that puts no timer on the list, and begins no service. -/
theorem Safe.leaves {e : Event T C} (safe : Safe trace s) (timers : ∀ t ∈ s'.timers, t ∈ s.timers)
    (nodup : s'.timers.Nodup) (calls : s'.calls = s.calls)
    (moves : ∀ t, s'.manager.moves = some t → t ∈ s'.timers)
    (serves : ∀ t, Serves s' t → Serves s t ∨ t ∈ s.timers)
    (removes : ∀ t, change t ⟨s, e, s'⟩ = none ∨
      t ∉ s'.timers ∧ ¬Serves s' t ∧ ∀ c, (s.calls c).bind Call.moves ≠ some t) :
    Safe (trace ++ [⟨s, e, s'⟩]) s' where
  nodup := nodup
  linking := by
    intro c t time call mem
    rw [calls] at call
    exact safe.linking call (timers t mem)
  alone := by
    intro c c' t time call other
    rw [calls] at call other
    exact safe.alone call other
  moves := fun moves' => moves _ moves'
  gone := by
    intro t gone
    rw [removed_append] at gone
    rw [calls]
    rcases removes t with same | out
    · rw [same] at gone
      obtain ⟨off, idle, still⟩ := safe.gone t gone
      exact ⟨fun mem => off (timers t mem), fun now => (serves t now).elim idle off, still⟩
    · exact out

/-- A timer is put on the list. -/
theorem Safe.puts {e : Event T C} (safe : Safe trace s)
    (mem : ∀ u, u ∈ s'.timers ↔ u = t ∨ u ∈ s.timers) (nodup : s'.timers.Nodup)
    (calls : ∀ c call, s'.calls c = some call → s.calls c = some call ∨ places call = none)
    (placed : ∀ c time, s'.calls c ≠ some (.linking t time))
    (moves : ∀ u, s'.manager.moves = some u → s.manager.moves = some u)
    (serves : ∀ u, Serves s' u → Serves s u) (fresh : removed t (trace ++ [⟨s, e, s'⟩]) = false)
    (others : ∀ u, u ≠ t → change u ⟨s, e, s'⟩ = none) : Safe (trace ++ [⟨s, e, s'⟩]) s' where
  nodup := nodup
  linking := by
    intro c u time call
    rw [mem]
    rintro (rfl | old)
    · exact placed c time call
    · rcases calls c _ call with call | none
      · exact safe.linking call old
      · cases none
  alone := by
    intro c c' u time call other
    rcases calls c _ call with call | none
    · cases other' : s'.calls c' with
      | none =>
          rw [other'] at other
          cases other
      | some call' =>
          rw [other'] at other
          rcases calls c' _ other' with old | none
          · refine safe.alone call ?_
            rw [old]
            exact other
          · cases none.symm.trans other
    · cases none
  moves := by
    intro u now
    exact (mem u).mpr (.inr (safe.moves (moves u now)))
  gone := by
    intro u gone
    rcases eq_or_ne u t with rfl | ne
    · cases fresh.symm.trans gone
    · rw [removed_append, others u ne] at gone
      obtain ⟨off, idle, still⟩ := safe.gone u gone
      refine ⟨?_, fun now => idle (serves u now), fun c now => ?_⟩
      · rw [mem]
        exact fun here => here.elim ne off
      · cases call : s'.calls c with
        | none =>
            rw [call] at now
            cases now
        | some call' =>
            rw [call] at now
            rcases calls c _ call with old | none
            · exact still c (by rw [old]; exact now)
            · cases call' with
              | linking => cases now
              | relinking => cases none
              | correcting => cases now

/-- A service begins, goes on, or ends. -/
theorem Safe.calls {e : Event T C} {call : Option (Call T)} (safe : Safe trace s)
    (timers : s'.timers = s.timers) (manager : s'.manager = s.manager)
    (handler : s'.handler = s.handler) (calls : s'.calls = update s.calls c call)
    (linking : ∀ t time, call = some (.linking t time) → t ∉ s.timers ∧
      ∀ c', (s.calls c').bind places ≠ some t)
    (relinking : ∀ t time, call = some (.relinking t time) → t ∈ s.timers)
    (same : ∀ t, change t ⟨s, e, s'⟩ = none) : Safe (trace ++ [⟨s, e, s'⟩]) s' where
  nodup := timers ▸ safe.nodup
  linking := by
    intro c' t time now
    rw [calls] at now
    rw [timers]
    rcases eq_or_ne c' c with rfl | ne
    · rw [update_self] at now
      exact (linking t time now).1
    · rw [update_of_ne ne] at now
      exact safe.linking now
  alone := by
    intro c₁ c₂ t time h₁ h₂
    rw [calls] at h₁ h₂
    rcases eq_or_ne c c₁ with rfl | ne₁ <;> rcases eq_or_ne c c₂ with rfl | ne₂
    · rfl
    · rw [update_self] at h₁
      rw [update_of_ne ne₂.symm] at h₂
      exact absurd h₂ ((linking t time h₁).2 c₂)
    · rw [update_of_ne ne₁.symm] at h₁
      rw [update_self] at h₂
      cases call with
      | none => cases h₂
      | some call =>
          cases call with
          | linking u time' =>
              cases h₂
              exact absurd (by rw [h₁]; rfl) ((linking t time' rfl).2 c₁)
          | relinking u time' =>
              cases h₂
              exact absurd (relinking t time' rfl) (safe.linking h₁)
          | correcting => cases h₂
    · rw [update_of_ne ne₁.symm] at h₁
      rw [update_of_ne ne₂.symm] at h₂
      exact safe.alone h₁ h₂
  moves := by
    intro t moves
    rw [manager] at moves
    rw [timers]
    exact safe.moves moves
  gone := by
    intro t gone
    rw [removed_append, same] at gone
    obtain ⟨off, idle, still⟩ := safe.gone t gone
    refine ⟨by rwa [timers], by rwa [Serves, manager, handler], fun c' now => ?_⟩
    rw [calls] at now
    rcases eq_or_ne c' c with rfl | ne
    · rw [update_self] at now
      cases call with
      | none => cases now
      | some call =>
          cases call with
          | linking => cases now
          | relinking u time =>
              cases now
              exact off (relinking t time rfl)
          | correcting => cases now
    · rw [update_of_ne ne] at now
      exact still c' now

omit [DecidableEq T] in
/-- A service comes to its last section. -/
theorem corrects_of_update (c : C) (c' : C) (call : Call T)
    (now : update s.calls c (some (.correcting t time)) c' = some call) :
    s.calls c' = some call ∨ places call = none := by
  rcases eq_or_ne c' c with rfl | ne
  · rw [update_self] at now
    cases now
    exact .inr rfl
  · rw [update_of_ne ne] at now
    exact .inl now

omit [DecidableEq C] in
/-- A timer in another place of the list. -/
theorem mem_relinked [DecidableRel r] (nodup : l.Nodup) (u : T) :
    u ∈ enqueue r t (l.erase t) ↔ u = t ∨ u ∈ l := by
  rw [mem_enqueue, nodup.mem_erase_iff]
  rcases eq_or_ne u t with rfl | ne
  · simp
  · simp [ne]

omit [DecidableEq C] in
theorem nodup_relinked [DecidableRel r] (nodup : l.Nodup) : (enqueue r t (l.erase t)).Nodup :=
  enqueue_perm.nodup_iff.mpr (List.nodup_cons.mpr ⟨nodup.not_mem_erase, nodup.erase t⟩)

section

variable (safe : Safe trace s)
include safe

/-- A step of the manager that leaves the list. -/
theorem Safe.manager {e : Event T C} (list : s'.timers = s.timers) (calls : s'.calls = s.calls)
    (handler : s'.handler = none) (moves : s'.manager.moves = none)
    (fires : ∀ t, s'.manager.fires = some t → t ∈ s.timers) (same : ∀ t, change t ⟨s, e, s'⟩ = none) :
    Safe (trace ++ [⟨s, e, s'⟩]) s' := by
  refine safe.leaves (fun t mem => list ▸ mem) (list ▸ safe.nodup) calls (fun t now => ?_)
    (fun t now => ?_) fun t => .inl (same t)
  · cases moves.symm.trans now
  · rcases now with now | now | now
    · exact .inr (fires t now)
    · cases moves.symm.trans now
    · cases handler.symm.trans now

/-! ## The services -/

/-- No other call puts the timer of this one on the list. -/
theorem Safe.placed {call : Call T} (here : s.calls c = some call) (moves : places call = some t)
    (c' : C) (time' : Int) :
    update s.calls c (some (.correcting t time)) c' ≠ some (.linking t time') := by
  intro now
  rcases eq_or_ne c' c with rfl | ne
  · rw [update_self] at now
    cases now
  · rw [update_of_ne ne] at now
    have other : (s.calls c).bind places = some t := by rw [here]; exact moves
    exact ne (safe.alone now other).symm

variable {next : Tasklets.State T C} {handler : Option T}

/-- A new timer is put on the list. -/
theorem Safe.link (h : Tasklets.step tol (.link c) s.toState = some next) :
    Safe (trace ++ [⟨s, .service (.link c), ⟨next, s.handler⟩⟩]) ⟨next, s.handler⟩ := by
  dsimp only [Tasklets.step] at h
  split at h
  next t time call =>
    obtain ⟨-, h⟩ := Option.ite_none_right_eq_some.mp h
    cases h
    have off := safe.linking call
    refine safe.puts (t := t) (fun u => mem_enqueue)
      (enqueue_perm.nodup_iff.mpr (List.nodup_cons.mpr ⟨off, safe.nodup⟩))
      (corrects_of_update c) (safe.placed call rfl) (fun _ => id) (fun _ => id) ?_ fun u ne => ?_
    · rw [removed_append]
      simp [change, call]
    · simp [change, call, ne.symm]
  next => cases h

/-- A timer is put in the place of its new time. -/
theorem Safe.relink (h : Tasklets.step tol (.relink c) s.toState = some next) :
    Safe (trace ++ [⟨s, .service (.relink c), ⟨next, s.handler⟩⟩]) ⟨next, s.handler⟩ := by
  dsimp only [Tasklets.step] at h
  split at h
  next t time call =>
    obtain ⟨-, h⟩ := Option.ite_none_right_eq_some.mp h
    cases h
    refine safe.puts (t := t) (mem_relinked safe.nodup) (nodup_relinked safe.nodup)
      (corrects_of_update c) (safe.placed call rfl) (fun _ => id) (fun _ => id) ?_ fun _ _ => rfl
    rw [removed_append]
    refine Bool.eq_false_of_not_eq_true fun gone => ?_
    exact (safe.gone t gone).2.2 c (by rw [call]; rfl)
  next => cases h

/-- The manager takes a timer off the list, or reads its next time. -/
theorem Safe.fire (h : Tasklets.step tol .fire s.toState = some next) (free : s.handler = none)
    (same : handler = (served .fire s.toState next).or s.handler) :
    Safe (trace ++ [⟨s, .service .fire, ⟨next, handler⟩⟩]) ⟨next, handler⟩ := by
  subst same
  dsimp only [Tasklets.step] at h
  split at h
  next now t manager =>
    have fires : s.manager.fires = some t := congrArg Manager.fires manager
    -- the handler of this timer is called behind the step
    have serves {m : Tasklets.State T C} (moves : m.manager.moves = none)
        (idle : m.manager.fires = none) (u : T)
        (now : Serves ⟨m, (served .fire s.toState m).or s.handler⟩ u) : Serves s u := by
      rcases now with now | now | now
      · cases idle.symm.trans now
      · cases moves.symm.trans now
      · have same : some t = some u := by simpa [served, moves, fires] using now
        cases same
        exact .inl fires
    split at h
    next once =>
      cases h
      exact safe.leaves (fun u => List.mem_of_mem_erase) (safe.nodup.erase t) rfl
        (fun _ e => by cases e) (fun u now => .inl (serves rfl rfl u now)) fun _ => .inl rfl
    next periodic =>
      split at h
      next mem =>
        cases h
        refine safe.leaves (fun _ => id) safe.nodup rfl (fun u moves => ?_) (fun u now => ?_)
          fun _ => .inl rfl
        · cases moves
          exact mem
        · rcases now with now | now | now
          · cases now
          · cases now
            exact .inr mem
          · cases free.symm.trans now
      next off =>
        cases h
        exact safe.leaves (fun _ => id) safe.nodup rfl (fun _ e => by cases e)
          (fun u now => .inl (serves rfl rfl u now)) fun _ => .inl rfl
  next => cases h

/-- The manager puts a periodic timer in its next place. -/
theorem Safe.relinkFired (h : Tasklets.step tol .relinkFired s.toState = some next)
    (same : handler = (served .relinkFired s.toState next).or s.handler) :
    Safe (trace ++ [⟨s, .service .relinkFired, ⟨next, handler⟩⟩]) ⟨next, handler⟩ := by
  subst same
  dsimp only [Tasklets.step] at h
  split at h
  next now t time manager =>
    obtain ⟨-, h⟩ := Option.ite_none_right_eq_some.mp h
    cases h
    have moves : s.manager.moves = some t := congrArg Manager.moves manager
    refine safe.puts (t := t) (mem_relinked safe.nodup) (nodup_relinked safe.nodup)
      (fun _ _ => .inl) (fun c time call => safe.linking call (safe.moves moves))
      (fun _ e => by cases e) (fun u now => ?_) ?_ fun _ _ => rfl
    · have same : some t = some u := by
        rcases now with now | now | now
        · cases now
        · cases now
        · simpa [served, moves] using now
      cases same
      exact .inr (.inl moves)
    · rw [removed_append]
      refine Bool.eq_false_of_not_eq_true fun gone => ?_
      exact (safe.gone t gone).2.1 (.inr (.inl moves))
  next => cases h

theorem Safe.service {e : Tasklets.Event T C} (guard : Alone s (.service e))
    (h : Tasklets.step tol e s.toState = some s'.toState) (free : manages e → s.handler = none)
    (handler : s'.handler = (served e s.toState s'.toState).or s.handler) :
    Safe (trace ++ [⟨s, .service e, s'⟩]) s' := by
  obtain ⟨s', h'⟩ := s'
  dsimp only at h handler
  subst handler
  cases e with
  | insert c t v =>
      obtain ⟨⟨-, off⟩, h⟩ := Option.ite_none_right_eq_some.mp h
      cases h
      refine safe.calls (c := c) rfl rfl rfl rfl ?_ (fun _ _ e => by cases e) fun _ => rfl
      rintro _ _ ⟨⟩
      refine ⟨off, fun c' places => guard c' ?_⟩
      cases call : s.calls c' with
      | none =>
          rw [call] at places
          cases places
      | some call' =>
          rw [call] at places
          cases call' <;> cases places <;> rfl
  | link c => exact safe.link h
  | retime c t time =>
      obtain ⟨-, h⟩ := Option.ite_none_right_eq_some.mp h
      split at h
      next mem =>
        cases h
        refine safe.calls (c := c) rfl rfl rfl rfl (fun _ _ e => by cases e) ?_ fun _ => rfl
        rintro _ _ ⟨⟩
        exact mem
      next =>
        cases h
        exact safe.calls (c := c) rfl rfl rfl rfl (fun _ _ e => by cases e) (fun _ _ e => by cases e)
          fun _ => rfl
  | relink c => exact safe.relink h
  | correct c =>
      dsimp only [Tasklets.step] at h
      split at h
      next t time call =>
        cases h
        have same : (s.toState.correct t time).timers = s.timers ∧
            (s.toState.correct t time).manager = s.manager ∧
            (s.toState.correct t time).calls = s.calls := by
          unfold Tasklets.State.correct
          split <;> exact ⟨rfl, rfl, rfl⟩
        have calls : ((s.toState.correct t time).setCall c none).calls = update s.calls c none := by
          show update (s.toState.correct t time).calls c none = update s.calls c none
          rw [same.2.2]
        exact safe.calls same.1 same.2.1 rfl calls (fun _ _ e => by cases e) (fun _ _ e => by cases e)
          fun _ => rfl
      next => cases h
  | remove t =>
      cases h
      refine safe.leaves (fun u => List.mem_of_mem_erase) (safe.nodup.erase t) rfl (fun u moves => ?_)
        (fun u => .inl) fun u => ?_
      · refine (List.mem_erase_of_ne ?_).mpr (safe.moves moves)
        rintro rfl
        exact guard.1 (.inr (.inl moves))
      · rcases eq_or_ne t u with rfl | ne
        · exact .inr ⟨safe.nodup.not_mem_erase, guard⟩
        · exact .inl (if_neg ne)
  | read =>
      dsimp only [Tasklets.step] at h
      split at h
      next =>
        cases h
        exact safe.manager rfl rfl (free rfl) rfl (fun _ e => by cases e) fun _ => rfl
      next => cases h
  | sleepUntil timeH =>
      dsimp only [Tasklets.step] at h
      split at h
      next =>
        cases h
        refine safe.manager rfl rfl (free rfl) ?_ (fun t fires => ?_) fun _ => rfl
        · dsimp only
          split <;> rfl
        · dsimp only at fires
          split at fires <;> cases fires
      next => cases h
  | wake timeH =>
      dsimp only [Tasklets.step] at h
      split at h
      next =>
        obtain ⟨-, h⟩ := Option.ite_none_right_eq_some.mp h
        cases h
        exact safe.manager rfl rfl (free rfl) rfl (fun _ e => by cases e) fun _ => rfl
      next => cases h
  | scan =>
      dsimp only [Tasklets.step] at h
      split at h
      next now manager =>
        obtain ⟨-, h⟩ := Option.ite_none_right_eq_some.mp h
        cases h
        cases due : s.toState.due now with
        | none => exact safe.manager rfl rfl (free rfl) rfl (fun _ e => by cases e) fun _ => rfl
        | some t =>
            refine safe.manager rfl rfl (free rfl) rfl ?_ fun _ => rfl
            rintro _ ⟨⟩
            exact (due_some due).1
      next => cases h
  | fire => exact safe.fire h (free rfl) rfl
  | relinkFired => exact safe.relinkFired h rfl

theorem Safe.step {e : Event T C} (guard : Alone s e) (h : Removal.step tol e s = some s') :
    Safe (trace ++ [⟨s, e, s'⟩]) s' := by
  cases e with
  | service e =>
      obtain ⟨free, h⟩ := Option.ite_none_left_eq_some.mp h
      obtain ⟨next, stepped, same⟩ := Option.map_eq_some_iff.mp h
      subst same
      refine safe.service guard stepped (fun manages => ?_) rfl
      exact Option.not_isSome_iff_eq_none.mp fun pending => free ⟨manages, pending⟩
  | handler =>
      obtain ⟨-, h⟩ := Option.ite_none_right_eq_some.mp h
      cases h
      refine safe.leaves (fun _ => id) safe.nodup rfl (fun _ => safe.moves) (fun t now => .inl ?_)
        fun _ => .inl rfl
      rcases now with now | now | now
      · exact .inl now
      · exact .inr (.inl now)
      · cases now

end

omit [DecidableEq T] [DecidableEq C] in
/-- A new list, with no handler to be called. -/
theorem Safe.initial [DecidableEq T] (init : s.toState.Initial) (idle : s.handler = none) :
    Safe [] s where
  nodup := by simp [init.timers]
  linking := by simp [init.calls]
  alone := by simp [init.calls]
  moves := by
    intro t moves
    rw [init.manager] at moves
    cases moves
  gone := by
    intro t gone
    cases gone

/-- In every run in which a timer is removed only while the manager does not serve it and its
firing time is not being set, the handler of a timer that was removed is not called before the
timer is inserted again, and no timer is twice on the list. -/
theorem not_called_when_removed {s₀ : State T C} (init : s₀.toState.Initial)
    (idle : s₀.handler = none) (run : Run (Removal.step tol) Alone s₀ trace s) :
    (∀ before r behind, trace = before ++ r :: behind → r.event = .handler →
      ∀ t ∈ r.pre.handler, removed t before = false) ∧ s.timers.Nodup := by
  have safe {tr : List (Record (State T C) (Event T C))} {s : State T C}
      (run : Run (Removal.step tol) Alone s₀ tr s) : Safe tr s :=
    run.history (.initial init idle) fun safe guard h => safe.step guard h
  refine ⟨fun before r behind here _ t handler => ?_, (safe run).nodup⟩
  refine Bool.eq_false_of_not_eq_true fun gone => ?_
  exact ((safe (run.before here).1).gone t gone).2.1 (.inr (.inr handler))

end

/-! ## Runs of one timer -/

instance (s : State Unit Unit) (t : Unit) : Decidable (Serves s t) :=
  inferInstanceAs (Decidable (_ ∨ _ ∨ _))

instance (s : State Unit Unit) : ∀ e, Decidable (Alone s e)
  | .service (.remove t) =>
      inferInstanceAs (Decidable (¬Serves s t ∧ ∀ c, (s.calls c).bind Call.moves ≠ some t))
  | .service (.insert _ t _) =>
      inferInstanceAs (Decidable (∀ c, (s.calls c).map Call.timer ≠ some t))
  | .handler | .service (.link _) | .service (.retime _ _ _) | .service (.relink _)
  | .service (.correct _) | .service .read | .service (.sleepUntil _) | .service (.wake _)
  | .service .scan | .service .fire | .service .relinkFired => inferInstanceAs (Decidable True)

/-- An empty list. -/
def fresh : State Unit Unit where
  timer := fun _ => ⟨0, 0, 0⟩

theorem fresh_initial : fresh.toState.Initial := ⟨rfl, rfl, fun _ => rfl⟩

/-- A timer is inserted, and chosen by the manager. -/
def chosen (period : Int) : List (Event Unit Unit) :=
  [.service (.insert () () ⟨1, 5, period⟩), .service (.link ()), .service (.correct ()),
    .service .read, .service (.sleepUntil 0), .service (.wake 5), .service .scan]

/-- A periodic timer is removed behind its handler, and inserted again. -/
theorem not_called_when_removed_twice : ∃ trace s, Run (step 0) Alone fresh trace s ∧
    s.timers = [()] ∧ (∀ before r behind, trace = before ++ r :: behind → r.event = .handler →
      ∀ t ∈ r.pre.handler, removed t before = false) ∧ s.timers.Nodup := by
  obtain ⟨trace, s, run, test⟩ := Run.of_execute (step 0) Alone fresh
    (chosen 7 ++ [.service .fire, .service .relinkFired, .handler, .service (.remove ()),
      .service (.insert () () ⟨1, 9, 7⟩), .service (.link ())])
    (fun s => s.timers == [()]) (by decide)
  exact ⟨trace, s, run, by simpa using test, not_called_when_removed fresh_initial rfl run⟩

/-- A timer is removed behind the choice of the manager, and its handler is called. -/
theorem called_when_removed : ∃ trace s, Run (step 0) (fun _ _ => True) fresh trace s ∧
    ¬∀ before r behind, trace = before ++ r :: behind → r.event = .handler →
      ∀ t ∈ r.pre.handler, removed t before = false := by
  obtain ⟨before, s, run, test⟩ := Run.of_records (step 0) (fun _ _ => True) fresh
    (chosen 0 ++ [.service (.remove ()), .service .fire])
    (fun trace s => removed () trace && s.handler == some ()) (by decide)
  rw [Bool.and_eq_true, beq_iff_eq] at test
  obtain ⟨gone, handler⟩ := test
  have called : step 0 .handler s = some { s with handler := none } := by
    simp [step, handler]
  refine ⟨_, _, run.snoc trivial called, fun never => ?_⟩
  cases gone.symm.trans (never before _ [] rfl rfl () handler)

end Rtai.Tasklets.Removal
