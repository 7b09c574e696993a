import Rtai.Tasklets.Overslept
import Mathlib.Data.List.TakeWhile
import Mathlib.Algebra.BigOperators.Group.Finset.Basic
import Mathlib.Algebra.Order.Ring.Int
import Mathlib.Algebra.Order.BigOperators.Group.Finset

/-!
# One round of the timers manager

The manager fires the due timer of the most urgent priority until none is left, with nobody
else at the list.  Its search starts from `RT_LOWEST_PRIORITY` and takes a timer only if it is
more urgent than that.  Neither the search for a due timer nor the one for the place of a
timer ends at the head of the list when the time they compare with is `RT_TIME_END`.

`timers_fired` says what is left: a round does what it should just when every due timer is
more urgent than `RT_LOWEST_PRIORITY`, and gets beyond `now` before the end of time.  The
invariant relates each timer to the number of times it was fired.
-/

namespace Rtai.Tasklets

open Function Rtai.Lib

variable {T C : Type} {l : List T}

/-- The manager's steps from the search on. -/
def InRound (_ : State T C) : Event T C → Prop
  | .scan | .fire | .relinkFired => True
  | _ => False

/-- The timer whose handler is called by the step. -/
def fires : Event T C → State T C → Option T
  | .fire, s => s.manager.fires
  | _, _ => none

/-- The timers whose handlers are called, in this order. -/
def fired (trace : List (Record (State T C) (Event T C))) : List T :=
  trace.filterMap fun r => fires r.event r.pre

/-- The firing time after so many periods. -/
def Timer.timeAfter (v : Timer) : Nat → Int
  | 0 => v.firingTime
  | n + 1 => addTime (v.timeAfter n) v.period

/-- How often a due timer is fired up to `now`. -/
def Timer.rounds (v : Timer) (now : Int) : Nat :=
  if v.period = 0 then 1 else ((now - v.firingTime) / v.period + 1).toNat

namespace State

def priority (s : State T C) (t : T) : Int := (s.timer t).priority

def period (s : State T C) (t : T) : Int := (s.timer t).period

/-- The manager starts to look for the timers that are due at `now`, in a list that is in
order and that nobody else uses. -/
structure Begins (s : State T C) (now : Int) : Prop where
  manager : s.manager = .scanning now
  calls : ∀ c, s.calls c = none
  nodup : s.timers.Nodup
  sorted : InOrder (fun a b => s.firingTime a ≤ s.firingTime b) s.timers
  range : ∀ t ∈ s.timers, -2 ^ 63 ≤ s.firingTime t

/-- Every due timer is found, and its next time can be stored. -/
def Regular (s : State T C) (now : Int) : Prop :=
  now < RT_TIME_END ∧ ∀ t ∈ s.timers, s.firingTime t ≤ now →
    s.priority t < RT_LOWEST_PRIORITY ∧ 0 ≤ s.period t ∧
      (s.period t ≠ 0 →
        s.firingTime t + (s.timer t).rounds now * s.period t < RT_TIME_END)

end State

/-- What a round is for: it ends, and in it every due timer is fired until it is beyond `now`,
the most urgent one first. -/
structure Round (s₀ : State T C) (now : Int) (trace : List (Record (State T C) (Event T C)))
    (s : State T C) [DecidableEq T] : Prop where
  ended : s.manager = .reading
  once : ∀ t ∈ s₀.timers, s₀.firingTime t ≤ now → s₀.period t = 0 →
    (fired trace).count t = 1 ∧ t ∉ s.timers
  periodic : ∀ t ∈ s₀.timers, s₀.firingTime t ≤ now → s₀.period t ≠ 0 →
    t ∈ s.timers ∧ now < s.firingTime t ∧
      s.firingTime t = s₀.firingTime t + (fired trace).count t * s₀.period t ∧
      ∀ k < (fired trace).count t, s₀.firingTime t + k * s₀.period t ≤ now
  others : ∀ t, ¬(t ∈ s₀.timers ∧ s₀.firingTime t ≤ now) →
    t ∉ fired trace ∧ (t ∈ s.timers ↔ t ∈ s₀.timers) ∧ s.timer t = s₀.timer t
  urgent : ∀ r ∈ trace, ∀ t ∈ fires r.event r.pre, r.pre.firingTime t ≤ now ∧
    ∀ u ∈ r.pre.timers, r.pre.firingTime u ≤ now → r.pre.priority t ≤ r.pre.priority u
  advances : ∀ r ∈ trace, ∀ t ∈ fires r.event r.pre, s₀.period t ≠ 0 →
    r.post.firingTime t = r.pre.firingTime t + s₀.period t
  ordered : InOrder (fun a b => s.firingTime a ≤ s.firingTime b) s.timers

/-! ## The search for a due timer -/

section

variable {s : State T C} {t : T} {now : Int}

/-- The search keeps the first of the most urgent timers it has seen. -/
theorem search_spec {priority : T → Int} {timer found : Option T}
    (h : l.foldl (fun timer tmr =>
      if priority tmr < (timer.map priority).getD RT_LOWEST_PRIORITY then some tmr else timer) timer = found) :
    (found.map priority).getD RT_LOWEST_PRIORITY ≤ (timer.map priority).getD RT_LOWEST_PRIORITY ∧
      (∀ u ∈ l, (found.map priority).getD RT_LOWEST_PRIORITY ≤ priority u) ∧
      (found = timer ∨ ∃ t ∈ l, found = some t ∧
        priority t < (timer.map priority).getD RT_LOWEST_PRIORITY) := by
  induction l generalizing timer with
  | nil =>
      cases h
      exact ⟨le_rfl, nofun, .inl rfl⟩
  | cons tmr l ih =>
      rw [List.foldl_cons] at h
      obtain ⟨le, all, from_l⟩ := ih h
      split at le
      next less =>
        rw [if_pos less] at from_l
        have le' : (found.map priority).getD RT_LOWEST_PRIORITY ≤ priority tmr := le
        refine ⟨le'.trans less.le, List.forall_mem_cons.mpr ⟨le', all⟩, .inr ?_⟩
        rcases from_l with rfl | ⟨t, mem, e, less'⟩
        · exact ⟨tmr, List.mem_cons_self, rfl, less⟩
        · exact ⟨t, List.mem_cons_of_mem _ mem, e, less'.trans less⟩
      next not_less =>
        rw [if_neg not_less] at from_l
        refine ⟨le, List.forall_mem_cons.mpr ⟨le.trans (not_lt.mp not_less), all⟩, ?_⟩
        rcases from_l with rfl | ⟨t, mem, e, less'⟩
        · exact .inl rfl
        · exact .inr ⟨t, List.mem_cons_of_mem _ mem, e, less'⟩

/-- In a list in order, the search sees all that are due. -/
theorem mem_due {time : T → Int} (sorted : InOrder (fun a b => time a ≤ time b) l) :
    t ∈ l.takeWhile (fun t => time t ≤ now) ↔ t ∈ l ∧ time t ≤ now := by
  constructor
  · intro mem
    exact ⟨List.takeWhile_subset _ mem, by simpa using List.mem_takeWhile_imp mem⟩
  · intro ⟨mem, le⟩
    induction l with
    | nil => cases mem
    | cons u l ih =>
        obtain ⟨first, sorted⟩ := List.pairwise_cons.mp sorted
        rcases List.mem_cons.mp mem with rfl | mem
        · rw [List.takeWhile_cons_of_pos (by simpa using le)]
          exact List.mem_cons_self
        · rw [List.takeWhile_cons_of_pos (by simpa using (first t mem).trans le)]
          exact List.mem_cons_of_mem _ (ih sorted mem)

/-- A timer that is found is due, and more urgent than `RT_LOWEST_PRIORITY`. -/
theorem due_some (h : s.due now = some t) :
    t ∈ s.timers ∧ s.firingTime t ≤ now ∧ s.priority t < RT_LOWEST_PRIORITY := by
  obtain ⟨-, -, found⟩ := search_spec h
  rcases found with none | ⟨u, mem, e, less⟩
  · cases none
  · cases e
    exact ⟨List.takeWhile_subset _ mem, by simpa using List.mem_takeWhile_imp mem, less⟩

variable (sorted : InOrder (fun a b => s.firingTime a ≤ s.firingTime b) s.timers)
include sorted

theorem due_urgent (h : s.due now = some t) {u : T} (mem : u ∈ s.timers)
    (le : s.firingTime u ≤ now) :
    s.priority t ≤ s.priority u :=
  (search_spec h).2.1 u ((mem_due sorted).mpr ⟨mem, le⟩)

theorem due_none (h : s.due now = none) {u : T} (mem : u ∈ s.timers) (le : s.firingTime u ≤ now) :
    RT_LOWEST_PRIORITY ≤ s.priority u :=
  (search_spec h).2.1 u ((mem_due sorted).mpr ⟨mem, le⟩)

end

/-! ## What holds during a round -/

section

variable [DecidableEq T] {s₀ s s' : State T C} {now : Int}
  {trace : List (Record (State T C) (Event T C))} {t : T} {n : Nat} {v : Timer}

/-- Where the manager is in the round. -/
inductive Place (now : Int) (s : State T C) : Prop where
  | scanning (manager : s.manager = .scanning now)
  | firing {t : T} (manager : s.manager = .firing now t) (due : s.due now = some t)
  | relinking {t : T} {time : Int} (manager : s.manager = .relinking now t time) (listed : t ∈ s.timers)
  | reading (manager : s.manager = .reading) (due : s.due now = none)

/-- The step fires the right timer, and a periodic one for its next time. -/
structure Fires (s₀ : State T C) (now : Int) (r : Record (State T C) (Event T C)) (t : T) : Prop where
  due : r.pre.firingTime t ≤ now
  urgent : ∀ u ∈ r.pre.timers, r.pre.firingTime u ≤ now → r.pre.priority t ≤ r.pre.priority u
  advances : s₀.period t ≠ 0 → ∃ n, (∀ k ≤ n, (s₀.timer t).timeAfter k ≤ now) ∧
    r.pre.firingTime t = (s₀.timer t).timeAfter n ∧ r.post.firingTime t = (s₀.timer t).timeAfter (n + 1)

/-- The timers, related to how often each was fired. -/
structure Accounts (s₀ : State T C) (now : Int) (fired : List T) (s : State T C) : Prop where
  same : ∀ t, s.priority t = s₀.priority t ∧ s.period t = s₀.period t
  unfired : ∀ t ∉ fired, s.timer t = s₀.timer t
  members : ∀ t ∈ s.timers, t ∈ s₀.timers
  listed : ∀ t ∈ s.timers, s.firingTime t = (s₀.timer t).timeAfter (fired.count t) ∧
    (∀ k < fired.count t, (s₀.timer t).timeAfter k ≤ now) ∧ (s₀.period t = 0 → fired.count t = 0)
  unlisted : ∀ t ∈ s₀.timers, t ∉ s.timers →
    s₀.period t = 0 ∧ fired.count t = 1 ∧ s₀.firingTime t ≤ now
  known : ∀ t ∈ fired, t ∈ s₀.timers ∧ s₀.priority t < RT_LOWEST_PRIORITY ∧
    (s₀.period t ≠ 0 → s.manager.moves = some t ∨ s.firingTime t < RT_TIME_END)

structure Goes (s₀ : State T C) (now : Int) (trace : List (Record (State T C) (Event T C)))
    (s : State T C) : Prop where
  calls : ∀ c, s.calls c = none
  kept : ∃ placed, Kept placed s
  place : Place now s
  accounts : Accounts s₀ now (fired trace) s
  time : s.manager = .scanning now ∧ trace = [] ∨ now < RT_TIME_END
  steps : ∀ r ∈ trace, ∀ t ∈ fires r.event r.pre, Fires s₀ now r t

section

omit [DecidableEq T]

theorem fired_snoc {r : Record (State T C) (Event T C)} :
    fired (trace ++ [r]) = fired trace ++ (fires r.event r.pre).toList := by
  rw [fired, List.filterMap_append, List.filterMap_cons]
  cases fires r.event r.pre <;> rfl

/-- A list in which no timer is out of its place is in order. -/
theorem Kept.ordered {placed : T → Int} (kept : Kept placed s) (calls : ∀ c, s.calls c = none)
    (moves : s.manager.moves = none) :
    InOrder (fun a b => s.firingTime a ≤ s.firingTime b) s.timers := by
  have settled (u : T) (mem : u ∈ s.timers) : s.firingTime u = placed u :=
    kept.settled mem (fun c => by rw [calls]; nofun) (by rw [moves]; nofun)
  refine kept.sorted.imp_of_mem fun {a b} ha hb le => ?_
  rwa [settled a ha, settled b hb]

theorem State.Begins.kept (begins : s.Begins now) : Kept s.firingTime s where
  nodup := begins.nodup
  sorted := begins.sorted
  settled := fun _ _ _ => rfl
  single := by simp [begins.calls]
  apart := by simp [begins.calls]
  linking := by simp [begins.calls]
  relinking := by simp [begins.calls]
  fired := by simp [begins.manager]
  alone := by simp [begins.calls]
  front := by simp [begins.manager]

end

theorem Accounts.start (s : State T C) (now : Int) : Accounts s now [] s where
  same := fun _ => ⟨rfl, rfl⟩
  unfired := fun _ _ => rfl
  members := fun _ => id
  listed := fun _ _ => ⟨rfl, fun _ less => absurd less (Nat.not_lt_zero _), fun _ => rfl⟩
  unlisted := fun _ mem off => absurd mem off
  known := fun _ mem => absurd mem List.not_mem_nil

theorem State.Begins.goes (begins : s.Begins now) : Goes s now [] s where
  calls := begins.calls
  kept := ⟨_, begins.kept⟩
  place := .scanning begins.manager
  accounts := .start s now
  time := .inl ⟨begins.manager, rfl⟩
  steps := fun _ mem => absurd mem List.not_mem_nil

/-- Only where the manager is, and the order of the list, may differ. -/
theorem Accounts.congr (h : Accounts s₀ now l s) (timer : s'.timer = s.timer)
    (timers : ∀ u, u ∈ s'.timers ↔ u ∈ s.timers)
    (moves : ∀ u ∈ l, s₀.period u ≠ 0 → s.manager.moves = some u → s'.firingTime u < RT_TIME_END) :
    Accounts s₀ now l s' := by
  have time (u : T) : s'.firingTime u = s.firingTime u := by
    rw [State.firingTime, timer]
    rfl
  constructor
  case same =>
    intro u
    rw [State.priority, State.period, timer]
    exact h.same u
  case unfired =>
    intro u off
    rw [timer]
    exact h.unfired u off
  case members => exact fun u mem => h.members u ((timers u).mp mem)
  case listed =>
    intro u mem
    rw [time]
    exact h.listed u ((timers u).mp mem)
  case unlisted => exact fun u mem off => h.unlisted u mem fun mem' => off ((timers u).mpr mem')
  case known =>
    intro u mem
    obtain ⟨mem₀, less, later⟩ := h.known u mem
    refine ⟨mem₀, less, fun periodic => .inr ?_⟩
    rcases later periodic with moving | le
    · exact moves u mem periodic moving
    · rwa [time]

/-- A timer that is fired once leaves the list. -/
theorem Accounts.fireOnce (h : Accounts s₀ now l s) (nodup : s.timers.Nodup)
    (due : s.due now = some t) (once : s.period t = 0) (moves : s.manager.moves = none) :
    Accounts s₀ now (l ++ [t]) ((s.unlink t).setManager (.scanning now)) := by
  obtain ⟨mem, le, less⟩ := due_some due
  have once' : s₀.period t = 0 := (h.same t).2 ▸ once
  obtain ⟨time, -, zero⟩ := h.listed t mem
  have count : (l ++ [t]).count t = 1 := by
    rw [List.count_append, zero once', List.count_singleton_self]
  have other {u : T} (ne : u ≠ t) : (l ++ [t]).count u = l.count u := by
    rw [List.count_append, List.count_singleton, if_neg (by simpa using ne.symm), Nat.add_zero]
  constructor
  case same => exact h.same
  case unfired => exact fun u off => h.unfired u fun mem => off (List.mem_append_left _ mem)
  case members => exact fun u mem => h.members u (List.mem_of_mem_erase mem)
  case listed =>
    intro u mem'
    have ne : u ≠ t := (nodup.mem_erase_iff.mp mem').1
    rw [other ne]
    exact h.listed u (List.mem_of_mem_erase mem')
  case unlisted =>
    intro u mem₀ off
    rcases eq_or_ne u t with rfl | ne
    · rw [zero once'] at time
      exact ⟨once', count, time.symm.trans_le le⟩
    · rw [other ne]
      exact h.unlisted u mem₀ fun mem' => off (nodup.mem_erase_iff.mpr ⟨ne, mem'⟩)
  case known =>
    intro u mem'
    rcases List.mem_append.mp mem' with old | new
    · obtain ⟨mem₀, less, later⟩ := h.known u old
      refine ⟨mem₀, less, fun periodic => .inr ((later periodic).resolve_left ?_)⟩
      rw [moves]
      nofun
    · obtain rfl := List.mem_singleton.mp new
      exact ⟨h.members u mem, (h.same u).1 ▸ less, fun periodic => absurd once' periodic⟩

/-- A periodic timer gets its next time. -/
theorem Accounts.firePeriodic {time : Int} (h : Accounts s₀ now l s) (due : s.due now = some t)
    (periodic : s.period t ≠ 0) (moves : s.manager.moves = none)
    (next : time = addTime (s.firingTime t) (s.period t)) :
    Accounts s₀ now (l ++ [t]) ((s.storeTime t time).setManager (.relinking now t time)) := by
  obtain ⟨mem, le, less⟩ := due_some due
  obtain ⟨stored, before, -⟩ := h.listed t mem
  have count : (l ++ [t]).count t = l.count t + 1 := by
    rw [List.count_append, List.count_singleton_self]
  have other {u : T} (ne : u ≠ t) : (l ++ [t]).count u = l.count u := by
    rw [List.count_append, List.count_singleton, if_neg (by simpa using ne.symm), Nat.add_zero]
  have self : (s.storeTime t time).timer t = { s.timer t with firingTime := time } := update_self ..
  have others {u : T} (ne : u ≠ t) : (s.storeTime t time).timer u = s.timer u := update_of_ne ne ..
  constructor
  case same =>
    intro u
    rw [← (h.same u).1, ← (h.same u).2]
    show ((s.storeTime t time).timer u).priority = _ ∧ ((s.storeTime t time).timer u).period = _
    rcases eq_or_ne u t with rfl | ne
    · rw [self]
      exact ⟨rfl, rfl⟩
    · rw [others ne]
      exact ⟨rfl, rfl⟩
  case unfired =>
    intro u off
    have ne : u ≠ t := by
      rintro rfl
      exact off (List.mem_append_right _ List.mem_cons_self)
    exact (others ne).trans (h.unfired u fun mem => off (List.mem_append_left _ mem))
  case members => exact h.members
  case listed =>
    intro u mem'
    show ((s.storeTime t time).timer u).firingTime = _ ∧ _
    rcases eq_or_ne u t with rfl | ne
    · rw [count, self]
      refine ⟨?_, fun k less => ?_, fun once => absurd ((h.same u).2.trans once) periodic⟩
      · rw [next, stored, (h.same u).2]
        rfl
      · rcases Nat.lt_succ_iff_lt_or_eq.mp less with less | rfl
        · exact before k less
        · exact stored ▸ le
    · rw [other ne, others ne]
      exact h.listed u mem'
  case unlisted =>
    intro u mem₀ off
    have ne : u ≠ t := by
      rintro rfl
      exact off mem
    rw [other ne]
    exact h.unlisted u mem₀ off
  case known =>
    intro u mem'
    rcases eq_or_ne u t with rfl | ne
    · exact ⟨h.members u mem, (h.same u).1 ▸ less, fun _ => .inl rfl⟩
    · have old : u ∈ l := (List.mem_append.mp mem').resolve_right fun new => ne (List.mem_singleton.mp new)
      obtain ⟨mem₀, less, later⟩ := h.known u old
      refine ⟨mem₀, less, fun periodic => .inr ?_⟩
      show ((s.storeTime t time).timer u).firingTime < _
      rw [others ne]
      refine (later periodic).resolve_left ?_
      rw [moves]
      nofun

/-! ## The times of a timer -/

/-- A time that is not beyond `now` is before the last one. -/
theorem Timer.le_rounds (positive : 0 < v.period) {k : Nat} (le : v.firingTime + k * v.period ≤ now) :
    k + 1 ≤ v.rounds now := by
  have div : (k : Int) ≤ (now - v.firingTime) / v.period :=
    (Int.le_ediv_iff_mul_le positive).mpr (by omega)
  rw [Timer.rounds, if_neg positive.ne']
  omega

/-- Up to its last time a timer gets the times of its period. -/
theorem Timer.timeAfter_eq (low : -2 ^ 63 ≤ v.firingTime) (positive : 0 < v.period)
    (storable : v.firingTime + v.rounds now * v.period < RT_TIME_END)
    (before : ∀ k < n, v.timeAfter k ≤ now) : v.timeAfter n = v.firingTime + n * v.period := by
  induction n with
  | zero => simp [Timer.timeAfter]
  | succ n ih =>
      have last := ih fun k less => before k (Nat.lt_succ_of_lt less)
      have le : v.firingTime + n * v.period ≤ now := last ▸ before n n.lt_succ_self
      have bound : ((n + 1 : Nat) : Int) * v.period ≤ v.rounds now * v.period :=
        Int.mul_le_mul_of_nonneg_right (Int.ofNat_le.mpr (le_rounds positive le)) positive.le
      have nonneg : 0 ≤ (n : Int) * v.period := Int.mul_nonneg (Int.natCast_nonneg n) positive.le
      have next : ((n + 1 : Nat) : Int) * v.period = n * v.period + v.period := by
        rw [Int.natCast_add, Int.natCast_one, Int.add_mul, Int.one_mul]
      rw [Timer.timeAfter, addTime, last, next]
      rw [RT_TIME_END] at storable
      rw [Int.bmod_eq_of_le (by omega) (by omega)]
      omega

omit [DecidableEq T] in
/-- What a regular round relies on, of a timer that has been fired `n` times. -/
theorem State.Regular.times (regular : s₀.Regular now) (begins : s₀.Begins now)
    (mem : t ∈ s₀.timers) (periodic : s₀.period t ≠ 0)
    (before : ∀ k < n, (s₀.timer t).timeAfter k ≤ now) :
    n ≤ (s₀.timer t).rounds now ∧
      (s₀.timer t).timeAfter n = s₀.firingTime t + n * s₀.period t := by
  cases n with
  | zero =>
      refine ⟨Nat.zero_le _, ?_⟩
      rw [Int.natCast_zero, Int.zero_mul, Int.add_zero]
      rfl
  | succ n =>
      obtain ⟨-, nonneg, storable⟩ := regular.2 t mem (before 0 n.succ_pos)
      have positive : 0 < (s₀.timer t).period := lt_of_le_of_ne nonneg periodic.symm
      have times {n : Nat} (before : ∀ k < n, (s₀.timer t).timeAfter k ≤ now) :=
        Timer.timeAfter_eq (begins.range t mem) positive (storable periodic) before
      have last := times fun k less => before k (Nat.lt_succ_of_lt less)
      exact ⟨Timer.le_rounds positive (last ▸ before n n.lt_succ_self), times before⟩

/-! ## A regular round ends -/

section

variable (goes : Goes s₀ now trace s) (begins : s₀.Begins now) (regular : s₀.Regular now)
include goes begins regular

theorem Goes.count_le (mem : t ∈ s₀.timers) : (fired trace).count t ≤ (s₀.timer t).rounds now := by
  by_cases listed : t ∈ s.timers
  · obtain ⟨-, before, once⟩ := goes.accounts.listed t listed
    by_cases periodic : s₀.period t = 0
    · rw [once periodic]
      exact Nat.zero_le _
    · exact (regular.times begins mem periodic before).1
  · obtain ⟨once, count, -⟩ := goes.accounts.unlisted t mem listed
    rw [count, Timer.rounds]
    exact (if_pos once).ge

/-- A regular round calls no more handlers than the timers have rounds. -/
theorem Goes.length_le :
    (fired trace).length ≤ ∑ t ∈ s₀.timers.toFinset, (s₀.timer t).rounds now := by
  rw [← List.sum_toFinset_count_eq_length]
  have subset : (fired trace).toFinset ⊆ s₀.timers.toFinset := fun t mem =>
    List.mem_toFinset.mpr (goes.accounts.known t (List.mem_toFinset.mp mem)).1
  refine (Finset.sum_le_sum fun t mem => ?_).trans (Finset.sum_le_sum_of_subset subset)
  exact goes.count_le begins regular (List.mem_toFinset.mp (subset mem))

/-- The next time of a timer that is fired in a regular round can be stored. -/
theorem Goes.storable (due : s.due now = some t) (periodic : s.period t ≠ 0) :
    addTime (s.firingTime t) (s.period t) < RT_TIME_END := by
  obtain ⟨mem, le, -⟩ := due_some due
  obtain ⟨stored, before, -⟩ := goes.accounts.listed t mem
  have mem₀ := goes.accounts.members t mem
  rw [(goes.accounts.same t).2] at periodic ⊢
  have before' : ∀ k < (fired trace).count t + 1, (s₀.timer t).timeAfter k ≤ now := by
    intro k less
    rcases Nat.lt_succ_iff_lt_or_eq.mp less with less | rfl
    · exact before k less
    · exact stored ▸ le
  obtain ⟨rounds, next⟩ := regular.times begins mem₀ periodic before'
  obtain ⟨-, nonneg, storable⟩ := regular.2 t mem₀ (before' 0 (Nat.succ_pos _))
  have bound := Int.mul_le_mul_of_nonneg_right (Int.ofNat_le.mpr rounds) nonneg
  have time : (s₀.timer t).timeAfter ((fired trace).count t + 1) =
      addTime (s.firingTime t) (s₀.period t) := by
    rw [stored]
    rfl
  rw [← time, next]
  exact (Int.add_le_add_left bound _).trans_lt (storable periodic)

/-! ## What a round does -/

/-- What is left of a regular round at its end. -/
theorem Goes.round (ended : s.manager = .reading) : Round s₀ now trace s := by
  have moves : s.manager.moves = none := congrArg Manager.moves ended
  obtain ⟨placed, kept⟩ := goes.kept
  have ordered := kept.ordered goes.calls moves
  have due : s.due now = none := by
    cases goes.place with
    | reading _ due => exact due
    | scanning manager => cases ended.symm.trans manager
    | firing manager => cases ended.symm.trans manager
    | relinking manager => cases ended.symm.trans manager
  -- no timer is due at the end
  have late {t : T} (mem : t ∈ s.timers) (le₀ : s₀.firingTime t ≤ now) : now < s.firingTime t := by
    by_contra le
    have found := (regular.2 t (goes.accounts.members t mem) le₀).1
    have missed := due_none ordered due mem (not_lt.mp le)
    rw [(goes.accounts.same t).1] at missed
    exact absurd found (not_lt.mpr missed)
  have known {r : Record (State T C) (Event T C)} (hr : r ∈ trace) {t : T}
      (ht : t ∈ fires r.event r.pre) : t ∈ s₀.timers :=
    (goes.accounts.known t (List.mem_filterMap.mpr ⟨r, hr, ht⟩)).1
  constructor
  case ended => exact ended
  case once =>
    intro t mem le once
    have off : t ∉ s.timers := by
      intro listed
      obtain ⟨time, -, zero⟩ := goes.accounts.listed t listed
      rw [zero once] at time
      have later := late listed le
      rw [time] at later
      exact absurd le (not_le.mpr later)
    exact ⟨(goes.accounts.unlisted t mem off).2.1, off⟩
  case periodic =>
    intro t mem le periodic
    have listed : t ∈ s.timers := by
      by_contra off
      exact periodic (goes.accounts.unlisted t mem off).1
    obtain ⟨time, before, -⟩ := goes.accounts.listed t listed
    refine ⟨listed, late listed le, ?_, fun k less => ?_⟩
    · rw [time]
      exact (regular.times begins mem periodic before).2
    · rw [← (regular.times begins mem periodic fun j less' => before j (less'.trans less)).2]
      exact before k less
  case others =>
    intro t other
    have listed (mem : t ∈ s₀.timers) : t ∈ s.timers := by
      by_contra off
      exact other ⟨mem, (goes.accounts.unlisted t mem off).2.2⟩
    have unfired : t ∉ fired trace := by
      intro fired
      have mem := (goes.accounts.known t fired).1
      obtain ⟨-, before, -⟩ := goes.accounts.listed t (listed mem)
      exact other ⟨mem, before 0 (List.count_pos_iff.mpr fired)⟩
    exact ⟨unfired, ⟨goes.accounts.members t, listed⟩, goes.accounts.unfired t unfired⟩
  case urgent =>
    intro r hr t ht
    exact ⟨(goes.steps r hr t ht).due, (goes.steps r hr t ht).urgent⟩
  case advances =>
    intro r hr t ht periodic
    obtain ⟨n, before, time, next⟩ := (goes.steps r hr t ht).advances periodic
    have times {m : Nat} := regular.times (n := m) begins (known hr ht) periodic
    rw [time, next, (times fun k less => before k less.le).2,
      (times fun k less => before k (Nat.lt_succ_iff.mp less)).2, Int.natCast_succ,
      Int.add_mul, Int.one_mul, Int.add_assoc]
  case ordered => exact ordered

end

/-- What a round that does what it should says of the timers. -/
theorem Goes.regular (goes : Goes s₀ now trace s) (round : Round s₀ now trace s) :
    s₀.Regular now := by
  have early : now < RT_TIME_END := by
    refine goes.time.resolve_left fun fresh => ?_
    cases round.ended.symm.trans fresh.1
  refine ⟨early, fun t mem le => ?_⟩
  by_cases periodic : s₀.period t = 0
  · have mem' : t ∈ fired trace := by
      rw [← List.count_pos_iff, (round.once t mem le periodic).1]
      exact Nat.one_pos
    exact ⟨(goes.accounts.known t mem').2.1, periodic.ge, fun h => absurd periodic h⟩
  · obtain ⟨-, later, time, -⟩ := round.periodic t mem le periodic
    rw [time] at later
    have moved : 0 < (fired trace).count t * s₀.period t := by omega
    have positive : 0 < s₀.period t := pos_of_mul_pos_right moved (Int.natCast_nonneg _)
    have mem' : t ∈ fired trace := by
      by_contra unfired
      rw [List.count_eq_zero_of_not_mem unfired, Int.natCast_zero, Int.zero_mul] at moved
      exact lt_irrefl 0 moved
    obtain ⟨-, urgent, stored⟩ := goes.accounts.known t mem'
    have storable := (stored periodic).resolve_left fun moves => by
      rw [round.ended] at moves
      cases moves
    rw [time] at storable
    refine ⟨urgent, positive.le, fun _ => ?_⟩
    have div : (now - s₀.firingTime t) / s₀.period t < (fired trace).count t :=
      Int.ediv_lt_of_lt_mul positive (by omega)
    have rounds : ((s₀.timer t).rounds now : Int) ≤ (fired trace).count t := by
      have eq : (s₀.timer t).rounds now = ((now - s₀.firingTime t) / s₀.period t + 1).toNat :=
        if_neg periodic
      omega
    have bound := Int.mul_le_mul_of_nonneg_right rounds positive.le
    exact (Int.add_le_add_left bound _).trans_lt storable

/-! ## The steps of a round -/

/-- What a step that calls no handler adds to the trace. -/
theorem Goes.quiet (e : Event T C) (s' : State T C) (goes : Goes s₀ now trace s)
    (none : fires e s = none) :
    fired (trace ++ [⟨s, e, s'⟩]) = fired trace ∧
      ∀ r ∈ trace ++ [⟨s, e, s'⟩], ∀ t ∈ fires r.event r.pre, Fires s₀ now r t := by
  refine ⟨?_, fun r mem t fires => ?_⟩
  · rw [fired_snoc, none, Option.toList_none, List.append_nil]
  · rcases List.mem_append.mp mem with old | new
    · exact goes.steps r old t fires
    · obtain rfl := List.mem_singleton.mp new
      cases none.symm.trans fires

variable [DecidableEq C] {tol : Int}

section

variable (goes : Goes s₀ now trace s)
include goes

theorem Goes.scan (h : step tol .scan s = some s') :
    Goes s₀ now (trace ++ [⟨s, .scan, s'⟩]) s' := by
  cases goes.place with
  | scanning manager =>
      obtain ⟨placed, kept⟩ := goes.kept
      obtain ⟨none, steps⟩ := goes.quiet .scan s' rfl
      simp only [step, manager] at h
      split at h
      next early =>
        have kept' {m : Manager T} (moves : m.moves = Option.none) (awake : m ≠ .asleep) :
            Kept placed (s.setManager m) :=
          kept.setManager moves awake fun _ _ => by rw [manager]; nofun
        have accounts (m : Manager T) : Accounts s₀ now (fired trace) (s.setManager m) :=
          goes.accounts.congr rfl (fun _ => Iff.rfl) fun _ _ _ moves => by
            rw [manager] at moves
            cases moves
        cases due : s.due now with
        | none =>
            rw [due] at h
            cases h
            exact ⟨goes.calls, ⟨placed, kept' rfl nofun⟩, .reading rfl due, none ▸ accounts _,
              .inr early, steps⟩
        | some t =>
            rw [due] at h
            cases h
            exact ⟨goes.calls, ⟨placed, kept' rfl nofun⟩, .firing rfl due, none ▸ accounts _,
              .inr early, steps⟩
      next => cases h
  | firing manager => simp [step, manager] at h
  | relinking manager => simp [step, manager] at h
  | reading manager => simp [step, manager] at h

theorem Goes.fire (h : step tol .fire s = some s') :
    Goes s₀ now (trace ++ [⟨s, .fire, s'⟩]) s' := by
  cases goes.place with
  | @firing t manager due =>
      obtain ⟨placed, kept⟩ := goes.kept
      have early : now < RT_TIME_END := by
        refine goes.time.resolve_left fun fresh => ?_
        cases manager.symm.trans fresh.1
      have moves : s.manager.moves = none := congrArg Manager.moves manager
      obtain ⟨mem, le, -⟩ := due_some due
      have fires_t : fires .fire s = some t := congrArg Manager.fires manager
      have fired' : fired (trace ++ [⟨s, .fire, s'⟩]) = fired trace ++ [t] := by
        rw [fired_snoc, fires_t]
        rfl
      have ordered := kept.ordered goes.calls moves
      have steps (advances : s₀.period t ≠ 0 → ∃ n, (∀ k ≤ n, (s₀.timer t).timeAfter k ≤ now) ∧
          s.firingTime t = (s₀.timer t).timeAfter n ∧
          s'.firingTime t = (s₀.timer t).timeAfter (n + 1)) :
          ∀ r ∈ trace ++ [⟨s, .fire, s'⟩], ∀ t ∈ fires r.event r.pre, Fires s₀ now r t := by
        intro r mem' u fires_u
        rcases List.mem_append.mp mem' with old | new
        · exact goes.steps r old u fires_u
        · obtain rfl := List.mem_singleton.mp new
          obtain rfl : t = u := Option.some.inj (fires_t.symm.trans fires_u)
          exact ⟨le, fun v mem_v le_v => due_urgent ordered due mem_v le_v, advances⟩
      simp only [step, manager] at h
      by_cases once : (s.timer t).period = 0
      · rw [if_pos once] at h
        cases h
        have kept' : Kept placed ((s.unlink t).setManager (.scanning now)) := by
          refine (kept.unlink fun asleep => ?_).setManager rfl nofun fun u _ same => ?_
          · cases manager.symm.trans asleep
          · cases moves.symm.trans same
        exact ⟨goes.calls, ⟨placed, kept'⟩, .scanning rfl,
          fired' ▸ goes.accounts.fireOnce kept.nodup due once moves, .inr early,
          steps fun periodic => absurd ((goes.accounts.same t).2.symm.trans once) periodic⟩
      · rw [if_neg once, if_pos mem] at h
        cases h
        have still : s.Still := ⟨fun c => by rw [goes.calls]; rfl, moves⟩
        have kept' : Kept placed ((s.storeTime t (addTime (s.firingTime t) (s.timer t).period)).setManager
            (.relinking now t (addTime (s.firingTime t) (s.timer t).period))) :=
          kept.storeFired mem still
        refine ⟨goes.calls, ⟨placed, kept'⟩, .relinking rfl mem,
          fired' ▸ goes.accounts.firePeriodic due once moves rfl, .inr early, steps fun _ => ?_⟩
        obtain ⟨stored, before, -⟩ := goes.accounts.listed t mem
        refine ⟨(fired trace).count t, fun k le_k => ?_, stored, ?_⟩
        · rcases Nat.lt_or_eq_of_le le_k with less | rfl
          · exact before k less
          · exact stored ▸ le
        · have same : s.period t = s₀.period t := (goes.accounts.same t).2
          show (update s.timer t _ t).firingTime = addTime _ _
          rw [update_self, ← stored]
          exact congrArg (addTime (s.firingTime t)) same
  | scanning manager => simp [step, manager] at h
  | relinking manager => simp [step, manager] at h
  | reading manager => simp [step, manager] at h

theorem Goes.relink (h : step tol .relinkFired s = some s') :
    Goes s₀ now (trace ++ [⟨s, .relinkFired, s'⟩]) s' := by
  cases goes.place with
  | @relinking t time manager mem =>
      obtain ⟨placed, kept⟩ := goes.kept
      obtain ⟨none, steps⟩ := goes.quiet .relinkFired s' rfl
      have early : now < RT_TIME_END := by
        refine goes.time.resolve_left fun fresh => ?_
        cases manager.symm.trans fresh.1
      simp only [step, manager] at h
      split at h
      next storable =>
        cases h
        refine ⟨goes.calls, ⟨_, kept.linkFired manager⟩, .scanning rfl, ?_, .inr early, steps⟩
        rw [none]
        refine goes.accounts.congr rfl (fun u => ?_) fun u _ _ moves => ?_
        · have listed : u ∈ enqueue (s.Past time) t (s.timers.erase t) ↔ u ∈ s.timers := by
            rw [mem_enqueue]
            rcases eq_or_ne u t with rfl | ne
            · exact iff_of_true (.inl rfl) mem
            · rw [List.mem_erase_of_ne ne]
              exact or_iff_right ne
          exact listed
        · rw [manager] at moves
          obtain rfl : t = u := Option.some.inj moves
          exact (kept.fired manager).trans_lt storable
      next => cases h
  | scanning manager => simp [step, manager] at h
  | firing manager => simp [step, manager] at h
  | reading manager => simp [step, manager] at h

/-- One step. -/
theorem Goes.step {e : Event T C} (guard : InRound s e) (h : Tasklets.step tol e s = some s') :
    Goes s₀ now (trace ++ [⟨s, e, s'⟩]) s' := by
  cases e with
  | scan => exact goes.scan h
  | fire => exact goes.fire h
  | relinkFired => exact goes.relink h
  | insert => cases guard
  | link => cases guard
  | retime => cases guard
  | relink => cases guard
  | correct => cases guard
  | remove => cases guard
  | read => cases guard
  | sleepUntil => cases guard
  | wake => cases guard

end

theorem State.Begins.run (begins : s₀.Begins now) (run : Run (step tol) InRound s₀ trace s) :
    Goes s₀ now trace s :=
  run.history begins.goes fun goes guard h => goes.step guard h

section

variable (begins : s₀.Begins now) (regular : s₀.Regular now)
  (run : Run (Tasklets.step tol) InRound s₀ trace s) (manager : s.manager = .scanning now)
include begins regular run manager

/-- A turn of the loop calls a handler, unless it is the last one. -/
theorem State.Begins.turn :
    ∃ trace' s', Run (Tasklets.step tol) InRound s₀ trace' s' ∧ (s'.manager = .reading ∨
      s'.manager = .scanning now ∧ (fired trace').length = (fired trace).length + 1) := by
  cases due : s.due now with
  | none =>
      have scans : Tasklets.step tol .scan s = some (s.setManager .reading) := by
        simp only [Tasklets.step, manager, due]
        exact if_pos regular.1
      exact ⟨_, _, run.snoc (e := Event.scan) trivial scans, .inl rfl⟩
  | some t =>
      have scans : Tasklets.step tol .scan s = some (s.setManager (.firing now t)) := by
        simp only [Tasklets.step, manager, due]
        exact if_pos regular.1
      obtain ⟨mem, -, -⟩ := due_some due
      have firing := run.snoc (e := Event.scan) trivial scans
      by_cases once : s.period t = 0
      · have fires : Tasklets.step tol .fire (s.setManager (.firing now t)) =
            some ((s.unlink t).setManager (.scanning now)) := congrArg some (if_pos once)
        refine ⟨_, _, firing.snoc (e := Event.fire) trivial fires, .inr ⟨rfl, ?_⟩⟩
        rw [fired_snoc, fired_snoc, List.length_append, List.length_append]
        rfl
      · have storable := (begins.run run).storable begins regular due once
        have fires : Tasklets.step tol .fire (s.setManager (.firing now t)) =
            some ((s.storeTime t (addTime (s.firingTime t) (s.period t))).setManager
              (.relinking now t (addTime (s.firingTime t) (s.period t)))) :=
          congrArg some ((if_neg once).trans (if_pos mem))
        have relinking := firing.snoc (e := Event.fire) trivial fires
        refine ⟨_, _, relinking.snoc (e := Event.relinkFired) trivial (if_pos storable), .inr ⟨rfl, ?_⟩⟩
        rw [fired_snoc, fired_snoc, fired_snoc, List.length_append, List.length_append,
          List.length_append]
        rfl

/-- A regular round ends, as its timers have only so many rounds. -/
theorem State.Begins.ends
    (left : ∑ t ∈ s₀.timers.toFinset, (s₀.timer t).rounds now ≤ (fired trace).length + n) :
    ∃ trace s, Run (Tasklets.step tol) InRound s₀ trace s ∧ s.manager = .reading := by
  induction n generalizing trace s with
  | zero =>
      obtain ⟨trace', s', run', ended | ⟨-, more⟩⟩ := begins.turn regular run manager
      · exact ⟨trace', s', run', ended⟩
      · have bound := (begins.run run').length_le begins regular
        omega
  | succ n ih =>
      obtain ⟨trace', s', run', ended | ⟨again, more⟩⟩ := begins.turn regular run manager
      · exact ⟨trace', s', run', ended⟩
      · exact ih run' again (by omega)

end

/-- One round of the manager does what it should just when every due timer is more urgent than
`RT_LOWEST_PRIORITY` and its next time is before the end of time. -/
theorem timers_fired (begins : s₀.Begins now) :
    (∃ trace s, Run (Tasklets.step tol) InRound s₀ trace s ∧ Round s₀ now trace s) ↔
      s₀.Regular now := by
  constructor
  · intro ⟨trace, s, run, round⟩
    exact (begins.run run).regular round
  · intro regular
    obtain ⟨trace, s, run, ended⟩ := begins.ends regular .nil begins.manager (Nat.le_add_left _ _)
    exact ⟨trace, s, run, (begins.run run).round begins regular ended⟩

end

/-- A timer of the given priority is due. -/
def oneDue (priority : Int) : State Unit Unit where
  timers := [()]
  timer := fun _ => ⟨priority, 0, 5⟩
  manager := .scanning 12

theorem oneDue_begins (priority : Int) : (oneDue priority).Begins 12 :=
  ⟨rfl, fun _ => rfl, by simp [oneDue], by simp [oneDue, InOrder], by simp [oneDue, State.firingTime]⟩

/-- A timer that is more urgent is fired three times. -/
theorem timers_fired_thrice :
    (∃ trace s, Run (step 0) InRound (oneDue 1) trace s ∧ Round (oneDue 1) 12 trace s) ↔
      (oneDue 1).Regular 12 :=
  timers_fired (oneDue_begins 1)

/-- A timer of priority `RT_LOWEST_PRIORITY` is never fired. -/
theorem lowest_not_fired :
    ¬∃ trace s, Run (step 0) InRound (oneDue RT_LOWEST_PRIORITY) trace s ∧
      Round (oneDue RT_LOWEST_PRIORITY) 12 trace s := by
  intro ⟨trace, s, run, round⟩
  have regular := ((oneDue_begins _).run run).regular round
  exact lt_irrefl _ (regular.2 () List.mem_cons_self (by decide)).1

end Rtai.Tasklets
