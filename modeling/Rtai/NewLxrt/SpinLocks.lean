import Rtai.Lib.Run
import Mathlib.Data.Fintype.Basic
import Mathlib.Algebra.Ring.Int.Defs

/-!
# Recursive spinlocks

`rt_spl_lock` and its relatives, by any number of tasks on any number of CPUs.  A step is one
access to the structure, so that the accesses of the tasks come in any order.  A task runs
with its own interrupt flag, which the services save, clear and restore.

`rt_spl_unlock` gives the lock up by `owndby = 0` and only then clears `count` and reads
`flags`.  Another CPU may have the lock by then.  It counts on if it was not locked
recursively in between, `spl_exclusive`, and the flag is the right one if nobody has written
his own, `spl_flags_restored`.
-/

namespace Rtai.NewLxrt.SpinLocks

open Function Rtai.Lib

/-- `SPL`. -/
structure Spl (T : Type) where
  owndby : Option T := none
  count : Int := 0
  flags : Bool := false
deriving DecidableEq

/-- `rt_spl_lock`, `rt_spl_lock_if` and `rt_spl_lock_timed`. -/
inductive Kind where
  | lock
  | lockIf
  | lockTimed
deriving DecidableEq

/-- The next access of a task, with what it has read. -/
inductive Pc where
  | out
  /-- `spl->owndby == rt_current`, in a service that locks. -/
  | test (kind : Kind) (flags : Bool)
  /-- `spl->count++`. -/
  | load
  | inc (count : Int)
  /-- `cmpxchg(&spl->owndby, 0, rt_current)`. -/
  | cmpxchg (kind : Kind) (flags : Bool)
  /-- `spl->flags = flags`. -/
  | keep (flags : Bool)
  /-- `spl->owndby == rt_current`, in `rt_spl_unlock`. -/
  | own (flags : Bool)
  /-- `if (spl->count)`. -/
  | read
  /-- `--spl->count`. -/
  | dec (count : Int)
  /-- `spl->owndby = 0`. -/
  | release
  /-- `spl->count = 0`. -/
  | clear
  /-- `hard_restore_flags(spl->flags)`. -/
  | restore
deriving DecidableEq

/-- Behind `owndby = 0`. -/
def Pc.leaving : Pc → Bool
  | .clear | .restore => true
  | _ => false

/-- Before `spl->flags = flags`. -/
def Pc.keeps : Pc → Bool
  | .keep _ => true
  | _ => false

/-- A task.  `depth` counts the calls of it that have locked and not been undone, and `found`
is the flag that the first of them has found. -/
structure Local where
  pc : Pc := .out
  depth : Nat := 0
  enabled : Bool := true
  found : Bool := true
deriving DecidableEq

structure State (T : Type) where
  spl : Spl T := {}
  task : T → Local := fun _ => {}

inductive Event (T : Type) where
  | lock (t : T) (kind : Kind)
  | unlock (t : T)
  /-- The next access.  `late` is whether the time of `rt_spl_lock_timed` is over. -/
  | go (t : T) (late : Bool)

variable {T : Type} [DecidableEq T]

/-- An access of the task `t`. -/
def access (t : T) (late : Bool) (spl : Spl T) (l : Local) : Option (Spl T × Local) :=
  match l.pc with
  | .out => none
  | .test kind flags =>
      if spl.owndby = some t then some (spl, { l with pc := .load })
      else some (spl, { l with pc := .cmpxchg kind flags })
  | .load => some (spl, { l with pc := .inc spl.count })
  | .inc count => some ({ spl with count := count + 1 }, { l with pc := .out, depth := l.depth + 1 })
  | .cmpxchg kind flags =>
      if spl.owndby = none then some ({ spl with owndby := some t }, { l with pc := .keep flags })
      else if kind = .lockIf ∨ kind = .lockTimed ∧ late then
        some (spl, { l with pc := .out, enabled := flags })
      else some (spl, l)
  | .keep flags =>
      some ({ spl with flags := flags }, { l with pc := .out, depth := l.depth + 1, found := flags })
  | .own flags =>
      if spl.owndby = some t then some (spl, { l with pc := .read })
      else some (spl, { l with pc := .out, enabled := flags })
  | .read => some (spl, { l with pc := if spl.count ≠ 0 then .dec spl.count else .release })
  | .dec count => some ({ spl with count := count - 1 }, { l with pc := .out, depth := l.depth - 1 })
  | .release => some ({ spl with owndby := none }, { l with pc := .clear })
  | .clear => some ({ spl with count := 0 }, { l with pc := .restore })
  | .restore => some (spl, { l with pc := .out, depth := l.depth - 1, enabled := spl.flags })

namespace State

/-- `hard_save_flags_and_cli(flags)`, then the first access. -/
def call (t : T) (first : Bool → Pc) (s : State T) : Option (State T) :=
  let l := s.task t
  if l.pc = .out then
    some { s with task := update s.task t { l with pc := first l.enabled, enabled := false } }
  else none

def step : Event T → State T → Option (State T)
  | .lock t kind, s => s.call t (.test kind)
  | .unlock t, s => s.call t .own
  | .go t late, s => (access t late s.spl (s.task t)).map fun (spl, l) =>
      { s with spl := spl, task := update s.task t l }

/-- The late `count = 0` does not undo a recursive lock. -/
def Harmless (s : State T) : Event T → Prop
  | .go t _ => (s.task t).pc = .clear → s.spl.count = 0
  | _ => True

instance (s : State T) : ∀ e, Decidable (s.Harmless e)
  | .go _ _ => inferInstanceAs (Decidable (_ → _))
  | .lock _ _ | .unlock _ => .isTrue trivial

/-- Nobody writes his flag while another is about to read his own. -/
def Undisturbed (s : State T) : Event T → Prop
  | .go t _ => (s.task t).pc.keeps = true → ∀ u, (s.task u).pc.leaving = false
  | _ => True

instance [Fintype T] (s : State T) : ∀ e, Decidable (s.Undisturbed e)
  | .go _ _ => inferInstanceAs (Decidable (_ → _))
  | .lock _ _ | .unlock _ => .isTrue trivial

/-- The task has the lock. -/
def Holds (s : State T) (t : T) : Prop := 0 < (s.task t).depth ∧ (s.task t).pc.leaving = false

instance (s : State T) (t : T) : Decidable (s.Holds t) := inferInstanceAs (Decidable (_ ∧ _))

end State

/-! ## One task and the lock -/

/-- Where a task is that has not got the lock. -/
def Pc.asks : Pc → Bool
  | .test _ _ | .cmpxchg _ _ | .own _ => true
  | _ => false

/-- Where a task is that has the lock with this count. -/
def Pc.Inside (count : Int) : Pc → Prop
  | .out | .test _ _ | .own _ | .load | .read => True
  | .inc c => c = count
  | .dec c => c = count ∧ c ≠ 0
  | .release => count = 0
  | _ => False

/-- What the lock and a task have in common.  `tidy` is whether nobody is disturbed. -/
inductive Fits (tidy : Prop) (spl : Spl T) (t : T) : Local → Prop
  | away {pc : Pc} {enabled found : Bool} (other : spl.owndby ≠ some t)
      (outside : pc = .out ∨ pc.asks = true ∧ enabled = false) : Fits tidy spl t ⟨pc, 0, enabled, found⟩
  | takes {flags found : Bool} (mine : spl.owndby = some t) (count : spl.count = 0) :
      Fits tidy spl t ⟨.keep flags, 0, false, found⟩
  | holds {pc : Pc} {d : Nat} {found : Bool} (mine : spl.owndby = some t) (count : spl.count = d)
      (flags : spl.flags = found) (inside : pc.Inside spl.count) :
      Fits tidy spl t ⟨pc, d + 1, false, found⟩
  | leaves {pc : Pc} {found : Bool} (other : spl.owndby ≠ some t) (leaving : pc.leaving = true)
      (flags : tidy → spl.flags = found) : Fits tidy spl t ⟨pc, 1, false, found⟩

variable {tidy : Prop} {spl spl' : Spl T} {t u : T} {l l' : Local} {late : Bool}

/-- What an access of the task `t` leaves to the others. -/
structure Leaves (spl : Spl T) (t : T) (keeps : Bool) (spl' : Spl T) : Prop where
  owner : ∀ u, u ≠ t → (spl'.owndby = some u ↔ spl.owndby = some u)
  kept : ∀ u, u ≠ t → spl.owndby = some u → spl'.count = spl.count ∧ spl'.flags = spl.flags
  flags : keeps = false → spl'.flags = spl.flags
  free : spl'.owndby = none → spl'.count = 0

section

omit [DecidableEq T]

theorem Leaves.same (free : spl.owndby = none → spl.count = 0) : Leaves spl t (l.pc.keeps) spl :=
  ⟨fun _ _ => Iff.rfl, fun _ _ _ => ⟨rfl, rfl⟩, fun _ => rfl, free⟩

/-- Only the owner of the lock changes it. -/
theorem Leaves.mine {keeps : Bool} (mine : spl.owndby = some t)
    (owner : spl'.owndby = some t ∨ spl'.owndby = none ∧ spl'.count = 0)
    (flags : keeps = false → spl'.flags = spl.flags) : Leaves spl t keeps spl' := by
  have others (u : T) (other : u ≠ t) : spl.owndby ≠ some u := by
    rw [mine]
    exact fun e => other (Option.some.inj e).symm
  refine ⟨fun u other => ?_, fun u other yours => absurd yours (others u other), flags, fun none => ?_⟩
  · refine ⟨fun yours => ?_, fun yours => absurd yours (others u other)⟩
    rcases owner with same | ⟨none, -⟩
    · exact absurd (Option.some.inj (same.symm.trans yours)).symm other
    · cases none.symm.trans yours
  · rcases owner with same | ⟨-, zero⟩
    · cases same.symm.trans none
    · exact zero

/-- The lock and another task, behind an access. -/
theorem Fits.other (h : Fits tidy spl u l) (leaves : Leaves spl t keeps spl') (other : u ≠ t)
    (quiet : tidy → keeps = true → l.pc.leaving = false) : Fits tidy spl' u l := by
  cases h with
  | away no outside => exact .away (fun yours => no ((leaves.owner u other).mp yours)) outside
  | takes mine count =>
      exact .takes ((leaves.owner u other).mpr mine) ((leaves.kept u other mine).1.trans count)
  | holds mine count flags inside =>
      obtain ⟨same, same'⟩ := leaves.kept u other mine
      refine .holds ((leaves.owner u other).mpr mine) (same.trans count) (same'.trans flags) ?_
      rw [same]
      exact inside
  | leaves no leaving flags =>
      refine .leaves (fun yours => no ((leaves.owner u other).mp yours)) leaving fun h => ?_
      cases here : keeps with
      | false => exact (leaves.flags here).trans (flags h)
      | true => cases leaving.symm.trans (quiet h here)

end

/-- One access. -/
theorem Fits.access (h : Fits tidy spl t l) (free : spl.owndby = none → spl.count = 0)
    (harmless : l.pc = .clear → spl.count = 0)
    (goes : SpinLocks.access t late spl l = some (spl', l')) :
    Fits tidy spl' t l' ∧ Leaves spl t l.pc.keeps spl' := by
  cases h with
  | @away pc enabled found other outside =>
      rcases outside with rfl | ⟨asks, rfl⟩
      · cases goes
      · cases pc with
        | test kind flags =>
            simp only [SpinLocks.access, if_neg other] at goes
            cases goes
            exact ⟨.away other (.inr ⟨rfl, rfl⟩), .same (l := ⟨.test kind flags, 0, false, found⟩) free⟩
        | cmpxchg kind flags =>
            by_cases none : spl.owndby = none
            · simp only [SpinLocks.access, if_pos none] at goes
              cases goes
              refine ⟨.takes rfl (free none), fun u other => ?_, fun u _ yours => ?_, fun _ => rfl, nofun⟩
              · rw [none]
                exact ⟨fun e => absurd (Option.some.inj e).symm other, nofun⟩
              · cases none.symm.trans yours
            · simp only [SpinLocks.access, if_neg none] at goes
              split at goes
              · cases goes
                exact ⟨.away other (.inl rfl),
                  .same (l := ⟨.cmpxchg kind flags, 0, false, found⟩) free⟩
              · cases goes
                exact ⟨.away other (.inr ⟨rfl, rfl⟩),
                  .same (l := ⟨.cmpxchg kind flags, 0, false, found⟩) free⟩
        | own flags =>
            simp only [SpinLocks.access, if_neg other] at goes
            cases goes
            exact ⟨.away other (.inl rfl), .same (l := ⟨.own flags, 0, false, found⟩) free⟩
        | _ => cases asks
  | @takes flags found mine count =>
      cases goes
      exact ⟨.holds (d := 0) mine count rfl trivial, .mine mine (.inl mine) nofun⟩
  | @holds pc d found mine count flags inside =>
      cases pc with
      | out => cases goes
      | test kind bit | own bit =>
          simp only [SpinLocks.access, if_pos mine] at goes
          cases goes
          exact ⟨.holds mine count flags trivial, .mine mine (.inl mine) fun _ => rfl⟩
      | load =>
          cases goes
          exact ⟨.holds mine count flags rfl, .mine mine (.inl mine) fun _ => rfl⟩
      | inc c =>
          cases goes
          obtain rfl : c = spl.count := inside
          refine ⟨.holds (d := d + 1) mine ?_ flags trivial, .mine mine (.inl mine) fun _ => rfl⟩
          rw [count]
          push_cast
          rfl
      | read =>
          cases goes
          refine ⟨.holds mine count flags ?_, .mine mine (.inl mine) fun _ => rfl⟩
          split
          next some => exact ⟨rfl, some⟩
          next zero => exact not_not.mp zero
      | dec c =>
          cases goes
          obtain ⟨rfl, some⟩ : c = spl.count ∧ c ≠ 0 := inside
          obtain ⟨d, rfl⟩ : ∃ k, d = k + 1 := ⟨d - 1, by omega⟩
          refine ⟨.holds mine ?_ flags trivial, .mine mine (.inl mine) fun _ => rfl⟩
          show spl.count - 1 = d
          omega
      | release =>
          cases goes
          have zero : spl.count = 0 := inside
          obtain rfl : d = 0 := by omega
          exact ⟨.leaves nofun rfl fun _ => flags, .mine mine (.inr ⟨rfl, zero⟩) fun _ => rfl⟩
      | _ => cases inside
  | @leaves pc found other leaving flags =>
      cases pc with
      | clear =>
          cases goes
          have zero := harmless rfl
          have same : { spl with count := 0 } = spl := by rw [← zero]
          rw [same]
          exact ⟨.leaves other rfl flags, .same (l := ⟨.clear, 1, false, found⟩) free⟩
      | restore =>
          cases goes
          exact ⟨.away other (.inl rfl), .same (l := ⟨.restore, 1, false, found⟩) free⟩
      | _ => cases leaving

/-! ## All tasks -/

/-- What holds in every state. -/
structure State.Sound (tidy : Prop) (s : State T) : Prop where
  fits : ∀ t, Fits tidy s.spl t (s.task t)
  free : s.spl.owndby = none → s.spl.count = 0

namespace State

variable {s s' : State T} {e : Event T}

theorem Sound.call (sound : s.Sound tidy) (first : Bool → Pc)
    (plain : ∀ flags, (first flags).asks = true ∧ ∀ count, (first flags).Inside count)
    (called : s.call t first = some s') : s'.Sound tidy := by
  obtain ⟨out, here⟩ := Option.ite_none_right_eq_some.mp called
  cases here
  refine ⟨fun u => ?_, sound.free⟩
  rcases eq_or_ne u t with rfl | other
  · show Fits tidy s.spl u (update s.task u _ u)
    rw [update_self]
    have fits := sound.fits u
    generalize s.task u = l at fits out
    cases fits with
    | away other => exact .away other (.inr ⟨(plain _).1, rfl⟩)
    | holds mine count flags => exact .holds mine count flags ((plain _).2 _)
    | takes => cases out
    | leaves _ leaving =>
        cases out
        cases leaving
  · show Fits tidy s.spl u (update s.task t _ u)
    rw [update_of_ne other]
    exact sound.fits u

theorem Sound.step (sound : s.Sound tidy) (harmless : s.Harmless e) (quiet : tidy → s.Undisturbed e)
    (stepped : State.step e s = some s') : s'.Sound tidy := by
  cases e with
  | lock t kind => exact sound.call (.test kind) (fun _ => ⟨rfl, fun _ => trivial⟩) stepped
  | unlock t => exact sound.call .own (fun _ => ⟨rfl, fun _ => trivial⟩) stepped
  | go t late =>
      obtain ⟨⟨spl', l'⟩, goes, rfl⟩ := Option.map_eq_some_iff.mp stepped
      obtain ⟨fits, leaves⟩ := (sound.fits t).access sound.free harmless goes
      refine ⟨fun u => ?_, leaves.free⟩
      show Fits tidy spl' u (update s.task t l' u)
      rcases eq_or_ne u t with rfl | other
      · rw [update_self]
        exact fits
      · rw [update_of_ne other]
        exact (sound.fits u).other leaves other fun h keeps => quiet h keeps u

/-! ## Runs -/

/-- After `rt_spl_init`. -/
def start (enabled : T → Bool) : State T where
  task t := { enabled := enabled t }

omit [DecidableEq T] in
theorem start_sound (enabled : T → Bool) : (start enabled).Sound tidy :=
  ⟨fun _ => .away nofun (.inl rfl), fun _ => rfl⟩

/-- What the users of the lock rely on. -/
structure Exclusive (s : State T) : Prop where
  one : ∀ t u, s.Holds t → s.Holds u → t = u
  /-- The lock is the holder's as long as it has not undone all its calls. -/
  count : ∀ t, s.Holds t → s.spl.owndby = some t ∧ (s.task t).depth = s.spl.count + 1
  /-- The holder runs with interrupts disabled. -/
  disabled : ∀ t, s.Holds t → (s.task t).enabled = false
  /-- Nobody else keeps the others out. -/
  free : ∀ t, s.spl.owndby = some t → s.Holds t ∨ (s.task t).pc.keeps = true

omit [DecidableEq T] in
theorem Sound.holder (sound : s.Sound tidy) (holds : s.Holds t) : s.spl.owndby = some t ∧
    (s.task t).depth = s.spl.count + 1 ∧ (s.task t).enabled = false := by
  obtain ⟨deep, staying⟩ := holds
  have fits := sound.fits t
  generalize s.task t = l at fits deep staying ⊢
  cases fits with
  | away | takes => cases deep
  | holds mine count =>
      refine ⟨mine, ?_, rfl⟩
      rw [count]
      push_cast
      rfl
  | leaves _ leaving => cases staying.symm.trans leaving

omit [DecidableEq T] in
theorem Sound.exclusive (sound : s.Sound tidy) : s.Exclusive where
  one t u ht hu := Option.some.inj ((sound.holder ht).1.symm.trans (sound.holder hu).1)
  count t ht := ⟨(sound.holder ht).1, (sound.holder ht).2.1⟩
  disabled t ht := (sound.holder ht).2.2
  free t mine := by
    have fits := sound.fits t
    unfold Holds
    generalize s.task t = l at fits ⊢
    cases fits with
    | away other | leaves other => exact absurd mine other
    | takes => exact .inr rfl
    | @holds pc _ _ _ _ _ inside =>
        refine .inl ⟨Nat.succ_pos _, ?_⟩
        cases pc with
        | clear | restore => cases inside
        | _ => rfl

variable {enabled : T → Bool} {tr : List (Record (State T) (Event T))}

/-- One task at a time has the lock, as often as it has locked it, if no late `count = 0`
falls into a recursive lock. -/
theorem spl_exclusive (run : Run State.step Harmless (start enabled) tr s) : s.Exclusive := by
  have sound : s.Sound False := run.invariant (start_sound enabled)
    fun {_ _ _} sound harmless stepped => sound.step harmless False.elim stepped
  exact sound.exclusive

/-- A call of a task, with so many accesses. -/
def calls (call : Event (Fin 2)) (t : Fin 2) (accesses : Nat) : List (Event (Fin 2)) :=
  call :: List.replicate accesses (.go t false)

/-- Task 0 has the lock twice while task 1 waits, which has it when task 0 has undone both. -/
theorem spl_exclusive_nested :
    ∃ (tr : List (Record (State (Fin 2)) (Event (Fin 2)))) (s : State (Fin 2)),
    Run State.step Harmless (start fun _ => true) tr s ∧ s.Holds 1 ∧ s.Exclusive := by
  obtain ⟨tr, s, run, test⟩ := Run.of_execute State.step Harmless (start fun _ : Fin 2 => true)
    (calls (.lock 0 .lock) 0 3 ++ calls (.lock 1 .lock) 1 2 ++ calls (.lock 0 .lockIf) 0 3 ++
      calls (.unlock 0) 0 3 ++ calls (.unlock 0) 0 5 ++ List.replicate 2 (.go 1 false))
    (fun s => s.Holds 1) (by decide +kernel)
  exact ⟨tr, s, run, of_decide_eq_true test, spl_exclusive run⟩

/-- Task 1 locks twice before task 0, which has given the lock up, clears `count`.  It then
loses the lock by undoing one of the calls. -/
theorem spl_exclusive_lost :
    ∃ (tr : List (Record (State (Fin 2)) (Event (Fin 2)))) (s : State (Fin 2)),
    Run State.step (fun _ _ => True) (start fun _ => true) tr s ∧ ¬s.Exclusive := by
  obtain ⟨tr, s, run, test⟩ := Run.of_execute State.step (fun _ _ => True)
    (start fun _ : Fin 2 => true)
    (calls (.lock 0 .lock) 0 3 ++ calls (.unlock 0) 0 3 ++ calls (.lock 1 .lock) 1 3 ++
      calls (.lock 1 .lock) 1 3 ++ List.replicate 2 (.go 0 false) ++ calls (.unlock 1) 1 5 ++
      calls (.lock 0 .lock) 0 3)
    (fun s => s.Holds 0 ∧ s.Holds 1) (by decide +kernel)
  have both : s.Holds 0 ∧ s.Holds 1 := of_decide_eq_true test
  exact ⟨tr, s, run, fun exclusive => absurd (exclusive.one 0 1 both.1 both.2) (by decide)⟩

/-- The last `rt_spl_unlock` leaves the interrupt flag as the first `rt_spl_lock` has found
it. -/
def Restores (x : Record (State T) (Event T)) : Prop :=
  ∀ t late, x.event = .go t late → (x.pre.task t).pc = .restore →
    (x.post.task t).enabled = (x.pre.task t).found

theorem Sound.restores (sound : s.Sound True) (stepped : State.step e s = some s') :
    Restores ⟨s, e, s'⟩ := by
  rintro t late rfl here
  obtain ⟨⟨spl', l'⟩, goes, rfl⟩ := Option.map_eq_some_iff.mp stepped
  have here : (s.task t).pc = .restore := here
  show (update s.task t l' t).enabled = (s.task t).found
  rw [update_self]
  have fits := sound.fits t
  generalize s.task t = l at fits here goes ⊢
  cases fits with
  | @away pc enabled found other outside =>
      obtain rfl : pc = .restore := here
      rcases outside with out | ⟨asks, -⟩
      · cases out
      · cases asks
  | takes => cases here
  | @holds pc d found mine count flags inside =>
      obtain rfl : pc = .restore := here
      cases inside
  | @leaves pc found other leaving flags =>
      obtain rfl : pc = .restore := here
      cases goes
      exact flags trivial

/-- In such a run the flags are right too, if nobody has written his own before the one who
gives the lock up has read his. -/
theorem spl_flags_restored
    (run : Run State.step (fun s e => s.Harmless e ∧ s.Undisturbed e) (start enabled) tr s) :
    ∀ x ∈ tr, Restores x := by
  have both : s.Sound True ∧ ∀ x ∈ tr, Restores x := run.each (start_sound enabled)
    fun {_ _ _} sound guard stepped =>
      ⟨sound.step guard.1 (fun _ => guard.2) stepped, sound.restores stepped⟩
  exact both.2

/-- The same run, with the flags. -/
theorem spl_flags_restored_nested :
    ∃ (tr : List (Record (State (Fin 2)) (Event (Fin 2)))) (s : State (Fin 2)),
    Run State.step (fun s e => s.Harmless e ∧ s.Undisturbed e) (start fun t => t = 1) tr s ∧
      (s.task 0).enabled = false ∧ ∀ x ∈ tr, Restores x := by
  obtain ⟨tr, s, run, test⟩ := Run.of_execute State.step
    (fun s e => s.Harmless e ∧ s.Undisturbed e) (start fun t : Fin 2 => t = 1)
    (calls (.lock 0 .lock) 0 3 ++ calls (.lock 1 .lock) 1 2 ++ calls (.lock 0 .lockIf) 0 3 ++
      calls (.unlock 0) 0 3 ++ calls (.unlock 0) 0 5 ++ List.replicate 2 (.go 1 false))
    (fun s => (s.task 0).enabled = false) (by decide +kernel)
  exact ⟨tr, s, run, of_decide_eq_true test, spl_flags_restored run⟩

end State

end Rtai.NewLxrt.SpinLocks
