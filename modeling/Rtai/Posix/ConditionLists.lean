import Rtai.Posix.Conditions
import Rtai.Up.Lists
import Mathlib.Data.Fin.VecNotation
import Mathlib.Logic.Equiv.Fin.Rotate

/-!
# The lists of the condition variables

`cond_lists_kept` is about every run in which a signal and a broadcast only take off threads
that wait in `pthread_cond_wait`.  A thread in `pthread_cond_timedwait` is either on the
timed list, where it stays, as its `DELAYED` bit is gone when `rt_rem_timed_task` looks for
it; or its time is over and it is put on the ready list a second time.

`Linked pc s` says that the lists agree with the state words and with `blocked_on`, and that
each thread stands as it can at its place in `pc`.  A function that suspends gives its
thread another place first, so that `pc` is not always the field of the state.
-/

namespace Rtai.Posix

open Function Rtai.Lib
open Rtai.Up (Dispatcher Clock RTIME TaskState READY SEMAPHORE DELAYED DEAD TIMED_OUT TimedIs
  NotLater rtLinuxTask fuel)

theorem nodes_separate {n : Nat} : Separate Node.head (Node.thread (n := n)) :=
  ⟨nofun, fun _ _ => Node.thread.inj⟩

/-! ## How a thread stands -/

/-- What the scheduler and the queues have of a thread. -/
inductive Stand where
  | dead
  | awake
  /-- On a queue, without a time. -/
  | waits (q : Head)
  /-- On the queue of a condition variable and on the timed list. -/
  | sleeps (c : Nat)
  /-- On the queue of a condition variable, with its time over. -/
  | late (c : Nat)
deriving DecidableEq

namespace Stand

def state : Stand → TaskState
  | dead => DEAD
  | awake | late _ => READY
  | waits _ => READY.set SEMAPHORE
  | sleeps _ => READY.set (SEMAPHORE.set DELAYED)

def blockedOn : Stand → Option Head
  | dead | awake => none
  | waits q => some q
  | sleeps c | late c => some (.cond c)

end Stand

namespace Pc

/-- In `pthread_cond_wait`. -/
def waits : Pc → Bool
  | waitUnlocked _ | waitSuspended _ => true
  | _ => false

/-- In `pthread_cond_timedwait`, up to the test of `blocked_on`. -/
def timed : Pc → Bool
  | timedEnqueued _ | timedUnlocked _ | timedSuspended _ => true
  | _ => false

/-- How a thread can stand at the place. -/
def Allows (pc : Pc) : Stand → Prop
  | .dead => pc = user
  | .awake => pc.timed = false
  | .waits (.cond _) => pc.waits = true
  | .waits (.mutex m) => ∃ result, pc = locking m result
  | .sleeps _ | .late _ => pc.timed = true

variable {pc pc' : Pc} {x : Stand} {q : Head}

/-- Two places in the same wait allow the same. -/
theorem Allows.within (h : pc.Allows x) (within : pc.waits = true ∨ pc.timed = true)
    (waits : pc'.waits = pc.waits) (timed : pc'.timed = pc.timed) : pc'.Allows x := by
  cases x with
  | dead =>
      obtain rfl : pc = user := h
      rcases within with e | e <;> cases e
  | awake => exact timed.trans h
  | waits q =>
      cases q with
      | cond c => exact waits.trans h
      | mutex m =>
          obtain ⟨result, rfl⟩ : ∃ result, pc = locking m result := h
          rcases within with e | e <;> cases e
  | sleeps c => exact timed.trans h
  | late c => exact timed.trans h

/-- A thread that waits without a time may be taken off its queue. -/
theorem Allows.wake (h : pc.Allows (.waits q)) : pc.Allows .awake := by
  cases q with
  | cond c =>
      have waits : pc.waits = true := h
      cases pc with
      | waitUnlocked m => rfl
      | waitSuspended m => rfl
      | _ => cases waits
  | mutex m =>
      obtain ⟨result, rfl⟩ := h
      rfl

end Pc

/-- The state word and the queue of a thread are those of a stand that its place allows. -/
def Fits (pc : Pc) (st : TaskState) (queue : Option Head) : Prop :=
  ∃ x : Stand, pc.Allows x ∧ st = x.state ∧ queue = x.blockedOn

variable {c : Nat}

namespace Fits

variable {pc : Pc} {st : TaskState} {queue : Option Head} {m : Nat}

theorem within (h : Fits pc st queue) (pc' : Pc) (within : pc.waits = true ∨ pc.timed = true)
    (waits : pc'.waits = pc.waits) (timed : pc'.timed = pc.timed) : Fits pc' st queue :=
  h.imp fun _ hx => ⟨hx.1.within within waits timed, hx.2⟩

theorem ready (pc : Pc) (untimed : pc.timed = false) : Fits pc READY none :=
  ⟨.awake, untimed, rfl, rfl⟩

/-- A thread whose time is over is `READY` and stays on its queue. -/
theorem timeOut (h : Fits pc st queue) (delayed : st.delayed = true) :
    Fits pc (st.clear TIMED_OUT) queue := by
  obtain ⟨x, allows, rfl, rfl⟩ := h
  cases x with
  | sleeps c => exact ⟨.late c, allows, rfl, rfl⟩
  | _ => cases delayed

/-- On the queue of a mutex everyone waits without a time. -/
theorem onMutex (h : Fits pc st (some (.mutex m))) :
    st = READY.set SEMAPHORE ∧ Fits pc READY none := by
  obtain ⟨x, allows, rfl, e⟩ := h
  cases x with
  | waits q => exact ⟨rfl, .awake, allows.wake, rfl, rfl⟩
  | _ => cases e

/-- A thread on the queue of a condition variable that is neither `READY` nor asleep. -/
theorem onCond (h : Fits pc st (some (.cond c))) (waits : pc.waits = true) :
    st = READY.set SEMAPHORE ∧ Fits pc READY none := by
  obtain ⟨x, allows, rfl, e⟩ := h
  have untimed : pc.timed = false := by
    cases pc with
    | waitUnlocked m => rfl
    | waitSuspended m => rfl
    | _ => cases waits
  cases x with
  | waits q => exact ⟨rfl, .awake, untimed, rfl, rfl⟩
  | sleeps c => exact absurd (allows.symm.trans untimed) (by decide)
  | late c => exact absurd (allows.symm.trans untimed) (by decide)
  | _ => cases e

/-- A `READY` thread that is in no timed wait is on no queue. -/
theorem awake (h : Fits pc READY queue) (untimed : pc.timed = false) : queue = none := by
  obtain ⟨x, allows, e, rfl⟩ := h
  cases x with
  | awake => rfl
  | late c => exact absurd (allows.symm.trans untimed) (by decide)
  | _ => cases e

end Fits

namespace Pthreads

variable {n : Nat} {s s' : Pthreads n} {pc pc' : Up.Task n → Pc} {t u : Up.Task n} {q : Head}
  {k : Clock} {place : Pc} {e : Event} {d : Dispatcher n} {v : Int}

/-- The lists, and how the threads stand at their places. -/
structure Linked (pc : Up.Task n → Pc) (s : Pthreads n) : Prop where
  lists : s.disp.Linked True none
  queues : OnRings s.queue Node.head Node.thread s.blockedOn
  fits : ∀ t, Fits (pc t) (s.disp.state t) (s.blockedOn t)
  linux : pc rtLinuxTask = .user

/-! ## Waking -/

/-- What giving back a mutex and waking threads leave alone. -/
structure Keeps (s s' : Pthreads n) : Prop where
  pc : s'.pc = s.pc
  current : s'.current = s.current
  returned : s'.returned = s.returned
  ready : ∀ u, s.disp.state u = READY → s'.disp.state u = READY
  fewer : ∀ u q, s'.blockedOn u = some q → s.blockedOn u = some q

theorem Keeps.refl (s : Pthreads n) : Keeps s s := ⟨rfl, rfl, rfl, fun _ => id, fun _ _ => id⟩

theorem Keeps.trans {s'' : Pthreads n} (h : Keeps s s') (h' : Keeps s' s'') : Keeps s s'' where
  pc := h'.pc.trans h.pc
  current := h'.current.trans h.current
  returned := h'.returned.trans h.returned
  ready := fun u hu => h'.ready u (h.ready u hu)
  fewer := fun u q hu => h.fewer u q (h'.fewer u q hu)

/-- The first thread of a queue leaves it. -/
theorem Linked.wakeFirst (h : Linked pc s)
    (untimed : ∀ t, s.blockedOn t = some q → s.queue.next (.head q) = .thread t →
      s.disp.state t = READY.set SEMAPHORE ∧ Fits (pc t) READY none) :
    Ensures (s.wakeFirst q) fun p => Linked pc p.1 ∧ Keeps s p.1 := by
  cases first : s.queue.next (.head q) with
  | head q' =>
      simp only [Pthreads.wakeFirst, first]
      exact .some ⟨h, .refl s⟩
  | thread t =>
      have here : s.blockedOn t = some q := by
        rcases h.queues.first q with e | ⟨u, e, hu⟩
        · rw [first] at e
          cases e
        · rw [first] at e
          cases e
          exact hu
      obtain ⟨state, fits⟩ := untimed t here first
      have asleep : (s.disp.state t).delayed = false := by rw [state]; rfl
      have ready : (s.disp.state t).clear (SEMAPHORE.set DELAYED) = READY := by rw [state]; rfl
      have leaves : s.disp.state t ≠ READY := by rw [state]; decide
      have alive : s.disp.magic t = true := by
        refine h.lists.magic (fun e => ?_) (by rw [state]; decide)
        rw [e, h.lists.linuxState] at leaves
        exact leaves rfl
      have same : ((s.dequeue t).disp.setState t READY).remTimedTask t =
          s.disp.setState t READY := by
        rw [Dispatcher.remTimedTask]
        exact if_neg (by simp [Dispatcher.setState, READY])
      simp only [Pthreads.wakeFirst, first, ready, if_true, same]
      refine .map (((h.lists.unsettle asleep).setReady leaves alive).mono ?_)
      rintro _ ⟨lists, L, rfl⟩
      refine ⟨⟨lists, h.queues.dequeue nodes_separate here, fun u => ?_, h.linux⟩,
        ⟨rfl, rfl, rfl, fun u hu => ?_, fun u q' hu => ?_⟩⟩
      · show Fits (pc u) (update s.disp.state t READY u) (update s.blockedOn t none u)
        by_cases e : u = t
        · subst e
          rw [update_self, update_self]
          exact fits
        · rw [update_of_ne e, update_of_ne e]
          exact h.fits u
      · show update s.disp.state t READY u = READY
        by_cases e : u = t
        · rw [e, update_self]
        · rw [update_of_ne e]
          exact hu
      · change update s.blockedOn t none u = some q' at hu
        by_cases e : u = t
        · rw [e, update_self] at hu
          cases hu
        · rwa [update_of_ne e] at hu

/-- The loop of a broadcast. -/
theorem Linked.wakeAll : ∀ {i : Nat} {s : Pthreads n}, Linked pc s →
    (∀ t, s.blockedOn t = some (.cond c) → (pc t).waits = true) →
    Ensures (s.wakeAll (.cond c) i) fun s' => Linked pc s' ∧ Keeps s s'
  | 0, s, _, _ => .none
  | i + 1, s, h, untimed => by
      cases first : s.queue.next (.head (.cond c)) with
      | head q =>
          simp only [Pthreads.wakeAll, first]
          exact .some ⟨h, .refl s⟩
      | thread t =>
          simp only [Pthreads.wakeAll, first]
          refine .bind (h.wakeFirst fun u hu _ => (hu ▸ h.fits u).onCond (untimed u hu)) ?_
          rintro p ⟨h', keeps⟩
          refine (h'.wakeAll fun u hu => untimed u (keeps.fewer u _ hu)).mono ?_
          rintro s' ⟨h'', keeps'⟩
          exact ⟨h'', keeps.trans keeps'⟩

/-- `pthread_mutex_unlock`: whoever waits for the mutex waits without a time. -/
theorem Linked.unlock {m : Nat} (h : Linked pc s) :
    Ensures (s.pthreadMutexUnlock m) fun p => Linked pc p.1 ∧ Keeps s p.1 := by
  have released (owndby : Option (Up.Task n)) :
      Ensures ((s.release m owndby).wakeFirst (.mutex m)) fun p => Linked pc p.1 ∧ Keeps s p.1 := by
    have h' : Linked pc (s.release m owndby) :=
      ⟨h.lists.setPriority _ _, h.queues, h.fits, h.linux⟩
    have frame : Keeps s (s.release m owndby) := ⟨rfl, rfl, rfl, fun _ => id, fun _ _ => id⟩
    refine (h'.wakeFirst fun t ht _ => (ht ▸ h'.fits t).onMutex).mono ?_
    rintro p ⟨linked, keeps⟩
    exact ⟨linked, frame.trans keeps⟩
  simp only [pthreadMutexUnlock]
  refine .ite (fun _ => .some ⟨h, .refl s⟩) fun _ => ?_
  cases (s.mutex m).mKind with
  | fast => exact released none
  | recursive =>
      refine .ite (fun _ => .some ?_) fun _ => released _
      exact ⟨⟨h.lists, h.queues, h.fits, h.linux⟩, rfl, rfl, rfl, fun _ => id, fun _ _ => id⟩
  | errorcheck => exact .ite (fun _ => .some ⟨h, .refl s⟩) fun _ => released _
  | other => exact .some ⟨h, .refl s⟩

/-! ## Suspending -/

/-- A step leaves the lists right, and the current thread is `READY` unless it is in the first
part of `pthread_cond_timedwait`. -/
structure Ok (s : Pthreads n) : Prop extends Linked s.pc s where
  running : s.disp.state s.current = READY ∨
    ∃ m, s.pc s.current = .timedEnqueued m ∨ s.pc s.current = .timedUnlocked m
  /-- A wait that has returned is over. -/
  returned : ∀ t v, s.returned = some (t, v) → s.pc t = .user

/-- Timers that expire, as `rt_schedule` and `rt_timer_handler` let them. -/
theorem Linked.woken {now : RTIME} (h : Linked pc s) (lists : d.Linked True none)
    (woken : s.disp.Woken now d) : Linked pc { s with disp := d } := by
  refine ⟨lists, h.queues, fun t => ?_, h.linux⟩
  show Fits (pc t) (d.state t) (s.blockedOn t)
  rcases woken.state t with same | ⟨delayed, -, cleared⟩
  · rw [same]
    exact h.fits t
  · rw [cleared]
    exact (h.fits t).timeOut delayed

section

variable (h : Linked (update s.pc s.current place) s)
include h

/-- The thread is given the place. -/
theorem Linked.placed :
    Linked (s.setPc place).pc (s.setPc place) := ⟨h.lists, h.queues, h.fits, h.linux⟩

theorem Linked.running (ready : s.disp.state s.current = READY) (fresh : s.returned = none) :
    Ok (s.setPc place) := by
  refine ⟨h.placed, .inl ready, fun t v e => ?_⟩
  cases fresh.symm.trans e

/-- `LXRT_SUSPEND`. -/
theorem Linked.suspend (fresh : s.returned = none) : Ensures (s.suspend k place) Ok := by
  refine .map ((h.lists.rtSchedule k).mono ?_)
  rintro d ⟨lists, woken, ready⟩
  refine ⟨h.placed.woken lists woken, .inl ready, fun t v e => ?_⟩
  cases fresh.symm.trans e

end

/-! ## Waiting -/

/-- The current thread takes its node to a queue, with another state word and another place. -/
theorem Linked.enqueue {st : TaskState} {x : Node n} (h : Linked s.pc s)
    (real : s.current ≠ rtLinuxTask) (idle : s.blockedOn s.current = none)
    (lists : d.Linked True none) (state : d.state = update s.disp.state s.current st)
    (current : d.current = s.current) (fits : Fits place st (some q))
    (at_ : AtRing Node.head Node.thread s.blockedOn q x) :
    Linked (update s.pc s.current place) ({ s with disp := d }.enqueue q x) := by
  have queues := h.queues.enqueue nodes_separate idle at_
  rw [← current] at queues
  refine ⟨lists, queues, fun t => ?_, ?_⟩
  · show Fits (update s.pc s.current place t) (d.state t) (update s.blockedOn d.current (some q) t)
    rw [state, current]
    by_cases e : t = s.current
    · rw [e, update_self, update_self, update_self]
      exact fits
    · rw [update_of_ne e, update_of_ne e, update_of_ne e]
      exact h.fits t
  · rw [update_of_ne real.symm]
    exact h.linux

/-- A thread that waits without a time. -/
theorem Linked.block {x : Node n} (h : Linked s.pc s) (real : s.current ≠ rtLinuxTask)
    (ready : s.disp.state s.current = READY) (idle : s.blockedOn s.current = none)
    (allows : place.Allows (.waits q)) (at_ : AtRing Node.head Node.thread s.blockedOn q x) :
    Linked (update s.pc s.current place)
      ({ s with disp := s.disp.blockCurrent SEMAPHORE }.enqueue q x) := by
  have leaves : READY.set SEMAPHORE ≠ READY := by decide
  obtain ⟨lists, L, same⟩ := h.lists.blockCurrent ready real leaves
  have fits : Fits place (READY.set SEMAPHORE) (some q) := ⟨.waits q, allows, rfl, rfl⟩
  refine h.enqueue real idle (lists.settle ?_) ?_ ?_ fits at_
  · rw [same]
    simp [READY, SEMAPHORE, TaskState.set]
  · rw [same]
  · rw [same]

theorem position_at {m : Nat} (queues : OnRings s.queue Node.head Node.thread s.blockedOn) :
    Ensures (s.position m) (AtRing Node.head Node.thread s.blockedOn (.mutex m)) := by
  refine .bind (P := AtRing Node.head Node.thread s.blockedOn (.mutex m)) (fun x e => ?_) ?_
  · exact queues.seek (queues.first _) e
  · intro x at_
    cases x with
    | head q => exact .ite (fun _ => .some at_) fun _ => .none
    | thread t => exact .some at_

/-- Only priorities change. -/
theorem Linked.inherit {m : Nat} (h : Linked pc s) :
    Ensures (s.mutexInheritPrio m) fun s' => Linked pc s' ∧ Keeps s s' := by
  refine .map fun owner _ => ?_
  dsimp only
  split
  · exact ⟨⟨h.lists.setPriority _ _, h.queues, h.fits, h.linux⟩, rfl, rfl, rfl, fun _ => id,
      fun _ _ => id⟩
  · exact ⟨h, .refl s⟩

/-- The current thread waits for a mutex. -/
theorem Linked.waitMutex {m : Nat} (result : Option Int) (h : Linked s.pc s)
    (real : s.current ≠ rtLinuxTask) (ready : s.disp.state s.current = READY)
    (idle : s.blockedOn s.current = none) :
    Ensures (s.waitMutex m) fun s' => Linked (update s'.pc s'.current (.locking m result)) s' ∧
      s'.returned = s.returned := by
  refine .bind (position_at h.queues) fun x at_ => ?_
  have allows : (Pc.locking m result).Allows (.waits (.mutex m)) := ⟨result, rfl⟩
  refine (h.block real ready idle allows at_).inherit.mono ?_
  rintro s' ⟨h', keeps⟩
  have pc : s'.pc = s.pc := keeps.pc
  have current : s'.current = s.current := keeps.current
  rw [pc, current]
  exact ⟨h', keeps.returned⟩

/-- A wait that returns leaves its thread outside. -/
theorem Linked.finish (h : Linked s.pc s) (ready : s.disp.state s.current = READY)
    (idle : s.blockedOn s.current = none) : Ok (s.finish v) := by
  refine ⟨⟨h.lists, h.queues, fun t => ?_, ?_⟩, .inl ready, ?_⟩
  · show Fits (update s.pc s.current .user t) (s.disp.state t) (s.blockedOn t)
    by_cases e : t = s.current
    · rw [e, update_self]
      exact ⟨.awake, rfl, ready, idle⟩
    · rw [update_of_ne e]
      exact h.fits t
  · show update s.pc s.current .user rtLinuxTask = .user
    by_cases e : rtLinuxTask = s.current
    · rw [e, update_self]
    · rw [update_of_ne e]
      exact h.linux
  · rintro t v ⟨⟩
    exact update_self _ _ _

/-- `pthread_mutex_lock` up to `LXRT_SUSPEND`: it either leaves all but the mutex alone, or the
thread waits. -/
theorem Linked.lock {m : Nat} (result : Option Int) (h : Linked s.pc s)
    (real : s.current ≠ rtLinuxTask) (ready : s.disp.state s.current = READY)
    (idle : s.blockedOn s.current = none) :
    Ensures (s.pthreadMutexLock m) fun p =>
      (p.2.isSome = true ∧ ∃ M, p.1 = { s with mutex := M }) ∨
        p.2 = none ∧ Linked (update p.1.pc p.1.current (.locking m result)) p.1 ∧
          p.1.returned = s.returned := by
  have waits : Ensures ((s.waitMutex m).map fun s => (s, none)) fun p : Pthreads n × Option Int =>
      (p.2.isSome = true ∧ ∃ M, p.1 = { s with mutex := M }) ∨
        p.2 = none ∧ Linked (update p.1.pc p.1.current (.locking m result)) p.1 ∧
          p.1.returned = s.returned :=
    .map ((h.waitMutex result real ready idle).mono fun s' h' => .inr ⟨rfl, h'.1, h'.2⟩)
  simp only [pthreadMutexLock]
  refine .ite (fun _ => .some (.inl ⟨rfl, s.mutex, rfl⟩)) fun _ => ?_
  cases (s.mutex m).mKind with
  | fast => exact .ite (fun _ => .some (.inl ⟨rfl, _, rfl⟩)) fun _ => waits
  | recursive => exact .ite (fun _ => .some (.inl ⟨rfl, _, rfl⟩)) fun _ => waits
  | errorcheck => exact .ite (fun _ => .some (.inl ⟨rfl, _, rfl⟩)) fun _ => waits
  | other => exact .some (.inl ⟨rfl, s.mutex, rfl⟩)

/-- A wait takes its mutex again. -/
theorem Linked.relock {m : Nat} (h : Linked s.pc s) (real : s.current ≠ rtLinuxTask)
    (ready : s.disp.state s.current = READY) (idle : s.blockedOn s.current = none)
    (fresh : s.returned = none) : Ensures (s.relock m v k) Ok := by
  refine .bind (h.lock (some v) real ready idle) ?_
  rintro ⟨s', result⟩ (⟨some, M, rfl⟩ | ⟨rfl, linked, returned⟩)
  · have linked : Linked s.pc { s with mutex := M } := ⟨h.lists, h.queues, h.fits, h.linux⟩
    exact .ite (fun _ => .some (linked.finish ready idle)) fun no => absurd some no
  · exact .ite (fun some => by cases some) fun _ => linked.suspend (returned.trans fresh)

/-! ## One step -/

/-- The place of the current thread, when the rest is as it was. -/
theorem Linked.setPc (h : Linked s.pc s) (real : s.current ≠ rtLinuxTask)
    (fits : Fits place (s.disp.state s.current) (s.blockedOn s.current)) :
    Linked (update s.pc s.current place) s := by
  refine ⟨h.lists, h.queues, fun t => ?_, ?_⟩
  · by_cases e : t = s.current
    · rw [e, update_self]
      exact fits
    · rw [update_of_ne e]
      exact h.fits t
  · rw [update_of_ne real.symm]
    exact h.linux

/-- Another place in the same wait. -/
theorem Linked.rename (h : Linked (update pc t place) s) (real : t ≠ rtLinuxTask) (place' : Pc)
    (inside : place.waits = true ∨ place.timed = true) (waits : place'.waits = place.waits)
    (timed : place'.timed = place.timed) : Linked (update pc t place') s := by
  refine ⟨h.lists, h.queues, fun u => ?_, ?_⟩
  · have fits := h.fits u
    by_cases e : u = t
    · rw [e, update_self] at fits ⊢
      exact fits.within place' inside waits timed
    · rwa [update_of_ne e] at fits ⊢
  · rw [update_of_ne real.symm]
    exact (update_of_ne real.symm _ _).symm.trans h.linux

section

variable (h : Ok s) (real : s.current ≠ rtLinuxTask) (ready : s.disp.state s.current = READY)
  (idle : s.blockedOn s.current = none) (fresh : s.returned = none)
include h real ready idle fresh

theorem Ok.condWait {m : Nat} : Ensures (s.pthreadCondWait c m k) Ok := by
  have allows : (Pc.waitUnlocked m).Allows (.waits (.cond c)) := rfl
  have blocked := h.toLinked.block real ready idle allows (.inl rfl)
  refine .bind blocked.unlock ?_
  rintro ⟨s', suspends⟩ ⟨linked, keeps⟩
  have pc : s'.pc = s.pc := keeps.pc
  have current : s'.current = s.current := keeps.current
  have none : s'.returned = none := keeps.returned.trans fresh
  rw [← pc, ← current] at linked
  refine .ite (fun _ => linked.suspend none) fun _ => ?_
  exact (linked.rename (current ▸ real) (.waitSuspended m) (.inl rfl) rfl rfl).suspend none

theorem Ok.condTimedwait {m : Nat} {time : RTIME} :
    Ensures (s.pthreadCondTimedwait c m time) Ok := by
  have awake : (s.disp.state s.current).delayed = true → some s.current = Option.none := by
    rw [ready]
    intro delayed
    cases delayed
  have leaves : READY.set (SEMAPHORE.set DELAYED) ≠ READY := by decide
  have timed : (s.disp.setResumeTime s.current time).Linked True none :=
    h.lists.setResumeTime real awake
  obtain ⟨lists, L, same⟩ := timed.blockCurrent ready real leaves
  have delayed : (((s.disp.setResumeTime s.current time).blockCurrent
      (SEMAPHORE.set DELAYED)).state s.current).delayed = true := by
    rw [same]
    simp [READY, SEMAPHORE, DELAYED, TaskState.set, Dispatcher.setResumeTime]
  refine .map ((lists.enqTimedTask delayed real).mono ?_)
  rintro _ ⟨lists', T, rfl⟩
  have fits : Fits (.timedEnqueued m) (READY.set (SEMAPHORE.set DELAYED)) (some (.cond c)) :=
    ⟨.sleeps c, rfl, rfl, rfl⟩
  have linked := h.toLinked.enqueue real idle lists' (by rw [same]; rfl) rfl fits (.inl rfl)
  refine ⟨linked.placed, .inr ⟨m, .inl (update_self _ _ _)⟩, fun t v e => ?_⟩
  cases fresh.symm.trans e

end

/-- A thread whose time is over leaves its queue. -/
theorem Linked.leave {m : Nat} (h : Linked s.pc s) (real : s.current ≠ rtLinuxTask)
    (ready : s.disp.state s.current = READY) (blocked : s.blockedOn s.current = some q)
    (fresh : s.returned = none) :
    Ok ((s.dequeue s.current).setPc (.timedDequeued m true)) := by
  have linked : Linked (update s.pc s.current (.timedDequeued m true)) (s.dequeue s.current) := by
    refine ⟨h.lists, h.queues.dequeue nodes_separate blocked, fun t => ?_, ?_⟩
    · show Fits (update s.pc s.current (.timedDequeued m true) t) (s.disp.state t)
        (update s.blockedOn s.current none t)
      by_cases e : t = s.current
      · rw [e, update_self, update_self]
        exact ⟨.awake, rfl, ready, rfl⟩
      · rw [update_of_ne e, update_of_ne e]
        exact h.fits t
    · rw [update_of_ne real.symm]
      exact h.linux
  exact linked.running ready fresh

/-- A signal or a broadcast takes the thread off. -/
def Taken (s : Pthreads n) : Event → Up.Task n → Prop
  | .call (.signal c) _, t => s.queue.next (.head (.cond c)) = .thread t
  | .call (.broadcast c) _, t => s.blockedOn t = some (.cond c)
  | _, _ => False

instance (s : Pthreads n) : ∀ (e : Event) (t : Up.Task n), Decidable (Taken s e t)
  | .call (.signal _) _, _ => inferInstanceAs (Decidable (_ = _))
  | .call (.broadcast _) _, _ => inferInstanceAs (Decidable (_ = _))
  | .call (.wait _ _) _, _ => inferInstanceAs (Decidable False)
  | .call (.timedwait _ _ _) _, _ => inferInstanceAs (Decidable False)
  | .call (.lock _) _, _ => inferInstanceAs (Decidable False)
  | .call (.unlock _) _, _ => inferInstanceAs (Decidable False)
  | .goOn _, _ => inferInstanceAs (Decidable False)
  | .timer _, _ => inferInstanceAs (Decidable False)

/-- Whoever is taken off waits in `pthread_cond_wait`. -/
def Untimed (s : Pthreads n) (e : Event) : Prop := ∀ t, Taken s e t → (s.pc t).waits = true

instance (s : Pthreads n) (e : Event) : Decidable (Untimed s e) :=
  inferInstanceAs (Decidable (∀ t, Taken s e t → (s.pc t).waits = true))

/-- After giving back a mutex or waking threads the current one runs on. -/
theorem Ok.keeps (h : Ok s) (linked : Linked s.pc s') (keeps : Keeps s s')
    (ready : s.disp.state s.current = READY) : Ok s' := by
  rw [← keeps.pc] at linked
  refine ⟨linked, .inl ?_, fun t v e => ?_⟩
  · rw [keeps.current]
    exact keeps.ready _ ready
  · rw [keeps.pc]
    rw [keeps.returned] at e
    exact h.returned t v e

theorem Linked.outside (linked : Linked s.pc s') (keeps : Keeps s s')
    (outside : s.pc s.current = .user) (fresh : s.returned = none) :
    Ensures (s'.suspend k .user) Ok := by
  have same : update s'.pc s'.current .user = s.pc := by
    rw [keeps.pc, keeps.current, ← outside, update_eq_self]
  rw [← same] at linked
  exact linked.suspend (keeps.returned.trans fresh)

theorem Ok.call {op : Call} (h : Ok s) (real : s.current ≠ rtLinuxTask)
    (outside : s.pc s.current = .user) (fresh : s.returned = none)
    (untimed : Untimed s (.call op k)) : Ensures (s.call k op) Ok := by
  have ready : s.disp.state s.current = READY := by
    refine h.running.resolve_right ?_
    rintro ⟨m, e | e⟩
    · cases outside.symm.trans e
    · cases outside.symm.trans e
  have idle : s.blockedOn s.current = none := (ready ▸ h.fits s.current).awake (by rw [outside]; rfl)
  cases op with
  | wait c m => exact h.condWait real ready idle fresh
  | timedwait c m time => exact h.condTimedwait real ready idle fresh
  | signal c =>
      refine .bind (h.wakeFirst fun t ht first => (ht ▸ h.fits t).onCond (untimed t first)) ?_
      rintro ⟨s', woken⟩ ⟨linked, keeps⟩
      exact .ite (fun _ => linked.outside keeps outside fresh) fun _ =>
        .some (h.keeps linked keeps ready)
  | broadcast c =>
      refine .bind (h.wakeAll untimed) ?_
      rintro s' ⟨linked, keeps⟩
      exact linked.outside keeps outside fresh
  | lock m =>
      refine .bind (h.lock none real ready idle) ?_
      rintro ⟨s', result⟩ (⟨some, M, rfl⟩ | ⟨rfl, linked, returned⟩)
      · refine .ite (fun _ => .some ?_) fun no => absurd some no
        exact ⟨⟨h.lists, h.queues, h.fits, h.linux⟩, .inl ready, h.returned⟩
      · exact .ite (fun some => by cases some) fun _ => linked.suspend (returned.trans fresh)
  | unlock m =>
      refine .bind h.unlock ?_
      rintro ⟨s', suspends⟩ ⟨linked, keeps⟩
      exact .ite (fun _ => linked.outside keeps outside fresh) fun _ =>
        .some (h.keeps linked keeps ready)

/-- A thread that goes on behind `LXRT_SUSPEND` is `READY`, and on no queue unless it is in a
timed wait. -/
theorem Ok.goOn (h : Ok s) (fresh : s.returned = none) : Ensures (s.goOn k) Ok := by
  have real : ∀ {place}, s.pc s.current = place → place ≠ .user → s.current ≠ rtLinuxTask := by
    rintro place at_ ne e
    rw [e] at at_
    exact ne (at_.symm.trans h.linux)
  have ready : ∀ {place}, s.pc s.current = place → (∀ m, place ≠ .timedEnqueued m) →
      (∀ m, place ≠ .timedUnlocked m) → s.disp.state s.current = READY := by
    intro place at_ ne ne'
    refine h.running.resolve_right ?_
    rintro ⟨m, e | e⟩
    · exact ne m (at_.symm.trans e)
    · exact ne' m (at_.symm.trans e)
  have fits := h.fits s.current
  cases at_ : s.pc s.current with
  | user =>
      simp only [Pthreads.goOn, at_]
      exact .none
  | waitUnlocked m =>
      simp only [Pthreads.goOn, at_]
      rw [at_] at fits
      have fits' := fits.within (.waitSuspended m) (.inl rfl) rfl rfl
      exact (h.setPc (real at_ nofun) fits').suspend fresh
  | waitSuspended m =>
      simp only [Pthreads.goOn, at_]
      have ready := ready at_ nofun nofun
      rw [at_, ready] at fits
      exact h.relock (real at_ nofun) ready (fits.awake rfl) fresh
  | timedEnqueued m =>
      simp only [Pthreads.goOn, at_]
      rw [at_] at fits
      have fits' := fits.within (.timedUnlocked m) (.inr rfl) rfl rfl
      refine .bind (h.setPc (real at_ nofun) fits').unlock ?_
      rintro ⟨s', suspends⟩ ⟨linked, keeps⟩
      have pc : s'.pc = s.pc := keeps.pc
      have current : s'.current = s.current := keeps.current
      have none : s'.returned = none := keeps.returned.trans fresh
      rw [← pc, ← current] at linked
      refine .ite (fun _ => linked.suspend none) fun _ => .some ?_
      refine ⟨linked.placed, .inr ⟨m, .inr (update_self _ _ _)⟩, fun t v e => ?_⟩
      cases none.symm.trans e
  | timedUnlocked m =>
      simp only [Pthreads.goOn, at_]
      rw [at_] at fits
      have fits' := fits.within (.timedSuspended m) (.inr rfl) rfl rfl
      exact (h.setPc (real at_ nofun) fits').suspend fresh
  | timedSuspended m =>
      simp only [Pthreads.goOn, at_]
      have ready := ready at_ nofun nofun
      refine .ite (fun blocked => .some ?_) fun off => .some ?_
      · obtain ⟨q, hq⟩ := Option.isSome_iff_exists.mp blocked
        exact h.leave (real at_ nofun) ready hq fresh
      · have idle : s.blockedOn s.current = none := by simpa using off
        have fits' := Fits.ready (.timedDequeued m false) rfl
        rw [← ready, ← idle] at fits'
        exact (h.setPc (real at_ nofun) fits').running ready fresh
  | timedDequeued m semret =>
      simp only [Pthreads.goOn, at_]
      have ready := ready at_ nofun nofun
      rw [at_, ready] at fits
      exact h.relock (real at_ nofun) ready (fits.awake rfl) fresh
  | locking m result =>
      simp only [Pthreads.goOn, at_]
      have ready := ready at_ nofun nofun
      rw [at_, ready] at fits
      have idle := fits.awake rfl
      obtain ⟨M, same⟩ : ∃ M, (s.pthreadMutexLockRest m).1 = { s with mutex := M } := by
        simp only [pthreadMutexLockRest]
        split
        · exact ⟨s.mutex, rfl⟩
        · exact ⟨_, rfl⟩
      have linked : Linked s.pc { s with mutex := M } := ⟨h.lists, h.queues, h.fits, h.linux⟩
      rw [same]
      cases result with
      | none =>
          have fits' := Fits.ready .user rfl
          rw [← ready, ← idle] at fits'
          have placed := Linked.setPc (s := { s with mutex := M }) linked (real at_ nofun) fits'
          exact .some (placed.running ready fresh)
      | some v => exact .some (linked.finish ready idle)

/-- What every step keeps, as long as no thread in a timed wait is taken off. -/
theorem Ok.step (h : Ok s) (untimed : Untimed s e) : Ensures (step e s) Ok := by
  have h' : Ok { s with returned := none } :=
    ⟨⟨h.lists, h.queues, h.fits, h.linux⟩, h.running, nofun⟩
  cases e with
  | call op k =>
      refine .ite (fun calls => h'.call calls.1 calls.2 rfl ?_) fun _ => .none
      cases op <;> exact untimed
  | goOn k => exact h'.goOn rfl
  | timer k =>
      refine .map ((h.lists.rtTimerHandler k).mono ?_)
      rintro d ⟨lists, woken, ready⟩
      exact ⟨h'.toLinked.woken lists woken, .inl ready, nofun⟩

/-! ## Whole runs -/

/-- No thread is inside a function. -/
structure Initial (s : Pthreads n) : Prop where
  lists : s.disp.Linked True none
  queues : OnRings s.queue Node.head Node.thread s.blockedOn
  threads : ∀ t, s.pc t = .user ∧ s.blockedOn t = none ∧
    (s.disp.state t = READY ∨ s.disp.state t = DEAD)
  running : s.disp.state s.current = READY
  returned : s.returned = none

theorem Initial.ok (h : Initial s) : Ok s := by
  refine ⟨⟨h.lists, h.queues, fun t => ?_, (h.threads _).1⟩, .inl h.running, fun t v e => ?_⟩
  · obtain ⟨outside, idle, ready | dead⟩ := h.threads t
    · rw [outside, idle, ready]
      exact .ready _ rfl
    · rw [outside, idle, dead]
      exact ⟨.dead, rfl, rfl, rfl⟩
  · cases h.returned.symm.trans e

/-- The thread is on the queue of the condition variable. -/
def OnCond (s : Pthreads n) (c : Nat) (t : Up.Task n) : Prop :=
  ∃ l, Ring s.queue (.head (.cond c)) l ∧ .thread t ∈ l

/-- The thread is on the timed list. -/
def OnTimed (s : Pthreads n) (t : Up.Task n) : Prop :=
  ∃ l, Ring s.disp.timed rtLinuxTask l ∧ t ∈ l

/-- The event is a signal or a broadcast. -/
def Signals (c : Nat) : Event → Prop
  | .call (.signal c') _ | .call (.broadcast c') _ => c' = c
  | _ => False

/-- What is said of every step and of the state behind it. -/
structure Kept (r : Record (Pthreads n) Event) : Prop where
  /-- A thread that a signal or a broadcast takes off the queue is not on the timed list. -/
  taken : ∀ c t, Signals c r.event → OnCond r.pre c t → ¬OnCond r.post c t → ¬OnTimed r.post t
  /-- A thread whose wait returns `ETIMEDOUT` is on no queue. -/
  expired : ∀ c t, r.post.returned = some (t, ETIMEDOUT) → ¬OnCond r.post c t
  /-- The timed list is well formed, and in the order of the times. -/
  timed : ∃ l, Ring r.post.disp.timed rtLinuxTask l ∧
    l.Pairwise (NotLater r.post.disp.resumeTime)
  /-- So is the queue, which holds the threads that are blocked on it. -/
  queue : ∀ c, ∃ ts : List (Up.Task n), Ring r.post.queue (.head (.cond c)) (ts.map .thread) ∧
    ∀ t, t ∈ ts ↔ r.post.blockedOn t = some (.cond c)

theorem Linked.onCond (h : Linked pc s) : OnCond s c t ↔ s.blockedOn t = some (.cond c) := by
  obtain ⟨ts, ring, -, mem⟩ := h.queues.waiters nodes_separate (.cond c)
  rw [← mem t]
  constructor
  · rintro ⟨l, ring', here⟩
    rw [ring'.unique ring] at here
    exact (List.mem_map_of_injective nodes_separate.node).mp here
  · exact fun here => ⟨_, ring, List.mem_map_of_mem here⟩

theorem Linked.onTimed (h : Linked pc s) : OnTimed s t ↔ (s.disp.state t).delayed = true := by
  obtain ⟨l, ring, mem, -⟩ := h.lists.timed
  constructor
  · rintro ⟨l', ring', here⟩
    rw [ring'.unique ring] at here
    exact ((mem t).mp here).1
  · exact fun delayed => ⟨l, ring, (mem t).mpr ⟨delayed, nofun⟩⟩

/-- A thread is on the timed list only with its node on the queue of a condition variable. -/
theorem Linked.sleeping (h : Linked pc s) (asleep : OnTimed s t) :
    ∃ c, s.blockedOn t = some (.cond c) := by
  have delayed := h.onTimed.mp asleep
  obtain ⟨x, -, state, on_⟩ := h.fits t
  rw [state] at delayed
  cases x with
  | sleeps c => exact ⟨c, on_⟩
  | _ => cases delayed

theorem suspend_blockedOn : Ensures (s.suspend k place) fun s' => s'.blockedOn = s.blockedOn :=
  .map fun _ _ => rfl

/-- A signal and a broadcast put nobody on a queue. -/
theorem Ok.signals (h : Ok s) (untimed : Untimed s e) (signals : Signals c e) :
    Ensures (Pthreads.step e s) fun s' => ∀ u q, s'.blockedOn u = some q → s.blockedOn u = some q := by
  have h' : Linked s.pc { s with returned := none } := ⟨h.lists, h.queues, h.fits, h.linux⟩
  cases e with
  | goOn k => exact signals.elim
  | timer k => exact signals.elim
  | call op k =>
      refine .ite (fun _ => ?_) fun _ => .none
      cases op with
      | signal c' =>
          refine .bind (h'.wakeFirst fun t ht first => (ht ▸ h.fits t).onCond (untimed t first)) ?_
          rintro ⟨s', woken⟩ ⟨-, keeps⟩
          refine .ite (fun _ => suspend_blockedOn.mono ?_) fun _ => .some keeps.fewer
          rintro s'' same u q hu
          rw [same] at hu
          exact keeps.fewer u q hu
      | broadcast c' =>
          refine .bind (h'.wakeAll untimed) ?_
          rintro s' ⟨-, keeps⟩
          refine suspend_blockedOn.mono ?_
          rintro s'' same u q hu
          rw [same] at hu
          exact keeps.fewer u q hu
      | _ => exact signals.elim

/-- One step. -/
theorem Ok.kept {s s' : Pthreads n} (h : Ok s) (untimed : Untimed s e)
    (stepped : Pthreads.step e s = some s') : Kept ⟨s, e, s'⟩ := by
  have h' : Ok s' := h.step untimed s' stepped
  refine ⟨fun c t signals before after asleep => ?_, fun c t returned on_ => ?_, ?_, fun c => ?_⟩
  · obtain ⟨c', blocked⟩ := h'.sleeping asleep
    have same := h.signals untimed signals s' stepped t _ blocked
    rw [h.onCond.mp before] at same
    cases same
    exact after (h'.onCond.mpr blocked)
  · have outside := h'.returned t _ returned
    have fits := h'.fits t
    rw [outside] at fits
    obtain ⟨x, allows, -, idle⟩ := fits
    rw [h'.onCond.mp on_] at idle
    cases x with
    | waits q =>
        cases q with
        | cond c => cases allows
        | mutex m => cases idle
    | sleeps c => cases allows
    | late c => cases allows
    | dead => cases idle
    | awake => cases idle
  · obtain ⟨l, ring, -, sorted⟩ := h'.lists.timed
    exact ⟨l, ring, sorted trivial⟩
  · obtain ⟨ts, ring, -, mem⟩ := h'.queues.waiters nodes_separate (.cond c)
    exact ⟨ts, ring, mem⟩

/-- In every run in which whoever is taken off a queue waits in `pthread_cond_wait`, the lists
of the condition variables and of the scheduler are kept. -/
theorem cond_lists_kept {n : Nat} {s₀ s : Pthreads n} {tr : List (Record (Pthreads n) Event)}
    (start : Initial s₀) (run : Run step Untimed s₀ tr s) : ∀ r ∈ tr, Kept r := by
  have both : Ok s ∧ ∀ r ∈ tr, Kept r :=
    run.each start.ok fun ok untimed stepped => ⟨ok.step untimed _ stepped, ok.kept untimed stepped⟩
  exact both.2

/-- Three threads that are ready, the first of which runs. -/
def start : Pthreads 3 where
  disp := {
    magic := fun t => t ≠ rtLinuxTask
    state := fun _ => READY
    priority := ![Up.RT_LINUX_PRIORITY, 5, 6, 7]
    policy := fun _ => 0
    period := fun _ => 0
    resumeTime := fun _ => Up.RT_TIME_END
    yieldTime := fun _ => 0
    rrQuantum := fun _ => 0
    rrRemaining := fun _ => 0
    ready := ⟨finRotate 4, (finRotate 4).symm⟩
    timed := ⟨id, id⟩
    current := finRotate 4 rtLinuxTask
    timeH := 0
    schedRqsted := 0
    timer := {} }
  basePriority := ![Up.RT_LINUX_PRIORITY, 5, 6, 7]
  queue := ⟨id, id⟩
  blockedOn := fun _ => none
  mutex := fun _ => { magic := true, count := 1 }
  pc := fun _ => .user
  returned := none

theorem start_initial : Initial start where
  lists := {
    ready := ⟨[1, 2, 3], ⟨by decide, rfl, rfl, rfl, rfl, rfl, rfl, rfl, rfl⟩, by decide⟩
    timed := ⟨[], ⟨by decide, rfl, rfl⟩, by decide, fun _ => .nil⟩
    dead := by decide
    linuxMagic := rfl
    linuxTime := rfl
    linuxPolicy := le_refl 0 }
  queues := by
    refine ⟨fun _ => [], ⟨fun q => ⟨List.nodup_singleton _, rfl, rfl⟩, fun q q' x hx hx' => ?_⟩, ?_⟩
    · rw [List.mem_singleton] at hx hx'
      rw [hx] at hx'
      cases hx'
      rfl
    · intro q x
      refine ⟨nofun, ?_⟩
      rintro ⟨t, -, e⟩
      cases e
  threads := fun _ => ⟨rfl, rfl, .inl rfl⟩
  running := rfl
  returned := rfl

/-- A thread waits, and another one signals. -/
theorem cond_lists_waited : ∃ tr s, Run step Untimed start tr s ∧ tr ≠ [] ∧ ∀ r ∈ tr, Kept r := by
  obtain ⟨tr, s, run, passed⟩ := Run.of_records step Untimed start
    [.call (.wait 0 0) {}, .call (.signal 0) {}]
    (fun tr s => !tr.isEmpty && decide (s.current = 1)) (by decide +kernel)
  refine ⟨tr, s, run, ?_, cond_lists_kept start_initial run⟩
  rintro rfl
  cases passed

/-- The links make a ring of one node. -/
def Single {α : Type} (L : Links α) (h x : α) : Prop :=
  (L.next h = x ∧ L.prev x = h) ∧ L.next x = h ∧ L.prev h = x

instance {α : Type} [DecidableEq α] (L : Links α) (h x : α) : Decidable (Single L h x) :=
  inferInstanceAs (Decidable (_ ∧ _))

theorem Single.ring {α : Type} {L : Links α} {h x : α} (single : Single L h x) (ne : h ≠ x) :
    Ring L h [x] :=
  ⟨by simpa using ne, single.1.1, single.1.2, single.2⟩

/-- A thread that sleeps in `pthread_cond_timedwait` is taken off the queue by a signal, and
is still on the timed list. -/
theorem signalled_asleep :
    ¬∀ {n : Nat} {s₀ s : Pthreads n} {tr : List (Record (Pthreads n) Event)}, Initial s₀ →
      Run step (fun _ _ => True) s₀ tr s → ∀ r ∈ tr, Kept r := by
  intro kept
  obtain ⟨tr, s, run, passed⟩ := Run.of_execute step (fun _ _ => True) start
    [.call (.timedwait 0 0 100) {}, .goOn {}, .goOn {}]
    (fun s => decide (Single s.queue (.head (.cond 0)) (.thread 1)) &&
      (step (.call (.signal 0) {}) s).any fun s' : Pthreads 3 =>
        decide (s'.queue.next (.head (.cond 0)) = .head (.cond 0)) &&
          decide (Single s'.disp.timed rtLinuxTask 1)) (by decide +kernel)
  obtain ⟨before, passed⟩ := (Bool.and_eq_true _ _).mp passed
  obtain ⟨s', stepped, passed⟩ := (Option.any_eq_true _ _).mp passed
  obtain ⟨after, timed⟩ := (Bool.and_eq_true _ _).mp passed
  have last := kept start_initial (run.snoc trivial stepped) _
    (List.mem_append_right _ (List.mem_singleton_self _))
  refine last.taken 0 1 rfl ⟨_, (of_decide_eq_true before).ring nofun, List.mem_singleton_self _⟩ ?_
    ⟨_, (of_decide_eq_true timed).ring (by decide), List.mem_singleton_self _⟩
  rintro ⟨l, ring, here⟩
  cases l with
  | nil => cases here
  | cons x l =>
      have first : x = .head (.cond 0) := ring.next_head.symm.trans (of_decide_eq_true after)
      exact ring.head_notMem (by simp [first])

/-- The condition is no weaker for a thread whose time is over.  Signalled before it runs, it is
on the ready list twice; it is dispatched while it waits again, and waits a second time. -/
theorem signalled_late :
    ¬∀ {n : Nat} {s₀ s : Pthreads n} {tr : List (Record (Pthreads n) Event)}, Initial s₀ →
      Run step (fun s e => ∀ t, Taken s e t → (s.disp.state t).delayed = false) s₀ tr s →
        ∀ r ∈ tr, Kept r := by
  intro kept
  obtain ⟨tr, s, run, passed⟩ := Run.of_execute step
    (fun s e => ∀ t, Taken s e t → (s.disp.state t).delayed = false) start
    [.call (.timedwait 1 1 0) {}, .goOn {}, .goOn {}, .call (.wait 3 3) {},
      .call (.timedwait 0 0 0) {}, .goOn {}, .goOn {}, .timer {}, .goOn {}, .goOn {},
      .call (.signal 0) {}, .call (.signal 3) {}, .call (.wait 1 1) {}, .goOn {}, .goOn {},
      .call (.wait 0 0) {}, .goOn {}, .call (.wait 3 3) {}, .goOn {}]
    (fun s => (step (.call (.wait 0 0) {}) s).any fun s' : Pthreads 3 =>
        decide (s'.queue.next (.head (.cond 0)) = .thread 3 ∧
          s'.queue.prev (.thread 3) ≠ .head (.cond 0))) (by decide +kernel)
  obtain ⟨s', stepped, passed⟩ := (Option.any_eq_true _ _).mp passed
  obtain ⟨first, broken⟩ := of_decide_eq_true passed
  have guard : ∀ t, Taken s (.call (.wait 0 0) {}) t → (s.disp.state t).delayed = false :=
    fun _ taken => (show False from taken).elim
  have last := kept start_initial (run.snoc guard stepped) _
    (List.mem_append_right _ (List.mem_singleton_self _))
  obtain ⟨ts, ring, -⟩ := last.queue 0
  refine broken ?_
  rw [← first]
  exact ring.prev_next List.mem_cons_self

end Pthreads

end Rtai.Posix
