import Rtai.Posix.Exclusion

/-!
# Recursive mutexes

`pthread_mutex_init` leaves the count of a free mutex at 1, and a recursive mutex is taken
only while the count is 0.  So nobody ever takes one: `pthread_mutex_trylock` finds it busy,
and `pthread_mutex_lock` waits for an owner that there is not.
-/

namespace Rtai.Posix

open Function Rtai.Lib
open Rtai.Up (READY)

/-- The two calls that take a mutex. -/
inductive Taking where
  | lock
  | trylock
deriving DecidableEq

namespace Threads

variable {T : Type} [DecidableEq T]

/-- The call, with what it returns unless it waits. -/
def take (self : T) (s : Threads T) : Taking → Option (Threads T × Option Int)
  | .lock => s.pthreadMutexLock self
  | .trylock =>
      let (s, value) := s.pthreadMutexTrylock self
      some (s, some value)

/-- The calls, one after the other.  No state is left when one of them waits or fails. -/
def takes (self : T) : List Taking → Threads T → Option (Threads T)
  | [], s => some s
  | c :: cs, s => do
      let (s, value) ← s.take self c
      if value = some 0 then s.takes self cs else none

/-- Calls of `pthread_mutex_unlock`, each of which succeeds. -/
def unlocks (self : T) : Nat → Threads T → Option (Threads T)
  | 0, s => some s
  | k + 1, s =>
      let (s, value) := s.pthreadMutexUnlock self
      if value = none ∨ value = some 0 then s.unlocks self k else none

/-- Nobody has the mutex, and whoever locks it next acquires it. -/
def Lockable (s : Threads T) : Prop :=
  s.mutex.mOwner = none ∧ ∀ next, (s.pthreadMutexLock next).map Prod.snd = some (some 0)

/-- What a recursive mutex promises: the thread takes it `n` times without waiting, nobody
else gets it before the `n`-th unlock, and behind that it is free. -/
def Nests (self : T) (n : Nat) (s : Threads T) : Prop :=
  ∀ calls : List Taking, calls.length = n → ∃ held, s.takes self calls = some held ∧
    (∀ k < n, ∃ s', held.unlocks self k = some s' ∧
      ∀ other ≠ self, (s'.pthreadMutexTrylock other).2 = EBUSY) ∧
    ∃ s', held.unlocks self n = some s' ∧ s'.Lockable

end Threads

namespace Machine

variable {T : Type} [DecidableEq T] {m₀ m m' : Machine T} {t : T}

/-- The mutex is as it was set up, and no thread has ever got past it. -/
structure Unused (m : Machine T) : Prop where
  mutex : m.threads.mutex = mutexInit (some .recursive)
  place : ∀ p, m.place p = .own
  holds : ∀ p, m.holds p = false

theorem Unused.trylock (unused : m.Unused) (t : T) :
    m.threads.pthreadMutexTrylock t = (m.threads, EBUSY) := by
  simp [Threads.pthreadMutexTrylock, Threads.count, unused.mutex, mutexInit]

/-- The waiter has no owner to hand its priority to. -/
theorem Unused.lock (unused : m.Unused) (t : T) : m.threads.pthreadMutexLock t = none := by
  simp [Threads.pthreadMutexLock, Threads.count, Threads.wait, Threads.mutexInheritPrio,
    Threads.priorityEnqueueTask, Threads.setSem, Threads.setThread, unused.mutex, mutexInit]

theorem Unused.unlock (unused : m.Unused) (t : T) :
    m.threads.pthreadMutexUnlock t = (m.threads, some EINVAL) := by
  simp [Threads.pthreadMutexUnlock, unused.mutex, mutexInit]

theorem Unused.not_nests (unused : m.Unused) (t : T) {n : Nat} (positive : 0 < n) :
    ¬m.threads.Nests t n := by
  intro nests
  obtain ⟨held, taken, -⟩ := nests (List.replicate n .trylock) List.length_replicate
  obtain ⟨n, rfl⟩ := Nat.exists_eq_succ_of_ne_zero (Nat.ne_of_gt positive)
  rw [List.replicate_succ, Threads.takes, Threads.take, unused.trylock t] at taken
  cases taken

theorem Unused.step {e : Event T} (unused : m.Unused) (h : Machine.step e m = some m') : m'.Unused := by
  cases e with
  | lock t =>
      rw [Machine.step, unused.lock t] at h
      split at h <;> cases h
  | trylock t =>
      rw [Machine.step, unused.trylock t] at h
      split at h
      next calls =>
        cases h
        refine ⟨unused.mutex, fun p => ?_, unused.holds⟩
        show update m.place t .own p = .own
        rw [update_eq_self_iff.mpr calls.2.symm]
        exact unused.place p
      next => cases h
  | unlock t =>
      rw [Machine.step, unused.unlock t] at h
      split at h
      next =>
        cases h
        exact unused
      next => cases h
  | resume t =>
      rw [Machine.step, unused.place t] at h
      split at h <;> cases h
  | others thread =>
      cases h
      exact ⟨unused.mutex, unused.place, unused.holds⟩

/-- A recursive mutex that `pthread_mutex_init` has set up is never taken, by any thread. -/
theorem recursive_never_nests {tr : List (Record (Machine T) (Event T))}
    (initial : m₀.Initial (some .recursive)) (run : Run step (fun _ _ => True) m₀ tr m) :
    m.Unused ∧ ∀ (t : T) (n : Nat), 0 < n → ¬m.threads.Nests t n := by
  have unused : m.Unused :=
    run.invariant ⟨initial.mutex, initial.place, initial.holds⟩ fun unused _ h => unused.step h
  exact ⟨unused, fun t n positive => unused.not_nests t positive⟩

/-- Two threads and a recursive mutex. -/
def freshRecursive : Machine (Fin 2) where
  threads := { mutex := mutexInit (some .recursive), thread := fun _ => {} }
  place _ := .own
  holds _ := false

/-- Both threads try, and one unlocks. -/
theorem recursive_never_nests_tried : ∃ tr m, Run step (fun _ _ => True) freshRecursive tr m ∧
    m.Unused ∧ ∀ (t : Fin 2) (n : Nat), 0 < n → ¬m.threads.Nests t n := by
  obtain ⟨tr, m, run, -⟩ := Run.of_execute step (fun _ _ => True) freshRecursive
    [.trylock 0, .unlock 0, .trylock 1] (fun _ => true) (by decide)
  exact ⟨tr, m, run, recursive_never_nests ⟨rfl, fun _ => rfl, fun _ => rfl⟩ run⟩

/-- A free mutex is refused to the first thread that tries to take it. -/
theorem recursive_refused : freshRecursive.threads.mutex.mOwner = none ∧
    (freshRecursive.threads.pthreadMutexTrylock 0).2 = EBUSY ∧ ¬freshRecursive.threads.Nests 0 1 := by
  have unused : freshRecursive.Unused := ⟨rfl, fun _ => rfl, fun _ => rfl⟩
  exact ⟨rfl, congrArg Prod.snd (unused.trylock 0), unused.not_nests 0 Nat.one_pos⟩

end Machine

end Rtai.Posix
