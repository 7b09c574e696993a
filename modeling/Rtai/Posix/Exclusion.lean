import Rtai.Posix.Mutex
import Mathlib.Data.List.Perm.Basic

/-!
# Mutual exclusion

`pthread_mutex_unlock` marks the mutex as free and takes a waiter off the queue, which
claims it without a look once it runs.  `mutex_exclusive` holds in runs in which no
other thread takes the mutex between the two.
-/

namespace Rtai.Posix

open Function Rtai.Lib
open Rtai.Up (TaskState READY SEMAPHORE DELAYED)

/-! ## The functions, seen from the mutex -/

namespace Threads

variable {T : Type} [DecidableEq T] {s s' : Threads T} {t : T}

/-- Inheritance changes priorities only. -/
theorem mutexInheritPrio_spec (h : s.mutexInheritPrio t = some s') :
    s'.mutex = s.mutex ∧ ∀ p, (s'.thread p).blockedOn = (s.thread p).blockedOn ∧
      (s'.thread p).state = (s.thread p).state := by
  obtain ⟨owner, -, rfl⟩ := Option.map_eq_some_iff.mp h
  dsimp only
  split
  · refine ⟨rfl, fun p => ?_⟩
    show (update s.thread owner _ p).blockedOn = _ ∧ (update s.thread owner _ p).state = _
    rcases eq_or_ne p owner with rfl | other
    · rw [update_self]
      exact ⟨rfl, rfl⟩
    · rw [update_of_ne other]
      exact ⟨rfl, rfl⟩
  · exact ⟨rfl, fun p => ⟨rfl, rfl⟩⟩

/-- The caller is put on the queue, marked as asleep on it. -/
theorem wait_spec (h : s.wait t = some s') :
    ∃ queue, s'.mutex = { s.mutex with mSemaphore := { s.mutex.mSemaphore with queue := queue } } ∧
      queue.Perm (t :: s.queue) ∧
      ((s'.thread t).blockedOn = true ∧ (s'.thread t).state.semaphore = true) ∧
      ∀ p, p ≠ t → (s'.thread p).blockedOn = (s.thread p).blockedOn ∧
        (s'.thread p).state = (s.thread p).state := by
  obtain ⟨mutex, thread⟩ := mutexInheritPrio_spec h
  refine ⟨_, mutex, ?_, ⟨?_, ?_⟩, fun p other => ?_⟩
  · refine List.perm_middle.trans (List.Perm.cons _ ?_)
    rw [List.takeWhile_append_dropWhile]
    rfl
  · rw [(thread t).1]
    show (update s.thread t _ t).blockedOn = true
    rw [update_self]
  · rw [(thread t).2]
    show (update s.thread t _ t).state.semaphore = true
    rw [update_self]
    exact Bool.or_true _
  · rw [(thread p).1, (thread p).2]
    show (update s.thread t _ p).blockedOn = _ ∧ (update s.thread t _ p).state = _
    rw [update_of_ne other]
    exact ⟨rfl, rfl⟩

/-- The caller gets its own priority back, and nothing else. -/
theorem release_thread (owndby : Option T) (p : T) :
    ((s.release t owndby).thread p).blockedOn = (s.thread p).blockedOn ∧
      ((s.release t owndby).thread p).state = (s.thread p).state := by
  show (update s.thread t _ p).blockedOn = _ ∧ (update s.thread t _ p).state = _
  rcases eq_or_ne p t with rfl | other
  · rw [update_self]
    exact ⟨rfl, rfl⟩
  · rw [update_of_ne other]
    exact ⟨rfl, rfl⟩

/-- Without a waiter nothing is dequeued. -/
theorem dequeueNext_nil (queue : s.queue = []) : s.dequeueNext.1 = s := by
  unfold dequeueNext
  rw [queue]

/-- The head of the queue is taken off and woken. -/
theorem dequeueNext_cons {next : T} {rest : List T} (queue : s.queue = next :: rest) :
    s.dequeueNext.1.mutex =
        { s.mutex with mSemaphore := { s.mutex.mSemaphore with queue := rest } } ∧
      (s.dequeueNext.1.thread next).blockedOn = false ∧
      ∀ p, p ≠ next → s.dequeueNext.1.thread p = s.thread p := by
  unfold dequeueNext
  rw [queue]
  refine ⟨rfl, ?_, fun p other => ?_⟩
  · show (update s.thread next _ next).blockedOn = false
    rw [update_self]
  · show update s.thread next _ p = _
    rw [update_of_ne other]

end Threads

/-! ## The mutex and its holder -/

namespace Machine

variable {T : Type} [DecidableEq T]

/-- A waiter that is off the queue and has not run since. -/
def Granted (m : Machine T) (p : T) : Prop :=
  m.place p = .locking ∧ (m.threads.thread p).blockedOn = false

/-- At most one thread holds the mutex, and it is the owner. -/
structure Exclusive (m : Machine T) : Prop where
  one : ∀ p q, m.holds p = true → m.holds q = true → p = q
  owner : ∀ p, m.holds p = true → m.threads.mutex.mOwner = some p

/-- Who finds the mutex free does not overtake a waiter that was granted it. -/
def Orderly (m : Machine T) : Event T → Prop
  | .lock _ | .trylock _ => m.threads.count > 0 → ∀ p, ¬m.Granted p
  | _ => True

/-- What `pthread_mutex_init` leaves, with nobody at the mutex. -/
structure Initial (mutexAttr : Option MutexKind) (m : Machine T) : Prop where
  mutex : m.threads.mutex = mutexInit mutexAttr
  place : ∀ p, m.place p = .own
  holds : ∀ p, m.holds p = false

/-- The mutex is free, and at most one waiter granted it. -/
structure Free (m : Machine T) : Prop where
  count : m.threads.count = 1
  owner : m.threads.mutex.mOwner = none
  holds : ∀ p, m.holds p = false
  granted : ∀ p q, m.Granted p → m.Granted q → p = q

/-- The mutex is held by its owner. -/
structure Held (m : Machine T) (t : T) : Prop where
  count : m.threads.count = 0
  owner : m.threads.mutex.mOwner = some t
  holds : ∀ p, m.holds p = true ↔ p = t
  granted : ∀ p, ¬m.Granted p

structure Ok (m : Machine T) : Prop where
  magic : m.threads.mutex.mSemaphore.magic = true
  kind : m.threads.mutex.mKind = .fast ∨ m.threads.mutex.mKind = .errorcheck
  nodup : m.threads.queue.Nodup
  queued : ∀ p ∈ m.threads.queue, m.place p = .locking ∧ (m.threads.thread p).blockedOn = true
  asleep : ∀ p, m.place p = .locking → (m.threads.thread p).blockedOn = true →
    (m.threads.thread p).state.semaphore = true
  token : m.Free ∨ ∃ owner, m.Held owner

variable {m m' : Machine T} {p t : T}

section

omit [DecidableEq T]

theorem Ok.exclusive (ok : m.Ok) : m.Exclusive := by
  rcases ok.token with free | ⟨owner, held⟩
  · refine ⟨fun p q hp => ?_, fun p hp => ?_⟩
    · rw [free.holds] at hp
      cases hp
    · rw [free.holds] at hp
      cases hp
  · refine ⟨fun p q hp hq => ?_, fun p hp => ?_⟩
    · rw [(held.holds p).mp hp, (held.holds q).mp hq]
    · rw [(held.holds p).mp hp, held.owner]

theorem Initial.ok {mutexAttr : Option MutexKind} (init : m.Initial mutexAttr)
    (kind : mutexAttr.getD .fast = .fast ∨ mutexAttr.getD .fast = .errorcheck) : m.Ok := by
  have nobody (p : T) : m.place p ≠ .locking := by
    rw [init.place]
    decide
  have queue : m.threads.queue = [] := by
    rw [Threads.queue, init.mutex]
    rfl
  refine ⟨?_, ?_, ?_, fun p hp => ?_, fun p hp => absurd hp (nobody p), .inl ⟨?_, ?_, init.holds, ?_⟩⟩
  · rw [init.mutex]
    rfl
  · rw [init.mutex]
    exact kind
  · rw [queue]
    exact List.nodup_nil
  · rw [queue] at hp
    cases hp
  · rw [Threads.count, init.mutex]
    rfl
  · rw [init.mutex]
    rfl
  · exact fun p q hp => absurd hp.1 (nobody p)

/-- What a step may change without any effect on the mutex. -/
theorem Ok.congr (ok : m.Ok) (mutex : m'.threads.mutex = m.threads.mutex) (holds : m'.holds = m.holds)
    (place : ∀ p, m'.place p = .locking ↔ m.place p = .locking)
    (blocked : ∀ p, (m'.threads.thread p).blockedOn = (m.threads.thread p).blockedOn)
    (semaphore : ∀ p, (m'.threads.thread p).state.semaphore = (m.threads.thread p).state.semaphore) :
    m'.Ok := by
  have queue : m'.threads.queue = m.threads.queue := congrArg (·.mSemaphore.queue) mutex
  have count : m'.threads.count = m.threads.count := congrArg (·.mSemaphore.count) mutex
  have granted (p : T) : m'.Granted p ↔ m.Granted p := by
    rw [Granted, Granted, place, blocked]
  refine ⟨?_, ?_, ?_, fun p hp => ?_, fun p hp hb => ?_, ?_⟩
  · rw [mutex]
    exact ok.magic
  · rw [mutex]
    exact ok.kind
  · rw [queue]
    exact ok.nodup
  · rw [queue] at hp
    obtain ⟨locking, blockedOn⟩ := ok.queued p hp
    exact ⟨(place p).mpr locking, (blocked p).trans blockedOn⟩
  · rw [semaphore]
    exact ok.asleep p ((place p).mp hp) ((blocked p).symm.trans hb)
  · rcases ok.token with free | ⟨owner, held⟩
    · refine .inl ⟨count.trans free.count, ?_, fun p => ?_, fun p q hp hq => ?_⟩
      · rw [mutex]
        exact free.owner
      · rw [holds]
        exact free.holds p
      · exact free.granted p q ((granted p).mp hp) ((granted q).mp hq)
    · refine .inr ⟨owner, count.trans held.count, ?_, fun p => ?_, fun p hp => ?_⟩
      · rw [mutex]
        exact held.owner
      · rw [holds]
        exact held.holds p
      · exact held.granted p ((granted p).mp hp)

end

/-- A thread that nobody was granted the mutex before takes it. -/
theorem Ok.grabs (ok : m.Ok) (free : m.Free) (others : ∀ p, m.Granted p → p = t)
    (out : t ∉ m.threads.queue) : (m.locked t (m.threads.grab t 0) 0).Ok := by
  have holds (p : T) : (m.locked t (m.threads.grab t 0) 0).holds p = true ↔ p = t := by
    show update m.holds t true p = true ↔ p = t
    rcases eq_or_ne p t with rfl | other
    · rw [update_self]
      exact ⟨fun _ => rfl, fun _ => rfl⟩
    · rw [update_of_ne other, free.holds]
      exact ⟨nofun, fun e => absurd e other⟩
  have place (p : T) (locking : (m.locked t (m.threads.grab t 0) 0).place p = .locking) :
      p ≠ t ∧ m.place p = .locking := by
    have locking : update m.place t .own p = .locking := locking
    rcases eq_or_ne p t with rfl | other
    · rw [update_self] at locking
      cases locking
    · rw [update_of_ne other] at locking
      exact ⟨other, locking⟩
  refine ⟨ok.magic, ok.kind, ok.nodup, fun p hp => ⟨?_, (ok.queued p hp).2⟩, fun p hp => ?_,
    .inr ⟨t, rfl, rfl, holds, fun p hp => ?_⟩⟩
  · have other : p ≠ t := fun e => out (e ▸ hp)
    show update m.place t .own p = .locking
    rw [update_of_ne other]
    exact (ok.queued p hp).1
  · exact ok.asleep p (place p hp).2
  · obtain ⟨other, locking⟩ := place p hp.1
    exact other (others p ⟨locking, hp.2⟩)

omit [DecidableEq T] in
theorem Ok.own_unqueued (ok : m.Ok) (own : m.place t ≠ .locking) : t ∉ m.threads.queue :=
  fun queued => own (ok.queued t queued).1

/-- A thread finds the mutex held and queues up. -/
theorem Ok.waits (ok : m.Ok) {owner : T} (held : m.Held owner) (own : m.place t ≠ .locking)
    {s : Threads T} (h : m.threads.wait t = some s) :
    ({ m with threads := s, place := update m.place t .locking } : Machine T).Ok := by
  obtain ⟨queue, mutex, perm, ⟨blockedOn, semaphore⟩, others⟩ := Threads.wait_spec h
  have queue' : s.queue = queue := congrArg (·.mSemaphore.queue) mutex
  have place (p : T) (other : p ≠ t) : update m.place t .locking p = m.place p :=
    update_of_ne other ..
  refine ⟨?_, ?_, ?_, fun p hp => ?_, fun p hp hb => ?_, .inr ⟨owner, ?_, ?_, held.holds, fun p hp => ?_⟩⟩
  · show s.mutex.mSemaphore.magic = true
    rw [mutex]
    exact ok.magic
  · show s.mutex.mKind = _ ∨ s.mutex.mKind = _
    rw [mutex]
    exact ok.kind
  · show s.queue.Nodup
    rw [queue']
    exact perm.nodup_iff.mpr (List.nodup_cons.mpr ⟨ok.own_unqueued own, ok.nodup⟩)
  · have hp : p ∈ s.queue := hp
    rw [queue', perm.mem_iff] at hp
    show update m.place t .locking p = .locking ∧ (s.thread p).blockedOn = true
    rcases eq_or_ne p t with rfl | other
    · exact ⟨update_self .., blockedOn⟩
    · rw [place p other, (others p other).1]
      exact ok.queued p (List.mem_of_ne_of_mem other hp)
  · show (s.thread p).state.semaphore = true
    rcases eq_or_ne p t with rfl | other
    · exact semaphore
    · have hp : update m.place t .locking p = .locking := hp
      have hb : (s.thread p).blockedOn = true := hb
      rw [place p other] at hp
      rw [(others p other).1] at hb
      rw [(others p other).2]
      exact ok.asleep p hp hb
  · show s.mutex.mSemaphore.count = 0
    rw [mutex]
    exact held.count
  · show s.mutex.mOwner = some owner
    rw [mutex]
    exact held.owner
  · have woken : (s.thread p).blockedOn = false := hp.2
    have locking : update m.place t .locking p = .locking := hp.1
    rcases eq_or_ne p t with rfl | other
    · rw [blockedOn] at woken
      cases woken
    · rw [place p other] at locking
      rw [(others p other).1] at woken
      exact held.granted p ⟨locking, woken⟩

/-- The owner unlocks. -/
theorem Ok.unlocks (ok : m.Ok) (held : m.Held t) (own : m.place t ≠ .locking) (owndby : Option T)
    (place : Place) (after : place ≠ .locking) :
    ({ threads := ((m.threads.release t owndby).dequeueNext).1, place := update m.place t place,
       holds := update m.holds t false } : Machine T).Ok := by
  have holds (p : T) : update m.holds t false p = false := by
    rcases eq_or_ne p t with rfl | other
    · exact update_self ..
    · rw [update_of_ne other, ← Bool.not_eq_true, held.holds]
      exact other
  have still (p : T) : update m.place t place p = .locking ↔ m.place p = .locking := by
    rcases eq_or_ne p t with rfl | other
    · rw [update_self]
      exact ⟨fun e => absurd e after, fun e => absurd e own⟩
    · rw [update_of_ne other]
  have same (p : T) := Threads.release_thread (s := m.threads) (t := t) owndby p
  rcases queue : m.threads.queue with _ | ⟨next, rest⟩
  · rw [Threads.dequeueNext_nil (s := m.threads.release t owndby) queue]
    have asleep (p : T) (hp : update m.place t place p = .locking)
        (hb : ((m.threads.release t owndby).thread p).blockedOn = true) :
        ((m.threads.release t owndby).thread p).state.semaphore = true := by
      rw [(same p).1] at hb
      rw [(same p).2]
      exact ok.asleep p ((still p).mp hp) hb
    refine ⟨ok.magic, ok.kind, ok.nodup, fun p hp => ?_, asleep, .inl ⟨rfl, rfl, holds, ?_⟩⟩
    · have hp : p ∈ m.threads.queue := hp
      rw [queue] at hp
      cases hp
    · intro p q hp
      have hb : ((m.threads.release t owndby).thread p).blockedOn = false := hp.2
      rw [(same p).1] at hb
      exact absurd ⟨(still p).mp hp.1, hb⟩ (held.granted p)
  · have queueR : (m.threads.release t owndby).queue = next :: rest := queue
    obtain ⟨mutex, woken, others⟩ := Threads.dequeueNext_cons queueR
    have queue' : ((m.threads.release t owndby).dequeueNext).1.queue = rest :=
      congrArg (·.mSemaphore.queue) mutex
    have nodup := ok.nodup
    rw [queue, List.nodup_cons] at nodup
    have granted (p : T) (hb : ((m.threads.release t owndby).dequeueNext.1.thread p).blockedOn = false)
        (hp : update m.place t place p = .locking) : p = next := by
      by_contra other
      rw [others p other, (same p).1] at hb
      exact held.granted p ⟨(still p).mp hp, hb⟩
    refine ⟨?_, ?_, ?_, fun p hp => ?_, fun p hp hb => ?_, .inl ⟨?_, ?_, holds, fun p q hp hq => ?_⟩⟩
    · show ((m.threads.release t owndby).dequeueNext).1.mutex.mSemaphore.magic = true
      rw [mutex]
      exact ok.magic
    · show ((m.threads.release t owndby).dequeueNext).1.mutex.mKind = _ ∨ _ = _
      rw [mutex]
      exact ok.kind
    · show ((m.threads.release t owndby).dequeueNext).1.queue.Nodup
      rw [queue']
      exact nodup.2
    · have hp : p ∈ ((m.threads.release t owndby).dequeueNext).1.queue := hp
      rw [queue'] at hp
      have other : p ≠ next := fun e => nodup.1 (e ▸ hp)
      have before := ok.queued p (queue ▸ List.mem_cons_of_mem next hp)
      refine ⟨(still p).mpr before.1, ?_⟩
      show (((m.threads.release t owndby).dequeueNext).1.thread p).blockedOn = true
      rw [others p other, (same p).1]
      exact before.2
    · have hb : (((m.threads.release t owndby).dequeueNext).1.thread p).blockedOn = true := hb
      have other : p ≠ next := fun e => by
        rw [e, woken] at hb
        cases hb
      show (((m.threads.release t owndby).dequeueNext).1.thread p).state.semaphore = true
      rw [others p other, (same p).1] at hb
      rw [others p other, (same p).2]
      exact ok.asleep p ((still p).mp hp) hb
    · show ((m.threads.release t owndby).dequeueNext).1.mutex.mSemaphore.count = 1
      rw [mutex]
      rfl
    · show ((m.threads.release t owndby).dequeueNext).1.mutex.mOwner = none
      rw [mutex]
      rfl
    · rw [granted p hp.2 hp.1, granted q hq.2 hq.1]

/-- A call that leaves the mutex and the threads as they are. -/
theorem Ok.refused (ok : m.Ok) (own : m.place t = .own) {value : Int} (refused : value ≠ 0) :
    (m.locked t m.threads value).Ok := by
  have place : (m.locked t m.threads value).place = m.place := update_eq_self_iff.mpr own.symm
  refine ok.congr rfl (if_neg refused) (fun p => ?_) (fun _ => rfl) fun _ => rfl
  rw [place]

/-- The waiter that was granted the mutex takes it. -/
theorem Ok.claims (ok : m.Ok) (ready : (m.threads.thread t).state = READY)
    (locking : m.place t = .locking) :
    (m.locked t (m.threads.pthreadMutexLockRest t).1 (m.threads.pthreadMutexLockRest t).2).Ok := by
  have awake : (m.threads.thread t).blockedOn = false := by
    by_contra blocked
    have asleep := ok.asleep t locking (Bool.not_eq_false _ ▸ blocked)
    rw [ready] at asleep
    cases asleep
  have takes : m.threads.pthreadMutexLockRest t = (m.threads.grab t 0, 0) := by
    refine if_neg fun h => ?_
    rw [awake, ok.magic] at h
    rcases h with h | h
    · cases h
    · exact h rfl
  rw [takes]
  rcases ok.token with free | ⟨owner, held⟩
  · refine ok.grabs free (fun p hp => free.granted p t hp ⟨locking, awake⟩) fun queued => ?_
    have blocked := (ok.queued t queued).2
    rw [awake] at blocked
    cases blocked
  · exact absurd ⟨locking, awake⟩ (held.granted t)

omit [DecidableEq T] in
/-- A positive count says that nobody holds the mutex. -/
theorem Ok.free_of_count (ok : m.Ok) (count : m.threads.count > 0) : m.Free := by
  rcases ok.token with free | ⟨owner, held⟩
  · exact free
  · rw [held.count] at count
    exact absurd count (lt_irrefl 0)

omit [DecidableEq T] in
theorem Ok.held_of_count (ok : m.Ok) (count : ¬m.threads.count > 0) : ∃ owner, m.Held owner := by
  rcases ok.token with free | held
  · rw [free.count] at count
    exact absurd Int.one_pos count
  · exact held

theorem Ok.trylock (ok : m.Ok) (calls : m.calls t) (orderly : m.Orderly (.trylock t)) :
    (m.locked t (m.threads.pthreadMutexTrylock t).1 (m.threads.pthreadMutexTrylock t).2).Ok := by
  have body : m.threads.pthreadMutexTrylock t =
      if m.threads.count > 0 then (m.threads.grab t 0, 0) else (m.threads, EBUSY) := by
    rw [Threads.pthreadMutexTrylock, if_neg (not_not.mpr ok.magic)]
    rcases ok.kind with kind | kind
    · rw [kind]
    · rw [kind]
  rw [body]
  split
  next count =>
    have own : m.place t ≠ .locking := by
      rw [calls.2]
      decide
    exact ok.grabs (ok.free_of_count count) (fun p hp => absurd hp (orderly count p))
      (ok.own_unqueued own)
  next => exact ok.refused calls.2 (show EBUSY ≠ 0 by decide)

omit [DecidableEq T] in
theorem calls_own (calls : m.calls t) : m.place t ≠ .locking := by
  rw [calls.2]
  decide

theorem Ok.lock (ok : m.Ok) (calls : m.calls t) (orderly : m.Orderly (.lock t))
    (h : step (.lock t) m = some m') : m'.Ok := by
  have body : m.threads.pthreadMutexLock t =
      if m.threads.count > 0 then some (m.threads.grab t 0, some 0)
      else (m.threads.wait t).map fun s => (s, none) := by
    rw [Threads.pthreadMutexLock, if_neg (not_not.mpr ok.magic)]
    rcases ok.kind with kind | kind
    · rw [kind]
    · rw [kind]
  rw [step, if_pos calls, body] at h
  split at h
  next count =>
    cases h
    exact ok.grabs (ok.free_of_count count) (fun p hp => absurd hp (orderly count p))
      (ok.own_unqueued (calls_own calls))
  next count =>
    obtain ⟨⟨s, value⟩, waited, e⟩ := Option.bind_eq_some_iff.mp h
    obtain ⟨s, waits, e'⟩ := Option.map_eq_some_iff.mp waited
    cases e'
    cases e
    obtain ⟨owner, held⟩ := ok.held_of_count count
    exact ok.waits held (calls_own calls) waits

theorem Ok.unlock (ok : m.Ok) (calls : m.calls t) (h : step (.unlock t) m = some m') : m'.Ok := by
  rw [step, if_pos calls] at h
  have own := calls_own calls
  by_cases owner : m.threads.mutex.mOwner = some t
  · have held : m.Held t := by
      rcases ok.token with free | ⟨o, held⟩
      · rw [free.owner] at owner
        cases owner
      · rw [held.owner] at owner
        exact Option.some.inj owner ▸ held
    have passes : ¬(¬m.threads.mutex.mSemaphore.magic = true ∨ m.threads.mutex.mOwner ≠ some t) :=
      fun h => h.elim (fun h => h ok.magic) fun h => h owner
    obtain ⟨owndby, body⟩ : ∃ owndby, m.threads.pthreadMutexUnlock t =
        ((m.threads.release t owndby).dequeueNext.1,
          if (m.threads.release t owndby).dequeueNext.2 then none else some 0) := by
      rcases ok.kind with kind | kind
      · refine ⟨none, ?_⟩
        rw [Threads.pthreadMutexUnlock, if_neg passes, kind]
      · refine ⟨m.threads.mutex.mSemaphore.owndby, ?_⟩
        have test : ¬(m.threads.count = 1 ∨ m.threads.mutex.mOwner ≠ some t) := by
          rw [held.count]
          exact fun h => h.elim nofun fun h => h owner
        rw [Threads.pthreadMutexUnlock, if_neg passes, kind]
        exact if_neg test
    rw [body] at h
    by_cases suspends : (m.threads.release t owndby).dequeueNext.2 = true
    · rw [if_pos suspends] at h
      cases h
      exact ok.unlocks held own owndby .unlocking (by decide)
    · rw [if_neg suspends] at h
      cases h
      have unlocked := ok.unlocks held own owndby .own (by decide)
      rw [update_eq_self_iff.mpr calls.2.symm] at unlocked
      exact unlocked
  · have refuses : m.threads.pthreadMutexUnlock t = (m.threads, some EINVAL) := if_pos (.inr owner)
    rw [refuses] at h
    cases h
    exact ok

theorem Ok.step {e : Event T} (ok : m.Ok) (orderly : m.Orderly e)
    (h : Machine.step e m = some m') : m'.Ok := by
  cases e with
  | lock t =>
      by_cases calls : m.calls t
      · exact ok.lock calls orderly h
      · rw [Machine.step, if_neg calls] at h
        cases h
  | trylock t =>
      by_cases calls : m.calls t
      · rw [Machine.step, if_pos calls] at h
        cases h
        exact ok.trylock calls orderly
      · rw [Machine.step, if_neg calls] at h
        cases h
  | unlock t =>
      by_cases calls : m.calls t
      · exact ok.unlock calls h
      · rw [Machine.step, if_neg calls] at h
        cases h
  | resume t =>
      simp only [Machine.step] at h
      split at h
      next ready =>
        split at h
        next => cases h
        next locking =>
          cases h
          exact ok.claims ready locking
        next unlocking =>
          cases h
          refine ok.congr rfl rfl (fun p => ?_) (fun _ => rfl) fun _ => rfl
          show update m.place t .own p = .locking ↔ _
          rcases eq_or_ne p t with rfl | other
          · rw [update_self, unlocking]
            decide
          · rw [update_of_ne other]
      next => cases h
  | others thread =>
      cases h
      exact ok.congr rfl rfl (fun _ => Iff.rfl) (fun _ => rfl) fun _ => rfl

/-- As long as nobody overtakes a waiter that was granted the mutex, one thread at most
holds it, and it is the owner. -/
theorem mutex_exclusive {mutexAttr : Option MutexKind} {m₀ : Machine T}
    (kind : mutexAttr.getD .fast = .fast ∨ mutexAttr.getD .fast = .errorcheck)
    (init : m₀.Initial mutexAttr) {tr : List (Record (Machine T) (Event T))}
    (run : Run Machine.step Orderly m₀ tr m) : m.Exclusive :=
  (run.invariant (init.ok kind) fun ok orderly h => ok.step orderly h).exclusive

instance (m : Machine T) (p : T) : Decidable (m.Granted p) := inferInstanceAs (Decidable (_ ∧ _))

instance {k : Nat} (m : Machine (Fin k)) : ∀ e, Decidable (m.Orderly e)
  | .lock _ | .trylock _ => inferInstanceAs (Decidable (_ → _))
  | .unlock _ | .resume _ | .others _ => .isTrue trivial

/-- Two threads and a fresh mutex. -/
def fresh : Machine (Fin 2) where
  threads := { mutex := mutexInit none, thread := fun _ => {} }
  place _ := .own
  holds _ := false

theorem fresh_initial : fresh.Initial none := ⟨rfl, fun _ => rfl, fun _ => rfl⟩

/-- A waiter is granted the mutex and takes it. -/
theorem mutex_exclusive_granted :
    ∃ tr m, Run step Orderly fresh tr m ∧ m.Exclusive ∧ m.holds 1 = true := by
  obtain ⟨tr, m, run, test⟩ := Run.of_execute step Orderly fresh
    [.lock 0, .lock 1, .unlock 0, .resume 1] (fun m => m.holds 1) (by decide)
  exact ⟨tr, m, run, mutex_exclusive (.inl rfl) fresh_initial run, test⟩

/-- A thread that locks again before the waiter runs shares the mutex with it. -/
theorem mutex_shared :
    ∃ tr m, Run step (fun _ _ => True) fresh tr m ∧ ¬m.Exclusive := by
  obtain ⟨tr, m, run, test⟩ := Run.of_execute step (fun _ _ => True) fresh
    [.lock 0, .lock 1, .unlock 0, .resume 0, .lock 0, .resume 1]
    (fun m => m.holds 0 ∧ m.holds 1) (by decide)
  have both := of_decide_eq_true test
  refine ⟨tr, m, run, fun exclusive => ?_⟩
  have same := exclusive.one 0 1 both.1 both.2
  revert same
  decide

end Machine

end Rtai.Posix
