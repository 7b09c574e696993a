import Rtai.Lxrt.Semaphores
import Mathlib.Data.List.Basic
import Mathlib.Data.List.Nodup

/-!
# Queues of the semaphores

What each service does to its semaphore and to one task, and the invariant that a task is
on the queue that its `blocked_on` says, as long as it is in a wait for this semaphore.
`waits` gives the wait that a task is in, and whether it has a timer.
-/

namespace Rtai.Lxrt

open Function Rtai.Lib

variable {S T : Type} [DecidableEq S] [DecidableEq T]

/-- What a signal leaves of the task that it takes off the queue. -/
def Task.woken (v : Task S) : Task S :=
  { v with semaphore := false, delayed := false, blockedOn := none }

/-- What a signal makes of the owner. -/
def Sem.released (sem : Sem T) : Option T := if sem.type > 0 then none else sem.owndby

/-- The owner when the task takes the semaphore. -/
def Sem.takenBy (self : T) (sem : Sem T) : Option T :=
  if sem.type > 0 then some self else sem.owndby

/-- The tasks of the queue are counted below 0, and nothing is kept from them. -/
structure Sem.Counted (sem : Sem T) : Prop where
  waiting : sem.queue ≠ [] → sem.count = -sem.queue.length
  idle : sem.queue = [] → 0 ≤ sem.count

/-- A task outside a wait is ready, and one inside is blocked on its semaphore or has been
taken off the queue.  Only a timer makes a task ready that stays in the queue. -/
structure Task.Fits (wait : Option (S × Bool)) (v : Task S) : Prop where
  idle : wait = none → v.Ready
  inside : ∀ {i timed}, wait = some (i, timed) → v.blockedOn = some i ∨ v.blockedOn = none
  asleep : ∀ {i}, wait = some (i, false) → v.blockedOn.isSome → v.semaphore ∧ v.delayed = false

namespace Kernel

variable {k k' : Kernel S T} {i j : S} {self t : T} {sem : Sem T} {v : Task S} {how : Option Bool}
  {r : Int} {timed : Bool}

@[simp] theorem setSem_sem : (k.setSem i sem).sem = update k.sem i sem := rfl
@[simp] theorem setSem_task : (k.setSem i sem).task = k.task := rfl
@[simp] theorem setTask_task : (k.setTask t v).task = update k.task t v := rfl
@[simp] theorem setTask_sem : (k.setTask t v).sem = k.sem := rfl

/-! ## What the services do -/

/-- A signal takes back one level of nesting, wakes the first task of the queue, or is kept. -/
inductive Signal (i : S) (k : Kernel S T) : Kernel S T → Prop where
  | nested : (k.sem i).type > 1 →
      Signal i k (k.setSem i { k.sem i with type := (k.sem i).type - 1 })
  | kept : ¬(k.sem i).type > 1 → (k.sem i).queue = [] →
      Signal i k (k.setSem i { k.sem i with
        count := (k.sem i).countUp, owndby := (k.sem i).released })
  | wakes {t : T} {rest : List T} : ¬(k.sem i).type > 1 → (k.sem i).queue = t :: rest →
      Signal i k ((k.setSem i { k.sem i with
        count := (k.sem i).countUp, queue := rest, owndby := (k.sem i).released }).setTask t
          (k.task t).woken)

theorem rtSemSignal_cases : k.Signal i (k.rtSemSignal i) := by
  unfold rtSemSignal
  dsimp only
  split
  next nested => exact .nested nested
  next top =>
    cases queue : (k.sem i).queue with
    | nil =>
        have kept := Signal.kept top queue
        convert kept using 1
        split <;> rename_i res <;>
          simp [setSem, Sem.released, queue, res, update_idem]
    | cons t rest =>
        have wakes := Signal.wakes top queue
        convert wakes using 1
        split <;> rename_i res <;>
          simp [setSem, setTask, dequeueBlocked, makeReady, Sem.released, Task.woken, res, update_idem]

theorem broadcastLoop_spec {q : List T} : ∃ queue,
    (broadcastLoop i q k).sem = update k.sem i { k.sem i with queue := queue } ∧
      ∀ t, (broadcastLoop i q k).task t = if t ∈ q then (k.task t).woken else k.task t := by
  induction q generalizing k with
  | nil => exact ⟨(k.sem i).queue, (update_eq_self i k.sem).symm, fun _ => rfl⟩
  | cons u q ih =>
      obtain ⟨queue, sem, task⟩ := ih (k := (k.dequeueBlocked i u).makeReady u)
      refine ⟨queue, ?_, fun t => ?_⟩
      · rw [broadcastLoop, sem]
        simp [makeReady, dequeueBlocked, setSem, setTask, update_idem]
      · rw [broadcastLoop, task]
        rcases eq_or_ne t u with rfl | ne
        · simp [makeReady, dequeueBlocked, setSem, setTask, Task.woken]
        · simp [makeReady, dequeueBlocked, setSem, setTask, ne]

/-- A broadcast wakes every task of the queue, and forgets what was kept. -/
theorem rtSemBroadcast_spec :
    (k.rtSemBroadcast i).sem = update k.sem i { k.sem i with count := 0, queue := [] } ∧
      ∀ t, (k.rtSemBroadcast i).task t =
        if t ∈ (k.sem i).queue then (k.task t).woken else k.task t := by
  obtain ⟨queue, sem, task⟩ := broadcastLoop_spec (k := k) (i := i) (q := (k.sem i).queue)
  refine ⟨?_, task⟩
  simp [rtSemBroadcast, setSem, sem, update_idem]

theorem own_eq : k.own i self =
    k.setSem i { k.sem i with owndby := (k.sem i).takenBy self } := by
  unfold own Sem.takenBy
  split
  · rfl
  · simp [setSem, update_eq_self]

theorem place_congr (same : ∀ t, (k'.task t).priority = (k.task t).priority) :
    k'.place = k.place (T := T) := by
  have ahead : k'.Ahead = k.Ahead := by
    funext a b
    simp only [Ahead, same]
  funext sem t
  unfold place
  congr! 4

/-- A wait takes the semaphore, nests, is late, or blocks. -/
inductive Wait (how : Option Bool) (i : S) (self : T) (k : Kernel S T) :
    Kernel S T → Option Int → Prop where
  | takes : (k.sem i).count > 0 → Wait how i self k
      (k.setSem i { k.sem i with
        count := (k.sem i).count - 1, owndby := (k.sem i).takenBy self })
      (some (k.sem i).count)
  | nested {v : Int} {b : Option S} : ¬(k.sem i).count > 0 → (k.sem i).type > 0 →
      (k.sem i).owndby = some self → v ≤ 0 → Wait how i self k
      ((k.setSem i { k.sem i with type := (k.sem i).type + 1 }).setTask self
        { k.task self with blockedOn := b }) (some v)
  | late : how = some true → ¬(k.sem i).count > 0 →
      Wait how i self k (k.setTask self { k.task self with blockedOn := none }) (some SEM_TIMOUT)
  | blocks {d : Bool} : ¬(k.sem i).count > 0 →
      ¬((k.sem i).type > 0 ∧ (k.sem i).owndby = some self) →
      (how = none → d = (k.task self).delayed) → Wait how i self k
      ((k.setSem i (k.place { k.sem i with count := (k.sem i).count - 1 } self)).setTask self
        { k.task self with semaphore := true, delayed := d, blockedOn := some i }) none

theorem waitFor_cases (how : Option Bool) (off : self ∉ (k.sem i).queue) :
    k.Wait how i self (k.waitFor how i self).1 (k.waitFor how i self).2 := by
  have priorities {sem : S → Sem T} {v : Task S} (same : v.priority = (k.task self).priority) :
      (Kernel.mk sem (update k.task self v)).place = k.place := by
    refine place_congr fun t => ?_
    rcases eq_or_ne t self with rfl | ne
    · simp [same]
    · simp [ne]
  cases how with
  | none =>
      unfold waitFor rtSemWait
      dsimp only
      split
      next busy =>
        split
        next mine =>
          have nested : k.Wait none i self _ _ := .nested (b := (k.task self).blockedOn)
            (not_lt.mpr busy) mine.1 mine.2 busy
          simpa [setTask, setSem, update_eq_self] using nested
        next other =>
          have blocks : k.Wait none i self _ none := .blocks (not_lt.mpr busy) other fun _ => rfl
          simpa [enqueueBlocked, setTask, setSem, update_idem, priorities] using blocks
      next free =>
        have takes : k.Wait none i self _ _ := .takes (not_le.mp free)
        simpa [own_eq, setSem, update_idem, Sem.takenBy] using takes
  | some late =>
      unfold waitFor rtSemWaitUntil
      dsimp only
      split
      next busy =>
        split
        next isLate =>
          have late : k.Wait (some late) i self _ _ := .late (by rw [isLate]) (not_lt.mpr busy)
          have count : Sem.countUp { k.sem i with count := (k.sem i).count - 1 } =
              (k.sem i).count := by
            unfold Sem.countUp
            dsimp only
            rw [if_neg (by omega), Int.sub_add_cancel]
          simpa [rtSemWaitUntilEnd, dequeueBlocked, setTask, setSem, update_idem, count,
            List.erase_of_not_mem off, update_eq_self] using late
        next =>
          split
          next mine =>
            have nested : k.Wait (some late) i self _ _ := .nested (b := some i)
              (not_lt.mpr busy) mine.1 mine.2 le_rfl
            simpa [setTask, setSem] using nested
          next other =>
            have blocks : k.Wait (some late) i self _ none := .blocks (d := true)
              (not_lt.mpr busy) other nofun
            simpa [enqueueBlocked, setTask, setSem, update_idem, priorities] using blocks
      next free =>
        have takes : k.Wait (some late) i self _ _ := .takes (not_le.mp free)
        simpa [own_eq, setSem, update_idem, Sem.takenBy] using takes

/-- A wait that comes too late for a semaphore that is not free. -/
theorem waitFor_late (busy : ¬(k.sem i).count > 0) :
    (k.waitFor (some true) i self).2 = some SEM_TIMOUT := by
  simp [waitFor, rtSemWaitUntil, rtSemWaitUntilEnd, not_lt.mp busy, setTask, setSem]

/-- A conditional wait is refused with the count, or is a wait that does not block. -/
theorem rtSemWaitIf_cases (k : Kernel S T) (i : S) (self : T) :
    (¬(k.sem i).count > 0 ∧ ¬((k.sem i).type > 0 ∧ (k.sem i).owndby = some self) ∧
      k.rtSemWaitIf i self = (k, (k.sem i).count)) ∨
    k.Wait none i self (k.rtSemWaitIf i self).1 (some (k.rtSemWaitIf i self).2) ∧
      0 ≤ (k.rtSemWaitIf i self).2 := by
  unfold rtSemWaitIf
  dsimp only
  split
  next busy =>
    split
    next mine =>
      have nested : k.Wait none i self _ _ := .nested (b := (k.task self).blockedOn)
        (not_lt.mpr busy) mine.1 mine.2 le_rfl
      exact .inr ⟨by simpa [setTask, setSem, update_eq_self] using nested, le_rfl⟩
    next other => exact .inl ⟨not_lt.mpr busy, other, rfl⟩
  next free =>
    have takes : k.Wait none i self _ _ := .takes (not_le.mp free)
    exact .inr ⟨by simpa [own_eq, setSem, update_idem, Sem.takenBy] using takes, (not_le.mp free).le⟩

/-- Behind `rt_schedule` the task has the semaphore, or has waited in vain. -/
inductive WaitEnd (timed : Bool) (i : S) (self : T) (k : Kernel S T) :
    Kernel S T → Int → Prop where
  | takes : (k.task self).blockedOn = none → WaitEnd timed i self k
      (k.setSem i { k.sem i with owndby := (k.sem i).takenBy self }) (k.sem i).count
  | timeout : timed = true → (k.task self).blockedOn.isSome → WaitEnd timed i self k
      ((k.setSem i { k.sem i with
        queue := (k.sem i).queue.erase self, count := (k.sem i).countUp }).setTask self
          { k.task self with blockedOn := none }) SEM_TIMOUT
  | error : timed = false → (k.task self).blockedOn.isSome → WaitEnd timed i self k k SEM_ERR

theorem waitForEnd_cases (k : Kernel S T) (i : S) (self : T) (timed : Bool) :
    k.WaitEnd timed i self (k.waitForEnd timed i self).1 (k.waitForEnd timed i self).2 := by
  unfold waitForEnd
  split
  next isTimed =>
    unfold rtSemWaitUntilEnd
    split
    next still =>
      have timeout := WaitEnd.timeout (i := i) isTimed still
      simpa [dequeueBlocked, setSem, setTask, update_idem, Sem.countUp] using timeout
    next off =>
      rw [own_eq]
      exact .takes (Option.not_isSome_iff_eq_none.mp off)
  next plain =>
    unfold rtSemWaitEnd
    split
    next still => exact .error (Bool.eq_false_of_not_eq_true plain) still
    next off =>
      rw [own_eq]
      exact .takes (Option.not_isSome_iff_eq_none.mp off)

/-! ## Frames -/

theorem Signal.other (h : k.Signal i k') (ne : j ≠ i) : k'.sem j = k.sem j := by
  cases h <;> simp [ne]

theorem Wait.other {r : Option Int} (h : k.Wait how i self k' r) (ne : j ≠ i) :
    k'.sem j = k.sem j := by
  cases h <;> simp [ne]

theorem WaitEnd.other (h : k.WaitEnd timed i self k' r) (ne : j ≠ i) : k'.sem j = k.sem j := by
  cases h <;> simp [ne]

theorem Wait.task {r : Option Int} (h : k.Wait how i self k' r) (ne : t ≠ self) :
    k'.task t = k.task t := by
  cases h <;> simp [ne]

theorem WaitEnd.task (h : k.WaitEnd timed i self k' r) (ne : t ≠ self) : k'.task t = k.task t := by
  cases h <;> simp [ne]

/-- Only a resource changes its type. -/
theorem Wait.type_eq {r : Option Int} (h : k.Wait how i self k' r) (flat : (k.sem i).type ≤ 0) :
    (k'.sem i).type = (k.sem i).type := by
  cases h with
  | takes => simp
  | nested _ depth => omega
  | late => rfl
  | blocks => simp [place]

theorem WaitEnd.type_eq (h : k.WaitEnd timed i self k' r) : (k'.sem i).type = (k.sem i).type := by
  cases h <;> simp

theorem WaitEnd.count_eq (h : k.WaitEnd false i self k' r) :
    (k'.sem i).count = (k.sem i).count := by
  cases h with
  | takes => simp
  | timeout timed => cases timed
  | error => rfl

theorem Wait.busy (h : k.Wait how i self k' none) : ¬(k.sem i).count > 0 := by
  cases h with
  | blocks busy => exact busy

theorem Signal.priority (h : k.Signal i k') : (k'.task t).priority = (k.task t).priority := by
  cases h with
  | nested => rfl
  | kept => rfl
  | @wakes u =>
      rcases eq_or_ne t u with rfl | ne
      · simp [Task.woken]
      · simp [ne]

theorem Wait.priority {r : Option Int} (h : k.Wait how i self k' r) :
    (k'.task t).priority = (k.task t).priority := by
  rcases eq_or_ne t self with rfl | ne
  · cases h <;> simp
  · rw [h.task ne]

theorem WaitEnd.priority (h : k.WaitEnd timed i self k' r) :
    (k'.task t).priority = (k.task t).priority := by
  rcases eq_or_ne t self with rfl | ne
  · cases h <;> simp
  · rw [h.task ne]

/-! ## The invariant -/

/-- Every task fits the wait that it is in, and the queues hold those that are blocked. -/
structure Linked (waits : T → Option (S × Bool)) (k : Kernel S T) : Prop where
  fits : ∀ t, (k.task t).Fits (waits t)
  queued : ∀ i t, t ∈ (k.sem i).queue ↔
    (waits t).map Prod.fst = some i ∧ (k.task t).blockedOn = some i
  nodup : ∀ i, (k.sem i).queue.Nodup
  counted : ∀ i, (k.sem i).Counted

variable {waits : T → Option (S × Bool)} {wait : Option (S × Bool)}

omit [DecidableEq S] [DecidableEq T] in
theorem Linked.initial (queues : ∀ i, (k.sem i).queue = [] ∧ 0 ≤ (k.sem i).count)
    (ready : ∀ t, (k.task t).Ready) (idle : ∀ t, waits t = none) : Linked waits k := by
  refine ⟨fun t => ?_, fun i t => ?_, fun i => ?_, fun i => ?_⟩
  · rw [idle]
    exact ⟨fun _ => ready t, nofun, nofun⟩
  · simp [(queues i).1, idle]
  · rw [(queues i).1]
    exact List.nodup_nil
  · exact ⟨fun some => absurd (queues i).1 some, fun _ => (queues i).2⟩

section

variable {rest : List T} (ok : Linked waits k)
include ok

/-- One semaphore and one task are written. -/
theorem Linked.write (self : T) (fits : v.Fits wait) (nodup : sem.queue.Nodup)
    (counted : sem.Counted) (mine : ∀ j, self ∈ (update k.sem i sem j).queue ↔
      wait.map Prod.fst = some j ∧ v.blockedOn = some j)
    (theirs : ∀ t, t ≠ self → (t ∈ sem.queue ↔ t ∈ (k.sem i).queue)) :
    Linked (update waits self wait) ((k.setSem i sem).setTask self v) where
  fits := by
    intro t
    rcases eq_or_ne t self with rfl | ne
    · simpa using fits
    · simpa [ne] using ok.fits t
  queued := by
    intro j t
    rcases eq_or_ne t self with rfl | ne
    · simpa using mine j
    · rcases eq_or_ne j i with rfl | other
      · simpa [ne, theirs t ne] using ok.queued j t
      · simpa [ne, other] using ok.queued j t
  nodup := by
    intro j
    rcases eq_or_ne j i with rfl | other
    · simpa using nodup
    · simpa [other] using ok.nodup j
  counted := by
    intro j
    rcases eq_or_ne j i with rfl | other
    · simpa using counted
    · simpa [other] using ok.counted j

/-- A semaphore is written, but not its queue. -/
theorem Linked.setSem (queue : sem.queue = (k.sem i).queue) (counted : sem.Counted) :
    Linked waits (k.setSem i sem) where
  fits := ok.fits
  queued := by
    intro j t
    rcases eq_or_ne j i with rfl | other
    · simpa [queue] using ok.queued j t
    · simpa [other] using ok.queued j t
  nodup := by
    intro j
    rcases eq_or_ne j i with rfl | other
    · simpa [queue] using ok.nodup j
    · simpa [other] using ok.nodup j
  counted := by
    intro j
    rcases eq_or_ne j i with rfl | other
    · simpa using counted
    · simpa [other] using ok.counted j

theorem Linked.off (idle : waits self = none) (i : S) : self ∉ (k.sem i).queue := by
  rw [ok.queued, idle]
  simp

/-- A task that is blocked is on the queue of the wait that it is in. -/
theorem Linked.still (inside : waits self = some (i, timed))
    (still : (k.task self).blockedOn.isSome) :
    (k.task self).blockedOn = some i ∧ self ∈ (k.sem i).queue := by
  have blocked : (k.task self).blockedOn = some i := by
    rcases (ok.fits self).inside inside with blocked | off
    · exact blocked
    · rw [off] at still
      cases still
  exact ⟨blocked, (ok.queued i self).mpr ⟨by rw [inside]; rfl, blocked⟩⟩

/-- The count when one task less is on the queue. -/
theorem Linked.countUp_of_mem (mem : t ∈ (k.sem i).queue) :
    (k.sem i).countUp = -((k.sem i).queue.erase t).length := by
  have before := (ok.counted i).waiting (List.ne_nil_of_mem mem)
  have pos := List.length_pos_of_mem mem
  rw [Sem.countUp, if_neg (by omega), List.length_erase_of_mem mem]
  omega

/-- What a signal makes of the count when there is a task on the queue. -/
theorem Linked.countUp_of_queue (queue : (k.sem i).queue = t :: rest) :
    (k.sem i).countUp = -rest.length := by
  have count := ok.countUp_of_mem (t := t) (i := i) (by simp [queue])
  rwa [queue, List.erase_cons_head] at count

/-- A task that a signal takes off the queue. -/
theorem Linked.wakes (queue : (k.sem i).queue = t :: rest) (owndby : Option T) :
    Linked waits ((k.setSem i { k.sem i with
      count := (k.sem i).countUp, queue := rest, owndby := owndby }).setTask t
        (k.task t).woken) := by
  have nodup := ok.nodup i
  rw [queue] at nodup
  obtain ⟨out, nodup⟩ := List.nodup_cons.mp nodup
  have blocked := (ok.queued i t).mp (queue ▸ List.mem_cons_self)
  have count := ok.countUp_of_queue queue
  rw [← update_eq_self t waits]
  refine ok.write t ⟨fun _ => ⟨rfl, rfl⟩, fun _ => .inr rfl, nofun⟩ nodup ⟨fun _ => count, ?_⟩ ?_ ?_
  · rintro rfl
    rw [count]
    exact le_rfl
  · intro j
    rcases eq_or_ne j i with rfl | other
    · simp [out, Task.woken]
    · have elsewhere : t ∉ (k.sem j).queue := by
        rw [ok.queued, blocked.2]
        exact fun mem => other (Option.some.inj mem.2).symm
      simp [other, elsewhere, Task.woken]
  · intro u ne
    simp [queue, ne]

theorem Linked.signal (h : k.Signal i k') : Linked waits k' := by
  cases h with
  | nested => exact ok.setSem rfl ⟨(ok.counted i).waiting, (ok.counted i).idle⟩
  | kept _ empty =>
      refine ok.setSem rfl ⟨fun some => absurd empty some, fun _ => ?_⟩
      have count := (ok.counted i).idle empty
      dsimp only [Sem.countUp]
      split <;> omega
  | wakes _ queue => exact ok.wakes queue _

theorem Linked.broadcast : Linked waits (k.rtSemBroadcast i) := by
  obtain ⟨sem, task⟩ := rtSemBroadcast_spec (k := k) (i := i)
  refine ⟨fun t => ?_, fun j t => ?_, fun j => ?_, fun j => ?_⟩
  · rw [task]
    split
    · exact ⟨fun _ => ⟨rfl, rfl⟩, fun _ => .inr rfl, nofun⟩
    · exact ok.fits t
  · rw [sem, task]
    rcases eq_or_ne j i with rfl | other
    · rw [update_self]
      split
      next => simp [Task.woken]
      next off => simpa [off] using (ok.queued j t).not.mp off
    · rw [update_of_ne other, ok.queued]
      split
      next mem =>
        have blocked := ((ok.queued i t).mp mem).2
        simp [Task.woken, blocked, Ne.symm other]
      next => rfl
  · rw [sem]
    rcases eq_or_ne j i with rfl | other
    · simp
    · simpa [other] using ok.nodup j
  · rw [sem]
    rcases eq_or_ne j i with rfl | other
    · rw [update_self]
      exact ⟨fun some => absurd rfl some, fun _ => le_rfl⟩
    · simpa [other] using ok.counted j

end

theorem place_perm (sem : Sem T) : (k.place sem t).queue.Perm (t :: sem.queue) := by
  unfold place
  dsimp only
  split
  · exact List.perm_append_singleton t sem.queue
  · exact enqueue_perm

/-- A wait begins. -/
theorem Linked.waitFor {r : Option Int} (ok : Linked waits k) (idle : waits self = none)
    (h : k.Wait how i self k' r) :
    Linked (update waits self (if r = none then some (i, how.isSome) else none)) k' := by
  have ready := (ok.fits self).idle idle
  have off := ok.off idle
  have outside {v : Task S} (still : v.Ready) : v.Fits (S := S) none := ⟨fun _ => still, nofun, nofun⟩
  have same : update waits self none = waits := by
    rw [← idle, update_eq_self]
  cases h with
  | takes free =>
      rw [if_neg nofun, same]
      refine ok.setSem rfl ⟨fun some => ?_, fun _ => ?_⟩
      · have count := (ok.counted i).waiting some
        omega
      · dsimp only
        omega
  | nested =>
      rw [if_neg nofun]
      refine ok.write self (outside ready) (ok.nodup i)
        ⟨(ok.counted i).waiting, (ok.counted i).idle⟩ (fun j => ?_) fun _ _ => Iff.rfl
      rcases eq_or_ne j i with rfl | other
      · simp [off]
      · simp [off, other]
  | late =>
      rw [if_neg nofun]
      have written := ok.write self (outside ready) (ok.nodup i) (ok.counted i)
        (v := { k.task self with blockedOn := none }) (fun j => ?_) fun _ _ => Iff.rfl
      · simpa [setSem, setTask, update_eq_self] using written
      · simp [off, update_eq_self]
  | blocks busy _ plain =>
      rw [if_pos rfl]
      have perm := place_perm (k := k) (t := self) { k.sem i with count := (k.sem i).count - 1 }
      refine ok.write self ⟨nofun, ?_, ?_⟩ ?_ ⟨fun _ => ?_, fun empty => ?_⟩ (fun j => ?_) fun t ne => ?_
      · rintro _ _ ⟨⟩
        exact .inl rfl
      · rintro j h -
        obtain ⟨rfl, untimed⟩ := Prod.mk.inj (Option.some.inj h)
        refine ⟨rfl, ?_⟩
        rw [plain (Option.not_isSome_iff_eq_none.mp (by simp [untimed]))]
        exact ready.2
      · exact perm.nodup_iff.mpr (List.nodup_cons.mpr ⟨off i, ok.nodup i⟩)
      · rw [perm.length_eq, List.length_cons]
        dsimp only [place]
        rcases eq_or_ne (k.sem i).queue [] with empty | some
        · have count := (ok.counted i).idle empty
          rw [empty]
          simp
          omega
        · have count := (ok.counted i).waiting some
          omega
      · rw [empty] at perm
        cases perm.symm.eq_nil
      · rcases eq_or_ne j i with rfl | other
        · simp [perm.mem_iff]
        · simp [off, other, Ne.symm other]
      · rw [perm.mem_iff]
        simp [ne]

/-- A wait ends. -/
theorem Linked.waitForEnd (ok : Linked waits k) (inside : waits self = some (i, timed))
    (ready : (k.task self).Ready) (h : k.WaitEnd timed i self k' r) :
    Linked (update waits self none) k' := by
  have outside {v : Task S} (still : v.Ready) : v.Fits (S := S) none := ⟨fun _ => still, nofun, nofun⟩
  cases h with
  | takes off =>
      have out (j : S) : self ∉ (k.sem j).queue := by
        rw [ok.queued, off]
        simp
      have written := ok.write self (outside ready)
        (show ({ k.sem i with owndby := (k.sem i).takenBy self } : Sem T).queue.Nodup from ok.nodup i)
        ⟨(ok.counted i).waiting, (ok.counted i).idle⟩ (fun j => ?_) fun _ _ => Iff.rfl
      · simpa [Kernel.setTask, Kernel.setSem, update_eq_self] using written
      · rcases eq_or_ne j i with rfl | other
        · simp [out]
        · simp [out, other]
  | timeout _ still =>
      obtain ⟨blocked, mem⟩ := ok.still inside still
      have count := ok.countUp_of_mem mem
      refine ok.write self (outside ready) ((ok.nodup i).erase self)
        ⟨fun _ => count, fun empty => ?_⟩ (fun j => ?_) fun t ne => ?_
      · dsimp only at empty ⊢
        rw [count, empty]
        exact le_rfl
      · rcases eq_or_ne j i with rfl | other
        · simp [(ok.nodup j).mem_erase_iff]
        · simp [other, ok.queued, blocked, Ne.symm other]
      · rw [(ok.nodup i).mem_erase_iff, and_iff_right ne]
  | error plain still =>
      rw [plain] at inside
      obtain ⟨asleep, -⟩ := (ok.fits self).asleep inside still
      exact absurd ready.1 (by simp [asleep])

/-- A timer expires. -/
theorem Linked.expire (ok : Linked waits k) (delayed : (k.task t).delayed) :
    Linked waits (k.expire t) where
  fits := by
    intro u
    rcases eq_or_ne u t with rfl | ne
    · refine ⟨fun _ => ?_, fun inside => ?_, fun plain still => ?_⟩
      · simp [Kernel.expire, makeReady, Task.Ready]
      · simpa [Kernel.expire, makeReady] using (ok.fits u).inside inside
      · have blocked : (k.task u).blockedOn.isSome := by
          simpa [Kernel.expire, makeReady] using still
        cases delayed.symm.trans ((ok.fits u).asleep plain blocked).2
    · simpa [Kernel.expire, makeReady, ne] using ok.fits u
  queued := by
    intro i u
    rcases eq_or_ne u t with rfl | ne
    · simpa [Kernel.expire, makeReady] using ok.queued i u
    · simpa [Kernel.expire, makeReady, ne] using ok.queued i u
  nodup := ok.nodup
  counted := ok.counted

/-- A priority leaves the queues as they are, or moves its task in one of them. -/
theorem changePriority_spec (k : Kernel S T) (t : T) (priority : Int) :
    (∀ u, ((k.changePriority t priority).task u) =
      if u = t then { k.task u with priority := priority } else k.task u) ∧
    ∀ i, (k.changePriority t priority).sem i = k.sem i ∨
      (k.task t).blockedOn = some i ∧ ¬(k.task t).Ready ∧ ∃ queue,
        queue.Perm (t :: (k.sem i).queue.erase t) ∧
          (k.changePriority t priority).sem i = { k.sem i with queue := queue } := by
  have task (u : T) : (k.setTask t { k.task t with priority := priority }).task u =
      if u = t then { k.task u with priority := priority } else k.task u := by
    rcases eq_or_ne u t with rfl | ne
    · simp
    · simp [ne]
  unfold Kernel.changePriority
  dsimp only
  split
  next i blocked =>
    split
    next => exact ⟨task, fun _ => .inl rfl⟩
    next moves =>
      refine ⟨task, fun j => ?_⟩
      rw [setTask_task, update_self] at blocked moves
      rcases eq_or_ne j i with rfl | other
      · refine .inr ⟨blocked, fun ready => moves (.inl ready), _,
          place_perm (k := k.setTask t { k.task t with priority := priority })
            { k.sem j with queue := (k.sem j).queue.erase t }, ?_⟩
        rw [setSem_sem, update_self]
        rfl
      · simp [other]
  next => exact ⟨task, fun _ => .inl rfl⟩

/-- A priority changes. -/
theorem Linked.changePriority (ok : Linked waits k) {priority : Int} :
    Linked waits (k.changePriority t priority) := by
  obtain ⟨task, sem⟩ := changePriority_spec k t priority
  have blockedOn (u : T) :
      ((k.changePriority t priority).task u).blockedOn = (k.task u).blockedOn := by
    rw [task]
    split <;> rfl
  -- a task that is moved is in the queue already
  have perm (i : S) : ((k.changePriority t priority).sem i).queue.Perm (k.sem i).queue ∧
      ((k.changePriority t priority).sem i).count = (k.sem i).count := by
    rcases sem i with same | ⟨blocked, asleep, queue, perm, moved⟩
    · rw [same]
      exact ⟨.rfl, rfl⟩
    · rw [moved]
      refine ⟨perm.trans (List.perm_cons_erase ?_).symm, rfl⟩
      cases inside : waits t with
      | none => exact absurd ((ok.fits t).idle inside) asleep
      | some wait =>
          obtain ⟨j, timed⟩ := wait
          rw [ok.queued, inside]
          refine ⟨?_, blocked⟩
          rcases (ok.fits t).inside inside with blocked' | off
          · exact blocked'.symm.trans blocked
          · cases blocked.symm.trans off
  refine ⟨fun u => ?_, fun i u => ?_, fun i => ?_, fun i => ?_⟩
  · rw [task]
    split
    next same => exact ⟨(ok.fits u).idle, (ok.fits u).inside, (ok.fits u).asleep⟩
    next => exact ok.fits u
  · rw [(perm i).1.mem_iff, blockedOn]
    exact ok.queued i u
  · exact (perm i).1.nodup_iff.mpr (ok.nodup i)
  · obtain ⟨perm, count⟩ := perm i
    refine ⟨fun some => ?_, fun empty => ?_⟩
    · rw [count, perm.length_eq]
      exact (ok.counted i).waiting fun empty => some (by rw [empty] at perm; exact perm.eq_nil)
    · rw [count]
      exact (ok.counted i).idle (by rw [empty] at perm; exact perm.symm.eq_nil)

/-! ## The order of a queue -/

/-- The queue is by priority, and in order. -/
structure Sorted (i : S) (k : Kernel S T) : Prop where
  fifo : (k.sem i).fifo = false
  order : InOrder k.Ahead (k.sem i).queue

variable (ok : Sorted i k)
include ok

/-- Tasks leave the queue. -/
theorem Sorted.leave (fifo : (k'.sem i).fifo = (k.sem i).fifo)
    (queue : (k'.sem i).queue.Sublist (k.sem i).queue)
    (priority : ∀ t ∈ (k.sem i).queue, (k'.task t).priority = (k.task t).priority) :
    Sorted i k' where
  fifo := fifo.trans ok.fifo
  order := by
    refine (ok.order.sublist queue).imp_of_mem fun {a b} ha hb ahead => ?_
    rw [Ahead, priority a (queue.subset ha), priority b (queue.subset hb)]
    exact ahead

theorem Sorted.signal (h : k.Signal j k') : Sorted i k' := by
  have priority (t : T) : (k'.task t).priority = (k.task t).priority := h.priority
  rcases eq_or_ne i j with rfl | other
  · cases h with
    | nested => exact ok.leave (by simp) (by simp) fun t _ => priority t
    | kept => exact ok.leave (by simp) (by simp) fun t _ => priority t
    | wakes _ queue => exact ok.leave (by simp) (by simp [queue]) fun t _ => priority t
  · have sem := h.other other
    exact ok.leave (by rw [sem]) (by rw [sem]) fun t _ => priority t

theorem Sorted.waitFor {r : Option Int} (h : k.Wait how j self k' r) : Sorted i k' := by
  have priority (t : T) : (k'.task t).priority = (k.task t).priority := h.priority
  rcases eq_or_ne i j with rfl | other
  · cases h with
    | takes => exact ok.leave (by simp) (by simp) fun t _ => priority t
    | nested => exact ok.leave (by simp) (by simp) fun t _ => priority t
    | late => exact ok.leave rfl (.refl _) fun t _ => priority t
    | blocks =>
        have placed : InOrder k.Ahead (enqueue k.Ahead self (k.sem i).queue) :=
          ok.order.enqueue (fun _ _ => le_total _ _) le_trans
        have queue : (k.place { k.sem i with count := (k.sem i).count - 1 } self).queue =
            enqueue k.Ahead self (k.sem i).queue := by
          simp [place, ok.fifo]
        refine ⟨by simpa [place] using ok.fifo, ?_⟩
        rw [setTask_sem, setSem_sem, update_self, queue]
        refine placed.imp fun ahead => ?_
        rw [Ahead, priority, priority]
        exact ahead
  · have sem := h.other other
    exact ok.leave (by rw [sem]) (by rw [sem]) fun t _ => priority t

theorem Sorted.waitForEnd (h : k.WaitEnd timed j self k' r) : Sorted i k' := by
  rcases eq_or_ne i j with rfl | other
  · refine ok.leave ?_ ?_ fun _ _ => h.priority
    · cases h <;> simp
    · cases h with
      | takes => simp
      | timeout => simpa using List.erase_sublist
      | error => exact .refl _
  · have sem := h.other other
    exact ok.leave (by rw [sem]) (by rw [sem]) fun _ _ => h.priority

/-- A task that is in no queue changes its priority. -/
theorem Sorted.changePriority {p : Int} (ready : (k.task t).Ready) (off : t ∉ (k.sem i).queue) :
    Sorted i (k.changePriority t p) := by
  obtain ⟨task, sem⟩ := changePriority_spec k t p
  have same := (sem i).resolve_right fun moves => moves.2.1 ready
  refine ok.leave (by rw [same]) (by rw [same]) fun u mem => ?_
  rw [task, if_neg]
  rintro rfl
  exact off mem

end Kernel

end Rtai.Lxrt
