import Rtai.Lxrt.Rwlocks

/-!
# What the services of a lock do

The semaphores of an `RWL` are in order in every state, whatever the tasks do: nothing is
ever kept in `wrsem` and `rdsem`, so that each of the loops waits at most once before its
test is made again, and `wrmtx` is a token.  With this every step has a few outcomes.
-/

namespace Rtai.Lxrt.Rwl

open Function Rtai.Lib

variable {T : Type} [DecidableEq T]

/-- The semaphores are in order, with the tasks in the given waits. -/
structure Sound (waits : T → Option (RwlSem × Bool)) (k : Kernel RwlSem T) : Prop where
  linked : k.Linked waits
  resource : Resource waits .wrmtx k
  flat : ∀ i, i ≠ .wrmtx → (k.sem i).type = 0 ∧ (k.sem i).count ≤ 0

namespace Sound

variable {waits : T → Option (RwlSem × Bool)} {k k' : Kernel RwlSem T} {i : RwlSem} {self t : T}
  {how : Option Bool} {timed : Bool}
variable {r : Option Int} (ok : Sound waits k)
include ok

/-- A wait for `wrsem` or `rdsem` does not return before it has been late. -/
theorem wait_flat (flat : i ≠ .wrmtx) (h : k.Wait how i self k' r) :
    r = none ∨ r = some SEM_TIMOUT ∧
      k' = k.setTask self { k.task self with blockedOn := none } := by
  obtain ⟨type, count⟩ := ok.flat i flat
  cases h with
  | takes free => omega
  | nested _ depth => omega
  | late => exact .inr ⟨rfl, rfl⟩
  | blocks => exact .inl rfl

/-- A wait begins. -/
theorem wait (idle : waits self = none) (h : k.Wait how i self k' r) :
    Sound (update waits self (if r = none then some (i, how.isSome) else none)) k' where
  linked := ok.linked.waitFor idle h
  resource := by
    rcases eq_or_ne i .wrmtx with rfl | flat
    · exact ok.resource.waitFor idle h
    · refine ok.resource.elsewhere (h.other flat.symm) (fun t ne => h.task ne) ?_ ?_
      · rw [idle]
        nofun
      · split
        · exact fun same => flat (Option.some.inj same)
        · nofun
  flat := by
    intro j flat
    rcases eq_or_ne j i with rfl | other
    · obtain ⟨type, count⟩ := ok.flat j flat
      refine ⟨(h.type_eq type.le).trans type, ?_⟩
      cases h with
      | takes free => omega
      | nested _ depth => omega
      | late => exact count
      | blocks =>
          simp only [Kernel.setTask_sem, Kernel.setSem_sem, update_self, Kernel.place]
          omega
    · rw [h.other other]
      exact ok.flat j flat

/-- A wait that is late leaves nothing behind. -/
theorem giveUp (idle : waits self = none) :
    Sound waits (k.setTask self { k.task self with blockedOn := none }) := by
  have busy := (ok.flat .rdsem nofun).2
  have late := ok.wait idle (.late (rfl : some true = _) (not_lt.mpr busy))
  rwa [if_neg nofun, ← idle, update_eq_self] at late

/-- A wait ends. -/
theorem waitEnd {r : Int} (inside : waits self = some (i, timed)) (ready : (k.task self).Ready)
    (h : k.WaitEnd timed i self k' r) : Sound (update waits self none) k' where
  linked := ok.linked.waitForEnd inside ready h
  resource := by
    rcases eq_or_ne i .wrmtx with rfl | flat
    · exact ok.resource.waitForEnd ok.linked inside ready h
    · refine ok.resource.elsewhere (h.other flat.symm) (fun t ne => h.task ne) ?_ nofun
      rw [inside]
      exact fun same => flat (Option.some.inj same)
  flat := by
    intro j flat
    rcases eq_or_ne j i with rfl | other
    · obtain ⟨type, count⟩ := ok.flat j flat
      refine ⟨h.type_eq.trans type, ?_⟩
      cases h with
      | takes => simpa using count
      | timeout _ still =>
          have count := ok.linked.countUp_of_mem (ok.linked.still inside still).2
          simp only [Kernel.setTask_sem, Kernel.setSem_sem, update_self]
          omega
      | error => exact count
    · rw [h.other other]
      exact ok.flat j flat

/-- The end of a wait for `wrsem` or `rdsem` has the semaphore as it was. -/
theorem own_flat (flat : i ≠ .wrmtx) :
    k.setSem i { k.sem i with owndby := (k.sem i).takenBy self } = k := by
  have same : (k.sem i).takenBy self = (k.sem i).owndby := by
    rw [Sem.takenBy, (ok.flat i flat).1]
    rfl
  rw [same]
  exact congrArg (Kernel.mk · k.task) (update_eq_self i k.sem)

/-- A signal to a semaphore with tasks on the queue, or to the owned `wrmtx`. -/
theorem signal
    (use : i = .wrmtx ∧ (∃ t, (k.sem .wrmtx).owndby = some t) ∨ i ≠ .wrmtx ∧ (k.sem i).queue ≠ [])
    (h : k.Signal i k') : Sound waits k' where
  linked := ok.linked.signal h
  resource := by
    rcases use with ⟨rfl, t, owned⟩ | ⟨flat, -⟩
    · exact ok.resource.signal ok.linked owned h
    · exact ok.resource.signal_other ok.linked flat.symm h
  flat := by
    intro j flat
    rcases eq_or_ne j i with rfl | other
    · obtain ⟨type, count⟩ := ok.flat j flat
      have waiting := (use.resolve_left fun h => flat h.1).2
      cases h with
      | nested depth => omega
      | kept _ empty => exact absurd empty waiting
      | wakes _ queue =>
          have count := ok.linked.countUp_of_queue queue
          simp only [Kernel.setTask_sem, Kernel.setSem_sem, update_self]
          exact ⟨type, by omega⟩
    · rw [h.other other]
      exact ok.flat j flat

theorem expire (delayed : (k.task t).delayed) : Sound waits (k.expire t) where
  linked := ok.linked.expire delayed
  resource := ok.resource.expire
  flat := ok.flat

theorem changePriority {p : Int} : Sound waits (k.changePriority t p) where
  linked := ok.linked.changePriority
  resource := ok.resource.changePriority
  flat := by
    intro i flat
    rcases (Kernel.changePriority_spec k t p).2 i with
      same | ⟨-, -, queue, -, moved⟩
    · rw [same]
      exact ok.flat i flat
    · rw [moved]
      exact ok.flat i flat

end Sound

namespace State

variable {s s' : State T} {self t : T} {how : Option Bool} {late : Bool} {e : Event T}

/-- The semaphores are in order. -/
def Ok (s : State T) : Prop := Sound s.waits s.kernel

/-- The test of a read lock is passed. -/
def Passes (self : T) (s : State T) : Prop := s.owndby = none ∧ s.writerFirst self = false

instance : Decidable (s.Passes self) := inferInstanceAs (Decidable (_ ∧ _))

/-- A task returns from a lock service without the lock, after a late wait. -/
def giveUp (self : T) (s : State T) : State T :=
  { s with
    kernel := s.kernel.setTask self { s.kernel.task self with blockedOn := none } }.setPhase
      self .idle

/-- A task that waited in a queue comes out of it without the lock. -/
def comeOut (i : RwlSem) (self : T) (s : State T) : State T :=
  { s with
    kernel := (s.kernel.setSem i { s.kernel.sem i with
      queue := (s.kernel.sem i).queue.erase self, count := (s.kernel.sem i).countUp }).setTask self
        { s.kernel.task self with blockedOn := none } }.setPhase self .idle

@[simp] theorem waits_setPhase {p : Phase} :
    (s.setPhase t p).waits = update s.waits t p.wait := comp_update _ _ _ _

/-! ## The locks -/

/-- A read lock is refused to the writer, taken, late, or waits on `rdsem`. -/
inductive ReadLock (self : T) (how : Option Bool) (s : State T) : State T → Prop where
  | refused : s.owndby = some self → ReadLock self how s (s.setPhase self .idle)
  | takes : s.Passes self → ReadLock self how s
      { s.setPhase self .idle with readers := s.readers + 1, reads := self :: s.reads }
  | late : ¬s.Passes self → ReadLock self how s (s.giveUp self)
  | blocks {k : Kernel RwlSem T} : ¬s.Passes self → s.kernel.Wait how .rdsem self k none →
      ReadLock self how s ({ s with kernel := k }.setPhase self (.reading how.isSome))

/-- A write lock is late, waits on `wrsem` or on `wrmtx`, or has the lock. -/
inductive WriteLock (self : T) (how : Option Bool) (s : State T) : State T → Prop where
  | late : (s.readers = 0 → ¬(s.kernel.sem .wrmtx).count > 0) →
      WriteLock self how s (s.giveUp self)
  | blocks {k : Kernel RwlSem T} : s.readers ≠ 0 → s.kernel.Wait how .wrsem self k none →
      WriteLock self how s ({ s with kernel := k }.setPhase self (.writing how.isSome))
  | claims {k : Kernel RwlSem T} : s.readers = 0 → s.kernel.Wait how .wrmtx self k none →
      WriteLock self how s ({ s with kernel := k }.setPhase self (.claiming how.isSome))
  | has {k : Kernel RwlSem T} {v : Int} : s.readers = 0 →
      s.kernel.Wait how .wrmtx self k (some v) → v ≤ 1 → WriteLock self how s
      ({ s with kernel := k, writes := self :: s.writes }.setPhase self .idle)

theorem rdlockLoop_cases (ok : Sound (update s.waits self none) s.kernel) :
    ReadLock self how s (s.rdlockLoop self how (s.rounds .rdsem)) := by
  have off : self ∉ (s.kernel.sem .rdsem).queue := ok.linked.off (update_self _ _ _) .rdsem
  have h := Kernel.waitFor_cases how off
  unfold rounds rdlockLoop
  split
  next blocked =>
    have fails : ¬s.Passes self := by
      rintro ⟨unowned, first⟩
      rw [unowned, first] at blocked
      cases blocked <;> contradiction
    split
    next mine => exact .refused mine
    next =>
      dsimp only
      generalize s.kernel.waitFor how .rdsem self = result at h ⊢
      obtain ⟨k, r⟩ := result
      rcases ok.wait_flat (i := .rdsem) nofun h with rfl | ⟨rfl, rfl⟩
      · exact .blocks fails h
      · exact .late fails
  next passes =>
    obtain ⟨unowned, first⟩ := not_or.mp passes
    exact .takes ⟨Option.not_isSome_iff_eq_none.mp unowned, Bool.eq_false_of_not_eq_true first⟩

theorem wrlockLoop_cases (ok : Sound (update s.waits self none) s.kernel) :
    WriteLock self how s (s.wrlockLoop self how (s.rounds .wrsem)) := by
  have off (i : RwlSem) : self ∉ (s.kernel.sem i).queue := ok.linked.off (update_self _ _ _) i
  unfold rounds wrlockLoop
  split
  next read =>
    have h := Kernel.waitFor_cases how (off .wrsem)
    dsimp only
    generalize s.kernel.waitFor how .wrsem self = result at h ⊢
    obtain ⟨k, r⟩ := result
    rcases ok.wait_flat (i := .wrsem) nofun h with rfl | ⟨rfl, rfl⟩
    · exact .blocks read h
    · exact .late fun unread => absurd unread read
  next unread =>
    rw [not_not] at unread
    have h := Kernel.waitFor_cases how (off .wrmtx)
    unfold claim
    dsimp only
    generalize s.kernel.waitFor how .wrmtx self = result at h ⊢
    obtain ⟨k, r⟩ := result
    have cap := ok.resource.cap
    have small {v : Int} (le : v ≤ 1) : ¬v ≥ SEM_TIMOUT := by
      unfold SEM_TIMOUT
      omega
    cases h with
    | takes free =>
        dsimp only
        rw [if_neg (small cap)]
        exact .has unread (.takes free) cap
    | nested busy depth mine le =>
        have le : _ ≤ (1 : Int) := le.trans Int.one_nonneg
        dsimp only
        rw [if_neg (small le)]
        exact .has unread (.nested busy depth mine (by assumption)) le
    | late _ busy => exact .late fun _ => busy
    | blocks busy other plain => exact .claims unread (.blocks busy other plain)

theorem ReadLock.ok (ok : Sound (update s.waits self none) s.kernel)
    (h : ReadLock self how s s') : s'.Ok := by
  unfold Ok
  cases h with
  | refused =>
      rw [waits_setPhase]
      exact ok
  | takes =>
      have same : State.waits { s.setPhase self .idle with
          readers := s.readers + 1, reads := self :: s.reads } = update s.waits self none :=
        waits_setPhase
      rw [same]
      exact ok
  | late =>
      rw [giveUp, waits_setPhase]
      exact ok.giveUp (update_self _ _ _)
  | blocks _ wait =>
      have sound := ok.wait (update_self _ _ _) wait
      rw [update_idem] at sound
      rw [waits_setPhase]
      exact sound

theorem WriteLock.ok (ok : Sound (update s.waits self none) s.kernel)
    (h : WriteLock self how s s') : s'.Ok := by
  unfold Ok
  cases h with
  | late =>
      rw [giveUp, waits_setPhase]
      exact ok.giveUp (update_self _ _ _)
  | blocks _ wait =>
      have sound := ok.wait (update_self _ _ _) wait
      rw [update_idem] at sound
      rw [waits_setPhase]
      exact sound
  | claims _ wait =>
      have sound := ok.wait (update_self _ _ _) wait
      rw [update_idem] at sound
      rw [waits_setPhase]
      exact sound
  | has _ wait =>
      have sound := ok.wait (update_self _ _ _) wait
      rw [update_idem] at sound
      rw [waits_setPhase]
      exact sound

/-! ## The steps -/

/-- What a task does behind `rt_schedule`. -/
inductive GoOn (self : T) (s : State T) : State T → Prop where
  /-- The time was over before a signal came. -/
  | inVain {i : RwlSem} : s.waits self = some (i, true) →
      (s.kernel.task self).blockedOn.isSome → GoOn self s (s.comeOut i self)
  | read {timed : Bool} {how : Option Bool} {s' : State T} : s.phase self = .reading timed →
      (s.kernel.task self).blockedOn = none → ReadLock self how s s' → GoOn self s s'
  | write {timed : Bool} {how : Option Bool} {s' : State T} : s.phase self = .writing timed →
      (s.kernel.task self).blockedOn = none → WriteLock self how s s' → GoOn self s s'
  | claim {timed : Bool} : s.phase self = .claiming timed →
      (s.kernel.task self).blockedOn = none → GoOn self s
      ({ s with
        kernel := s.kernel.setSem .wrmtx { s.kernel.sem .wrmtx with owndby := some self }
        writes := self :: s.writes }.setPhase self .idle)

/-- What a step does. -/
inductive Move (s : State T) : Event T → State T → Prop where
  | rdlock {self : T} {how : Option Bool} {s' : State T} : s.phase self = .idle →
      ReadLock self how s s' → Move s (.rdlock self how) s'
  | wrlock {self : T} {how : Option Bool} {s' : State T} : s.phase self = .idle →
      WriteLock self how s s' → Move s (.wrlock self how) s'
  /-- The first half of `rt_rwl_unlock`, for a writer or a reader. -/
  | release {self t : T} {k : Kernel RwlSem T} : s.phase self = .idle →
      self ∈ s.reads ∨ self ∈ s.writes → s.owndby = some t → s.kernel.Signal .wrmtx k →
      Move s (.unlock self) { (s.dropHold self).setPhase self .unlocking with kernel := k }
  | leave {self : T} : s.phase self = .idle → self ∈ s.reads ∨ self ∈ s.writes →
      s.owndby = none → s.readers ≠ 0 → Move s (.unlock self)
      { (s.dropHold self).setPhase self .unlocking with readers := s.readers - 1 }
  | leaveFree {self : T} : s.phase self = .idle → self ∈ s.reads ∨ self ∈ s.writes →
      s.owndby = none → s.readers = 0 → Move s (.unlock self)
      ((s.dropHold self).setPhase self .unlocking)
  /-- The second half. -/
  | wake {self : T} {i : RwlSem} {k : Kernel RwlSem T} : s.phase self = .unlocking →
      s.wakes = some i → s.kernel.Signal i k →
      Move s (.unlockEnd self) { s.setPhase self .idle with kernel := k }
  | quit {self : T} : s.phase self = .unlocking → s.wakes = none →
      Move s (.unlockEnd self) (s.setPhase self .idle)
  | goOn {self : T} {late : Bool} {s' : State T} : (s.kernel.task self).Ready →
      GoOn self s s' → Move s (.goOn self late) s'
  | expire {t : T} : (s.kernel.task t).delayed →
      Move s (.expire t) { s with kernel := s.kernel.expire t }
  | priority {t : T} {p : Int} :
      Move s (.priority t p) { s with kernel := s.kernel.changePriority t p }

/-- A task that is off the queue in a wait for `wrsem` or `rdsem` waits no longer. -/
theorem Ok.unwait {i : RwlSem} {timed : Bool} (ok : s.Ok) (inside : s.waits self = some (i, timed))
    (ready : (s.kernel.task self).Ready) (off : (s.kernel.task self).blockedOn = none)
    (flat : i ≠ .wrmtx) : Sound (update s.waits self none) s.kernel := by
  have sound := Sound.waitEnd ok inside ready (.takes off)
  rwa [Sound.own_flat ok flat] at sound

/-- The end of a wait. -/
theorem Ok.waitForEnd_eq {i : RwlSem} {timed : Bool} (ok : s.Ok)
    (inside : s.waits self = some (i, timed)) (ready : (s.kernel.task self).Ready) :
    (s.kernel.task self).blockedOn = none ∧ s.kernel.waitForEnd timed i self =
      (s.kernel.setSem i { s.kernel.sem i with owndby := (s.kernel.sem i).takenBy self },
        (s.kernel.sem i).count) ∨
    timed = true ∧ (s.kernel.task self).blockedOn.isSome ∧ s.kernel.waitForEnd timed i self =
      ((s.kernel.setSem i { s.kernel.sem i with
        queue := (s.kernel.sem i).queue.erase self, count := (s.kernel.sem i).countUp }).setTask
          self { s.kernel.task self with blockedOn := none }, SEM_TIMOUT) := by
  have h := Kernel.waitForEnd_cases s.kernel i self timed
  generalize s.kernel.waitForEnd timed i self = result at h
  obtain ⟨k, r⟩ := result
  cases h with
  | takes off => exact .inl ⟨off, rfl⟩
  | timeout isTimed still => exact .inr ⟨isTimed, still, rfl⟩
  | error plain still =>
      rw [plain] at inside
      obtain ⟨asleep, -⟩ := (ok.linked.fits self).asleep inside still
      exact absurd ready.1 (by simp [asleep])

theorem goOn_cases (ok : s.Ok) (ready : (s.kernel.task self).Ready)
    (inside : (s.phase self).wait.isSome) : GoOn self s (s.goOn self late) := by
  have early {v : Int} (le : v ≤ 1) : ¬v ≥ SEM_TIMOUT := by
    unfold SEM_TIMOUT
    omega
  unfold State.goOn
  cases phase : s.phase self with
  | idle => rw [phase] at inside; cases inside
  | unlocking => rw [phase] at inside; cases inside
  | reading timed =>
      have inside : s.waits self = some (.rdsem, timed) := congrArg Phase.wait phase
      rcases ok.waitForEnd_eq inside ready with ⟨off, result⟩ | ⟨rfl, still, result⟩
      · have flat := (ok.flat .rdsem nofun).2
        rw [Sound.own_flat (i := .rdsem) ok nofun] at result
        simp only [result]
        rw [if_neg (early (flat.trans Int.one_nonneg))]
        exact .read phase off (rdlockLoop_cases (ok.unwait inside ready off nofun))
      · simp only [result]
        exact .inVain inside still
  | writing timed =>
      have inside : s.waits self = some (.wrsem, timed) := congrArg Phase.wait phase
      rcases ok.waitForEnd_eq inside ready with ⟨off, result⟩ | ⟨rfl, still, result⟩
      · have flat := (ok.flat .wrsem nofun).2
        rw [Sound.own_flat (i := .wrsem) ok nofun] at result
        simp only [result]
        rw [if_neg (early (flat.trans Int.one_nonneg))]
        exact .write phase off (wrlockLoop_cases (ok.unwait inside ready off nofun))
      · simp only [result]
        exact .inVain inside still
  | claiming timed =>
      have inside : s.waits self = some (.wrmtx, timed) := congrArg Phase.wait phase
      rcases ok.waitForEnd_eq inside ready with ⟨off, result⟩ | ⟨rfl, still, result⟩
      · have owner : (s.kernel.sem .wrmtx).takenBy self = some self := if_pos ok.resource.deep
        simp only [result]
        rw [if_neg (early ok.resource.cap), owner]
        exact .claim phase off
      · simp only [result]
        exact .inVain inside still

omit [DecidableEq T] in
/-- Who unlocks a free lock and wakes nobody finds nobody that waits. -/
theorem queue_of_quits (h : s.wakes = none) (free : s.owndby = none ∧ s.readers = 0) (i : RwlSem)
    (flat : i ≠ .wrmtx) : (s.kernel.sem i).queue = [] := by
  rw [wakes, if_pos free] at h
  have first (i : RwlSem) (none : s.first i = none) : (s.kernel.sem i).queue = [] :=
    List.head?_eq_none_iff.mp none
  cases writer : s.first .wrsem with
  | some wtask =>
      cases reader : s.first .rdsem with
      | some rtask =>
          rw [writer, reader] at h
          dsimp only at h
          split at h <;> cases h
      | none =>
          rw [writer, reader] at h
          cases h
  | none =>
      cases reader : s.first .rdsem with
      | some rtask =>
          rw [writer, reader] at h
          cases h
      | none =>
          cases i with
          | wrmtx => contradiction
          | wrsem => exact first _ writer
          | rdsem => exact first _ reader

@[simp] theorem dropHold_kernel : (s.dropHold self).kernel = s.kernel := by
  unfold dropHold
  split <;> rfl

@[simp] theorem dropHold_readers : (s.dropHold self).readers = s.readers := by
  unfold dropHold
  split <;> rfl

@[simp] theorem dropHold_phase : (s.dropHold self).phase = s.phase := by
  unfold dropHold
  split <;> rfl

section

omit [DecidableEq T]

theorem queue_of_first {i : RwlSem} (h : s.first i = some t) : (s.kernel.sem i).queue ≠ [] := by
  unfold first at h
  intro empty
  rw [empty] at h
  cases h

/-- The queue of the semaphore that an unlock signals is not empty. -/
theorem wakes_cases {i : RwlSem} (h : s.wakes = some i) :
    (s.owndby = none ∧ s.readers = 0) ∧ i ≠ .wrmtx ∧ (s.kernel.sem i).queue ≠ [] := by
  unfold wakes at h
  split at h
  next free =>
    refine ⟨free, ?_⟩
    cases writer : s.first .wrsem with
    | none =>
        cases reader : s.first .rdsem with
        | none =>
            rw [writer, reader] at h
            cases h
        | some rtask =>
            rw [writer, reader] at h
            cases h
            exact ⟨nofun, queue_of_first reader⟩
    | some wtask =>
        cases reader : s.first .rdsem with
        | none =>
            rw [writer, reader] at h
            cases h
            exact ⟨nofun, queue_of_first writer⟩
        | some rtask =>
            rw [writer, reader] at h
            dsimp only at h
            split at h <;> cases h
            · exact ⟨nofun, queue_of_first writer⟩
            · exact ⟨nofun, queue_of_first reader⟩
  next => cases h

theorem Initial.ok (h : s.Initial) : s.Ok := by
  have idle (t : T) : s.waits t = none := congrArg Phase.wait (h.phase t)
  refine ⟨.initial (fun i => ?_) h.ready idle, .initial h.wrmtx idle, fun i flat => ?_⟩
  · cases i with
    | wrmtx => simp [h.wrmtx, rtTypedSemInit]
    | wrsem => simp [h.wrsem, rtTypedSemInit]
    | rdsem => simp [h.rdsem, rtTypedSemInit]
  · cases i with
    | wrmtx => contradiction
    | wrsem => simp [h.wrsem, rtTypedSemInit]
    | rdsem => simp [h.rdsem, rtTypedSemInit]

end

theorem sound_of_idle (ok : s.Ok) (idle : s.phase self = .idle) :
    Sound (update s.waits self none) s.kernel := by
  have same : s.waits self = none := congrArg Phase.wait idle
  rw [← same, update_eq_self]
  exact ok

theorem unlocking_waits (idle : s.phase self = .idle) :
    ((s.dropHold self).setPhase self .unlocking).waits = s.waits := by
  have same : s.waits self = none := congrArg Phase.wait idle
  rw [waits_setPhase, State.waits, dropHold_phase]
  exact (congrArg (update s.waits self) same.symm).trans (update_eq_self _ _)

theorem GoOn.ok (ok : s.Ok) (ready : (s.kernel.task self).Ready) (h : GoOn self s s') :
    s'.Ok := by
  cases h with
  | inVain inside still =>
      have sound := Sound.waitEnd ok inside ready (.timeout rfl still)
      rw [Ok, comeOut, waits_setPhase]
      exact sound
  | read phase off lock =>
      exact lock.ok (ok.unwait (i := .rdsem) (congrArg Phase.wait phase) ready off nofun)
  | write phase off lock =>
      exact lock.ok (ok.unwait (i := .wrsem) (congrArg Phase.wait phase) ready off nofun)
  | claim phase off =>
      have sound := Sound.waitEnd ok (i := .wrmtx) (congrArg Phase.wait phase) ready (.takes off)
      have owner : (s.kernel.sem .wrmtx).takenBy self = some self := if_pos ok.resource.deep
      rw [owner] at sound
      rw [Ok, waits_setPhase]
      exact sound

/-- The semaphores stay in order. -/
theorem Move.ok (ok : s.Ok) (h : Move s e s') : s'.Ok := by
  cases h with
  | rdlock idle lock => exact lock.ok (sound_of_idle ok idle)
  | wrlock idle lock => exact lock.ok (sound_of_idle ok idle)
  | @release self t k idle _ owned signal =>
      have sound := Sound.signal ok (.inl ⟨rfl, t, owned⟩) signal
      rw [← unlocking_waits idle] at sound
      exact sound
  | @leave self idle =>
      have sound : Sound _ _ := ok
      rw [← unlocking_waits idle] at sound
      rw [Ok]
      dsimp only [setPhase]
      rw [dropHold_kernel]
      exact sound
  | @leaveFree self idle =>
      rw [Ok, unlocking_waits idle, setPhase, dropHold_kernel]
      exact ok
  | @wake self i k unlocking wakes signal =>
      obtain ⟨-, flat, queue⟩ := wakes_cases wakes
      have sound := Sound.signal ok (.inr ⟨flat, queue⟩) signal
      have same : s.waits self = none := congrArg Phase.wait unlocking
      rw [← update_eq_self self s.waits, same] at sound
      rw [Ok]
      exact waits_setPhase (s := s) (p := .idle) ▸ sound
  | @quit self unlocking =>
      have sound : Sound s.waits s.kernel := ok
      have same : s.waits self = none := congrArg Phase.wait unlocking
      rw [← update_eq_self self s.waits, same] at sound
      rw [Ok, waits_setPhase]
      exact sound
  | goOn ready goes => exact goes.ok ok ready
  | expire delayed => exact Sound.expire ok delayed
  | priority => exact Sound.changePriority ok

theorem step_cases (ok : s.Ok) (h : step e s = some s') : Move s e s' := by
  unfold step at h
  cases e with
  | rdlock self how =>
      dsimp only at h
      split at h <;> cases h
      next idle =>
        have sound := sound_of_idle ok idle
        cases how with
        | none => exact .rdlock idle (rdlockLoop_cases sound)
        | some late => exact .rdlock idle (rdlockLoop_cases sound)
  | wrlock self how =>
      dsimp only at h
      split at h <;> cases h
      next idle =>
        have sound := sound_of_idle ok idle
        cases how with
        | none => exact .wrlock idle (wrlockLoop_cases sound)
        | some late => exact .wrlock idle (wrlockLoop_cases sound)
  | unlock self =>
      dsimp only at h
      split at h <;> cases h
      next call =>
        have release := @Move.release T _ s self
        have leave := @Move.leave T _ s self
        have leaveFree := @Move.leaveFree T _ s self
        obtain ⟨reads, writes, drop⟩ : ∃ reads writes,
            s.dropHold self = { s with reads := reads, writes := writes } := by
          unfold dropHold
          split <;> exact ⟨_, _, rfl⟩
        rw [drop] at release leave leaveFree
        rw [rtRwlUnlock, drop]
        split
        next owned =>
          obtain ⟨t, owned⟩ := Option.isSome_iff_exists.mp owned
          exact release call.1 call.2 owned Kernel.rtSemSignal_cases
        next unowned =>
          rw [Option.not_isSome_iff_eq_none] at unowned
          split
          next read => exact leave call.1 call.2 unowned read
          next unread => exact leaveFree call.1 call.2 unowned (not_not.mp unread)
  | unlockEnd self =>
      dsimp only at h
      split at h <;> cases h
      next unlocking =>
        unfold rtRwlUnlockEnd
        dsimp only
        split
        next i wakes => exact .wake unlocking wakes Kernel.rtSemSignal_cases
        next quits => exact .quit unlocking quits
  | goOn self late =>
      dsimp only at h
      split at h <;> cases h
      next going => exact .goOn going.2 (goOn_cases ok going.2 going.1)
  | expire t =>
      dsimp only at h
      split at h <;> cases h
      next delayed => exact .expire delayed
  | priority t p =>
      cases h
      exact .priority

end State

/-- A new lock, and three tasks. -/
def fresh : State (Fin 3) where
  kernel :=
    { sem := fun | .wrmtx => rtTypedSemInit 1 .RES_SEM
                 | .wrsem | .rdsem => rtTypedSemInit 0 .CNT_SEM
      task := fun _ => {} }
  phase := fun _ => .idle

theorem fresh_initial : fresh.Initial :=
  ⟨rfl, rfl, rfl, rfl, fun _ => ⟨rfl, rfl⟩, fun _ => rfl, rfl, rfl⟩

end Rtai.Lxrt.Rwl
