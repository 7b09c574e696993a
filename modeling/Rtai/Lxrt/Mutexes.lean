import Rtai.Lxrt.Resource

/-!
# Mutexes and conditions

Any number of semaphores, each either a mutex, which is a resource semaphore, or a
condition, which is a binary one, stay in order whatever the tasks do that unlock only
what they own.  A service on a mutex changes the levels that its caller has of it, and
those of no other task.
-/

namespace Rtai.Lxrt

open Function Rtai.Lib

variable {S T : Type}

/-- The semaphore is a condition. -/
structure Kernel.Condition (i : S) (k : Kernel S T) : Prop where
  binary : (k.sem i).type = -1
  cap : (k.sem i).count ≤ 1

/-- The semaphores that `mutex` names are mutexes and the others conditions, with the tasks
in the given waits. -/
structure Mutexes (mutex : S → Bool) (waits : T → Option (S × Bool)) (k : Kernel S T) : Prop where
  linked : k.Linked waits
  condition : ∀ i, mutex i = false → k.Condition i
  resource : ∀ i, mutex i = true → Resource waits i k
  level : ∀ i, mutex i = true → k.Level i

namespace Mutexes

variable {mutex : S → Bool} {waits : T → Option (S × Bool)} {k k' : Kernel S T} {i j : S}
  {self t : T} {how : Option Bool} {timed : Bool}

theorem initial (ready : ∀ t, (k.task t).Ready) (idle : ∀ t, waits t = none)
    (cnd : ∀ i, mutex i = false → k.sem i = rtTypedSemInit 0 .BIN_SEM)
    (mtx : ∀ i, mutex i = true → k.sem i = rtTypedSemInit 1 .RES_SEM) :
    Mutexes mutex waits k where
  linked := by
    refine .initial (fun i => ?_) ready idle
    cases kind : mutex i with
    | false => simp [cnd i kind, rtTypedSemInit]
    | true => simp [mtx i kind, rtTypedSemInit]
  condition := by
    intro i kind
    exact ⟨by simp [cnd i kind, rtTypedSemInit], by simp [cnd i kind, rtTypedSemInit]⟩
  resource := fun i kind => .initial (mtx i kind) idle
  level := by
    intro i kind _
    simp [mtx i kind, rtTypedSemInit]

variable (ok : Mutexes mutex waits k)
include ok

/-- A service on one semaphore, with the rules for this one. -/
theorem of_service {waits' : T → Option (S × Bool)} (j : S) (linked : k'.Linked waits')
    (sem : ∀ i, i ≠ j → k'.sem i = k.sem i) (cnd : mutex j = false → k'.Condition j)
    (mtx : mutex j = true → Resource waits' j k' ∧ k'.Level j)
    (others : ∀ i, i ≠ j → mutex i = true → Resource waits' i k') : Mutexes mutex waits' k' where
  linked := linked
  condition := by
    intro i kind
    rcases eq_or_ne i j with rfl | other
    · exact cnd kind
    · have condition := ok.condition i kind
      exact ⟨by rw [sem i other, condition.binary], by rw [sem i other]; exact condition.cap⟩
  resource := by
    intro i kind
    rcases eq_or_ne i j with rfl | other
    · exact (mtx kind).1
    · exact others i other kind
  level := by
    intro i kind
    rcases eq_or_ne i j with rfl | other
    · exact (mtx kind).2
    · exact (ok.level i kind).congr (by rw [sem i other]) (by rw [sem i other])

variable [DecidableEq S] [DecidableEq T] {r : Option Int}

/-- A wait begins. -/
theorem wait (idle : waits self = none) (h : k.Wait how j self k' r) :
    Mutexes mutex (update waits self (if r = none then some (j, how.isSome) else none)) k' := by
  refine ok.of_service j (ok.linked.waitFor idle h) (fun _ other => h.other other)
    (fun kind => ?_) (fun kind => ?_) fun i other kind => ?_
  · obtain ⟨binary, cap⟩ := ok.condition j kind
    refine ⟨(h.type_eq (by omega)).trans binary, ?_⟩
    cases h with
    | takes =>
        simp only [Kernel.setSem_sem, update_self]
        omega
    | nested _ deep => omega
    | late => exact cap
    | blocks =>
        simp only [Kernel.setTask_sem, Kernel.setSem_sem, update_self, Kernel.place]
        omega
  · have resource := ok.resource j kind
    exact ⟨resource.waitFor idle h, (ok.level j kind).waitFor resource.deep h⟩
  · refine (ok.resource i kind).elsewhere (h.other other) (fun t ne => h.task ne) ?_ ?_
    · rw [idle]
      intro same
      cases same
    · split
      · exact fun same => other (Option.some.inj same).symm
      · intro same
        cases same

/-- A wait ends. -/
theorem waitEnd {r : Int} (inside : waits self = some (j, timed)) (ready : (k.task self).Ready)
    (h : k.WaitEnd timed j self k' r) : Mutexes mutex (update waits self none) k' := by
  refine ok.of_service j (ok.linked.waitForEnd inside ready h) (fun _ other => h.other other)
    (fun kind => ?_) (fun kind => ?_) fun i other kind => ?_
  · obtain ⟨binary, cap⟩ := ok.condition j kind
    refine ⟨h.type_eq.trans binary, ?_⟩
    cases h with
    | takes => simpa using cap
    | timeout _ still =>
        have count := ok.linked.countUp_of_mem (ok.linked.still inside still).2
        simp only [Kernel.setTask_sem, Kernel.setSem_sem, update_self]
        omega
    | error => exact cap
  · have resource := ok.resource j kind
    exact ⟨resource.waitForEnd ok.linked inside ready h,
      (ok.level j kind).waitForEnd resource.deep h⟩
  · refine (ok.resource i kind).elsewhere (h.other other) (fun t ne => h.task ne) ?_ nofun
    rw [inside]
    exact fun same => other (Option.some.inj same).symm

/-- A signal to a condition, or to a mutex that is owned. -/
theorem signal (use : mutex j = true → ∃ t, (k.sem j).owndby = some t) (h : k.Signal j k') :
    Mutexes mutex waits k' := by
  refine ok.of_service j (ok.linked.signal h) (fun _ other => h.other other)
    (fun kind => ?_) (fun kind => ?_) fun i other kind =>
      (ok.resource i kind).signal_other ok.linked other h
  · obtain ⟨binary, -⟩ := ok.condition j kind
    have cap : (k.sem j).countUp ≤ 1 := by
      rw [Sem.countUp]
      split <;> omega
    cases h with
    | nested => omega
    | kept => exact ⟨by simpa using binary, by simpa using cap⟩
    | wakes => exact ⟨by simpa using binary, by simpa using cap⟩
  · obtain ⟨t, owned⟩ := use kind
    have resource := ok.resource j kind
    exact ⟨resource.signal ok.linked owned h, (ok.level j kind).signal resource.deep h⟩

/-- A signal to a mutex that is free does nothing. -/
theorem signal_free (kind : mutex i = true) (free : (k.sem i).count > 0) : k.rtSemSignal i = k := by
  have resource := ok.resource i kind
  have cap := resource.cap
  have deep := resource.deep
  have unowned : (k.sem i).owndby = none := by
    by_contra owned
    obtain ⟨t, owned⟩ := Option.ne_none_iff_exists'.mp owned
    exact resource.busy owned free
  have level := ok.level i kind unowned
  have empty : (k.sem i).queue = [] := by
    by_contra some
    have count := (ok.linked.counted i).waiting some
    omega
  have released : (k.sem i).released = (k.sem i).owndby := by
    rw [Sem.released, if_pos deep, unowned]
  have count : (k.sem i).countUp = (k.sem i).count := by
    rw [Sem.countUp, if_pos (by omega)]
    omega
  have signal := Kernel.rtSemSignal_cases (k := k) (i := i)
  generalize k.rtSemSignal i = k' at signal
  cases signal with
  | nested more => omega
  | kept =>
      rw [released, count]
      exact congrArg (Kernel.mk · k.task) (update_eq_self i k.sem)
  | wakes _ queue => cases queue.symm.trans empty

/-- A broadcast on a condition. -/
theorem broadcast (kind : mutex j = false) : Mutexes mutex waits (k.rtSemBroadcast j) := by
  have spec := (Kernel.rtSemBroadcast_spec (k := k) (i := j)).1
  refine ok.of_service j ok.linked.broadcast (fun i other => by rw [spec, update_of_ne other])
    (fun _ => ⟨?_, ?_⟩) (fun mutex => ?_) fun i other mutex =>
      (ok.resource i mutex).broadcast_other ok.linked other
  · simpa [spec] using (ok.condition j kind).binary
  · simp [spec]
  · cases kind.symm.trans mutex

theorem expire (delayed : (k.task t).delayed) : Mutexes mutex waits (k.expire t) where
  linked := ok.linked.expire delayed
  condition := fun i kind => ⟨(ok.condition i kind).binary, (ok.condition i kind).cap⟩
  resource := fun i kind => (ok.resource i kind).expire
  level := ok.level

theorem changePriority {p : Int} : Mutexes mutex waits (k.changePriority t p) where
  linked := ok.linked.changePriority
  condition := by
    intro i kind
    obtain ⟨binary, cap⟩ := ok.condition i kind
    rcases (Kernel.changePriority_spec k t p).2 i with same | ⟨-, -, queue, -, moved⟩
    · exact ⟨by rw [same, binary], by rwa [same]⟩
    · exact ⟨by rw [moved]; exact binary, by rw [moved]; exact cap⟩
  resource := fun i kind => (ok.resource i kind).changePriority
  level := fun i kind => (ok.level i kind).changePriority

/-! ## What a service returns -/

/-- A wait blocks, has the semaphore, or is late. -/
theorem wait_cases (h : k.Wait how j self k' r) :
    r = none ∨ (∃ v, r = some v ∧ v < SEM_TIMOUT) ∨
      r = some SEM_TIMOUT ∧ how = some true ∧ ¬(k.sem j).count > 0 := by
  have cap : (k.sem j).count ≤ 1 := by
    cases kind : mutex j with
    | false => exact (ok.condition j kind).cap
    | true => exact (ok.resource j kind).cap
  have late : (1 : Int) < SEM_TIMOUT := by decide
  cases h with
  | takes => exact .inr (.inl ⟨_, rfl, by omega⟩)
  | nested _ _ _ le => exact .inr (.inl ⟨_, rfl, by omega⟩)
  | late timed busy => exact .inr (.inr ⟨rfl, timed, busy⟩)
  | blocks => exact .inl rfl

/-- The end of a wait has the semaphore, or its timer has expired. -/
theorem waitEnd_cases {r : Int} (inside : waits self = some (j, timed))
    (ready : (k.task self).Ready) (h : k.WaitEnd timed j self k' r) :
    r < SEM_TIMOUT ∧ (k.task self).blockedOn = none ∨
      r = SEM_TIMOUT ∧ timed = true ∧ (k.task self).blockedOn.isSome := by
  have cap : (k.sem j).count ≤ 1 := by
    cases kind : mutex j with
    | false => exact (ok.condition j kind).cap
    | true => exact (ok.resource j kind).cap
  have late : (1 : Int) < SEM_TIMOUT := by decide
  cases h with
  | takes off => exact .inl ⟨by omega, off⟩
  | timeout timed still => exact .inr ⟨rfl, timed, still⟩
  | error plain still =>
      rw [plain] at inside
      obtain ⟨asleep, -⟩ := (ok.linked.fits self).asleep inside still
      exact absurd ready.1 (by simp [asleep])

/-! ## Levels -/

/-- A wait that has the mutex gives its task one level. -/
theorem depth_wait (kind : mutex i = true) (h : k.Wait how j self k' r) (t : T) :
    (k'.sem i).depth t =
      (k.sem i).depth t + if i = j ∧ t = self ∧ r.any (· < SEM_TIMOUT) then 1 else 0 := by
  rcases eq_or_ne i j with rfl | other
  · have deep := (ok.resource i kind).deep
    have cap := (ok.resource i kind).cap
    have small : (1 : Int) < SEM_TIMOUT := by decide
    cases h with
    | takes free =>
        have unowned : (k.sem i).owndby = none := by
          by_contra owned
          obtain ⟨u, owned⟩ := Option.ne_none_iff_exists'.mp owned
          exact (ok.resource i kind).busy owned free
        have level := ok.level i kind unowned
        have early : (k.sem i).count < SEM_TIMOUT := by omega
        rcases eq_or_ne t self with rfl | ne
        · simp [Sem.depth, Sem.takenBy, unowned, level, early]
        · simp [Sem.depth, Sem.takenBy, unowned, deep, ne, ne.symm]
    | @nested v _ _ _ mine le =>
        have early : v < SEM_TIMOUT := by omega
        rcases eq_or_ne t self with rfl | ne
        · simp [Sem.depth, mine, early]
        · simp [Sem.depth, mine, ne, ne.symm]
    | late => simp
    | blocks => simp [Sem.depth, Kernel.place]
  · rw [h.other other, if_neg (fun same => other same.1), Int.add_zero]

/-- The end of a wait that has the mutex gives its task one level. -/
theorem depth_waitEnd {r : Int} (kind : mutex i = true) (inside : waits self = some (j, timed))
    (ready : (k.task self).Ready) (h : k.WaitEnd timed j self k' r) (t : T) : (k'.sem i).depth t =
      (k.sem i).depth t + if i = j ∧ t = self ∧ r < SEM_TIMOUT then 1 else 0 := by
  rcases eq_or_ne i j with rfl | other
  · have result := ok.waitEnd_cases inside ready h
    have deep := (ok.resource i kind).deep
    cases h with
    | takes off =>
        have handed : k.Handed waits i self := ⟨by rw [inside]; rfl, off⟩
        have unowned : (k.sem i).owndby = none := by
          by_contra owned
          obtain ⟨u, owned⟩ := Option.ne_none_iff_exists'.mp owned
          exact (ok.resource i kind).not_handed owned handed
        have level := ok.level i kind unowned
        have early : (k.sem i).count < SEM_TIMOUT := by
          rcases result with ⟨early, -⟩ | ⟨-, -, still⟩
          · exact early
          · rw [off] at still
            cases still
        clear result
        rcases eq_or_ne t self with rfl | ne
        · simp [Sem.depth, Sem.takenBy, unowned, level, early]
        · simp [Sem.depth, Sem.takenBy, unowned, deep, ne, ne.symm]
    | timeout => simp [Sem.depth]
    | error _ still =>
        rcases result with ⟨-, off⟩ | ⟨late, -⟩
        · rw [off] at still
          cases still
        · cases late
  · rw [h.other other, if_neg (fun same => other same.1), Int.add_zero]

/-- A signal takes one level from the owner. -/
theorem depth_signal (kind : mutex i = true) (h : k.Signal j k') (t : T) : (k'.sem i).depth t =
      (k.sem i).depth t - if i = j ∧ (k.sem i).owndby = some t then 1 else 0 := by
  rcases eq_or_ne i j with rfl | other
  · have deep := (ok.resource i kind).deep
    cases h with
    | nested =>
        by_cases owned : (k.sem i).owndby = some t <;> simp [Sem.depth, owned]
    | kept top =>
        have type : (k.sem i).type = 1 := by omega
        by_cases owned : (k.sem i).owndby = some t <;>
          simp [Sem.depth, Sem.released, owned, type]
    | wakes top =>
        have type : (k.sem i).type = 1 := by omega
        by_cases owned : (k.sem i).owndby = some t <;>
          simp [Sem.depth, Sem.released, owned, type]
  · rw [h.other other, if_neg (fun same => other same.1), Int.sub_zero]

end Mutexes

end Rtai.Lxrt
