import Rtai.Lxrt.RwlockMoves

/-!
# Waiters of a lock

An unlock that leaves the lock free wakes one task, and this task has the lock next or
leaves it to another one that is on its way.  The exception is a reader that is woken
although a writer of its priority waits: `rt_rwl_unlock` prefers the reader, and the test of
the reader the writer.

`none_stuck` says that without such a choice, whenever nobody has the lock and nobody is on
the way to it, nobody waits for it.
-/

namespace Rtai.Lxrt.Rwl

open Function Rtai.Lib

variable {T : Type} [DecidableEq T]

namespace State

variable {s s' : State T} {self t : T} {how : Option Bool} {e : Event T}

/-- A task is in the middle of `rt_rwl_unlock`, or has been woken and has still to run. -/
def Pending (s : State T) (t : T) : Prop :=
  s.phase t = .unlocking ∨ (s.waits t).isSome ∧ (s.kernel.task t).blockedOn = none

instance : Decidable (s.Pending t) := inferInstanceAs (Decidable (_ ∨ _ ∧ _))

/-- The task will take the free lock or wake another one, for a reader is more urgent than
every writer that waits. -/
def Going (s : State T) (t : T) : Prop :=
  s.Pending t ∧ ((s.waits t).map Prod.fst = some .rdsem →
    ∀ w ∈ (s.kernel.sem .wrsem).queue, s.priority t < s.priority w)

/-- The lock is free. -/
def Free (s : State T) : Prop := s.owndby = none ∧ s.readers = 0

instance : Decidable s.Free := inferInstanceAs (Decidable (_ ∧ _))

/-- When nobody has the lock and nobody is on the way to it, nobody waits for it. -/
def NoneStuck (s : State T) : Prop :=
  s.reads = [] → s.writes = [] → (∀ t, ¬s.Pending t) → ∀ t, s.waits t = none

/-- The holds that the semaphores count. -/
def held (s : State T) : Int :=
  (if s.owndby.isSome then (s.kernel.sem .wrmtx).type else 0) + s.readers

end State

/-- An unlock that finds the lock free does not find a writer and a reader of one priority at
the heads of the queues, and no waiting task gets another priority. -/
def Decides (s : State T) : Event T → Prop
  | .unlockEnd _ => s.Free →
      ∀ w ∈ s.first .wrsem, ∀ r ∈ s.first .rdsem, s.priority w ≠ s.priority r
  | .priority t _ => s.waits t = none
  | _ => True

/-- A free lock that tasks wait for has a task on its way. -/
structure Lively (s : State T) : Prop where
  ok : s.Ok
  sorted : s.kernel.Sorted .wrsem
  positive : 0 ≤ s.readers
  top : s.owndby = none → (s.kernel.sem .wrmtx).type = 1
  counted : s.held = s.reads.length + s.writes.length
  goes : s.Free → (∀ i, i ≠ .wrmtx → (s.kernel.sem i).queue = []) ∨ ∃ t, s.Going t

namespace Lively

variable {s s' : State T} {self t : T} {how : Option Bool} {e : Event T} {k : Kernel RwlSem T}

section

omit [DecidableEq T]

theorem initial (h : s.Initial) : Lively s where
  ok := h.ok
  sorted := by
    refine ⟨?_, ?_⟩ <;> simp [h.wrsem, rtTypedSemInit]
  positive := h.readers.ge
  top := fun _ => by simp [h.wrmtx, rtTypedSemInit]
  counted := by
    simp [State.held, State.owndby, h.wrmtx, h.readers, h.reads, h.writes, rtTypedSemInit]
  goes := by
    refine fun _ => .inl fun i flat => ?_
    cases i with
    | wrmtx => contradiction
    | wrsem => simp [h.wrsem, rtTypedSemInit]
    | rdsem => simp [h.rdsem, rtTypedSemInit]

/-- What a step leaves of a task that is on its way. -/
theorem going (h : s.Going t) (phase : s'.phase t = s.phase t)
    (off : (s.kernel.task t).blockedOn = none → (s'.kernel.task t).blockedOn = none)
    (priority : ∀ u, s'.priority u = s.priority u)
    (queue : ∀ w ∈ (s'.kernel.sem .wrsem).queue, w ∈ (s.kernel.sem .wrsem).queue) :
    s'.Going t := by
  have waits : s'.waits t = s.waits t := congrArg Phase.wait phase
  obtain ⟨pending, urgent⟩ := h
  refine ⟨?_, fun inside w mem => ?_⟩
  · rw [State.Pending, phase, waits]
    exact pending.imp_right fun woken => ⟨woken.1, off woken.2⟩
  · rw [priority, priority]
    exact urgent (waits ▸ inside) w (queue w mem)

/-- A writer that `wrmtx` is on its way to. -/
theorem going_of_handed (h : s.kernel.Handed s.waits .wrmtx t) : s.Going t := by
  obtain ⟨inside, off⟩ := h
  refine ⟨.inr ⟨?_, off⟩, fun reading => ?_⟩
  · obtain ⟨wait, waits, -⟩ := Option.map_eq_some_iff.mp inside
    rw [waits]
    rfl
  · cases inside.symm.trans reading

/-- While nobody owns `wrmtx`, it is free or on its way. -/
theorem handed (live : Lively s) (unowned : s.owndby = none)
    (busy : ¬(s.kernel.sem .wrmtx).count > 0) : ∃ t, s.kernel.Handed s.waits .wrmtx t :=
  live.ok.resource.handed busy unowned

end

/-- What the invariant says of a state in which nobody has the lock. -/
theorem noneStuck (live : Lively s) : s.NoneStuck := by
  intro reads writes none t
  have deep := live.ok.resource.deep
  have positive := live.positive
  have counted := live.counted
  rw [State.held, reads, writes] at counted
  have unowned : s.owndby = Option.none := by
    by_contra owned
    rw [if_pos (Option.isSome_iff_ne_none.mpr owned)] at counted
    simp at counted
    omega
  have unread : s.readers = 0 := by
    rw [unowned] at counted
    simpa using counted
  have empty := (live.goes ⟨unowned, unread⟩).resolve_right fun ⟨t, going⟩ => none t going.1
  cases inside : s.waits t with
  | none => rfl
  | some wait =>
      obtain ⟨i, timed⟩ := wait
      have blocked : (s.kernel.task t).blockedOn.isSome := by
        by_contra off
        exact none t (.inr ⟨by rw [inside]; rfl, Option.not_isSome_iff_eq_none.mp off⟩)
      have mem := (live.ok.linked.still inside blocked).2
      rcases eq_or_ne i .wrmtx with rfl | flat
      · have before := (live.ok.linked.counted _).waiting (List.ne_nil_of_mem mem)
        obtain ⟨u, handed⟩ := live.handed unowned (by omega)
        exact absurd (going_of_handed handed).1 (none u)
      · rw [empty i flat] at mem
        cases mem

omit [DecidableEq T] in
/-- A step that is not about the holds. -/
theorem congr (live : Lively s) (ok : s'.Ok) (sorted : s'.kernel.Sorted .wrsem)
    (type : (s'.kernel.sem .wrmtx).type = (s.kernel.sem .wrmtx).type)
    (owndby : s'.owndby = s.owndby) (readers : s'.readers = s.readers)
    (reads : s'.reads = s.reads) (writes : s'.writes = s.writes)
    (goes : s.Free → (∀ i, i ≠ .wrmtx → (s'.kernel.sem i).queue = []) ∨ ∃ t, s'.Going t) :
    Lively s' := by
  refine ⟨ok, sorted, ?_, ?_, ?_, ?_⟩
  all_goals simp only [State.held, State.Free, owndby, type, readers, reads, writes]
  · exact live.positive
  · exact live.top
  · exact live.counted
  · exact goes

omit [DecidableEq T] in
theorem other_of_not_going (still : ¬s.Going self) :
    (∃ t, s.Going t) → ∃ t, t ≠ self ∧ s.Going t := by
  rintro ⟨t, goes⟩
  refine ⟨t, ?_, goes⟩
  rintro rfl
  exact still goes

/-- Who was on the way before a step of another task still is. -/
theorem others (phase : ∀ u, u ≠ self → s'.phase u = s.phase u)
    (task : ∀ u, u ≠ self → s'.kernel.task u = s.kernel.task u)
    (priority : (s'.kernel.task self).priority = (s.kernel.task self).priority)
    (queue : ∀ w ∈ (s'.kernel.sem .wrsem).queue, w ∈ (s.kernel.sem .wrsem).queue) :
    (∃ t, t ≠ self ∧ s.Going t) → ∃ t, s'.Going t := by
  rintro ⟨t, ne, goes⟩
  refine ⟨t, going goes (phase t ne) (fun off => by rw [task t ne]; exact off) (fun u => ?_) queue⟩
  rcases eq_or_ne u self with rfl | other
  · exact priority
  · exact congrArg Task.priority (task u other)

/-- A lock service that is late. -/
theorem giveUp (live : Lively s) (ok : (s.giveUp self).Ok)
    (goes : s.Free → (∀ i, i ≠ .wrmtx → (s.kernel.sem i).queue = []) ∨
      ∃ t, t ≠ self ∧ s.Going t) : Lively (s.giveUp self) := by
  have phase (u : T) (ne : u ≠ self) : (s.giveUp self).phase u = s.phase u := update_of_ne ne _ _
  have task (u : T) (ne : u ≠ self) : (s.giveUp self).kernel.task u = s.kernel.task u :=
    update_of_ne ne _ _
  have priority : ((s.giveUp self).kernel.task self).priority = (s.kernel.task self).priority := by
    simp [State.giveUp, State.setPhase]
  refine live.congr ok (live.sorted.leave rfl (.refl _) fun u _ => ?_) rfl rfl rfl rfl rfl
    fun free => (goes free).imp id (others phase task priority fun _ => id)
  rcases eq_or_ne u self with rfl | ne
  · exact priority
  · rw [task u ne]

theorem readLock (live : Lively s) (ok : s'.Ok)
    (lost : s.Free → ¬s.Passes self → ¬s.Going self) (h : State.ReadLock self how s s') :
    Lively s' := by
  cases h with
  | refused owned =>
      refine live.congr ok live.sorted rfl rfl rfl rfl rfl fun free => ?_
      cases owned.symm.trans free.1
  | takes =>
      have positive := live.positive
      have more : s.held + 1 = ((self :: s.reads).length : Int) + s.writes.length := by
        rw [live.counted, List.length_cons]
        omega
      refine ⟨ok, live.sorted, ?_, live.top, (Int.add_assoc _ _ _).symm.trans more, fun free => ?_⟩
      · exact positive.trans (Int.le_add_of_nonneg_right Int.one_nonneg)
      · have unread := free.2
        dsimp only at unread
        omega
  | late fails =>
      exact live.giveUp ok fun free => (live.goes free).imp id (other_of_not_going (lost free fails))
  | @blocks k fails wait =>
      have wrmtx : k.sem .wrmtx = s.kernel.sem .wrmtx := wait.other nofun
      have wrsem : k.sem .wrsem = s.kernel.sem .wrsem := wait.other nofun
      refine live.congr ok (live.sorted.waitFor wait) (congrArg Sem.type wrmtx)
        (congrArg Sem.owndby wrmtx) rfl rfl rfl fun free => .inr ?_
      have writers : (s.kernel.sem .wrsem).queue ≠ [] := by
        have first : s.writerFirst self = true := by
          by_contra none
          exact fails ⟨free.1, Bool.eq_false_of_not_eq_true none⟩
        intro empty
        simp [State.writerFirst, State.first, empty] at first
      have goes := (live.goes free).resolve_left fun empty => writers (empty .wrsem nofun)
      refine others (s := s) (fun u ne => update_of_ne ne _ _) (fun u ne => wait.task ne)
        wait.priority (fun w mem => ?_) (other_of_not_going (lost free fails) goes)
      rw [← wrsem]
      exact mem

omit [DecidableEq T] in
/-- A task gets the write lock, or one level more of it. -/
theorem taken (live : Lively s) (ok : s'.Ok) (sorted : s'.kernel.Sorted .wrsem)
    (owned : s'.owndby.isSome) (type : s.held + 1 = (s'.kernel.sem .wrmtx).type + s.readers)
    (readers : s'.readers = s.readers) (reads : s'.reads = s.reads)
    (writes : s'.writes = self :: s.writes) : Lively s' := by
  refine ⟨ok, sorted, readers ▸ live.positive, fun unowned => ?_, ?_, fun free => ?_⟩
  · rw [unowned] at owned
    cases owned
  · rw [State.held, if_pos owned, readers, ← type, live.counted, reads, writes, List.length_cons]
    omega
  · rw [free.1] at owned
    cases owned

theorem writeLock (live : Lively s) (ok : s'.Ok) (outside : (s.waits self).map Prod.fst ≠ some .wrmtx)
    (h : State.WriteLock self how s s') : Lively s' := by
  -- the lock is on its way to another writer
  have on_the_way (unowned : s.owndby = none) (busy : ¬(s.kernel.sem .wrmtx).count > 0) :
      ∃ t, t ≠ self ∧ s.Going t := by
    obtain ⟨t, handed⟩ := live.handed unowned busy
    refine ⟨t, ?_, going_of_handed handed⟩
    rintro rfl
    exact outside handed.1
  cases h with
  | late late => exact live.giveUp ok fun free => .inr (on_the_way free.1 (late free.2))
  | @blocks k read wait =>
      have wrmtx : k.sem .wrmtx = s.kernel.sem .wrmtx := wait.other nofun
      refine live.congr ok (live.sorted.waitFor wait) (congrArg Sem.type wrmtx)
        (congrArg Sem.owndby wrmtx) rfl rfl rfl fun free => ?_
      exact absurd free.2 read
  | @claims k none wait =>
      have wrsem : k.sem .wrsem = s.kernel.sem .wrsem := wait.other nofun
      have same : (k.sem .wrmtx).type = (s.kernel.sem .wrmtx).type ∧
          (k.sem .wrmtx).owndby = (s.kernel.sem .wrmtx).owndby := by
        cases wait
        simp [Kernel.place]
      refine live.congr ok (live.sorted.waitFor wait) same.1 same.2 rfl rfl rfl fun free =>
        .inr ?_
      refine others (s := s) (fun u ne => update_of_ne ne _ _) (fun u ne => wait.task ne)
        wait.priority (fun w mem => ?_) (on_the_way free.1 wait.busy)
      rw [← wrsem]
      exact mem
  | @has k v none wait small =>
      have deep := live.ok.resource.deep
      have counted := live.counted
      have owned : (k.sem .wrmtx).owndby.isSome ∧ s.held + 1 = (k.sem .wrmtx).type + s.readers := by
        cases wait with
        | late => exact absurd small (by decide)
        | takes free =>
            have unowned : s.owndby = Option.none := by
              by_contra owned
              obtain ⟨t, owned⟩ := Option.ne_none_iff_exists'.mp owned
              exact live.ok.resource.busy owned free
            have owner : (s.kernel.sem .wrmtx).takenBy self = some self := if_pos deep
            have top := live.top unowned
            simp [State.held, unowned, owner, top, none]
        | nested _ _ mine =>
            have mine' : s.owndby = some self := mine
            simp [State.held, mine, mine', none]
      exact live.taken ok (live.sorted.waitFor wait) owned.1 owned.2 rfl rfl rfl

/-- A reader or a writer unlocks. -/
theorem dropHold (holds : self ∈ s.reads ∨ self ∈ s.writes) :
    ((s.dropHold self).reads.length : Int) + (s.dropHold self).writes.length + 1 =
      s.reads.length + s.writes.length := by
  unfold State.dropHold
  split
  next mem =>
    have pos := List.length_pos_of_mem mem
    simp only [List.length_erase_of_mem mem]
    omega
  next other =>
    have mem := holds.resolve_right other
    have pos := List.length_pos_of_mem mem
    simp only [List.length_erase_of_mem mem]
    omega

/-- The first half of an unlock. -/
theorem unlock (live : Lively s) (ok : s'.Ok) (holds : self ∈ s.reads ∨ self ∈ s.writes)
    (phase : s'.phase = update s.phase self .unlocking)
    (sorted : s'.kernel.Sorted .wrsem) (positive : 0 ≤ s'.readers)
    (top : s'.owndby = none → (s'.kernel.sem .wrmtx).type = 1) (held : s'.held = s.held - 1)
    (reads : s'.reads = (s.dropHold self).reads) (writes : s'.writes = (s.dropHold self).writes) :
    Lively s' := by
  refine ⟨ok, sorted, positive, top, ?_, fun _ => .inr ⟨self, .inl ?_, fun reading => ?_⟩⟩
  · have left := dropHold holds
    have counted := live.counted
    rw [reads, writes]
    omega
  · rw [phase, update_self]
  · simp [State.waits, phase, Phase.wait] at reading

theorem release (live : Lively s)
    (ok : State.Ok { (s.dropHold self).setPhase self .unlocking with kernel := k })
    (holds : self ∈ s.reads ∨ self ∈ s.writes) (owned : s.owndby = some t)
    (h : s.kernel.Signal .wrmtx k) :
    Lively { (s.dropHold self).setPhase self .unlocking with kernel := k } := by
  have deep := live.ok.resource.deep
  have owner : (s.kernel.sem .wrmtx).owndby = some t := owned
  have released : (s.kernel.sem .wrmtx).released = none := if_pos deep
  have readers : (s.dropHold self).readers = s.readers := State.dropHold_readers
  have phase : (s.dropHold self).phase = s.phase := State.dropHold_phase
  have result : (k.sem .wrmtx).owndby = none ∧ (k.sem .wrmtx).type = 1 ∧
        (s.kernel.sem .wrmtx).type = 1 ∨
      (k.sem .wrmtx).owndby = some t ∧ (k.sem .wrmtx).type = (s.kernel.sem .wrmtx).type - 1 := by
    cases h with
    | nested => simp [owner]
    | kept top => 
        have type : (s.kernel.sem .wrmtx).type = 1 := by omega
        simp [released, type]
    | wakes top =>
        have type : (s.kernel.sem .wrmtx).type = 1 := by omega
        simp [released, type]
  refine live.unlock ok holds (by simp [State.setPhase]) (live.sorted.signal h)
    (live.positive.trans_eq readers.symm) ?_ ?_ rfl rfl
  · intro unowned
    rcases result with ⟨-, type, -⟩ | ⟨owned', -⟩
    · exact type
    · cases owned'.symm.trans unowned
  · rcases result with ⟨unowned, -, type⟩ | ⟨owned', type⟩
    · simp only [State.held, State.owndby, State.setPhase, readers, unowned, owner, type,
        Option.isSome_none, Option.isSome_some, Bool.false_eq_true, if_false, if_true]
      omega
    · simp only [State.held, State.owndby, State.setPhase, readers, owned', owner, type,
        Option.isSome_some, if_true]
      omega

theorem leave (live : Lively s)
    (ok : State.Ok { (s.dropHold self).setPhase self .unlocking with readers := s.readers - 1 })
    (holds : self ∈ s.reads ∨ self ∈ s.writes) (unowned : s.owndby = none)
    (read : s.readers ≠ 0) :
    Lively { (s.dropHold self).setPhase self .unlocking with readers := s.readers - 1 } := by
  have positive := live.positive
  have kernel : (s.dropHold self).kernel = s.kernel := State.dropHold_kernel
  refine live.unlock ok holds (by simp [State.setPhase]) ?_ ?_ ?_ ?_ rfl rfl
  · simpa [State.setPhase] using live.sorted
  · dsimp only
    omega
  · simpa [State.owndby, State.setPhase] using live.top
  · have unowned' : (s.kernel.sem .wrmtx).owndby = none := unowned
    simp [State.held, State.owndby, State.setPhase, unowned']

/-- Nobody can unlock a free lock. -/
theorem not_held (live : Lively s) (holds : self ∈ s.reads ∨ self ∈ s.writes) : ¬s.Free := by
  rintro ⟨unowned, unread⟩
  have counted := live.counted
  have left := dropHold holds
  simp only [State.held, unowned, unread, Option.isSome_none] at counted
  simp at counted
  omega

omit [DecidableEq T] in
/-- A reader that an unlock wakes is more urgent than every writer that waits. -/
theorem urgent (live : Lively s) (decides : Decides s (.unlockEnd self))
    (wakes : s.wakes = some .rdsem) (first : s.first .rdsem = some t) :
    ∀ w ∈ (s.kernel.sem .wrsem).queue, s.priority t < s.priority w := by
  have free : s.Free := (State.wakes_cases wakes).1
  intro w mem
  cases queue : (s.kernel.sem .wrsem).queue with
  | nil =>
      rw [queue] at mem
      cases mem
  | cons w₀ rest =>
      have writer : s.first .wrsem = some w₀ := by simp [State.first, queue]
      have differ := decides free w₀ writer t first
      rw [State.wakes, if_pos ⟨free.1, free.2⟩, writer, first] at wakes
      dsimp only at wakes
      have before : s.priority t < s.priority w₀ := by
        split at wakes
        · cases wakes
        · omega
      have order := live.sorted.order
      rw [queue] at order mem
      rcases List.mem_cons.mp mem with rfl | mem
      · exact before
      · exact before.trans_le ((List.pairwise_cons.mp order).1 w mem)

/-- The second half of an unlock. -/
theorem wake {i : RwlSem} (live : Lively s)
    (ok : State.Ok { s.setPhase self .idle with kernel := k })
    (unlocking : s.phase self = .unlocking) (decides : Decides s (.unlockEnd self))
    (wakes : s.wakes = some i) (h : s.kernel.Signal i k) :
    Lively { s.setPhase self .idle with kernel := k } := by
  obtain ⟨free, flat, some⟩ := State.wakes_cases wakes
  have wrmtx : k.sem .wrmtx = s.kernel.sem .wrmtx := h.other flat.symm
  have priority (u : T) : (k.task u).priority = s.priority u := h.priority
  refine live.congr ok (live.sorted.signal h) (congrArg Sem.type wrmtx)
    (congrArg Sem.owndby wrmtx) rfl rfl rfl fun _ => .inr ?_
  have other : i ≠ .wrsem → k.sem .wrsem = s.kernel.sem .wrsem := fun ne => h.other ne.symm
  cases h with
  | nested depth =>
      have type := (live.ok.flat i flat).1
      omega
  | kept _ empty => exact absurd empty some
  | @wakes t rest _ queue =>
      have inside := ((live.ok.linked.queued i t).mp (by rw [queue]; exact List.mem_cons_self)).1
      have ne : t ≠ self := by
        rintro rfl
        simp [State.waits, unlocking, Phase.wait] at inside
      have waits : (s.setPhase self .idle).waits t = s.waits t := by
        rw [State.waits_setPhase, update_of_ne ne]
      refine ⟨t, .inr ⟨?_, ?_⟩, fun reading w mem => ?_⟩
      · obtain ⟨wait, waits', -⟩ := Option.map_eq_some_iff.mp inside
        exact (congrArg Option.isSome (waits.trans waits')).trans rfl
      · simp [Task.woken]
      · obtain rfl : i = .rdsem := Option.some.inj (inside.symm.trans (waits ▸ reading))
        have first : s.first .rdsem = Option.some t := by simp [State.first, queue]
        rw [State.priority, State.priority, priority, priority]
        rw [other (by decide)] at mem
        exact live.urgent decides wakes first w mem

theorem goOn (live : Lively s) (ok : s'.Ok) (h : State.GoOn self s s') : Lively s' := by
  cases h with
  | @inVain i inside still =>
      have mem := (live.ok.linked.still inside still).2
      have waits := congrArg Option.isSome inside
      have waiting : ¬s.Going self := by
        rintro ⟨unlocking | ⟨-, off⟩, -⟩
        · simp [State.waits, unlocking, Phase.wait] at inside
        · rw [off] at still
          cases still
      have ended : s.kernel.WaitEnd true i self _ _ := .timeout rfl still
      have same : ((s.comeOut i self).kernel.sem .wrmtx).type = (s.kernel.sem .wrmtx).type ∧
          (s.comeOut i self).owndby = s.owndby := by
        rcases eq_or_ne i .wrmtx with rfl | flat
        · simp [State.comeOut, State.setPhase, State.owndby]
        · simp [State.comeOut, State.setPhase, State.owndby, flat.symm]
      refine live.congr ok (live.sorted.waitForEnd ended) same.1 same.2 rfl rfl rfl fun free => ?_
      rcases live.goes free with empty | some
      · rcases eq_or_ne i .wrmtx with rfl | flat
        · refine .inl fun j flat => ?_
          simpa [State.comeOut, State.setPhase, flat] using empty j flat
        · rw [empty i flat] at mem
          cases mem
      · refine .inr (others (s := s) (fun u ne => update_of_ne ne _ _)
          (fun u ne => update_of_ne ne _ _) ended.priority (fun w mem => ?_)
          (other_of_not_going waiting some))
        rcases eq_or_ne i .wrsem with rfl | flat
        · simp only [State.comeOut, State.setPhase, Kernel.setTask_sem, Kernel.setSem_sem,
            update_self] at mem
          exact List.mem_of_mem_erase mem
        · simpa [State.comeOut, State.setPhase, flat.symm] using mem
  | @read timed _ _ phase off lock =>
      refine live.readLock ok (fun free fails goes => fails ⟨free.1, ?_⟩) lock
      have urgent := goes.2 (by simp [State.waits, phase, Phase.wait])
      rw [State.writerFirst]
      cases first : s.first .wrsem with
      | none => rfl
      | some w =>
          have less := urgent w (List.mem_of_mem_head? first)
          simpa using less
  | write phase off lock =>
      refine live.writeLock ok ?_ lock
      simp [State.waits, phase, Phase.wait]
  | claim phase off =>
      have handed : s.kernel.Handed s.waits .wrmtx self :=
        ⟨by simp [State.waits, phase, Phase.wait], off⟩
      have unowned : s.owndby = none := by
        by_contra owned
        obtain ⟨t, owned⟩ := Option.ne_none_iff_exists'.mp owned
        exact live.ok.resource.not_handed owned handed
      have top := live.top unowned
      refine live.taken ok (live.sorted.leave ?_ ?_ fun _ _ => rfl) ?_ ?_ rfl rfl rfl
      · simp [State.setPhase]
      · simp [State.setPhase]
      · simp [State.setPhase, State.owndby]
      · simp [State.setPhase, State.held, unowned, top]
        omega

theorem step (live : Lively s) (guard : Decides s e) (h : Rwl.step e s = some s') :
    Lively s' := by
  have move := State.step_cases live.ok h
  have ok := move.ok live.ok
  cases move with
  | @rdlock self _ _ idle lock =>
      refine live.readLock ok (fun _ _ goes => ?_) lock
      rcases goes.1 with unlocking | ⟨waits, -⟩
      · cases idle.symm.trans unlocking
      · rw [State.waits, comp_apply, idle] at waits
        cases waits
  | @wrlock self _ _ idle lock =>
      refine live.writeLock ok ?_ lock
      simp [State.waits, idle, Phase.wait]
  | release _ holds owned signal => exact live.release ok holds owned signal
  | leave _ holds unowned read => exact live.leave ok holds unowned read
  | leaveFree _ holds unowned unread => exact absurd ⟨unowned, unread⟩ (live.not_held holds)
  | wake unlocking wakes signal => exact live.wake ok unlocking guard wakes signal
  | @quit self unlocking quits =>
      refine live.congr ok live.sorted rfl rfl rfl rfl rfl fun free => .inl fun i flat => ?_
      exact State.queue_of_quits quits free i flat
  | goOn _ goes => exact live.goOn ok goes
  | @expire t =>
      have task (u : T) : ((s.kernel.expire t).task u).blockedOn = (s.kernel.task u).blockedOn ∧
          ((s.kernel.expire t).task u).priority = (s.kernel.task u).priority := by
        rcases eq_or_ne u t with rfl | ne
        · simp [Kernel.expire, Kernel.makeReady]
        · simp [Kernel.expire, Kernel.makeReady, ne]
      refine live.congr ok (live.sorted.leave rfl (.refl _) fun u _ => (task u).2) rfl rfl rfl rfl
        rfl fun free => (live.goes free).imp id ?_
      rintro ⟨u, goes⟩
      refine ⟨u, going goes rfl ?_ ?_ ?_⟩
      · exact fun off => (task u).1.trans off
      · exact fun u => (task u).2
      · exact fun w => id
  | @priority t p =>
      have ready := (live.ok.linked.fits t).idle guard
      obtain ⟨task, sem⟩ := Kernel.changePriority_spec s.kernel t p
      have same (i : RwlSem) : (s.kernel.changePriority t p).sem i = s.kernel.sem i :=
        (sem i).resolve_right fun moves => moves.2.1 ready
      have theirs (u : T) (waits : s.waits u ≠ none) :
          (s.kernel.changePriority t p).task u = s.kernel.task u := by
        rw [task, if_neg]
        rintro rfl
        exact waits guard
      refine live.congr ok (live.sorted.changePriority ready (live.ok.linked.off guard _))
        (congrArg Sem.type (same _)) (congrArg Sem.owndby (same _)) rfl rfl rfl fun free => ?_
      refine (live.goes free).imp (fun empty i flat => ?_) ?_
      · exact (congrArg Sem.queue (same i)).trans (empty i flat)
      rintro ⟨u, goes⟩
      refine ⟨u, ?_, fun reading w mem => ?_⟩
      · refine goes.1.imp_right fun woken => ⟨woken.1, ?_⟩
        have task := theirs u (Option.isSome_iff_ne_none.mp woken.1)
        exact (congrArg Task.blockedOn task).trans woken.2
      · rw [same] at mem
        have inside := ((live.ok.linked.queued _ w).mp mem).1
        have urgent := goes.2 reading w mem
        rw [State.priority, State.priority, theirs, theirs]
        · exact urgent
        · intro none
          rw [none] at inside
          cases inside
        · intro none
          have reading' : (s.waits u).map Prod.fst = some .rdsem := reading
          rw [none] at reading'
          cases reading'

end Lively

/-- In every run in which no unlock finds a writer and a reader of one priority at the heads
of the queues, nobody waits in a state in which nobody has the lock and nobody is on the way
to it. -/
theorem none_stuck {s₀ s : State T} {trace : List (Record (State T) (Event T))}
    (init : s₀.Initial) (run : Run step Decides s₀ trace s) : s.NoneStuck :=
  (run.invariant (P := Lively) (.initial init) fun live guard h => live.step guard h).noneStuck

instance (s : State T) : ∀ e, Decidable (Decides s e)
  | .unlockEnd _ => inferInstanceAs (Decidable (s.Free →
      ∀ w ∈ s.first .wrsem, ∀ r ∈ s.first .rdsem, s.priority w ≠ s.priority r))
  | .priority t _ => inferInstanceAs (Decidable (s.waits t = none))
  | .rdlock _ _ | .wrlock _ _ | .unlock _ | .goOn _ _ | .expire _ => inferInstanceAs (Decidable True)

/-- A writer and a less urgent reader wait, and both have had the lock in the end. -/
theorem none_stuck_twice : ∃ trace s, Run step Decides fresh trace s ∧
    s.NoneStuck ∧ s.reads = [] ∧ s.writes = [] := by
  obtain ⟨trace, s, run, test⟩ := Run.of_execute step Decides fresh
    [.priority 2 7, .rdlock 0 none, .wrlock 1 (some false), .rdlock 2 none, .unlock 0,
      .unlockEnd 0, .goOn 1 false, .unlock 1, .unlockEnd 1, .goOn 2 false, .unlock 2, .unlockEnd 2]
    (fun s => s.reads == [] && s.writes == []) (by decide)
  rw [Bool.and_eq_true, beq_iff_eq, beq_iff_eq] at test
  exact ⟨trace, s, run, none_stuck fresh_initial run, test⟩

/-- A reader that is woken although a writer of its priority waits blocks again, and nobody
is left to wake the two. -/
theorem both_left_waiting : ∃ trace s, Run step (fun _ _ => True) fresh trace s ∧
    ¬s.NoneStuck := by
  obtain ⟨trace, s, run, test⟩ := Run.of_execute step (fun _ _ => True) fresh
    [.rdlock 0 none, .wrlock 1 none, .rdlock 2 none, .unlock 0, .unlockEnd 0, .goOn 2 false]
    (fun s => s.reads == [] && s.writes == [] && decide (∀ t, ¬s.Pending t) &&
      (s.waits 1).isSome) (by decide)
  simp only [Bool.and_eq_true, beq_iff_eq, decide_eq_true_eq] at test
  obtain ⟨⟨⟨reads, writes⟩, none⟩, waits⟩ := test
  refine ⟨trace, s, run, fun stuck => ?_⟩
  rw [stuck reads writes none 1] at waits
  cases waits

end Rtai.Lxrt.Rwl
