import Rtai.Lxrt.RwlockMoves

/-!
# Exclusion

The unlock of a writer takes a writer off the queue of `wrmtx` and leaves the lock without an
owner until this writer runs.  A read lock that is tested in between is taken beside the
write lock, for the writer does not look at the readers again.

`writers_alone` says that nothing else breaks the exclusion, and that `readers` counts the
read locks.
-/

namespace Rtai.Lxrt.Rwl

open Function Rtai.Lib

variable {T : Type} [DecidableEq T]

/-- Nobody owns `wrmtx`, but it is on its way to a writer that has to run. -/
def State.Handing (s : State T) : Prop := s.owndby = none ∧ ¬(s.kernel.sem .wrmtx).count > 0

instance (s : State T) : Decidable s.Handing := inferInstanceAs (Decidable (_ ∧ _))

/-- No read lock, and no reader that has been woken, passes its test while the lock is on its
way to a writer. -/
def NotHanding (s : State T) : Event T → Prop
  | .rdlock self _ => s.Passes self → ¬s.Handing
  | .goOn self _ =>
      (s.waits self).map Prod.fst = some .rdsem → (s.kernel.task self).blockedOn = none →
        s.Passes self → ¬s.Handing
  | _ => True

/-- Who has a write lock is the only one to have the lock, and the readers are counted. -/
def Excluded (s : State T) : Prop :=
  (∀ t ∈ s.writes, s.reads = [] ∧ ∀ u ∈ s.writes, u = t) ∧ s.readers = s.reads.length

/-- The holds are what the semaphores say, and nobody reads while `wrmtx` is not free. -/
structure Exclusive (s : State T) : Prop where
  ok : s.Ok
  readers : s.readers = s.reads.length
  free : s.owndby = none → s.writes = [] ∧ (s.kernel.sem .wrmtx).type = 1
  owned : ∀ {t}, s.owndby = some t →
    s.writes = List.replicate (s.kernel.sem .wrmtx).type.toNat t
  alone : ¬(s.kernel.sem .wrmtx).count > 0 → s.reads = []

namespace Exclusive

variable {s s' : State T} {self t : T} {how : Option Bool} {e : Event T}

section

omit [DecidableEq T]

theorem initial (h : s.Initial) : Exclusive s where
  ok := h.ok
  readers := by simp [h.readers, h.reads]
  free := fun _ => ⟨h.writes, by simp [h.wrmtx, rtTypedSemInit]⟩
  owned := by
    intro t owned
    simp [State.owndby, h.wrmtx, rtTypedSemInit] at owned
  alone := fun _ => h.reads

/-- A step that is not about `wrmtx` and the holds. -/
theorem congr (ex : Exclusive s) (ok : s'.Ok)
    (sem : s'.kernel.sem .wrmtx = s.kernel.sem .wrmtx) (readers : s'.readers = s.readers)
    (reads : s'.reads = s.reads) (writes : s'.writes = s.writes) : Exclusive s' := by
  have owndby : s'.owndby = s.owndby := by rw [State.owndby, State.owndby, sem]
  refine ⟨ok, ?_, ?_, ?_, ?_⟩
  all_goals simp only [owndby, sem, readers, reads, writes]
  · exact ex.readers
  · exact ex.free
  · exact ex.owned
  · exact ex.alone

/-- The exclusion holds. -/
theorem excluded (ex : Exclusive s) : Excluded s := by
  refine ⟨fun t mem => ?_, ex.readers⟩
  cases owndby : s.owndby with
  | none =>
      rw [(ex.free owndby).1] at mem
      cases mem
  | some owner =>
      refine ⟨ex.alone (ex.ok.resource.busy owndby), ?_⟩
      rw [ex.owned owndby] at mem ⊢
      obtain rfl := List.eq_of_mem_replicate mem
      exact fun u mem => List.eq_of_mem_replicate mem

end

theorem readLock (ex : Exclusive s) (ok : s'.Ok) (fair : s.Passes self → ¬s.Handing)
    (h : State.ReadLock self how s s') : Exclusive s' := by
  cases h with
  | refused => exact ex.congr ok rfl rfl rfl rfl
  | takes passes =>
      have free : (s.kernel.sem .wrmtx).count > 0 := by
        by_contra busy
        exact fair passes ⟨passes.1, busy⟩
      refine ⟨ok, ?_, ex.free, ex.owned, fun busy => absurd free busy⟩
      simp [ex.readers]
  | late => exact ex.congr ok rfl rfl rfl rfl
  | blocks _ wait => exact ex.congr ok (wait.other nofun) rfl rfl rfl

theorem writeLock (ex : Exclusive s) (ok : s'.Ok) (h : State.WriteLock self how s s') :
    Exclusive s' := by
  have unread (none : s.readers = 0) : s.reads = [] := by
    have readers := ex.readers
    rw [none] at readers
    exact List.length_eq_zero_iff.mp (by omega)
  cases h with
  | late => exact ex.congr ok rfl rfl rfl rfl
  | blocks _ wait => exact ex.congr ok (wait.other nofun) rfl rfl rfl
  | claims none wait =>
      cases wait with
      | blocks busy other =>
          exact ⟨ok, ex.readers, ex.free, ex.owned, fun _ => unread none⟩
  | has none wait small =>
      cases wait with
      | late => exact absurd small (by decide)
      | takes free =>
          have owner : (s.kernel.sem .wrmtx).takenBy self = some self :=
            if_pos ex.ok.resource.deep
          have unowned : s.owndby = Option.none := by
            by_contra owned
            obtain ⟨t, owned⟩ := Option.ne_none_iff_exists'.mp owned
            exact ex.ok.resource.busy owned free
          obtain ⟨writes, type⟩ := ex.free unowned
          refine ⟨ok, ex.readers, fun none => ?_, fun {t} owned => ?_, fun _ => unread none⟩
          · simp [State.owndby, State.setPhase, owner] at none
          · simp [State.owndby, State.setPhase, owner] at owned
            simp [State.setPhase, type, writes, owned]
      | nested busy deep mine =>
          refine ⟨ok, ex.readers, fun none => ?_, fun {t} owned => ?_, fun _ => unread none⟩
          · simp [State.owndby, State.setPhase, mine] at none
          · simp [State.owndby, State.setPhase, mine] at owned
            subst owned
            have depth : ((s.kernel.sem .wrmtx).type + 1).toNat =
                (s.kernel.sem .wrmtx).type.toNat + 1 := by omega
            simp [State.setPhase, ex.owned mine, depth, List.replicate_succ]

/-- The writer unlocks. -/
theorem release {k : Kernel RwlSem T}
    (ok : State.Ok { (s.dropHold self).setPhase self .unlocking with kernel := k })
    (ex : Exclusive s) (holds : self ∈ s.reads ∨ self ∈ s.writes) (owned : s.owndby = some t)
    (h : s.kernel.Signal .wrmtx k) :
    Exclusive { (s.dropHold self).setPhase self .unlocking with kernel := k } := by
  have deep := ex.ok.resource.deep
  have reads := ex.alone (ex.ok.resource.busy owned)
  have writes := ex.owned owned
  have mem : self ∈ s.writes := by
    rw [reads] at holds
    exact holds.resolve_left List.not_mem_nil
  obtain rfl : self = t := by
    rw [writes] at mem
    exact List.eq_of_mem_replicate mem
  have drop : s.dropHold self = { s with writes := s.writes.erase self } := if_pos mem
  have depth : (s.kernel.sem .wrmtx).type.toNat = ((s.kernel.sem .wrmtx).type - 1).toNat + 1 := by
    omega
  have left : s.writes.erase self =
      List.replicate ((s.kernel.sem .wrmtx).type - 1).toNat self := by
    rw [writes, depth, List.replicate_succ, List.erase_cons_head]
  have released : (s.kernel.sem .wrmtx).released = none := if_pos deep
  rw [drop, left] at ok ⊢
  cases h with
  | nested more =>
      refine ⟨ok, ex.readers, fun none => ?_, fun {t} owned' => ?_, fun _ => reads⟩
      · simp only [State.owndby, Kernel.setSem_sem, update_self] at none
        cases owned.symm.trans none
      · simp only [State.owndby, Kernel.setSem_sem, update_self] at owned'
        cases owned.symm.trans owned'
        simp [State.setPhase]
  | kept top =>
      have type : (s.kernel.sem .wrmtx).type = 1 := by omega
      refine ⟨ok, ex.readers, fun _ => ?_, fun {t} owned' => ?_, fun _ => reads⟩
      · simp [State.setPhase, type]
      · simp [State.owndby, released] at owned'
  | wakes top =>
      have type : (s.kernel.sem .wrmtx).type = 1 := by omega
      refine ⟨ok, ex.readers, fun _ => ?_, fun {t} owned' => ?_, fun _ => reads⟩
      · simp [State.setPhase, type]
      · simp [State.owndby, released] at owned'

/-- A reader unlocks. -/
theorem leave {readers : Int}
    (ok : State.Ok { (s.dropHold self).setPhase self .unlocking with readers := readers })
    (ex : Exclusive s) (holds : self ∈ s.reads ∨ self ∈ s.writes) (unowned : s.owndby = none)
    (count : readers = s.readers - 1) :
    Exclusive { (s.dropHold self).setPhase self .unlocking with readers := readers } := by
  obtain ⟨writes, type⟩ := ex.free unowned
  have reader : self ∉ s.writes := by
    rw [writes]
    exact List.not_mem_nil
  have mem := holds.resolve_right reader
  have drop : s.dropHold self = { s with reads := s.reads.erase self } := if_neg reader
  have pos := List.length_pos_of_mem mem
  rw [drop] at ok ⊢
  refine ⟨ok, ?_, ex.free, ex.owned, fun busy => ?_⟩
  · simp only [State.setPhase, List.length_erase_of_mem mem]
    have readers := ex.readers
    omega
  · have reads := ex.alone busy
    rw [reads] at mem
    cases mem

/-- A task goes on behind `rt_schedule`. -/
theorem goOn (ex : Exclusive s) (ok : s'.Ok)
    (fair : (s.waits self).map Prod.fst = some .rdsem → (s.kernel.task self).blockedOn = none →
      s.Passes self → ¬s.Handing)
    (h : State.GoOn self s s') : Exclusive s' := by
  cases h with
  | @inVain i inside still =>
      rcases eq_or_ne i .wrmtx with rfl | flat
      · -- the lock is not free for the tasks behind it
        have mem := (ex.ok.linked.still inside still).2
        have before := (ex.ok.linked.counted _).waiting (List.ne_nil_of_mem mem)
        have reads := ex.alone (by omega)
        refine ⟨ok, ex.readers, fun unowned => ?_, fun {t} owned => ?_, fun _ => reads⟩
        · simp only [State.comeOut, State.setPhase, State.owndby, Kernel.setTask_sem,
            Kernel.setSem_sem, update_self] at unowned ⊢
          exact ex.free unowned
        · simp only [State.comeOut, State.setPhase, State.owndby, Kernel.setTask_sem,
            Kernel.setSem_sem, update_self] at owned ⊢
          exact ex.owned owned
      · exact ex.congr ok (update_of_ne flat.symm _ _) rfl rfl rfl
  | read phase off lock => exact ex.readLock ok (fair (by simp [State.waits, phase, Phase.wait]) off) lock
  | write _ _ lock => exact ex.writeLock ok lock
  | claim phase off =>
      have handed : s.kernel.Handed s.waits .wrmtx self :=
        ⟨by simp [State.waits, phase, Phase.wait], off⟩
      have unowned : s.owndby = none := by
        by_contra owned
        obtain ⟨t, owned⟩ := Option.ne_none_iff_exists'.mp owned
        exact ex.ok.resource.not_handed owned handed
      have reads := ex.alone (ex.ok.resource.token.not_free (.inr handed))
      obtain ⟨writes, type⟩ := ex.free unowned
      refine ⟨ok, ex.readers, fun none => ?_, fun {t} owned => ?_, fun _ => reads⟩
      · simp [State.owndby, State.setPhase] at none
      · simp [State.owndby, State.setPhase] at owned
        simp [State.setPhase, type, writes, owned]

/-- One step keeps the exclusion. -/
theorem step (ex : Exclusive s) (guard : NotHanding s e) (h : Rwl.step e s = some s') :
    Exclusive s' := by
  have move := State.step_cases ex.ok h
  have ok := move.ok ex.ok
  cases move with
  | rdlock _ lock => exact ex.readLock ok guard lock
  | wrlock _ lock => exact ex.writeLock ok lock
  | release _ holds owned signal => exact ex.release ok holds owned signal
  | leave _ holds unowned => exact ex.leave ok holds unowned rfl
  | leaveFree _ holds unowned free =>
      -- nobody can unlock then
      have readers := ex.readers
      have reads : s.reads = [] := List.length_eq_zero_iff.mp (by omega)
      rw [(ex.free unowned).1, reads] at holds
      cases holds <;> contradiction
  | wake _ wakes signal =>
      exact ex.congr ok (signal.other (State.wakes_cases wakes).2.1.symm) rfl rfl rfl
  | quit => exact ex.congr ok rfl rfl rfl rfl
  | goOn _ goes => exact ex.goOn ok guard goes
  | expire => exact ex.congr ok rfl rfl rfl rfl
  | @priority t p =>
      rcases (Kernel.changePriority_spec s.kernel t p).2 .wrmtx with
        same | ⟨-, -, queue, -, moved⟩
      · exact ex.congr ok same rfl rfl rfl
      · refine ⟨ok, ex.readers, ?_, ?_, ?_⟩
        all_goals simp only [State.owndby, moved]
        · exact ex.free
        · exact ex.owned
        · exact ex.alone

end Exclusive

/-- In every run in which no read lock passes its test while the lock is on its way to a
writer, a task that has a write lock is the only one that has the lock, and `rdsem.owndby`
is the number of the read locks. -/
theorem writers_alone {s₀ s : State T} {trace : List (Record (State T) (Event T))}
    (init : s₀.Initial) (run : Run step NotHanding s₀ trace s) : Excluded s :=
  (run.invariant (P := Exclusive) (.initial init) fun ex guard h => ex.step guard h).excluded

instance (s : State T) : ∀ e, Decidable (NotHanding s e)
  | .rdlock self _ => inferInstanceAs (Decidable (s.Passes self → ¬s.Handing))
  | .goOn self _ =>
      inferInstanceAs (Decidable ((s.waits self).map Prod.fst = some .rdsem →
        (s.kernel.task self).blockedOn = none → s.Passes self → ¬s.Handing))
  | .wrlock _ _ | .unlock _ | .unlockEnd _ | .expire _ | .priority _ _ =>
      inferInstanceAs (Decidable True)

/-- A writer waits for a reader until its time is over, and has the lock afterwards. -/
theorem writers_alone_timed : ∃ trace s, Run step NotHanding fresh trace s ∧
    Excluded s ∧ s.writes = [1, 1] := by
  obtain ⟨trace, s, run, test⟩ := Run.of_execute step NotHanding fresh
    [.rdlock 0 none, .wrlock 1 (some false), .expire 1, .goOn 1 true, .unlock 0, .unlockEnd 0,
      .wrlock 1 none, .rdlock 2 none, .wrlock 1 none]
    (fun s => s.writes == [1, 1]) (by decide)
  exact ⟨trace, s, run, writers_alone fresh_initial run, by simpa using test⟩

/-- A reader takes the lock that is on its way to a writer. -/
theorem lock_taken_on_its_way : ∃ trace s, Run step (fun _ _ => True) fresh trace s ∧
    ¬Excluded s := by
  obtain ⟨trace, s, run, test⟩ := Run.of_execute step (fun _ _ => True) fresh
    [.wrlock 0 none, .wrlock 1 none, .unlock 0, .rdlock 2 none, .goOn 1 false]
    (fun s => s.writes == [1] && s.reads == [2]) (by decide)
  rw [Bool.and_eq_true, beq_iff_eq, beq_iff_eq] at test
  refine ⟨trace, s, run, fun excluded => ?_⟩
  have reads := (excluded.1 1 (by simp [test.1])).1
  rw [test.2] at reads
  cases reads

end Rtai.Lxrt.Rwl
