import Rtai.NewLxrt.SoftTasks
import Mathlib.Data.Fintype.Basic

/-!
# The priority of a soft task

A priority that a task has while it holds nothing is the one that it had when it entered its last
service, whatever has become of it since.
-/

namespace Rtai.NewLxrt.Soft

open Function Rtai.Lib Rtai.Lxrt

variable {S T : Type} [DecidableEq S] [DecidableEq T] {rtTask t self : T} {s s' : State S T} {i : S}
  {p : Int} {k : Kernel S T} {waits : T → Option (S × Bool)} {timed : Bool}

/-! ## Priorities -/

theorem changePriority_ready (ready : (k.task t).Ready) :
    k.changePriority t p = k.setTask t { k.task t with priority := p } := by
  have ready' : ((k.setTask t { k.task t with priority := p }).task t).Ready := by
    rw [Kernel.setTask_task, update_self]
    exact ready
  unfold Kernel.changePriority
  dsimp only
  split
  · rw [if_pos (.inl ready')]
  · rfl

theorem changePriority_owndby : ((k.changePriority t p).sem i).owndby = (k.sem i).owndby := by
  rcases (Kernel.changePriority_spec k t p).2 i with same | ⟨-, -, queue, -, moved⟩
  · rw [same]
  · rw [moved]

theorem changePriority_self : ((k.changePriority t p).task t).priority = p := by
  rw [(Kernel.changePriority_spec k t p).1, if_pos rfl]

theorem changePriority_other {u : T} (ne : u ≠ t) : (k.changePriority t p).task u = k.task u := by
  rw [(Kernel.changePriority_spec k t p).1, if_neg ne]

/-- The other fields stay, and nobody gains or loses a resource. -/
structure Beside (s s' : State S T) : Prop where
  waits : s'.waits = s.waits
  phase : s'.phase = s.phase
  basePriority : s'.basePriority = s.basePriority
  client : s'.client = s.client
  owndby : ∀ i, (s'.kernel.sem i).owndby = (s.kernel.sem i).owndby

omit [DecidableEq S] [DecidableEq T] in
theorem Beside.holds (beside : Beside s s') : s'.Holds rtTask ↔ s.Holds rtTask := by
  unfold State.Holds State.Waiting
  rw [beside.client]
  simp only [beside.owndby]

/-- What `pass_prio` does to the semaphores and tasks. -/
theorem passPrio_kernel (s : State S T) (rtTask : T) (to' : Option T) (from' : T) :
    (s.passPrio rtTask to' from').kernel = s.kernel ∨
    to' = some rtTask ∧ (s.kernel.task from').priority < s.priority rtTask ∧
      (s.passPrio rtTask to' from').kernel =
        s.kernel.changePriority rtTask (s.kernel.task from').priority := by
  unfold State.passPrio
  dsimp only
  split_ifs with passes
  · exact .inr ⟨passes.1, passes.2, rfl⟩
  · exact .inl rfl

theorem passPrio_beside (s : State S T) (rtTask : T) (to' : Option T) (from' : T) :
    Beside s (s.passPrio rtTask to' from') := by
  unfold State.passPrio
  dsimp only
  split_ifs
  · exact ⟨rfl, rfl, rfl, rfl, fun _ => changePriority_owndby⟩
  · exact ⟨rfl, rfl, rfl, rfl, fun _ => rfl⟩

/-- The semaphores are in order, with the tasks in their waits. -/
abbrev Sound (s : State S T) : Prop := Mutexes (fun _ => true) s.waits s.kernel

theorem Sound.passPrio (sound : Sound s) (to' : Option T) (from' : T) :
    Sound (s.passPrio rtTask to' from') := by
  unfold Sound
  rw [(passPrio_beside s rtTask to' from').waits]
  rcases passPrio_kernel s rtTask to' from' with same | ⟨-, -, passed⟩
  · rw [same]
    exact sound
  · rw [passed]
    exact sound.changePriority

omit [DecidableEq S] in
theorem setPriority_beside : Beside s (s.setPriority rtTask p) := ⟨rfl, rfl, rfl, rfl, fun _ => rfl⟩

omit [DecidableEq S] in
theorem setPriority_priority : (s.setPriority rtTask p).priority rtTask = p := by
  simp [State.setPriority, State.priority]

theorem Sound.setPriority (sound : Sound s) (idle : s.waits rtTask = none) :
    Sound (s.setPriority rtTask p) := by
  have ready := (sound.linked.fits rtTask).idle idle
  have moved := sound.changePriority (t := rtTask) (p := p)
  rw [changePriority_ready ready] at moved
  exact moved

omit [DecidableEq S] in
theorem renqCurrent_cases (s : State S T) (rtTask : T) :
    s.renqCurrent rtTask = s ∨ ∃ p, s.renqCurrent rtTask = s.setPriority rtTask p := by
  unfold State.renqCurrent
  split_ifs
  · exact .inr ⟨_, rfl⟩
  · exact .inr ⟨_, rfl⟩
  · exact .inl rfl

omit [DecidableEq S] in
theorem renqCurrent_beside : Beside s (s.renqCurrent rtTask) := by
  rcases renqCurrent_cases s rtTask with same | ⟨p, same⟩
  · rw [same]
    exact ⟨rfl, rfl, rfl, rfl, fun _ => rfl⟩
  · rw [same]
    exact setPriority_beside

theorem Sound.renqCurrent (sound : Sound s) (idle : s.waits rtTask = none) :
    Sound (s.renqCurrent rtTask) := by
  rcases renqCurrent_cases s rtTask with same | ⟨p, same⟩
  · rw [same]
    exact sound
  · rw [same]
    exact sound.setPriority idle

/-! ## The semaphores -/

omit [DecidableEq S] in
theorem counted_eq (s : State S T) (rtTask : T) (i : S) (self : T) :
    ∃ owndres, s.counted rtTask i self = { s with owndres := owndres } := by
  unfold State.counted
  split_ifs
  · exact ⟨_, rfl⟩
  · exact ⟨s.owndres, rfl⟩

/-- The wait of the kernel, in the state that it begins in. -/
theorem rtSemWait_cases (rtTask : T) (i : S) (sound : Sound s) (idle : s.waits self = none) :
    ∃ s₁ ret, Beside s s₁ ∧ Sound s₁ ∧ s₁.kernel.Wait none i self (s.rtSemWait rtTask i self).1.kernel ret ∧
      s.rtSemWait rtTask i self =
        ({ s₁ with
          kernel := (s.rtSemWait rtTask i self).1.kernel
          waits := update s.waits self (if ret = none then some (i, false) else none) }, decide (ret = none)) ∧
      (s₁.kernel = s.kernel ∨ (s.kernel.sem i).owndby = some rtTask) := by
  have begins : ∃ s₁, Beside s s₁ ∧ Sound s₁ ∧
      (s₁.kernel = s.kernel ∨ (s.kernel.sem i).owndby = some rtTask) ∧
      s₁ = if (s.kernel.sem i).count ≤ 0 then
        if (s.kernel.sem i).type > 0 ∧ (s.kernel.sem i).owndby ≠ some self then
          s.passPrio rtTask (s.kernel.sem i).owndby self else s
        else s.counted rtTask i self := by
    split_ifs
    · refine ⟨_, passPrio_beside _ _ _ _, sound.passPrio _ _, ?_, rfl⟩
      exact (passPrio_kernel _ _ _ _).imp_right And.left
    · exact ⟨s, ⟨rfl, rfl, rfl, rfl, fun _ => rfl⟩, sound, .inl rfl, rfl⟩
    · obtain ⟨owndres, same⟩ := counted_eq s rtTask i self
      rw [same]
      exact ⟨{ s with owndres := owndres }, ⟨rfl, rfl, rfl, rfl, fun _ => rfl⟩, sound, .inl rfl, rfl⟩
  obtain ⟨s₁, beside, sound₁, kernel, eq⟩ := begins
  have off : self ∉ (s₁.kernel.sem i).queue := sound₁.linked.off (beside.waits ▸ idle) i
  have wait := Kernel.waitFor_cases none off
  have whole : s.rtSemWait rtTask i self =
      ({ s₁ with
        kernel := (s₁.kernel.waitFor none i self).1
        waits := update s₁.waits self
          (if (s₁.kernel.waitFor none i self).2 = none then some (i, false) else none) },
        decide ((s₁.kernel.waitFor none i self).2 = none)) := by
    rw [eq]
    rfl
  refine ⟨s₁, (s₁.kernel.waitFor none i self).2, beside, sound₁, ?_, ?_, kernel⟩
  · rw [whole]
    exact wait
  · rw [← beside.waits, whole]

theorem Sound.rtSemWait (rtTask : T) (i : S) (sound : Sound s) (idle : s.waits self = none) :
    Sound (s.rtSemWait rtTask i self).1 := by
  obtain ⟨s₁, ret, beside, sound₁, wait, whole, -⟩ := rtSemWait_cases rtTask i sound idle
  have after := sound₁.wait (beside.waits ▸ idle) wait
  rw [beside.waits] at after
  rw [whole]
  exact after

/-! ## The other tasks -/

/-- What another task does that takes nothing from `rtTask`, and gives it a priority only with a
reason. -/
structure Aside (rtTask : T) (s s' : State S T) : Prop where
  sound : Sound s'
  waits : s'.waits rtTask = s.waits rtTask
  phase : s'.phase = s.phase
  basePriority : s'.basePriority = s.basePriority
  holds : s.Holds rtTask → s'.Holds rtTask
  priority : s'.priority rtTask = s.priority rtTask ∨ s'.Holds rtTask

theorem aside_rtSemWait (sound : Sound s) (ne : self ≠ rtTask) (idle : s.waits self = none) :
    Aside rtTask s (s.rtSemWait rtTask i self).1 := by
  have sound' := sound.rtSemWait rtTask i idle
  obtain ⟨s₁, ret, beside, sound₁, wait, whole, passed⟩ :=
    rtSemWait_cases rtTask i sound idle
  have owns (j : S) (mine : (s.kernel.sem j).owndby = some rtTask) :
      ((s.rtSemWait rtTask i self).1.kernel.sem j).owndby = some rtTask := by
    rw [← beside.owndby] at mine
    rcases eq_or_ne j i with rfl | other
    · generalize (s.rtSemWait rtTask j self).1.kernel = k at wait
      cases wait with
      | takes free => exact absurd free ((sound₁.resource j rfl).busy mine)
      | nested => simpa using mine
      | late timed => cases timed
      | blocks => simpa [Kernel.place] using mine
    · rw [wait.other other]
      exact mine
  have client : (s.rtSemWait rtTask i self).1.client = s.client := by
    rw [whole]
    exact beside.client
  have holds (has : s.Holds rtTask) : (s.rtSemWait rtTask i self).1.Holds rtTask := by
    refine has.imp (Exists.imp owns) ?_
    unfold State.Waiting
    rw [client]
    exact id
  refine ⟨sound', ?_, ?_, ?_, holds, ?_⟩
  · rw [whole]
    exact update_of_ne ne.symm _ _
  · rw [whole]
    exact beside.phase
  · rw [whole]
    exact beside.basePriority
  · rcases passed with same | mine
    · refine .inl ?_
      unfold State.priority
      rw [wait.priority, same]
    · exact .inr (holds (.inl ⟨i, mine⟩))

theorem Sound.rtSemWaitEnd (rtTask : T) (sound : Sound s) (inside : s.waits self = some (i, timed))
    (ready : (s.kernel.task self).Ready) : Sound (s.rtSemWaitEnd rtTask i timed self) := by
  obtain ⟨owndres, same⟩ := counted_eq s rtTask i self
  have wait := Kernel.waitForEnd_cases s.kernel i self timed
  have after := sound.waitEnd inside ready wait
  unfold State.rtSemWaitEnd
  rw [same]
  exact after

theorem aside_rtSemWaitEnd (sound : Sound s) (ne : self ≠ rtTask)
    (inside : s.waits self = some (i, timed)) (ready : (s.kernel.task self).Ready) :
    Aside rtTask s (s.rtSemWaitEnd rtTask i timed self) := by
  have sound' := sound.rtSemWaitEnd rtTask inside ready
  obtain ⟨owndres, same⟩ := counted_eq s rtTask i self
  have wait := Kernel.waitForEnd_cases s.kernel i self timed
  unfold State.rtSemWaitEnd at sound' ⊢
  rw [same] at sound' ⊢
  dsimp only at sound' ⊢
  have owns (j : S) (mine : (s.kernel.sem j).owndby = some rtTask) :
      ((s.kernel.waitForEnd timed i self).1.sem j).owndby = some rtTask := by
    rcases eq_or_ne j i with rfl | other
    · generalize (s.kernel.waitForEnd timed j self).1 = k, (s.kernel.waitForEnd timed j self).2 = ret at wait
      cases wait with
      | takes off =>
          have handed : s.kernel.Handed s.waits j self := ⟨by rw [inside]; rfl, off⟩
          exact absurd ((sound.resource j rfl).token.unique (.inr handed) (.inl mine)) ne
      | timeout => simpa using mine
      | error => exact mine
    · rw [wait.other other]
      exact mine
  refine ⟨sound', update_of_ne ne.symm _ _, rfl, rfl, ?_, .inl wait.priority⟩
  exact fun has => has.imp (Exists.imp owns) id

/-- The signal of the kernel; only `rtTask` may get another priority by it. -/
theorem rtSemSignal_cases (s : State S T) (rtTask : T) (i : S) (self : T) : ∃ passed owndres,
    s.rtSemSignal rtTask i self = { s with
      kernel := s.kernel.rtSemSignal i, prioPassedTo := passed, owndres := owndres } ∨
    self = rtTask ∧ s.rtSemSignal rtTask i self = ({ s with
      kernel := s.kernel.rtSemSignal i, prioPassedTo := passed, owndres := owndres } :
        State S T).renqCurrent rtTask := by
  unfold State.rtSemSignal
  dsimp only
  cases (s.kernel.sem i).queue with
  | nil =>
      split_ifs with nested signals some
      · exact ⟨s.prioPassedTo, s.owndres, .inl rfl⟩
      · exact ⟨s.prioPassedTo, s.owndres - 1, .inr ⟨signals.1, rfl⟩⟩
      · exact ⟨s.prioPassedTo, s.owndres, .inr ⟨signals.1, rfl⟩⟩
      · exact ⟨s.prioPassedTo, s.owndres, .inl rfl⟩
  | cons t rest =>
      split_ifs with nested signals some
      · exact ⟨s.prioPassedTo, s.owndres, .inl rfl⟩
      · exact ⟨update s.prioPassedTo t false, s.owndres - 1, .inr ⟨signals.1, rfl⟩⟩
      · exact ⟨update s.prioPassedTo t false, s.owndres, .inr ⟨signals.1, rfl⟩⟩
      · exact ⟨update s.prioPassedTo t false, s.owndres, .inl rfl⟩

theorem sound_signal (sound : Sound s)
    (owned : (s.kernel.sem i).owndby = some self ∨ (s.kernel.sem i).count > 0) :
    Mutexes (fun _ => true) s.waits (s.kernel.rtSemSignal i) := by
  rcases owned with owned | free
  · exact sound.signal (fun _ => ⟨self, owned⟩) Kernel.rtSemSignal_cases
  · rw [sound.signal_free rfl free]
    exact sound

theorem Sound.rtSemSignal (sound : Sound s) (idle : s.waits rtTask = none)
    (owned : (s.kernel.sem i).owndby = some self ∨ (s.kernel.sem i).count > 0) :
    Sound (s.rtSemSignal rtTask i self) := by
  have signalled := sound_signal sound owned
  obtain ⟨passed, owndres, same | ⟨-, same⟩⟩ := rtSemSignal_cases s rtTask i self
  · rw [same]
    exact signalled
  · rw [same]
    exact Sound.renqCurrent (s := { s with
      kernel := s.kernel.rtSemSignal i, prioPassedTo := passed, owndres := owndres }) signalled idle

theorem aside_rtSemSignal (sound : Sound s) (ne : self ≠ rtTask)
    (owned : (s.kernel.sem i).owndby = some self ∨ (s.kernel.sem i).count > 0) :
    Aside rtTask s (s.rtSemSignal rtTask i self) := by
  have signalled := sound_signal sound owned
  have signal := Kernel.rtSemSignal_cases (k := s.kernel) (i := i)
  have owns (j : S) (mine : (s.kernel.sem j).owndby = some rtTask) :
      ((s.kernel.rtSemSignal i).sem j).owndby = some rtTask := by
    rcases eq_or_ne j i with rfl | other
    · rcases owned with owned | free
      · exact absurd (Option.some.inj (owned.symm.trans mine)) ne
      · exact absurd free ((sound.resource j rfl).busy mine)
    · rw [signal.other other]
      exact mine
  obtain ⟨passed, owndres, same | ⟨mine, -⟩⟩ := rtSemSignal_cases s rtTask i self
  · rw [same]
    refine ⟨signalled, rfl, rfl, rfl, ?_, .inl signal.priority⟩
    exact fun has => has.imp (Exists.imp owns) id
  · exact absurd mine ne

/-! ## The messages -/

omit [DecidableEq S] in
theorem aside_rtSend (sound : Sound s) (free : Free rtTask self s) :
    Aside rtTask s (s.rtSend self) := by
  unfold State.rtSend
  split_ifs
  · exact ⟨sound, rfl, rfl, rfl, id, .inl rfl⟩
  · refine ⟨sound, rfl, rfl, rfl, fun has => has.imp id ?_, .inl rfl⟩
    rintro ⟨t, waiting⟩
    have ne : t ≠ self := by
      rintro rfl
      rw [State.Waiting, free.2.2] at waiting
      simp at waiting
    exact ⟨t, by simpa [State.Waiting, State.enqueueClient, ne] using waiting⟩

theorem aside_rtRpc (sound : Sound s) : Aside rtTask s (s.rtRpc rtTask self) := by
  unfold State.rtRpc
  split_ifs
  · have client : ({ s with
        receive := none, client := update s.client self (some .RETURN) } : State S T).Waiting self :=
      .inr (update_self _ _ _)
    exact ⟨sound, rfl, rfl, rfl, fun _ => .inr ⟨self, client⟩, .inr (.inr ⟨self, client⟩)⟩
  · generalize here : ({ s with owndres := s.owndres + RPCINC } : State S T) = s₁
    have sound₁ : Sound s₁ := here ▸ sound
    have beside : Beside s s₁ := here ▸ ⟨rfl, rfl, rfl, rfl, fun _ => rfl⟩
    have passed := passPrio_beside s₁ rtTask (some rtTask) self
    have client : ((s₁.passPrio rtTask (some rtTask) self).enqueueClient .RPC self).Waiting self :=
      .inl (update_self _ _ _)
    refine ⟨sound₁.passPrio _ _, ?_, ?_, ?_, fun _ => .inr ⟨self, client⟩, .inr (.inr ⟨self, client⟩)⟩
    · exact congrFun (passed.waits.trans beside.waits) rtTask
    · exact passed.phase.trans beside.phase
    · exact passed.basePriority.trans beside.basePriority

theorem aside_priority (sound : Sound s) (ne : t ≠ rtTask) :
    Aside rtTask s (s.changePriority t p) := by
  have sound' := sound.changePriority (t := t) (p := p)
  have priority : ((s.kernel.changePriority t p).task rtTask).priority = s.priority rtTask := by
    rw [changePriority_other ne.symm]
    rfl
  have holds : s.Holds rtTask →
      (∃ i, ((s.kernel.changePriority t p).sem i).owndby = some rtTask) ∨ ∃ t, s.Waiting t :=
    fun has => has.imp (fun ⟨i, mine⟩ => ⟨i, changePriority_owndby.trans mine⟩) id
  unfold State.changePriority
  dsimp only
  split_ifs
  · exact ⟨sound', rfl, rfl, rfl, holds, .inl priority⟩
  · exact ⟨sound', rfl, rfl, rfl, holds, .inl priority⟩

/-! ## The services of the task -/

/-- The service blocks in a wait, or behind it nobody waits. -/
theorem serve_sound (sound : Sound s) (idle : s.waits rtTask = none) {op : Op S T}
    (owned : Owned rtTask s (.call op)) :
    Sound (serve rtTask op s).1 ∧
      ((serve rtTask op s).2 = false → (serve rtTask op s).1.waits rtTask = none) := by
  cases op with
  | rtSemWait i =>
      refine ⟨sound.rtSemWait rtTask i idle, fun returns => ?_⟩
      obtain ⟨s₁, ret, -, -, -, whole, -⟩ := rtSemWait_cases rtTask i sound idle
      unfold serve at returns ⊢
      dsimp only at returns ⊢
      rw [whole] at returns ⊢
      rw [if_neg (of_decide_eq_false returns)]
      exact update_self _ _ _
  | rtSemSignal i =>
      have after : Sound (s.rtSemSignal rtTask i rtTask) := sound.rtSemSignal idle owned
      refine ⟨after, fun _ => ?_⟩
      show (s.rtSemSignal rtTask i rtTask).waits rtTask = none
      obtain ⟨passed, owndres, same | ⟨-, same⟩⟩ := rtSemSignal_cases s rtTask i rtTask
      · rw [same]
        exact idle
      · rw [same, renqCurrent_beside.waits]
        exact idle
  | rtReceive task =>
      unfold serve State.rtReceive
      dsimp only
      split <;> exact ⟨sound, fun _ => idle⟩
  | rtReturn task =>
      show Sound (s.rtReturn rtTask task) ∧ (false = false → (s.rtReturn rtTask task).waits rtTask = none)
      unfold State.rtReturn
      dsimp only
      split_ifs with returns counts
      · refine ⟨?_, fun _ => ?_⟩
        · exact Sound.renqCurrent (s := { s with
            prioPassedTo := update s.prioPassedTo task false, owndres := s.owndres - RPCINC }) sound idle
        · exact (congrFun renqCurrent_beside.waits rtTask).trans idle
      · refine ⟨?_, fun _ => ?_⟩
        · exact Sound.renqCurrent (s := { s with prioPassedTo := update s.prioPassedTo task false })
            sound idle
        · exact (congrFun renqCurrent_beside.waits rtTask).trans idle
      · exact ⟨sound, fun _ => idle⟩
  | other => exact ⟨sound, fun _ => idle⟩

theorem wake_sound (sound : Sound s) (here : wake rtTask s = some s') :
    Sound s' ∧ s'.waits rtTask = none := by
  unfold wake at here
  split at here
  next i timed inside =>
    obtain ⟨ready, here⟩ := Option.ite_none_right_eq_some.mp here
    cases here
    refine ⟨sound.rtSemWaitEnd rtTask inside ready, ?_⟩
    obtain ⟨owndres, same⟩ := counted_eq s rtTask i rtTask
    unfold State.rtSemWaitEnd
    rw [same]
    exact update_self _ _ _
  next outside =>
    obtain ⟨-, here⟩ := Option.ite_none_right_eq_some.mp here
    cases here
    exact ⟨sound, outside⟩

/-! ## Runs -/

/-- The semaphores are in order, the task waits only behind `rt_schedule`, and it has its base
priority when it holds nothing. -/
structure Ok (rtTask : T) (s : State S T) : Prop where
  sound : Sound s
  idle : (∀ p, s.phase ≠ .blocked p) → s.waits rtTask = none
  based : s.Based rtTask

omit [DecidableEq S] [DecidableEq T] in
theorem Ok.aside (ok : Ok rtTask s) (aside : Aside rtTask s s') : Ok rtTask s' where
  sound := aside.sound
  idle := fun here => aside.waits.trans (ok.idle (aside.phase ▸ here))
  based := by
    intro outside none
    have kept := aside.priority.resolve_right none
    rw [kept, aside.basePriority]
    exact ok.based (aside.phase ▸ outside) (none ∘ aside.holds)

theorem Ok.rtChangePrio (ok : Ok rtTask s) : Ok rtTask (s.rtChangePrio rtTask p) := by
  obtain ⟨sound, idle, based⟩ := ok
  unfold State.rtChangePrio
  dsimp only
  split_ifs with refused changes
  · exact ⟨sound, idle, based⟩
  · exact ⟨sound.changePriority, idle, fun _ _ => changePriority_self⟩
  · refine ⟨sound, idle, fun outside none => ?_⟩
    have same : s.basePriority = s.priority rtTask := (based outside none).symm
    exact absurd (.inr same) changes

theorem changePriority_passed : (s.changePriority t p).prioPassedTo = s.prioPassedTo := by
  unfold State.changePriority
  dsimp only
  split_ifs <;> rfl

theorem changePriority_kernel : (s.changePriority t p).kernel = s.kernel.changePriority t p := by
  unfold State.changePriority
  dsimp only
  split_ifs <;> rfl

theorem changePriority_beside : Beside s (s.changePriority t p) := by
  unfold State.changePriority
  dsimp only
  split_ifs <;> exact ⟨rfl, rfl, rfl, rfl, fun _ => changePriority_owndby⟩

/-- What another task passes on is no more urgent, or there is a reason for it. -/
theorem based_passPrio (ok : Ok rtTask s) (ne : t ≠ rtTask) :
    ((s.changePriority t p).passPrio rtTask (some rtTask) t).Based rtTask ↔
      (s.phase = .outside → ¬s.Holds rtTask → s.priority rtTask ≤ p) := by
  have beside := passPrio_beside (s.changePriority t p) rtTask (some rtTask) t
  have before := changePriority_beside (s := s) (t := t) (p := p)
  have mine : (s.changePriority t p).priority rtTask = s.priority rtTask := by
    unfold State.priority
    rw [changePriority_kernel, changePriority_other ne.symm]
  have theirs : ((s.changePriority t p).kernel.task t).priority = p := by
    rw [changePriority_kernel, changePriority_self]
  have after : ((s.changePriority t p).passPrio rtTask (some rtTask) t).priority rtTask =
      if p < s.priority rtTask then p else s.priority rtTask := by
    unfold State.passPrio
    dsimp only
    rw [theirs]
    split_ifs with urgent less less
    · exact changePriority_self
    · exact absurd (mine ▸ urgent.2) less
    · exact absurd ⟨rfl, mine.symm ▸ less⟩ urgent
    · exact mine
  unfold State.Based
  rw [beside.phase, before.phase, beside.basePriority, before.basePriority, beside.holds, before.holds, after]
  refine forall_congr' fun outside => forall_congr' fun none => ?_
  rw [← ok.based outside none]
  split_ifs with less
  · exact iff_of_false less.ne (not_le.mpr less)
  · exact iff_of_true rfl (not_lt.mp less)

/-- The invariant is kept, but for the base priority, and this if the step keeps it. -/
theorem Ok.step {e : Event S T} (ok : Ok rtTask s) (owned : Owned rtTask s e)
    (stepped : step rtTask e s = some s') :
    Sound s' ∧ ((∀ p, s'.phase ≠ .blocked p) → s'.waits rtTask = none) ∧
      (s'.Based rtTask ↔ Keeps rtTask s e) := by
  have aside (here : Aside rtTask s s') (keeps : Keeps rtTask s e) :
      Sound s' ∧ ((∀ p, s'.phase ≠ .blocked p) → s'.waits rtTask = none) ∧
        (s'.Based rtTask ↔ Keeps rtTask s e) :=
    have ok' := ok.aside here
    ⟨ok'.sound, ok'.idle, iff_of_true ok'.based keeps⟩
  cases e with
  | enter =>
      obtain ⟨outside, here⟩ := Option.ite_none_right_eq_some.mp stepped
      cases here
      refine ⟨ok.sound, fun _ => ok.idle ?_, iff_of_true (fun out => (nomatch out)) trivial⟩
      rw [outside]
      exact fun _ => Phase.noConfusion
  | lift =>
      dsimp only [Soft.step] at stepped
      split at stepped
      next p here =>
        cases stepped
        have idle : s.waits rtTask = none := ok.idle (by rw [here]; exact fun _ => Phase.noConfusion)
        have sound : Sound { s with phase := .running p } := ok.sound
        split_ifs
        · exact ⟨sound.setPriority idle, fun _ => idle, iff_of_true (fun out => (nomatch out)) trivial⟩
        · exact ⟨sound, fun _ => idle, iff_of_true (fun out => (nomatch out)) trivial⟩
      next => cases stepped
  | call op =>
      dsimp only [Soft.step] at stepped
      split at stepped
      next p here =>
        cases stepped
        have idle : s.waits rtTask = none := ok.idle (by rw [here]; exact fun _ => Phase.noConfusion)
        obtain ⟨sound, waits⟩ := serve_sound ok.sound idle owned
        cases blocks : (serve rtTask op s).2 with
        | true => exact ⟨sound, fun here => absurd rfl (here p), iff_of_true (fun out => (nomatch out)) trivial⟩
        | false => exact ⟨sound, fun _ => waits blocks, iff_of_true (fun out => (nomatch out)) trivial⟩
      next => cases stepped
  | goOn =>
      dsimp only [Soft.step] at stepped
      split at stepped
      next p here =>
        obtain ⟨s₁, woken, rfl⟩ := Option.map_eq_some_iff.mp stepped
        obtain ⟨sound, idle⟩ := wake_sound ok.sound woken
        exact ⟨sound, fun _ => idle, iff_of_true (fun out => (nomatch out)) trivial⟩
      next => cases stepped
  | exit =>
      dsimp only [Soft.step] at stepped
      split at stepped
      next p here =>
        cases stepped
        have idle : s.waits rtTask = none := ok.idle (by rw [here]; exact fun _ => Phase.noConfusion)
        have holds : ({ s.setPriority rtTask p with phase := .outside } : State S T).Holds rtTask ↔
            s.Holds rtTask := setPriority_beside.holds
        refine ⟨ok.sound.setPriority idle, fun _ => idle, fun based q there none => ?_, fun keeps _ none => ?_⟩
        · cases here.symm.trans there
          have left := based rfl (none ∘ holds.mp)
          exact setPriority_priority.symm.trans left
        · exact setPriority_priority.trans (keeps p here (none ∘ holds.mpr))
      next => cases stepped
  | rtSemWait u i =>
      obtain ⟨free, here⟩ := Option.ite_none_right_eq_some.mp stepped
      cases here
      exact aside (aside_rtSemWait ok.sound free.1 free.2.1) trivial
  | rtSemWaitEnd u =>
      dsimp only [Soft.step] at stepped
      split at stepped
      next i timed inside =>
        obtain ⟨⟨ne, ready⟩, here⟩ := Option.ite_none_right_eq_some.mp stepped
        cases here
        exact aside (aside_rtSemWaitEnd ok.sound ne inside ready) trivial
      next => cases stepped
  | rtSemSignal u i =>
      obtain ⟨free, here⟩ := Option.ite_none_right_eq_some.mp stepped
      cases here
      exact aside (aside_rtSemSignal ok.sound free.1 owned) trivial
  | rtSend u =>
      obtain ⟨free, here⟩ := Option.ite_none_right_eq_some.mp stepped
      cases here
      exact aside (aside_rtSend ok.sound free) trivial
  | rtRpc u =>
      obtain ⟨free, here⟩ := Option.ite_none_right_eq_some.mp stepped
      cases here
      exact aside (aside_rtRpc ok.sound) trivial
  | rtChangePrio q =>
      cases stepped
      have ok' := ok.rtChangePrio (p := q)
      exact ⟨ok'.sound, ok'.idle, iff_of_true ok'.based trivial⟩
  | priority u q =>
      obtain ⟨ne, here⟩ := Option.ite_none_left_eq_some.mp stepped
      cases here
      exact aside (aside_priority ok.sound ne) trivial
  | passPrio u q =>
      obtain ⟨ne, here⟩ := Option.ite_none_left_eq_some.mp stepped
      cases here
      have changed : Aside rtTask s (s.changePriority u q) := aside_priority ok.sound ne
      rw [changePriority_passed]
      split_ifs with passes
      · have ok' := ok.aside changed
        have beside := passPrio_beside (s.changePriority u q) rtTask (some rtTask) u
        refine ⟨ok'.sound.passPrio _ _, fun here => ?_, ?_⟩
        · rw [beside.phase] at here
          rw [beside.waits]
          exact ok'.idle here
        · rw [based_passPrio ok ne]
          exact forall_congr' fun _ => forall_congr' fun _ => ⟨fun less _ => less, fun less => less passes⟩
      · have ok' := ok.aside changed
        exact ⟨ok'.sound, ok'.idle, iff_of_true ok'.based fun _ _ passes' => absurd passes' passes⟩

/-- The task has its base priority whenever it holds nothing outside its services, as long as those
that leave it with nothing were entered at this priority and none is passed on to it without a
reason, and no longer. -/
theorem base_priority_kept {s₀ : State S T} {tr : List (Record (State S T) (Event S T))}
    (initial : s₀.Initial rtTask) (run : Run (step rtTask) (Proper rtTask) s₀ tr s) :
    s.Based rtTask ∧ ∀ e s', step rtTask e s = some s' → Owned rtTask s e →
      (s'.Based rtTask ↔ Keeps rtTask s e) := by
  have first : Ok rtTask s₀ := by
    refine ⟨?_, fun _ => initial.waits rtTask, fun _ _ => initial.priority⟩
    exact .initial initial.ready initial.waits nofun fun i _ => initial.sem i
  have ok : Ok rtTask s := run.invariant first fun ok proper stepped =>
    have next := ok.step proper.1 stepped
    ⟨next.1, next.2.1, next.2.2.mpr proper.2⟩
  exact ⟨ok.based, fun e s' stepped owned => (ok.step owned stepped).2.2⟩

section

variable (rtTask : T) (s : State S T)

instance (t : T) : Decidable (s.Waiting t) := inferInstanceAs (Decidable (_ ∨ _))

instance [Fintype S] [Fintype T] : Decidable (s.Holds rtTask) :=
  inferInstanceAs (Decidable ((∃ _, _) ∨ ∃ t, s.Waiting t))

instance : ∀ e, Decidable (Owned rtTask s e)
  | .call (.rtSemSignal _) | .rtSemSignal .. => inferInstanceAs (Decidable (_ ∨ _))
  | .call (.rtSemWait _) | .call (.rtReceive _) | .call (.rtReturn _) | .call .other | .enter | .lift
  | .goOn | .exit | .rtSemWait .. | .rtSemWaitEnd _ | .rtSend _ | .rtRpc _ | .rtChangePrio _
  | .priority .. | .passPrio .. => instDecidableTrue

instance [Fintype S] [Fintype T] : ∀ e, Decidable (Keeps rtTask s e)
  | .exit =>
      match here : s.phase with
      | .returned p => decidable_of_iff (¬s.Holds rtTask → p = s.basePriority)
          ⟨fun keeps _ there => Phase.returned.inj (here.symm.trans there) ▸ keeps, fun keeps => keeps p here⟩
      | .outside | .entered _ | .running _ | .blocked _ =>
          isTrue fun _ there => Phase.noConfusion (here.symm.trans there)
  | .passPrio .. => inferInstanceAs (Decidable (_ → _ → _ → _))
  | .call _ | .enter | .lift | .goOn | .rtSemWait .. | .rtSemWaitEnd _ | .rtSemSignal .. | .rtSend _
  | .rtRpc _ | .rtChangePrio _ | .priority .. => instDecidableTrue

instance [Fintype S] [Fintype T] (e : Event S T) : Decidable (Proper rtTask s e) :=
  inferInstanceAs (Decidable (_ ∧ _))

end

/-- One semaphore and two tasks: the soft task has priority 5, the other one 2. -/
def fresh : State Unit Bool where
  kernel :=
    { sem := fun _ => rtTypedSemInit 1 .RES_SEM
      task := fun t => { priority := if t then 2 else 5 } }
  basePriority := 5

theorem fresh_initial : fresh.Initial false :=
  ⟨fun _ => rfl, fun _ => ⟨rfl, rfl⟩, fun _ => rfl, rfl, rfl, rfl, fun _ => rfl, fun _ => rfl, rfl, rfl⟩

/-- A service that does not block. -/
def served (op : Op Unit Bool) : List (Event Unit Bool) := [.enter, .lift, .call op, .exit]

/-- The task takes the semaphore and gives it back, and then receives and returns a message; in
between it gets another priority. -/
theorem base_priority_kept_fresh : ∃ tr s, Run (step false) (Proper false) fresh tr s ∧
    s.priority false = 3 ∧ s.basePriority = 3 ∧ s.Based false := by
  obtain ⟨tr, s, run, test⟩ := Run.of_execute (step false) (Proper false) fresh
    (served (.rtSemWait ()) ++ served (.rtSemSignal ()) ++ [.rtChangePrio 3] ++
      [.enter, .lift, .call (.rtReceive none), .rtRpc true, .goOn, .exit] ++ served (.rtReturn true))
    (fun s => s.priority false = 3 ∧ s.basePriority = 3) (by decide +kernel)
  obtain ⟨priority, base⟩ := of_decide_eq_true test
  exact ⟨tr, s, run, priority, base, (base_priority_kept fresh_initial run).1⟩

/-- The task owns the semaphore, and the other one blocks on it.  The task enters the service that
gives it back at priority 2, and ends it so. -/
theorem not_always_based : ¬∀ (s₀ s : State Unit Bool)
    (tr : List (Record (State Unit Bool) (Event Unit Bool))), s₀.Initial false →
    Run (step false) (Owned false) s₀ tr s → s.Based false := by
  intro based
  obtain ⟨tr, s, run, test⟩ := Run.of_execute (step false) (Owned false) fresh
    (served (.rtSemWait ()) ++ [.rtSemWait true ()] ++ served (.rtSemSignal ()))
    (fun s => s.phase = .outside ∧ ¬s.Holds false ∧ s.priority false = 2 ∧ s.basePriority = 5)
    (by decide +kernel)
  obtain ⟨outside, none, priority, base⟩ := of_decide_eq_true test
  have same := based fresh s tr fresh_initial run outside none
  rw [priority, base] at same
  cases same

/-- So does one whose priority is changed on the way. -/
example : (execute (step false) (fun _ _ => True)
    [.enter, .lift, .rtChangePrio 3, .call .other, .exit] fresh).map
      (fun s => (s.priority false, s.basePriority)) = some (5, 3) := by decide +kernel

end Rtai.NewLxrt.Soft
