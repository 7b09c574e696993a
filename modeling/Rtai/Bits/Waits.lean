import Rtai.Bits.Bits
import Mathlib.Data.Fintype.Basic
import Mathlib.Data.List.Basic

/-!
# What a wait returns

`waits_honoured` is about every run in which no operation spoils the test of a task that
has been woken and has not run yet, and in which a wait that stores the resulting mask has
an exit operation that leaves the mask as it is.
-/

namespace Rtai.Bits

open Function Rtai.Lib

variable {T : Type} {w : Nat} [DecidableEq T]

namespace State

/-- The wait that succeeds in the step. -/
def succeeding (s : State T w) : Event T w → Option (Wait w)
  | .signal _ _ => none
  | .wait _ wait => if wait.test s.mask then some wait else none
  | .waitIf _ wait => if wait.test s.mask then some wait else none
  | .waitUntil _ wait _ => if wait.test s.mask then some wait else none
  | .expire _ => none
  | .goOn self => if (s.task self).blockedOn then none else (s.task self).pending.map Prod.snd

/-- The mask that the step leaves. -/
def maskAfter (s : State T w) : Event T w → BitVec w
  | .signal setfun masks => execFun setfun s.mask masks
  | e => ((s.succeeding e).map fun wait => wait.exec s.mask).getD s.mask

/-- The step leaves a mask that meets the test of every woken task that has still to run, and
a wait that stores the resulting mask does not change it. -/
def Steady (s : State T w) (e : Event T w) : Prop :=
  (∀ t, e ≠ .goOn t → ∀ p ∈ (s.task t).pending, (s.task t).blockedOn = false →
    p.2.test (s.maskAfter e)) ∧
  ∀ wait ∈ s.succeeding e, wait.resulting → wait.exec s.mask = s.mask

/-- Nobody waits. -/
structure Initial (s : State T w) : Prop where
  queue : s.queue = []
  task : ∀ t, s.task t = {}

end State

/-- A wait that succeeds finds its test true of the mask, applies its exit operation and
stores what it leaves.  Any other step but a signal leaves the mask alone. -/
def Honoured (r : Record (State T w) (Event T w)) : Prop :=
  match r.post.reply, r.event with
  | some reply, _ =>
      (reply.Success → reply.wait.test r.pre.mask ∧ r.post.mask = reply.wait.exec r.pre.mask ∧
        reply.stored = r.post.stored reply.wait) ∧
      (¬reply.Success → r.post.mask = r.pre.mask) ∧ reply.value ≠ BITS_ERR
  | none, .signal setfun masks => r.post.mask = execFun setfun r.pre.mask masks
  | none, _ => r.post.mask = r.pre.mask

/-! ## One task -/

namespace Task

/-- A waiting task has left its test, and meets it when it is off the queue. -/
structure Ok (mask : BitVec w) (task : Task w) : Prop where
  tests : ∀ {kind wait}, task.pending = some (kind, wait) →
    task.testFun = wait.testfun ∧ task.testMask = wait.testmasks
  woken : ∀ {kind wait}, task.pending = some (kind, wait) → task.blockedOn = false →
    wait.test mask
  /-- Only a timer makes a task ready that stays in the queue. -/
  timed : ∀ {kind wait}, task.pending = some (kind, wait) → task.blockedOn →
    kind = .waitUntil ∨ task.semaphore ∧ task.delayed = false

variable {task : Task w} {mask mask' : BitVec w}

theorem Ok.idle (idle : task.pending = none) : task.Ok mask := by
  refine ⟨?_, ?_, ?_⟩
  all_goals
    intro kind wait pending
    cases idle.symm.trans pending

/-- The mask changes, and the test of a woken task still holds. -/
theorem Ok.change (ok : task.Ok mask)
    (still : ∀ p ∈ task.pending, task.blockedOn = false → p.2.test mask') : task.Ok mask' :=
  ⟨ok.tests, fun pending => still _ pending, ok.timed⟩

/-- What a signal leaves of a task that it wakes. -/
def awake (task : Task w) : Task w :=
  { task with blockedOn := false, semaphore := false, delayed := false }

theorem Ok.awake (ok : task.Ok mask) (meets : Bits.testFun task.testFun mask' task.testMask) :
    task.awake.Ok mask' := by
  refine ⟨ok.tests, ?_, ?_⟩
  · intro kind wait pending _
    obtain ⟨fn, arg⟩ := ok.tests pending
    rw [fn, arg] at meets
    exact meets
  · intro kind wait _ still
    cases still

end Task

/-! ## One step -/

namespace State

/-- Every task is in order, and the queue holds those that are blocked. -/
structure Ok (s : State T w) : Prop where
  task : ∀ t, (s.task t).Ok s.mask
  queued : ∀ {t}, t ∈ s.queue ↔ (s.task t).pending.isSome ∧ (s.task t).blockedOn
  nodup : s.queue.Nodup

omit [DecidableEq T] in
theorem Initial.ok {s : State T w} (h : s.Initial) : s.Ok where
  task := fun t => .idle (by rw [h.task])
  queued := by
    intro t
    rw [h.queue, h.task]
    simp
  nodup := h.queue ▸ List.nodup_nil

/-- A signal would wake the task. -/
def Meets (s : State T w) (t : T) : Prop :=
  testFun (s.task t).testFun s.mask (s.task t).testMask

instance (s : State T w) (t : T) : Decidable (s.Meets t) := inferInstanceAs (Decidable (_ = true))

/-- The loop of a signal wakes the tasks whose tests the mask meets. -/
theorem signalLoop_spec {q : List T} {s : State T w} (nodup : q.Nodup) (nodup' : s.queue.Nodup) :
    (signalLoop q s).mask = s.mask ∧ (signalLoop q s).reply = s.reply ∧
      (signalLoop q s).queue.Nodup ∧
      (∀ t, t ∈ (signalLoop q s).queue ↔ t ∈ s.queue ∧ ¬(t ∈ q ∧ s.Meets t)) ∧
      ∀ t, (signalLoop q s).task t =
        if t ∈ q ∧ s.Meets t then (s.task t).awake else s.task t := by
  induction q generalizing s with
  | nil => simp [signalLoop, nodup']
  | cons t q ih =>
      obtain ⟨out, nodup⟩ := List.nodup_cons.mp nodup
      unfold signalLoop
      split
      next meets =>
        have left : ((s.dequeueBlocked t).makeReady t).queue = s.queue.erase t := rfl
        have this : ((s.dequeueBlocked t).makeReady t).task t = (s.task t).awake := by
          simp [makeReady, dequeueBlocked, setTask, Task.awake]
        have other {u : T} (ne : u ≠ t) :
            ((s.dequeueBlocked t).makeReady t).task u = s.task u := by
          simp [makeReady, dequeueBlocked, setTask, ne]
        have same {u : T} (ne : u ≠ t) :
            ((s.dequeueBlocked t).makeReady t).Meets u ↔ s.Meets u := by
          rw [Meets, Meets, other ne]
          rfl
        obtain ⟨mask, reply, nodup₁, queue, task⟩ := ih nodup (left ▸ nodup'.erase t)
        refine ⟨mask, reply, nodup₁, fun u => ?_, fun u => ?_⟩
        · rw [queue, left, nodup'.mem_erase_iff]
          rcases eq_or_ne u t with rfl | ne
          · simp [Meets, meets]
          · simp [ne, same ne]
        · rw [task]
          rcases eq_or_ne u t with rfl | ne
          · rw [if_neg fun inside => out inside.1, this, if_pos ⟨List.mem_cons_self, meets⟩]
          · simp only [List.mem_cons, ne, false_or, same ne, other ne]
      next unmet =>
        obtain ⟨mask, reply, nodup₁, queue, task⟩ := ih nodup nodup'
        have unchanged (u : T) : u ∈ q ∧ s.Meets u ↔ u ∈ t :: q ∧ s.Meets u := by
          rcases eq_or_ne u t with rfl | ne
          · simp [Meets, unmet]
          · simp [ne]
        exact ⟨mask, reply, nodup₁, fun u => by rw [queue, unchanged],
          fun u => by simp only [task, unchanged]⟩

section

variable {s : State T w} {self : T} {kind : Kind} {wait : Wait w} {reply : Option (Reply T w)}
  {queue : List T}

/-- A signal wakes the tasks of the queue whose tests the new mask meets. -/
theorem Ok.signal (ok : s.Ok) {setfun : ExecFun} {masks : BitVec w}
    (steady : s.Steady (.signal setfun masks)) :
    (s.rtBitsSignal setfun masks).Ok ∧ (s.rtBitsSignal setfun masks).reply = none ∧
      (s.rtBitsSignal setfun masks).mask = execFun setfun s.mask masks := by
  have spec := signalLoop_spec
    (s := { s with mask := execFun setfun s.mask masks, reply := none }) ok.nodup ok.nodup
  change (s.rtBitsSignal setfun masks).mask = _ ∧ (s.rtBitsSignal setfun masks).reply = _ ∧
    (s.rtBitsSignal setfun masks).queue.Nodup ∧
    (∀ t, t ∈ (s.rtBitsSignal setfun masks).queue ↔ _) ∧
    ∀ t, (s.rtBitsSignal setfun masks).task t = _ at spec
  obtain ⟨mask, reply, nodup, queue, task⟩ := spec
  refine ⟨⟨fun t => ?_, fun {t} => ?_, nodup⟩, reply, mask⟩
  · rw [mask, task]
    split
    next wakes => exact (ok.task t).awake wakes.2
    next => exact (ok.task t).change fun p pending off => steady.1 t nofun p pending off
  · rw [queue, task]
    split
    next wakes => simp [wakes, Task.awake]
    next asleep => rw [and_iff_left asleep, ok.queued]

/-- One task is written, and the mask. -/
theorem Ok.write (ok : s.Ok) {task : Task w} {mask : BitVec w} (own : task.Ok mask)
    (others : ∀ t, t ≠ self → ∀ p ∈ (s.task t).pending, (s.task t).blockedOn = false →
      p.2.test mask) (nodup : queue.Nodup)
    (mine : self ∈ queue ↔ task.pending.isSome ∧ task.blockedOn)
    (theirs : ∀ t, t ≠ self → (t ∈ queue ↔ t ∈ s.queue)) :
    State.Ok ⟨mask, queue, update s.task self task, reply⟩ where
  task := by
    intro t
    dsimp only
    rcases eq_or_ne t self with rfl | ne
    · rw [update_self]
      exact own
    · rw [update_of_ne ne]
      exact (ok.task t).change (others t ne)
  queued := by
    intro t
    dsimp only
    rcases eq_or_ne t self with rfl | ne
    · rw [update_self]
      exact mine
    · rw [update_of_ne ne, theirs t ne]
      exact ok.queued
  nodup := nodup

section

omit [DecidableEq T]

/-- The mask and the reply change. -/
theorem Ok.change (ok : s.Ok) {mask : BitVec w}
    (still : ∀ t, ∀ p ∈ (s.task t).pending, (s.task t).blockedOn = false → p.2.test mask) :
    State.Ok { s with mask := mask, reply := reply } :=
  ⟨fun t => (ok.task t).change (still t), ok.queued, ok.nodup⟩

theorem Ok.still (ok : s.Ok) (t : T) :
    ∀ p ∈ (s.task t).pending, (s.task t).blockedOn = false → p.2.test s.mask :=
  fun (_, _) pending => (ok.task t).woken pending

theorem Ok.unqueued (ok : s.Ok) (idle : (s.task self).pending = none) : self ∉ s.queue := by
  rw [ok.queued, idle]
  simp

end

/-- A task that is in no wait leaves what it will wait for. -/
theorem Ok.announce (ok : s.Ok) (idle : (s.task self).pending = none) :
    (s.announce self wait).Ok :=
  ok.write (.idle idle) (fun t _ => ok.still t) ok.nodup
    (by simp [ok.unqueued idle, idle]) fun _ _ => Iff.rfl

/-- A task blocks. -/
theorem Ok.block (ok : s.Ok) (idle : (s.task self).pending = none) (timed : kind ≠ .waitIf) :
    ((s.announce self wait).block self kind wait).Ok := by
  have blocked : ((s.announce self wait).block self kind wait) = ⟨s.mask, s.queue ++ [self],
      update s.task self { s.task self with
        semaphore := true, delayed := kind = .waitUntil, blockedOn := true
        testFun := wait.testfun, testMask := wait.testmasks, pending := some (kind, wait) }, none⟩ := by
    simp [State.announce, State.block, State.enqueueBlocked, State.setTask]
  rw [blocked]
  have off := ok.unqueued idle
  refine ok.write ⟨?_, ?_, ?_⟩ (fun t _ => ok.still t) ?_ ?_ fun t ne => ?_
  · rintro _ _ ⟨⟩
    exact ⟨rfl, rfl⟩
  · intro _ _ _ awake
    cases awake
  · rintro _ _ ⟨⟩ -
    cases kind with
    | wait => exact .inr ⟨rfl, rfl⟩
    | waitIf => exact absurd rfl timed
    | waitUntil => exact .inl rfl
  · exact ok.nodup.append (List.nodup_singleton _) (List.disjoint_singleton.mpr off)
  · simp
  · simp [ne]

/-- A timer expires. -/
theorem Ok.expire {t : T} (ok : s.Ok) (delayed : (s.task t).delayed) : (s.expire t).Ok := by
  refine ok.write ⟨(ok.task t).tests, (ok.task t).woken, ?_⟩ (fun u _ => ok.still u) ok.nodup
    ok.queued fun _ _ => Iff.rfl
  intro kind wait pending still
  rcases (ok.task t).timed pending still with timed | ⟨-, undelayed⟩
  · exact .inl timed
  · cases delayed.symm.trans undelayed

/-- A task leaves its wait, and the queue if it is still on it. -/
theorem Ok.leave (ok : s.Ok) {task : Task w} {mask : BitVec w} (done : task.pending = none)
    (others : ∀ t, t ≠ self → ∀ p ∈ (s.task t).pending, (s.task t).blockedOn = false →
      p.2.test mask) (off : queue = s.queue.erase self) :
    State.Ok ⟨mask, queue, update s.task self task, reply⟩ := by
  subst off
  refine ok.write (.idle done) others (ok.nodup.erase self) ?_ fun t ne => ?_
  · simp [done, ok.nodup.mem_erase_iff]
  · rw [ok.nodup.mem_erase_iff, and_iff_right ne]

end

end State

/-! ## Records -/

section

variable {s s₁ : State T w} {self : T} {kind : Kind} {wait : Wait w} {e : Event T w} {value : Int}

omit [DecidableEq T] in
theorem honoured_succeed (same : s₁.mask = s.mask) (test : wait.test s.mask)
    (keeps : wait.resulting → wait.exec s.mask = s.mask) :
    Honoured ⟨s, e, s₁.succeed self kind wait⟩ := by
  refine ⟨fun _ => ⟨test, congrArg wait.exec same, ?_⟩, fun failed => absurd rfl failed, ?_⟩
  · simp only [State.succeed, State.stored, same]
    split
    next resulting => rw [keeps resulting]
    next => rfl
  · cases kind <;> simp [BITS_ERR]

omit [DecidableEq T] in
theorem honoured_fail (same : s₁.mask = s.mask) (failed : value ≠ if kind = .waitIf then 1 else 0)
    (value_ne : value ≠ BITS_ERR) : Honoured ⟨s, e, s₁.fail self kind wait value⟩ :=
  ⟨fun success => absurd success failed, fun _ => same, value_ne⟩

end

/-! ## Runs -/

section

variable {s s' : State T w} {self : T} {kind : Kind} {wait : Wait w} {e : Event T w}

section

omit [DecidableEq T]

theorem State.maskAfter_of_succeeding (h : s.succeeding e = some wait) :
    s.maskAfter e = wait.exec s.mask := by
  cases e with
  | signal => cases h
  | expire => cases h
  | _ => simp only [State.maskAfter, h, Option.map_some, Option.getD_some]

/-- What a steady step means for the other tasks where a wait succeeds. -/
theorem State.Steady.others (steady : s.Steady e) (h : s.succeeding e = some wait) (t : T)
    (ne : e ≠ .goOn t) :
    ∀ p ∈ (s.task t).pending, (s.task t).blockedOn = false → p.2.test (wait.exec s.mask) := by
  rw [← State.maskAfter_of_succeeding h]
  exact steady.1 t ne

/-- A wait whose test holds at once. -/
theorem State.Ok.succeed (ok : s.Ok) (steady : s.Steady e) (h : s.succeeding e = some wait)
    (other : ∀ t, e ≠ .goOn t) (test : wait.test s.mask) :
    (s.succeed self kind wait).Ok ∧ Honoured ⟨s, e, s.succeed self kind wait⟩ :=
  ⟨ok.change fun t => steady.others h t (other t), honoured_succeed rfl test (steady.2 wait h)⟩

theorem State.Ok.fail (ok : s.Ok) {value : Int} : (s.fail self kind wait value).Ok :=
  ok.change ok.still

end

/-- A wait behind `rt_schedule`. -/
theorem State.Ok.goOn (ok : s.Ok) (steady : s.Steady (.goOn self))
    (pending : (s.task self).pending = some (kind, wait))
    (ready : ¬((s.task self).semaphore ∨ (s.task self).delayed)) :
    (s.goOn self kind wait).Ok ∧ Honoured ⟨s, .goOn self, s.goOn self kind wait⟩ := by
  have others {mask : BitVec w}
      (still : ∀ t, Event.goOn self ≠ .goOn (w := w) t → ∀ p ∈ (s.task t).pending,
        (s.task t).blockedOn = false → p.2.test mask) :
      ∀ t, t ≠ self → ∀ p ∈ (s.task t).pending, (s.task t).blockedOn = false → p.2.test mask :=
    fun t ne => still t fun same => ne (Event.goOn.inj same).symm
  have same : ((s.setTask self { s.task self with pending := none }).task self).blockedOn =
      (s.task self).blockedOn := by simp [State.setTask]
  unfold State.goOn
  dsimp only
  rw [same]
  cases blocked : (s.task self).blockedOn with
  | true =>
      rw [if_pos rfl]
      -- a plain wait is ready only when a signal has taken it off the queue
      have timed : kind = .waitUntil := by
        rcases (ok.task self).timed pending blocked with timed | ⟨asleep, -⟩
        · exact timed
        · exact absurd (.inl asleep) ready
      subst timed
      refine ⟨?_, honoured_fail rfl (by decide) (by decide)⟩
      dsimp only
      rw [State.dequeueBlocked, State.setTask, State.setTask, update_idem]
      exact ok.leave (by simp) (others fun t _ => ok.still t) rfl
  | false =>
      rw [if_neg Bool.false_ne_true]
      have succeeding : s.succeeding (.goOn self) = some wait := by
        simp [State.succeeding, blocked, pending]
      have off : self ∉ s.queue := by
        rw [ok.queued, blocked]
        simp
      refine ⟨?_, honoured_succeed rfl ((ok.task self).woken pending blocked)
        (steady.2 wait succeeding)⟩
      exact ok.leave rfl (others (steady.others succeeding)) (List.erase_of_not_mem off).symm

theorem State.Ok.step (ok : s.Ok) (steady : s.Steady e) (h : step e s = some s') :
    s'.Ok ∧ Honoured ⟨s, e, s'⟩ := by
  cases e with
  | signal setfun masks =>
      cases h
      obtain ⟨ok', reply, mask⟩ := ok.signal steady
      refine ⟨ok', ?_⟩
      simp only [Honoured, reply]
      exact mask
  | wait self wait =>
      obtain ⟨idle, h⟩ := Option.ite_none_right_eq_some.mp h
      cases h
      have idle := Option.isNone_iff_eq_none.mp idle
      unfold State.rtBitsWait
      split
      next test => exact ok.succeed steady (if_pos test) nofun test
      next => exact ⟨ok.block idle nofun, rfl⟩
  | waitIf self wait =>
      obtain ⟨idle, h⟩ := Option.ite_none_right_eq_some.mp h
      cases h
      unfold State.rtBitsWaitIf
      split
      next test => exact ok.succeed steady (if_pos test) nofun test
      next => exact ⟨ok.fail, honoured_fail rfl (by decide) (by decide)⟩
  | waitUntil self wait late =>
      obtain ⟨idle, h⟩ := Option.ite_none_right_eq_some.mp h
      cases h
      have idle := Option.isNone_iff_eq_none.mp idle
      unfold State.rtBitsWaitUntil
      split
      next test => exact ok.succeed steady (if_pos test) nofun test
      next =>
        split
        next => exact ⟨(ok.announce idle).fail, honoured_fail rfl (by decide) (by decide)⟩
        next => exact ⟨ok.block idle nofun, rfl⟩
  | expire t =>
      obtain ⟨delayed, h⟩ := Option.ite_none_right_eq_some.mp h
      cases h
      exact ⟨ok.expire delayed, rfl⟩
  | goOn self =>
      simp only [Bits.step] at h
      split at h
      next kind wait pending =>
        split at h
        · cases h
        next ready =>
          cases h
          exact ok.goOn steady pending ready
      next => cases h

/-- Every wait that succeeds finds its test true, applies its exit operation once and stores
the mask that results, and one that times out applies nothing, as long as the steps are
steady. -/
theorem waits_honoured {s₀ : State T w} {tr : List (Record (State T w) (Event T w))}
    (initial : s₀.Initial) (run : Run step State.Steady s₀ tr s) : ∀ r ∈ tr, Honoured r := by
  have kept : s.Ok ∧ ∀ r ∈ tr, Honoured r :=
    run.each initial.ok fun ok steady stepped => ok.step steady stepped
  exact kept.2

end

instance [Fintype T] (s : State T w) (e : Event T w) : Decidable (s.Steady e) :=
  inferInstanceAs (Decidable ((∀ t, e ≠ .goOn t → ∀ p ∈ (s.task t).pending,
    (s.task t).blockedOn = false → p.2.test (s.maskAfter e)) ∧
    ∀ wait ∈ s.succeeding e, wait.resulting → wait.exec s.mask = s.mask))

/-- A wait for bit 0 that clears it. -/
def takes (resulting : Bool) : Wait 8 := ⟨.ALL_SET, 1, .CLR_BITS, 1, resulting⟩

/-- One task takes the bit behind a signal, and the other one waits in vain. -/
theorem waits_honoured_one : ∃ tr s, Run step State.Steady (⟨0, [], fun _ => {}, none⟩ : State Bool 8)
    tr s ∧ (∀ r ∈ tr, Honoured r) ∧ tr.length = 6 ∧ s.mask = 0 := by
  obtain ⟨tr, s, run, test⟩ := Run.of_records step State.Steady
    (⟨0, [], fun _ => {}, none⟩ : State Bool 8)
    [.wait true (takes false), .signal .SET_BITS 1, .goOn true,
      .waitUntil false (takes true) false, .expire false, .goOn false]
    (fun tr s => tr.length = 6 ∧ s.mask = 0) (by decide)
  exact ⟨tr, s, run, waits_honoured ⟨rfl, fun _ => rfl⟩ run, of_decide_eq_true test⟩

/-- One signal wakes two tasks, and the second to run takes a bit that is not there. -/
theorem bit_taken_twice : ∃ tr s,
    Run step (fun _ _ => True) (⟨0, [], fun _ => {}, none⟩ : State Bool 8) tr s ∧
      ¬∀ r ∈ tr, Honoured r := by
  obtain ⟨tr, s, run, test⟩ := Run.of_records step (fun _ _ => True)
    (⟨0, [], fun _ => {}, none⟩ : State Bool 8)
    [.wait true (takes false), .wait false (takes false), .signal .SET_BITS 1, .goOn true,
      .goOn false]
    (fun tr _ => tr.any fun r => r.post.reply.any fun reply =>
      reply.value = 0 ∧ reply.kind = .wait ∧ reply.wait.test r.pre.mask = false) (by decide)
  refine ⟨tr, s, run, fun honoured => ?_⟩
  obtain ⟨r, mem, found⟩ := List.any_eq_true.mp test
  obtain ⟨reply, replied, bad⟩ := (Option.any_eq_true _ _).mp found
  obtain ⟨value, kind, unmet⟩ := of_decide_eq_true bad
  have honest := honoured r mem
  simp only [Honoured, replied] at honest
  have met := (honest.1 (by rw [Reply.Success, value, kind]; rfl)).1
  cases unmet.symm.trans met

/-- A wait stores the mask from before its exit operation. -/
theorem mask_stored_early : ∃ tr s,
    Run step (fun _ _ => True) (⟨1, [], fun _ => {}, none⟩ : State Bool 8) tr s ∧
      ¬∀ r ∈ tr, Honoured r := by
  obtain ⟨tr, s, run, test⟩ := Run.of_records step (fun _ _ => True)
    (⟨1, [], fun _ => {}, none⟩ : State Bool 8) [.wait true (takes true)]
    (fun tr _ => tr.any fun r => r.post.mask = 0 ∧ r.post.reply.any fun reply =>
      reply.value = 0 ∧ reply.kind = .wait ∧ reply.wait.resulting ∧ reply.stored = some 1)
    (by decide)
  refine ⟨tr, s, run, fun honoured => ?_⟩
  obtain ⟨r, mem, found⟩ := List.any_eq_true.mp test
  obtain ⟨mask, found⟩ := of_decide_eq_true found
  obtain ⟨reply, replied, bad⟩ := (Option.any_eq_true _ _).mp found
  obtain ⟨value, kind, resulting, stored⟩ := of_decide_eq_true bad
  have honest := honoured r mem
  simp only [Honoured, replied] at honest
  have result := (honest.1 (by rw [Reply.Success, value, kind]; rfl)).2.2
  rw [stored, State.stored, if_pos resulting, mask] at result
  cases result

end Rtai.Bits
