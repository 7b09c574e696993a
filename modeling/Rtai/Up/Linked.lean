import Rtai.Up.Machine
import Rtai.Up.Lists
import Rtai.Up.Queues

/-!
# The services keep the lists

`System.Linked` adds to the invariant of the dispatcher what sets Linux apart
from the real time tasks: it owns nothing, nothing passes a priority to it, and
its stack has no frame of a service that waits.  `System.Ok` is what holds
between two steps: the lists are right and the current task is `READY`.

A helper that only relinks is described by an equation, as in `Lists`; then
there is one theorem for each service.
-/

namespace Rtai.Up

open Function Rtai.Lib

/-- The frames only real time tasks have. -/
def Frame.waits {n : Nat} : Frame n → Bool
  | .rtSend _ _ | .rtReceived => false
  | _ => true

namespace System

variable {n : Nat}

/-- Linux is not a real time task. -/
structure LinuxApart (s : System n) : Prop where
  priority : s.priority rtLinuxTask = RT_LINUX_PRIORITY
  base : s.basePriority rtLinuxTask = RT_LINUX_PRIORITY
  owndres : s.owndres rtLinuxTask = 0
  suspdepth : s.suspdepth rtLinuxTask = 0
  stack : ∀ f ∈ s.stack rtLinuxTask, f.waits = false
  owndby : ∀ sem, (s.sem sem).owndby ≠ some rtLinuxTask
  mbxOwndby : ∀ b, (s.mbx b).owndby ≠ some rtLinuxTask
  prioPassedTo : ∀ t, s.prioPassedTo t ≠ some rtLinuxTask

/-- The lists are right, the bit of `off` apart. -/
structure Linked (ordered : Prop) (off : Option (Task n)) (s : System n) : Prop where
  lists : s.disp.Linked ordered off
  linux : LinuxApart s

/-- What holds between two steps. -/
structure Ok (ordered : Prop) (s : System n) : Prop extends Linked ordered none s where
  running : s.state s.current = READY

variable {s s' : System n} {t : Task n} {ordered : Prop} {off off' : Option (Task n)}
  {mask : TaskState} {c : Clock} {b : Bool}

/-! ## Writing one field -/

namespace Linked

theorem setMbx {b : Nat} {v : Mbx n} (h : Linked ordered off s)
    (hv : v.owndby ≠ some rtLinuxTask) : Linked ordered off (s.setMbx b v) := by
  refine ⟨h.lists, { h.linux with mbxOwndby := fun u => ?_ }⟩
  by_cases e : u = b
  · subst e; simpa [System.setMbx] using hv
  · simpa [System.setMbx, e] using h.linux.mbxOwndby u

variable {q : Queue n} {prio : Int}

section

variable {dest : Option (Task n)} {sem : SemId} {time : RTIME} (h : Linked ordered off s)
include h

theorem setBlockedOn {q : Option (Queue n)} :
    Linked ordered off (s.setBlockedOn t q) := ⟨h.lists, { h.linux with }⟩

theorem setMsg {msg : UInt32} : Linked ordered off (s.setMsg t msg) := ⟨h.lists, { h.linux with }⟩

theorem setMsgQueueTask :
    Linked ordered off (s.setMsgQueueTask t dest) := ⟨h.lists, { h.linux with }⟩

theorem setRetQueueTask : Linked ordered off (s.setRetQueueTask t b) := ⟨h.lists, { h.linux with }⟩

theorem setQueue {L : Links (QNode n)} :
    Linked ordered off { s with queue := L } := ⟨h.lists, { h.linux with }⟩

theorem ret {v : Ret n} : Linked ordered off (s.ret v) :=
  ⟨h.lists, { h.linux with }⟩

theorem store {m : UInt32} : Linked ordered off (s.store m) :=
  ⟨h.lists, { h.linux with }⟩

theorem setPrioPassedTo (hd : dest ≠ some rtLinuxTask) :
    Linked ordered off (s.setPrioPassedTo t dest) := by
  refine ⟨h.lists, { h.linux with prioPassedTo := fun u => ?_ }⟩
  by_cases e : u = t
  · subst e; simpa [System.setPrioPassedTo] using hd
  · simpa [System.setPrioPassedTo, e] using h.linux.prioPassedTo u

theorem clearPrioPassedTo : Linked ordered off (s.setPrioPassedTo t none) := h.setPrioPassedTo nofun

theorem setSuspdepth {depth : Int} (ht : t ≠ rtLinuxTask) :
    Linked ordered off (s.setSuspdepth t depth) :=
  ⟨h.lists, { h.linux with suspdepth := (update_of_ne ht.symm _ _).trans h.linux.suspdepth }⟩

theorem setOwndres {own : BitVec 32} (ht : t ≠ rtLinuxTask) :
    Linked ordered off (s.setOwndres t own) :=
  ⟨h.lists, { h.linux with owndres := (update_of_ne ht.symm _ _).trans h.linux.owndres }⟩

theorem setSem {v : Sem n} (hv : v.owndby ≠ some rtLinuxTask) :
    Linked ordered off (s.setSem sem v) := by
  refine ⟨h.lists, { h.linux with owndby := fun u => ?_ }⟩
  by_cases e : u = sem
  · subst e; simpa [System.setSem] using hv
  · simpa [System.setSem, e] using h.linux.owndby u

theorem setCount {count : Int} :
    Linked ordered off (s.setCount sem count) := h.setSem (h.linux.owndby sem)

theorem setType {type : Int} :
    Linked ordered off (s.setType sem type) := h.setSem (h.linux.owndby sem)

theorem setOwndby {owner : Option (Task n)} (ho : owner ≠ some rtLinuxTask) :
    Linked ordered off (s.setOwndby sem owner) := h.setSem ho

theorem push {f : Frame n} (hf : s.current = rtLinuxTask → f.waits = false) :
    Linked ordered off (s.push f) := by
  refine ⟨h.lists, { h.linux with stack := fun g hg => ?_ }⟩
  change g ∈ update s.stack s.current (f :: s.stack s.current) rtLinuxTask at hg
  by_cases e : s.current = rtLinuxTask
  · rw [e, update_self] at hg
    rcases List.mem_cons.mp hg with rfl | hg
    · exact hf e
    · exact h.linux.stack g hg
  · rw [update_of_ne (Ne.symm e)] at hg
    exact h.linux.stack g hg

theorem pop : Linked ordered off s.pop := by
  refine ⟨h.lists, { h.linux with stack := fun g hg => ?_ }⟩
  change g ∈ update s.stack s.current (s.stack s.current).tail rtLinuxTask at hg
  by_cases e : s.current = rtLinuxTask
  · rw [e, update_self] at hg
    exact h.linux.stack g (List.mem_of_mem_tail hg)
  · rw [update_of_ne (Ne.symm e)] at hg
    exact h.linux.stack g hg

/-- The time of the current task, when it runs. -/
theorem setResumeTime (ht : s.current ≠ rtLinuxTask) (hr : s.state s.current = READY) :
    Linked ordered off (s.setResumeTime time) := by
  refine ⟨h.lists.setResumeTime ht fun hd => ?_, { h.linux with }⟩
  rw [show s.disp.state s.current = READY from hr] at hd
  exact absurd hd (by decide)

/-! ## Relinking -/

/-- A dispatcher function that keeps the lists and the priorities. -/
theorem onDisp {d : Dispatcher n} (hd : d.Linked ordered off')
    (hp : d.priority rtLinuxTask = RT_LINUX_PRIORITY) : Linked ordered off' { s with disp := d } :=
  ⟨hd, { h.linux with priority := hp }⟩

theorem enqueueBlocked :
    Ensures (s.enqueueBlocked t q b) fun s' => Linked ordered off s' ∧
      ∃ L, s' = { s with blockedOn := update s.blockedOn t (some q), queue := L } ∧
        Enqueues s.queue t q L := by
  refine enqueueBlocked_spec.mono ?_
  rintro _ ⟨L, rfl, hL⟩
  exact ⟨h.setBlockedOn.setQueue, L, rfl, hL⟩

theorem dequeueBlocked (t : Task n) : Linked ordered off (s.dequeueBlocked t) :=
  h.clearPrioPassedTo.setQueue.setBlockedOn

/-- The priority changes and the task moves on the list it is on. -/
theorem inherit (ht : t ≠ rtLinuxTask) :
    Ensures (s.inherit t prio) fun p => Linked ordered off p.1 ∧
      ∃ R Q, p.1 = { s with
        disp := { s.disp with priority := update s.disp.priority t prio, ready := R }
        queue := Q } ∧ s.Requeues Q := by
  have hp : (s.disp.setPriority t prio).priority rtLinuxTask = RT_LINUX_PRIORITY :=
    (update_of_ne ht.symm _ _).trans h.linux.priority
  have h₁ := h.onDisp (h.lists.setPriority t prio) hp
  refine .ite (fun hr => ?_) fun hr => ?_
  · refine .bind (.map (R := fun s' => Linked ordered off s' ∧ ∃ R, s' = { s with
        disp := { s.disp with priority := update s.disp.priority t prio, ready := R } })
      ((h₁.lists.requeue hr ht).mono ?_)) ?_
    · rintro _ ⟨hd, R, rfl⟩
      exact ⟨h₁.onDisp hd hp, R, rfl⟩
    · rintro _ ⟨h₂, R, rfl⟩
      exact .some ⟨h₂, R, s.queue, rfl, .refl s⟩
  · refine (requeueBlocked_spec hr).mono ?_
    rintro ⟨_, b⟩ ⟨Q, rfl, hQ⟩
    exact ⟨h₁.setQueue, s.disp.ready, Q, rfl, hQ⟩

end

theorem passPrioLoop : ∀ {k : Nat} {dest : Option (Task n)} {s : System n},
    Linked ordered off s → dest ≠ some rtLinuxTask →
    Ensures (s.passPrioLoop prio k dest) fun p => Linked ordered off p.1 ∧
      ∃ P R Q, p.1 = { s with
        disp := { s.disp with priority := P, ready := R }
        queue := Q } ∧ s.Requeues Q ∧ Passes s.disp.priority s.prioPassedTo prio dest P
  | 0, none, s, h, _ | _ + 1, none, s, h, _ =>
      .some ⟨h, s.disp.priority, s.disp.ready, s.queue, rfl, .refl s,
        ⟨fun _ => Or.inl rfl, nofun, fun _ _ hne => absurd rfl hne⟩⟩
  | 0, some _, _, _, _ => .none
  | k + 1, some dest, s, h, hd => by
      refine .ite (fun late => ?_) fun early => .some ⟨h, s.disp.priority, s.disp.ready, s.queue,
        rfl, .refl s, ⟨fun _ => Or.inl rfl, ?_, fun _ _ hne => absurd rfl hne⟩⟩
      swap
      · rintro _ ⟨⟩
        exact not_lt.mp early
      refine .bind (h.inherit fun e => hd (congrArg some e)) ?_
      rintro ⟨_, b⟩ ⟨h₁, R, Q, rfl, hQ⟩
      refine .bind (passPrioLoop h₁ (h.linux.prioPassedTo dest)) ?_
      rintro ⟨_, b'⟩ ⟨h₂, P', R', Q', rfl, hQ', each, first, chain⟩
      have raised : P' dest = prio := by
        rcases each dest with e | ⟨e, -⟩
        · exact e.trans (update_self _ _ _)
        · exact e
      have other : ∀ u, u ≠ dest → update s.disp.priority dest prio u = s.disp.priority u :=
        fun u hu => update_of_ne hu _ _
      refine .some ⟨h₂, P', R', Q', rfl, fun b hb same => hQ' b (hQ b hb same) same,
        fun u => ?_, ?_, fun u v hu hv => ?_⟩
      · by_cases e : u = dest
        · subst e
          exact Or.inr ⟨raised, late⟩
        · rw [← other u e]
          exact each u
      · rintro _ ⟨⟩
        exact raised.le
      · by_cases e : u = dest
        · subst e
          exact first v hv
        · refine chain u v (fun e' => hu (e'.trans (other u e))) hv

theorem passPrio {dest : Option (Task n)} (h : Linked ordered off s)
    (hd : dest ≠ some rtLinuxTask) :
    Ensures (s.passPrio dest t) fun s' => Linked ordered off s' ∧
      ∃ P R Q, s' = { s with
        disp := { s.disp with priority := P, ready := R }
        prioPassedTo := update s.prioPassedTo t dest
        queue := Q } ∧ s.Requeues Q ∧
        Passes s.disp.priority (update s.prioPassedTo t dest) (s.disp.priority t) dest P := by
  refine .bind ((h.setPrioPassedTo hd).passPrioLoop hd) ?_
  rintro ⟨_, b⟩ ⟨h₁, P, R, Q, rfl, hQ, hP⟩
  exact .some ⟨h₁, P, R, Q, rfl, hQ, hP⟩

theorem releaseOff (h : Linked ordered off s) (hne : some t ≠ off) (hd : mask.delayed = true) :
    Ensures (s.release t mask) fun p => Linked ordered off p.1 ∧
      ∃ L T, p.1 = { s with disp := { s.disp with
        ready := L
        timed := T
        state := update s.disp.state t
          (if s.disp.state t = READY then READY else (s.disp.state t).clear mask) } } := by
  refine .bind (h.lists.releaseOff hne hd) ?_
  rintro ⟨_, b⟩ ⟨hl, L, T, rfl⟩
  exact .some ⟨h.onDisp hl h.linux.priority, L, T, rfl⟩

theorem release (h : Linked ordered none s) (hd : mask.delayed = true) :
    Ensures (s.release t mask) fun p => Linked ordered none p.1 ∧
      ∃ L T, p.1 = { s with disp := { s.disp with
        ready := L
        timed := T
        state := update s.disp.state t
          (if s.disp.state t = READY then READY else (s.disp.state t).clear mask) } } :=
  h.releaseOff (by simp) hd

theorem block (h : Linked ordered none s) (hr : s.state s.current = READY)
    (hc : s.current ≠ rtLinuxTask) (hm : READY.set mask ≠ READY) :
    Linked ordered (some s.current) (s.blockCurrent mask) :=
  ⟨(h.lists.blockCurrent hr hc hm).1, { h.linux with }⟩

theorem settle (h : Linked ordered (some t) s) (hd : (s.state t).delayed = false) :
    Linked ordered none s := ⟨h.lists.settle hd, h.linux⟩

/-- A wait without a time. -/
theorem blockUntimed (h : Linked ordered none s) (mask : TaskState) (hr : s.state s.current = READY)
    (hc : s.current ≠ rtLinuxTask) (hm : READY.set mask ≠ READY) (hd : mask.delayed = false) :
    Linked ordered none (s.blockCurrent mask) := by
  refine (h.block hr hc hm).settle ?_
  show (update s.disp.state s.current ((s.disp.state s.current).set mask) s.current).delayed = false
  rw [update_self, show s.disp.state s.current = READY from hr]
  simpa [TaskState.set, READY] using hd

theorem enqTimedCurrent (h : Linked ordered (some s.current) s)
    (hd : (s.state s.current).delayed = true) (hc : s.current ≠ rtLinuxTask) :
    Ensures s.enqTimedCurrent fun s' => Linked ordered none s' ∧
      ∃ T, s' = { s with disp := { s.disp with timed := T } } := by
  refine .map ((h.lists.enqTimedTask hd hc).mono ?_)
  rintro _ ⟨hl, T, rfl⟩
  exact ⟨h.onDisp hl h.linux.priority, T, rfl⟩

theorem rtSchedule (h : Linked ordered none s) (c : Clock) :
    Ensures (s.rtSchedule c) fun s' => Ok ordered s' ∧
      ∃ d, s' = { s with disp := d } ∧ s.disp.Woken (s.disp.scheduleTime c) d := by
  refine .map ((h.lists.rtSchedule c).mono ?_)
  rintro d ⟨hl, w, hr⟩
  exact ⟨⟨h.onDisp hl (w.priority ▸ h.linux.priority), hr⟩, d, rfl, w⟩

theorem scheduleIf (h : Linked ordered none s) (c : Clock)
    (hr : b = false → s.state s.current = READY) :
    Ensures (s.scheduleIf b c) fun s' => Ok ordered s' ∧
      ∃ d, s' = { s with disp := d } ∧ s.disp.Woken (s.disp.scheduleTime c) d := by
  refine .ite (fun _ => h.rtSchedule c) fun hb => .some ⟨⟨h, hr (by simpa using hb)⟩, s.disp, rfl, ?_⟩
  exact ⟨rfl, rfl, rfl, fun _ => Or.inl rfl⟩

/-- The priority a task is left with when it gives back a resource. -/
def LeftWith (s : System n) (t : Task n) (p : Int) : Prop :=
  if s.owndres t = 0 then p = s.basePriority t
  else if s.owndres t &&& SEMHLF = 0 then
    ∃ first, s.taskOf (s.queue.next (.head (.msgQueue t))) = some first ∧
      p = if s.basePriority t > s.priority first then s.priority first else s.basePriority t
  else p = s.priority t

/-- Linux owns nothing and has its base priority, so nothing moves it. -/
theorem renqByResources (h : Linked ordered off s) (ht : s.state t = READY) :
    Ensures (s.renqByResources t) fun p => Linked ordered off p.1 ∧
      ∃ L prio, p.1 = { s with disp := { s.disp with
        ready := L, priority := update s.disp.priority t prio } } ∧ LeftWith s t prio := by
  have renq : ∀ prio, (t = rtLinuxTask → prio = RT_LINUX_PRIORITY) →
      Ensures (s.disp.renqReadyTask t prio) fun p => Linked ordered off { s with disp := p.1 } ∧
        ∃ L, p.1 = { s.disp with ready := L, priority := update s.disp.priority t prio } := by
    intro prio hp
    refine (h.lists.renqReadyTask ht ?_).mono ?_
    · rintro rfl
      exact h.linux.priority.trans (hp rfl).symm
    rintro ⟨_, b⟩ ⟨hl, L, rfl⟩
    refine ⟨h.onDisp hl ?_, L, rfl⟩
    by_cases e : t = rtLinuxTask
    · subst e
      show update s.disp.priority rtLinuxTask prio rtLinuxTask = RT_LINUX_PRIORITY
      rw [update_self, hp rfl]
    · exact (update_of_ne (Ne.symm e) _ _).trans h.linux.priority
  refine .ite (fun h₀ => ?_) fun h₀ => .ite (fun h₁ => ?_) fun h₁ => ?_
  · refine .bind (renq _ fun e => e ▸ h.linux.base) ?_
    rintro ⟨d, b⟩ ⟨h', L, e⟩
    refine .some ⟨h', L, s.basePriority t, by rw [show d = _ from e], ?_⟩
    rw [LeftWith, if_pos h₀]
  · refine .bind (P := fun first => s.taskOf (s.queue.next (.head (.msgQueue t))) = some first)
      (fun _ e => e) fun first hf => ?_
    refine .bind (renq _ fun e => absurd (e ▸ h.linux.owndres) h₀) ?_
    rintro ⟨d, b⟩ ⟨h', L, e⟩
    refine .some ⟨h', L, _, by rw [show d = _ from e], ?_⟩
    rw [LeftWith, if_neg h₀, if_pos h₁]
    exact ⟨first, hf, rfl⟩
  · refine .some ⟨h, s.disp.ready, s.disp.priority t, by rw [update_eq_self], ?_⟩
    rw [LeftWith, if_neg h₀, if_neg h₁]

/-- A task that is on no list becomes `READY`. -/
theorem setReady (h : Linked ordered none s) (ht : s.state t ≠ READY)
    (awake : (s.state t).delayed = false) (hm : s.disp.magic t = true) :
    Ensures ({ s with disp := s.disp.setState t READY }.onDisp (Dispatcher.enqReadyTask t))
      fun s' => Linked ordered none s' ∧ ∃ L, s' = { s with disp := { s.disp with
        ready := L
        state := update s.disp.state t READY } } := by
  refine .map (((h.lists.unsettle awake).setReady ht hm).mono ?_)
  rintro _ ⟨hl, L, rfl⟩
  exact ⟨h.onDisp hl h.linux.priority, L, rfl⟩

/-! ## Deletion -/

/-- The current task stays, and a task that is `READY` stays so. -/
def KeepsReady (s s' : System n) : Prop :=
  s'.current = s.current ∧ ∀ u, s.state u = READY → s'.state u = READY

theorem releaseQueue (hd : mask.delayed = true) :
    ∀ {k : Nat} {x : QNode n} {s : System n}, Linked ordered none s →
      (s.state t).delayed = false →
      Ensures (s.releaseQueue q mask k x) fun s' =>
        Linked ordered none s' ∧ (s'.state t).delayed = false ∧ KeepsReady s s'
  | 0, _, _, _, _ => .none
  | k + 1, x, s, h, ht => by
      refine .ite (fun _ => .some ⟨h, ht, rfl, fun _ => id⟩) fun _ => ?_
      refine .bind (P := fun _ => True) (fun _ _ => trivial) fun u _ => ?_
      refine .bind (h.release (t := u) hd) ?_
      rintro ⟨_, b⟩ ⟨h', L, T, rfl⟩
      refine (releaseQueue hd h'.setBlockedOn ?_).mono fun s' h => ⟨h.1, h.2.1, h.2.2.1, ?_⟩
      · show (update s.disp.state u _ t).delayed = false
        by_cases e : t = u
        · subst e
          rw [update_self]
          split
          · rfl
          · simp [TaskState.clear, hd]
        · rw [update_of_ne e]
          exact ht
      · intro v hv
        refine h.2.2.2 v ?_
        show update s.disp.state u _ v = READY
        by_cases e : v = u
        · subst e
          rw [update_self, if_pos hv]
        · rw [update_of_ne e]
          exact hv

/-- Nobody is queued on the message queues of `t`. -/
def Alone (L : Links (QNode n)) (t : Task n) : Prop :=
  L.next (.head (.msgQueue t)) = .head (.msgQueue t) ∧
    L.next (.head (.retQueue t)) = .head (.retQueue t)

theorem releaseQueue_alone (h : s.queue.next (.head q) = .head q) :
    Ensures (s.releaseQueue q mask (fuel n) (s.queue.next (.head q))) (· = s) := by
  rw [h]
  exact .ite (fun _ => .some rfl) fun hne => absurd rfl hne

theorem leaveQueue_eq (s : System n) (t : Task n) :
    ∃ S, s.leaveQueue t = { s with
      queue := if (s.blockedOn t).isSome then s.queue.unlink (.queue t) else s.queue
      sem := S } := by
  unfold System.leaveQueue
  split
  next e => exact ⟨s.sem, by simp [e]⟩
  next e =>
    dsimp only
    split
    · split
      · exact ⟨_, by simp [e]; rfl⟩
      · exact ⟨s.sem, by simp [e]; rfl⟩
    · exact ⟨s.sem, by simp [e]; rfl⟩

theorem leaveQueue (h : Linked ordered off s) (t : Task n) :
    Linked ordered off (s.leaveQueue t) := by
  unfold System.leaveQueue
  split
  · exact h
  · dsimp only
    split
    · split
      · exact h.setQueue.setCount
      · exact h.setQueue
    · exact h.setQueue

/-- The end of a deletion: the structure is dead and on no list. -/
theorem kill (h : Linked ordered (some t) s) (ht : t ≠ rtLinuxTask) :
    Linked ordered none
      { s with disp :=
        (({ s.disp with magic := update s.disp.magic t false }.remReadyTask t).setState t DEAD) } := by
  have parked : ((s.disp.remReadyTask t).setState t DEAD).Linked ordered none := by
    refine h.lists.park ht (by decide) (fun _ => rfl) fun u => ?_
    by_cases e : u = t
    · subst e; simp [DEAD]
    · simp [e]
  have same : ({ s.disp with magic := update s.disp.magic t false }.remReadyTask t).setState t DEAD =
      { (s.disp.remReadyTask t).setState t DEAD with magic := update s.disp.magic t false } := by
    simp only [Dispatcher.remReadyTask]
    split <;> rfl
  have magic : ((s.disp.remReadyTask t).setState t DEAD).magic = s.disp.magic := by
    simp only [Dispatcher.remReadyTask]
    split <;> rfl
  have prio : ((s.disp.remReadyTask t).setState t DEAD).priority = s.disp.priority := by
    simp only [Dispatcher.remReadyTask]
    split <;> rfl
  rw [same]
  refine ⟨{ parked with
    dead := fun u hu hm => ?_
    linuxMagic := (update_of_ne ht.symm _ _).trans h.lists.linuxMagic },
    { h.linux with priority := (congrFun prio _).trans h.linux.priority }⟩
  by_cases e : u = t
  · subst e
    exact update_self _ _ _
  · refine parked.dead u hu ?_
    rw [magic, ← hm]
    exact (update_of_ne e _ _).symm

/-- A task that is not asleep may be met in its own message queues, a sleeping
one must not be: its node has left the timed list. -/
theorem deleteTask (h : Linked ordered none s) (ht : t ≠ rtLinuxTask)
    (hq : (s.state t).delayed = true → Alone (s.leaveQueue t).queue t) :
    Ensures (s.deleteTask t) fun s' => Linked ordered none s' ∧ s'.current = s.current ∧
      ∀ u, u ≠ t → s.state u = READY → s'.state u = READY := by
  have start : Linked ordered (some t) { s with disp := s.disp.remTimedTask t } := by
    refine h.onDisp (h.lists.remTimedTask t) ?_
    rw [Dispatcher.remTimedTask_eq]
    exact h.linux.priority
  have left := start.leaveQueue t
  obtain ⟨S, e⟩ := leaveQueue_eq { s with disp := s.disp.remTimedTask t } t
  have state : ({ s with disp := s.disp.remTimedTask t }.leaveQueue t).disp.state = s.disp.state := by
    rw [e, Dispatcher.remTimedTask_eq]
  have current : ({ s with disp := s.disp.remTimedTask t }.leaveQueue t).current = s.current := by
    rw [e, Dispatcher.remTimedTask_eq]
  have done : ∀ {s₂ : System n}, Linked ordered (some t) s₂ →
      KeepsReady ({ s with disp := s.disp.remTimedTask t }.leaveQueue t) s₂ →
      Ensures (some { s₂ with disp :=
        (({ s₂.disp with magic := update s₂.disp.magic t false }.remReadyTask t).setState t DEAD) })
        fun s' => Linked ordered none s' ∧ s'.current = s.current ∧
          ∀ u, u ≠ t → s.state u = READY → s'.state u = READY := by
    intro s₂ h₂ keeps
    refine .some ⟨kill h₂ ht, ?_, fun u hu hr => ?_⟩
    · rw [Dispatcher.remReadyTask_eq]
      exact keeps.1.trans current
    · rw [Dispatcher.remReadyTask_eq]
      exact (update_of_ne hu _ _).trans (keeps.2 u ((congrFun state u).trans hr))
  cases hd : (s.state t).delayed with
  | false =>
      have awake : (({ s with disp := s.disp.remTimedTask t }.leaveQueue t).state t).delayed =
          false := by rw [System.state, state, hd]
      refine .bind ((left.settle awake).releaseQueue rfl awake) ?_
      rintro s₁ ⟨h₁, awake₁, keeps₁⟩
      refine .bind (h₁.releaseQueue rfl awake₁) ?_
      rintro s₂ ⟨h₂, awake₂, keeps₂⟩
      exact done ⟨h₂.lists.unsettle awake₂, h₂.linux⟩
        ⟨keeps₂.1.trans keeps₁.1, fun u hu => keeps₂.2 u (keeps₁.2 u hu)⟩
  | true =>
      have alone : Alone ({ s with disp := s.disp.remTimedTask t }.leaveQueue t).queue t := by
        obtain ⟨S', e'⟩ := leaveQueue_eq s t
        have := hq hd
        rw [e'] at this
        rw [e]
        exact this
      refine .bind (releaseQueue_alone alone.1) ?_
      rintro _ rfl
      refine .bind (releaseQueue_alone alone.2) ?_
      rintro _ rfl
      exact done left ⟨rfl, fun _ => id⟩

end Linked

namespace Ok

/-- Releasing a task keeps the current one running. -/
theorem release (h : Ok ordered s) (hd : mask.delayed = true) :
    Ensures (s.release t mask) fun p => Ok ordered p.1 ∧
      ∃ L T, p.1 = { s with disp := { s.disp with
        ready := L
        timed := T
        state := update s.disp.state t
          (if s.disp.state t = READY then READY else (s.disp.state t).clear mask) } } := by
  refine (h.toLinked.release hd).mono ?_
  rintro ⟨_, b⟩ ⟨h', L, T, rfl⟩
  refine ⟨⟨h', ?_⟩, L, T, rfl⟩
  show update s.disp.state t _ s.current = READY
  by_cases e : s.current = t
  · subst e
    rw [update_self, if_pos h.running]
  · rw [update_of_ne e]
    exact h.running

/-- Releasing a task that waits. -/
theorem releaseWaiting (h : Ok ordered s) (hd : mask.delayed = true) (ht : s.state t ≠ READY) :
    Ensures (s.release t mask) fun p => Ok ordered p.1 ∧
      ∃ L T, p.1 = { s with disp := { s.disp with
        ready := L
        timed := T
        state := update s.disp.state t ((s.disp.state t).clear mask) } } := by
  refine (h.release hd).mono ?_
  rintro ⟨_, b⟩ ⟨h', L, T, rfl⟩
  have ht : ¬s.disp.state t = READY := ht
  exact ⟨h', L, T, by rw [if_neg ht]⟩

theorem scheduleIf (h : Ok ordered s) (c : Clock) : Ensures (s.scheduleIf b c) (Ok ordered) :=
  (h.toLinked.scheduleIf c fun _ => h.running).mono fun _ h => h.1

theorem rtSchedule (h : Linked ordered none s) (c : Clock) :
    Ensures (s.rtSchedule c) (Ok ordered) :=
  (h.rtSchedule c).mono fun _ h => h.1

theorem renqByResources (h : Ok ordered s) :
    Ensures (s.renqByResources s.current) fun p => Ok ordered p.1 ∧
      ∃ L prio, p.1 = { s with disp := { s.disp with
        ready := L, priority := update s.disp.priority s.current prio } } ∧
        Linked.LeftWith s s.current prio := by
  refine (h.toLinked.renqByResources h.running).mono ?_
  rintro ⟨_, b⟩ ⟨h', L, P, rfl, hP⟩
  exact ⟨⟨h', h.running⟩, L, P, rfl, hP⟩

end Ok

end System

end Rtai.Up
