import Rtai.Up.ReadyList
import Rtai.Up.TimedCalls

/-!
# Deleting a semaphore

`semDeleteLists` is `rt_sem_delete` up to its `rt_schedule`, or up to the
`rt_task_delete` of an owner whose deletion was put off.  `SemDeleted` is what it
is for: the tasks `ts` on the queue are released, the owner of a resource gives
it back, and the ready list holds the tasks that are `READY`, no others.

`semaphore_deleted` says when this is so.  `renq_ready_task` links the owner on
the ready list without asking whether it is `READY`, and a suspension that was
put off sets the bit before `rem_ready_task` asks, so that an owner that is on
the list stays there.
-/

namespace Rtai.Up

open Function Rtai.Lib

variable {n : Nat}

/-! ## The ready list afterwards -/

theorem ReadyIs.unique {L : Links (Task n)} {P Q : Task n → Prop} (h : ReadyIs L P)
    (h' : ReadyIs L Q) (t : Task n) : P t ↔ Q t := by
  obtain ⟨l, r, mem⟩ := h
  obtain ⟨l', r', mem'⟩ := h'
  rw [← mem, ← mem', r.unique r']

namespace Dispatcher

variable {d d' : Dispatcher n} {t : Task n} {P : Task n → Prop}

/-- If the list is right afterwards, the task belongs on it. -/
theorem enqReadyTask_belongs (e : d.enqReadyTask t = some d') (h : ReadyIs d'.ready P) : P t := by
  obtain ⟨x, found, done⟩ := Option.bind_eq_some_iff.mp e
  obtain rfl := Option.some.inj done
  obtain ⟨l, ring, mem⟩ := h
  have ring : Ring (d.ready.insertBefore t x) rtLinuxTask l := ring
  refine (mem t).mp ?_
  rcases ring.inserted_next List.mem_cons_self with new | first
  · exact new
  · unfold readyPosition at found
    dsimp only at found
    split at found
    next =>
      obtain rfl := Option.some.inj found
      exact ring.inserted_before first
    next =>
      rcases ring.inserted_next first with new | second
      · exact new
      · exact ring.inserted_seek second found

end Dispatcher

namespace System

/-! ## The function -/

/-- `sem->magic = 0` and the loop over the waiters. -/
def releaseAll (sem : SemId) (s : System n) : Option (System n × Bool) :=
  let s := (s.setSem sem { s.sem sem with magic := false }).ret (.int 0)
  s.releaseWaiters sem (fuel n) (s.queue.next (.head (.sem sem)))

/-- The owner of a deleted resource gives it back.  The second component is
`sched`. -/
def releaseOwner (task : Task n) (sched : Bool) (s : System n) : Option (System n × Bool) := do
  let own := s.owndres task
  let s := if own &&& SEMHLF = 0 then s else s.setOwndres task (own - 1)
  let (s, moved) ← s.renqByResources task
  let sched := if s.owndres task = 0 ∨ s.owndres task &&& SEMHLF = 0 then moved else sched
  if s.suspdepth task > 0 then
    let d := s.disp.setState task ((s.state task).set SUSPENDED)
    return ({ s with disp := d.remReadyTask task }, true)
  else return (s, sched)

/-- The owner that gives back a resource when the semaphore is deleted. -/
def resourceOwner (sem : SemId) (s : System n) : Option (Task n) :=
  if (s.sem sem).type > 0 then (s.sem sem).owndby else none

/-- `rt_sem_delete` up to its `rt_schedule` or `rt_task_delete`, with `sched`. -/
def semDeleteLists (sem : SemId) (s : System n) : Option (System n × Bool) := do
  let (s, sched) ← s.releaseAll sem
  match s.resourceOwner sem with
  | none => return (s, sched)
  | some task => s.releaseOwner task sched

/-- The rest of `rt_sem_delete`. -/
def semDeleteEnds (sem : SemId) (c : Clock) (s : System n) (sched : Bool) : Option (System n) :=
  match s.resourceOwner sem with
  | none => s.scheduleIf sched c
  | some task =>
      if s.suspdepth task < 0 then do
        let s' ← s.rtTaskDelete task c
        if task = s.current ∧ s.deletable task then return s'
        else (s'.ret (.int 0)).scheduleIf sched c
      else s.scheduleIf sched c

variable {s s' s₂ : System n} {sem : SemId} {t : Task n} {c : Clock}

theorem renqByResources_eq (s : System n) (t : Task n) :
    Ensures (s.renqByResources t) fun p => ∃ d, p.1 = { s with disp := d } := by
  refine .ite (fun _ => ?_) fun _ => .ite (fun _ => ?_) fun _ => .some ⟨s.disp, rfl⟩
  · exact .bind (P := fun _ => True) (fun _ _ => trivial) fun p _ => .some ⟨p.1, rfl⟩
  · exact .bind (P := fun _ => True) (fun _ _ => trivial) fun _ _ =>
      .bind (P := fun _ => True) (fun _ _ => trivial) fun p _ => .some ⟨p.1, rfl⟩

/-- `rt_sem_delete` is its two parts. -/
theorem rtSemDelete_eq (magic : (s.sem sem).magic = true) :
    s.rtSemDelete sem c = (s.semDeleteLists sem).bind fun p => p.1.semDeleteEnds sem c p.2 := by
  rw [rtSemDelete, if_neg (by simp [magic]), semDeleteLists]
  dsimp only [Option.bind_eq_bind]
  rw [Option.bind_assoc]
  refine congrArg (Option.bind _) (funext fun p => ?_)
  obtain ⟨s, sched⟩ := p
  dsimp only
  cases owner : (s.sem sem).owndby with
  | none =>
      have nobody : s.resourceOwner sem = none := by simp [resourceOwner, owner]
      simp [nobody, semDeleteEnds]
  | some task =>
      by_cases resource : (s.sem sem).type > 0
      · have owned : s.resourceOwner sem = some task := by simp [resourceOwner, owner, resource]
        simp only [resource, if_true, owned, releaseOwner]
        dsimp only [Option.bind_eq_bind]
        rw [Option.bind_assoc]
        have same : ∀ s₁ : System n, s₁.sem = s.sem → s₁.resourceOwner sem = some task :=
          fun s₁ e => by rw [resourceOwner, e]; exact owned
        generalize back : (if s.owndres task &&& SEMHLF = 0 then s
          else s.setOwndres task (s.owndres task - 1)) = s₁
        have sems : s₁.sem = s.sem := by
          rw [← back]
          split <;> rfl
        cases renq : s₁.renqByResources task with
        | none => rfl
        | some p =>
            obtain ⟨d, e⟩ := renqByResources_eq s₁ task p renq
            obtain ⟨s₂, moved⟩ := p
            obtain rfl : s₂ = { s₁ with disp := d } := e
            have owned₂ := same { s₁ with disp := d } sems
            rcases Int.lt_trichotomy 0 (s₁.suspdepth task) with pending | nothing | deletion
            · have later := fun d' => same { s₁ with disp := d' } sems
              simp [pending, semDeleteEnds, later, scheduleIf, Int.not_lt.mpr (Int.le_of_lt pending)]
            · simp [← nothing, semDeleteEnds, owned₂]
            · simp [deletion, semDeleteEnds, owned₂, Int.not_lt.mpr (Int.le_of_lt deletion)]
      · have nobody : s.resourceOwner sem = none := by simp [resourceOwner, resource]
        simp [nobody, semDeleteEnds, resource]

/-! ## What it is for -/

/-- The state words with the tasks `ts` released from the waits in the mask. -/
def released (mask : TaskState) (ts : List (Task n)) (state : Task n → TaskState) (t : Task n) :
    TaskState :=
  if ts.contains t then (state t).clear mask else state t

/-- The state words behind the loop over the waiters. -/
abbrev wordsBehind (ts : List (Task n)) (s : System n) : Task n → TaskState :=
  released (SEMAPHORE.set DELAYED) ts s.disp.state

/-- The owner has a suspension that was put off. -/
def suspends (sem : SemId) (s : System n) (t : Task n) : Prop :=
  s.resourceOwner sem = some t ∧ s.suspdepth t > 0

instance (sem : SemId) (s : System n) (t : Task n) : Decidable (s.suspends sem t) :=
  inferInstanceAs (Decidable (_ ∧ _))

/-- The owner without the semaphore. -/
def withoutSem (t : Task n) (s : System n) : System n :=
  s.setOwndres t (if s.owndres t &&& SEMHLF = 0 then s.owndres t else s.owndres t - 1)

/-- The tasks `ts`, which were on the queue, are released. -/
structure SemDeleted (sem : SemId) (ts : List (Task n)) (s s₂ : System n) : Prop where
  /-- The tasks on the ready list are the `READY` ones. -/
  ready : ReadyIs s₂.disp.ready fun t => s₂.state t = READY
  timed : TimedIs False s₂.disp.timed s₂.disp.resumeTime fun t => (s₂.state t).delayed = true
  /-- A waiter that nothing else blocks is `READY`, and no other task changes its state but an
  owner that is to be suspended. -/
  states : ∀ t, s₂.state t =
    if s.suspends sem t then (s.wordsBehind ts t).set SUSPENDED else s.wordsBehind ts t
  /-- The calls of the waiters return `SEM_ERR`. -/
  fails : (s₂.sem sem).magic = false ∧ ∀ (s' : System n) (c : Clock) (f : Frame n)
    (fs : List (Frame n)), s'.stack s'.current = f :: fs →
      f = .rtSemWait sem ∨ f = .rtSemWaitUntil sem → (s'.sem sem).magic = false →
      ∃ s'', step (.resume c) s' = some s'' ∧ s''.retval s'.current = .int SEM_ERR
  /-- The owner has one semaphore less, and its priority follows. -/
  owner : ∀ t, s.resourceOwner sem = some t →
    s₂.owndres t = (s.withoutSem t).owndres t ∧
      Linked.LeftWith (s.withoutSem t) t (s₂.priority t)
  others : ∀ t, s.resourceOwner sem ≠ some t →
    s₂.owndres t = s.owndres t ∧ s₂.priority t = s.priority t
  queue : s₂.queue = s.queue

/-- The owner is `READY` when its priority changes, and is not when it is to be suspended. -/
def OwnerInPlace (sem : SemId) (ts : List (Task n)) (s : System n) : Prop :=
  ∀ t, s.resourceOwner sem = some t → ∃ p, Linked.LeftWith (s.withoutSem t) t p ∧
    (p ≠ s.priority t → s.wordsBehind ts t = READY) ∧
      (s.suspdepth t > 0 → s.wordsBehind ts t ≠ READY)

variable {ts ts₁ ts₂ : List (Task n)} {mask : TaskState} {state : Task n → TaskState} {q : Queue n}
  {k : Nat} {sched : Bool}

theorem released_mem (mem : t ∈ ts) :
    released mask ts state t = (state t).clear mask := if_pos (List.contains_iff_mem.mpr mem)

theorem released_notMem (out : t ∉ ts) :
    released mask ts state t = state t := if_neg fun mem => out (List.contains_iff_mem.mp mem)

/-- Releasing the first task and then the others. -/
theorem released_cons (hn : t ∉ ts) (hm : READY.clear mask = READY) :
    released mask ts (update state t (if state t = READY then READY else (state t).clear mask)) =
      released mask (t :: ts) state := by
  funext u
  by_cases e : u = t
  · subst e
    rw [released_mem List.mem_cons_self, released_notMem hn, update_self]
    split
    next ready => rw [ready, hm]
    next => rfl
  · simp [released, e]

/-- A loop over a queue goes on behind its task `t`. -/
theorem ring_behind {L : Links (QNode n)} (r : Ring L (.head q) ((ts₁ ++ t :: ts₂).map .queue)) :
    t ∉ ts₂ ∧ L.next (.queue t) = (ts₂.map .queue).headD (.head q) ∧
      Ring L (.head q) (((ts₁ ++ [t]) ++ ts₂).map .queue) := by
  have nodup := (List.nodup_cons.mp r.nodup).2
  rw [List.map_append] at nodup
  have behind : (t :: ts₂).Nodup := List.Nodup.of_map _ (List.nodup_append.mp nodup).2.1
  have split : Ring L (.head q) (ts₁.map .queue ++ .queue t :: ts₂.map .queue) := by simpa using r
  exact ⟨(List.nodup_cons.mp behind).1, split.next_headD, by simpa using r⟩

/-- Along the queue the loop releases the tasks on it. -/
theorem releaseWaiters_spec (h : Linked False none s)
    (r : Ring s.queue (.head (.sem sem)) ((ts₁ ++ ts₂).map .queue)) :
    Ensures (s.releaseWaiters sem k ((ts₂.map .queue).headD (.head (.sem sem)))) fun p =>
      Linked False none p.1 ∧ ∃ L T, p.1 = { s with disp := { s.disp with
        ready := L, timed := T, state := s.wordsBehind ts₂ } } := by
  induction k generalizing ts₁ ts₂ s with
  | zero => exact .none
  | succ k ih =>
      cases ts₂ with
      | nil =>
          exact .ite (fun _ => .some ⟨h, s.disp.ready, s.disp.timed, rfl⟩) fun hne => absurd rfl hne
      | cons t ts₂ =>
          refine .ite (fun e => ?_) fun _ => ?_
          · exact absurd e (by simp)
          · refine .bind (h.release rfl) ?_
            rintro ⟨_, b⟩ ⟨h₁, L, T, rfl⟩
            obtain ⟨out, next, r'⟩ := ring_behind r
            show Ensures (releaseWaiters sem k (s.queue.next (.queue t)) _ >>= _) _
            rw [next]
            refine .bind (ih h₁ r') ?_
            rintro ⟨_, b'⟩ ⟨h₂, L', T', rfl⟩
            have words : s.wordsBehind (t :: ts₂) =
                released (SEMAPHORE.set DELAYED) ts₂ (update s.disp.state t
                  (if s.disp.state t = READY then READY
                    else (s.disp.state t).clear (SEMAPHORE.set DELAYED))) :=
              (released_cons out rfl).symm
            refine .some ⟨h₂, L', T', ?_⟩
            show _ = { s with disp := { s.disp with
              ready := L', timed := T', state := s.wordsBehind (t :: ts₂) } }
            rw [words]

/-- The state the loop starts in. -/
def dismissed (sem : SemId) (s : System n) : System n :=
  (s.setSem sem { s.sem sem with magic := false }).ret (.int 0)

theorem Ok.dismissed (ok : Ok False s) : Linked False none (s.dismissed sem) :=
  (Linked.setSem (v := { s.sem sem with magic := false }) ok.toLinked (ok.linux.owndby sem)).ret

/-- The state behind the loop. -/
theorem releaseAll_spec (ok : Ok False s)
    (r : Ring s.queue (.head (.sem sem)) (ts.map .queue)) :
    Ensures (s.releaseAll sem) fun p => Linked False none p.1 ∧ ∃ L T, p.1 = { s with
        disp := { s.disp with ready := L, timed := T, state := s.wordsBehind ts }
        sem := update s.sem sem { s.sem sem with magic := false }
        retval := update s.retval s.current (.int 0) } := by
  have ring : Ring (s.dismissed sem).queue (.head (.sem sem)) (([] ++ ts).map .queue) := r
  show Ensures (releaseWaiters sem (fuel n) (s.queue.next (.head (.sem sem))) _) _
  rw [r.next_head]
  refine (releaseWaiters_spec ok.dismissed ring).mono ?_
  rintro ⟨_, b⟩ ⟨h₁, L, T, rfl⟩
  exact ⟨h₁, L, T, rfl⟩

/-- The links of the ready list behind `renq_ready_task`. -/
inductive Renqueued (t : Task n) (L : Links (Task n)) (before : Int) : Int → Links (Task n) → Prop
  | stays : Renqueued t L before before L
  /-- The task is on the list now, whatever its state is. -/
  | moves {p : Int} {L' : Links (Task n)} (changed : p ≠ before)
      (belongs : ∀ P, ReadyIs L' P → P t)
      (keeps : ∀ P, ReadyIs L P → P t → t ≠ rtLinuxTask → ReadyIs L' P) :
      Renqueued t L before p L'

namespace Renqueued

variable {L L' : Links (Task n)} {before p : Int} {P : Task n → Prop}

theorem right (renq : Renqueued t L before p L') (h : ReadyIs L P) (ready : p ≠ before → P t)
    (real : t ≠ rtLinuxTask) : ReadyIs L' P := by
  cases renq with
  | stays => exact h
  | moves changed belongs keeps => exact keeps P h (ready changed) real

theorem belongs (renq : Renqueued t L before p L') (h : ReadyIs L' P) (changed : p ≠ before) : P t := by
  cases renq with
  | stays => exact absurd rfl changed
  | moves _ belongs keeps => exact belongs P h

end Renqueued

theorem renqReadyTask_moves (d : Dispatcher n) (t : Task n) (p : Int) :
    Ensures (d.renqReadyTask t p) fun q => ∃ L,
      q.1 = { d with ready := L, priority := update d.priority t p } ∧
        Renqueued t d.ready (d.priority t) p L := by
  refine .ite (fun same => .some ⟨d.ready, ?_, same ▸ .stays⟩) fun changed => ?_
  · rw [← same, update_eq_self]
  · refine .bind (P := fun d' => ∃ L, d' = { d with ready := L, priority := update d.priority t p } ∧
      Renqueued t d.ready (d.priority t) p L) ?_ fun d' h => .some h
    intro d' e
    obtain ⟨x, found, done⟩ := Option.bind_eq_some_iff.mp e
    obtain rfl := Option.some.inj done
    refine ⟨_, rfl, .moves (Ne.symm changed)
      (fun P right => Dispatcher.enqReadyTask_belongs e right) fun P h ht hne => ?_⟩
    obtain ⟨L, same, right⟩ := Dispatcher.requeue_spec (d := d.setPriority t p) h ht hne _ e
    have links : ((d.setPriority t p).unlinkReady t).ready.insertBefore t x = L :=
      congrArg Dispatcher.ready same
    show ReadyIs (((d.setPriority t p).unlinkReady t).ready.insertBefore t x) P
    rw [links]
    exact right

theorem renqByResources_moves (s : System n) (t : Task n) :
    Ensures (s.renqByResources t) fun q => ∃ L p, q.1 = { s with disp := { s.disp with
        ready := L, priority := update s.disp.priority t p } } ∧
      Linked.LeftWith s t p ∧ Renqueued t s.disp.ready (s.disp.priority t) p L := by
  refine .ite (fun h₀ => ?_) fun h₀ => .ite (fun h₁ => ?_) fun h₁ => ?_
  · refine .bind (renqReadyTask_moves s.disp t _) ?_
    rintro ⟨_, b⟩ ⟨L, rfl, moved⟩
    refine .some ⟨L, _, rfl, ?_, moved⟩
    rw [Linked.LeftWith, if_pos h₀]
  · refine .bind (P := fun first => s.taskOf (s.queue.next (.head (.msgQueue t))) = some first)
      (fun _ e => e) fun first hf => ?_
    refine .bind (renqReadyTask_moves s.disp t _) ?_
    rintro ⟨_, b⟩ ⟨L, rfl, moved⟩
    refine .some ⟨L, _, rfl, ?_, moved⟩
    rw [Linked.LeftWith, if_neg h₀, if_pos h₁]
    exact ⟨first, hf, rfl⟩
  · refine .some ⟨s.disp.ready, s.disp.priority t, by rw [update_eq_self], ?_, .stays⟩
    rw [Linked.LeftWith, if_neg h₀, if_neg h₁]

theorem set_suspended (st : TaskState) : st.set SUSPENDED ≠ READY := by
  intro e
  have bit : (st.suspended || true) = false := congrArg TaskState.suspended e
  rw [Bool.or_true] at bit
  cases bit

/-- `rem_ready_task` comes too late. -/
theorem remReadyTask_suspended (d : Dispatcher n) (t : Task n) (st : TaskState) :
    (d.setState t (st.set SUSPENDED)).remReadyTask t = d.setState t (st.set SUSPENDED) :=
  if_neg fun e => set_suspended st ((update_self _ _ _).symm.trans e)

theorem giveBack_eq (s : System n) (t : Task n) :
    (if s.owndres t &&& SEMHLF = 0 then s else s.setOwndres t (s.owndres t - 1)) =
      s.withoutSem t := by
  rw [withoutSem]
  split
  · rw [setOwndres, update_eq_self]
  · rfl

/-- The statements on the owner. -/
theorem releaseOwner_moves (s : System n) (t : Task n) (sched : Bool) :
    Ensures (s.releaseOwner t sched) fun q => ∃ L p, q.1 = { s.withoutSem t with
        disp := { s.disp with
          ready := L
          priority := update s.disp.priority t p
          state := if s.suspdepth t > 0 then update s.disp.state t ((s.state t).set SUSPENDED)
            else s.disp.state } } ∧
      Linked.LeftWith (s.withoutSem t) t p ∧
        Renqueued t s.disp.ready (s.disp.priority t) p L := by
  unfold releaseOwner
  dsimp only
  rw [giveBack_eq]
  refine .bind (renqByResources_moves (s.withoutSem t) t) ?_
  rintro ⟨_, moved⟩ ⟨L, p, rfl, left, renqueued⟩
  refine .ite (fun pending => .some ⟨L, p, ?_, left, renqueued⟩) fun no =>
    .some ⟨L, p, ?_, left, renqueued⟩
  · have pending : s.suspdepth t > 0 := pending
    rw [remReadyTask_suspended, if_pos pending]
    rfl
  · have no : ¬s.suspdepth t > 0 := no
    rw [if_neg no]
    rfl

/-- A wait that goes on after the semaphore is deleted. -/
theorem resume_deleted {f : Frame n} {fs : List (Frame n)} (stack : s.stack s.current = f :: fs)
    (waits : f = .rtSemWait sem ∨ f = .rtSemWaitUntil sem) (deleted : (s.sem sem).magic = false) :
    ∃ s', step (.resume c) s = some s' ∧ s'.retval s.current = .int SEM_ERR := by
  have magic : (s.pop.sem sem).magic = false := deleted
  rcases waits with rfl | rfl
  · refine ⟨s.pop.rtSemWaitRest sem, by rw [step, stack]; rfl, ?_⟩
    rw [rtSemWaitRest, if_pos (Or.inr (by simp [magic]))]
    exact update_self _ _ _
  · refine ⟨s.pop.rtSemWaitUntilRest sem, by rw [step, stack]; rfl, ?_⟩
    unfold rtSemWaitUntilRest
    dsimp only
    rw [if_pos (by simp [magic])]
    exact update_self _ _ _

/-- Linux owns no semaphore. -/
theorem resourceOwner_real (ok : Ok False s) (owner : s.resourceOwner sem = some t) :
    t ≠ rtLinuxTask := by
  rintro rfl
  refine ok.linux.owndby sem ?_
  unfold resourceOwner at owner
  split at owner
  next => exact owner
  next => cases owner

theorem LeftWith.unique {p p' : Int} (h : Linked.LeftWith s t p) (h' : Linked.LeftWith s t p') :
    p = p' := by
  unfold Linked.LeftWith at h h'
  split at h
  next own => rw [if_pos own] at h'; exact h.trans h'.symm
  next own =>
    rw [if_neg own] at h'
    split at h
    next calls =>
      rw [if_pos calls] at h'
      obtain ⟨first, e, rfl⟩ := h
      obtain ⟨first', e', rfl⟩ := h'
      obtain rfl := Option.some.inj (e.symm.trans e')
      rfl
    next calls => rw [if_neg calls] at h'; exact h.trans h'.symm

/-- The owner is the task that may be suspended. -/
theorem suspended_word {o : Task n} (owner : s.resourceOwner sem = some o) (t : Task n) :
    (if s.suspdepth o > 0 then update (s.wordsBehind ts) o ((s.wordsBehind ts o).set SUSPENDED)
      else s.wordsBehind ts) t =
    if s.suspends sem t then (s.wordsBehind ts t).set SUSPENDED else s.wordsBehind ts t := by
  by_cases pending : s.suspdepth o > 0
  · rw [if_pos pending]
    by_cases eq : t = o
    · subst eq
      rw [update_self, if_pos ⟨owner, pending⟩]
    · rw [update_of_ne eq, if_neg fun h => eq (Option.some.inj (h.1.symm.trans owner))]
  · rw [if_neg pending, if_neg fun h => ?_]
    obtain rfl : t = o := Option.some.inj (h.1.symm.trans owner)
    exact pending h.2

theorem semDeleted_iff (ok : Ok False s) (queue : Ring s.queue (.head (.sem sem)) (ts.map .queue))
    (done : s.semDeleteLists sem = some (s₂, sched)) :
    SemDeleted sem ts s s₂ ↔ OwnerInPlace sem ts s := by
  obtain ⟨⟨s₁, woken⟩, loop, rest⟩ := Option.bind_eq_some_iff.mp done
  obtain ⟨linked, L, T, e⟩ := releaseAll_spec ok queue _ loop
  have fails : ∀ (s' : System n) (c : Clock) (f : Frame n) (fs : List (Frame n)),
      s'.stack s'.current = f :: fs → f = .rtSemWait sem ∨ f = .rtSemWaitUntil sem →
      (s'.sem sem).magic = false →
      ∃ s'', step (.resume c) s' = some s'' ∧ s''.retval s'.current = .int SEM_ERR :=
    fun s' c f fs stack waits deleted => resume_deleted stack waits deleted
  have owners : s₁.resourceOwner sem = s.resourceOwner sem := by
    subst e
    simp [resourceOwner]
  dsimp only at e rest linked
  rw [owners] at rest
  cases owner : s.resourceOwner sem with
  | none =>
      rw [owner] at rest
      obtain ⟨rfl, -⟩ := Prod.mk.inj (Option.some.inj rest)
      refine iff_of_true ?_ fun t ht => absurd (owner.symm.trans ht) (by simp)
      have apart : ∀ t, ¬s.suspends sem t := fun t ht => absurd (owner.symm.trans ht.1) (by simp)
      have magic : (s₁.sem sem).magic = false := by
        rw [e]
        show (update s.sem sem { s.sem sem with magic := false } sem).magic = false
        rw [update_self]
      subst e
      exact ⟨linked.lists.ready, linked.lists.timed.congr (fun t => by simp) fun _ _ => rfl,
        fun t => (if_neg (apart t)).symm, ⟨magic, fails⟩,
        fun t ht => absurd (owner.symm.trans ht) (by simp), fun _ _ => ⟨rfl, rfl⟩, rfl⟩
  | some o =>
      rw [owner] at rest
      obtain ⟨L', p, e', left, renq⟩ := releaseOwner_moves s₁ o woken _ rest
      have real := resourceOwner_real ok owner
      subst e
      dsimp only at e'
      have before : ReadyIs L fun t => s.wordsBehind ts t = READY := linked.lists.ready
      constructor
      · intro h t ht
        obtain rfl : o = t := Option.some.inj (owner.symm.trans ht)
        refine ⟨p, left, ?_⟩
        have after := h.states o
        have list : s₂.disp.ready = L' := by rw [e']
        have right : ReadyIs L' fun t => s₂.state t = READY := by
          rw [← list]
          exact h.ready
        constructor
        · intro changed
          have now : s₂.state o = READY := renq.belongs right changed
          rw [after] at now
          split at now
          next => exact absurd now (set_suspended _)
          next => exact now
        · intro pending ready
          have same := renq.right before (fun _ => ready) real
          have now : s₂.state o = READY := (same.unique right o).mp ready
          rw [after, if_pos ⟨owner, pending⟩] at now
          exact set_suspended _ now
      · intro place
        obtain ⟨p', left', moved, parked⟩ := place o owner
        obtain rfl : p = p' := LeftWith.unique left left'
        have same := renq.right before moved real
        have states : ∀ t, s₂.state t = if s.suspends sem t
            then (s.wordsBehind ts t).set SUSPENDED else s.wordsBehind ts t := by
          intro t
          rw [← suspended_word owner t, e']
        refine ⟨?_, ?_, states, ⟨?_, fails⟩, ?_, ?_, ?_⟩
        · rw [show s₂.disp.ready = L' by rw [e']]
          refine same.congr fun t => ?_
          rw [states t]
          split
          next pending =>
            obtain rfl : t = o := Option.some.inj (pending.1.symm.trans owner)
            exact iff_of_false (parked pending.2) (set_suspended _)
          next => exact Iff.rfl
        · rw [show s₂.disp.timed = T by rw [e'],
            show s₂.disp.resumeTime = s.disp.resumeTime by rw [e']]
          refine linked.lists.timed.congr (fun t => ?_) fun _ _ => rfl
          rw [states t]
          split
          · simp [TaskState.set, SUSPENDED]
          · simp
        · rw [e']
          show (update s.sem sem { s.sem sem with magic := false } sem).magic = false
          rw [update_self]
        · intro t ht
          obtain rfl : o = t := Option.some.inj (owner.symm.trans ht)
          have prio : s₂.priority o = p := by
            rw [e']
            exact update_self _ _ _
          rw [prio]
          exact ⟨by rw [e']; rfl, left⟩
        · intro t ht
          have ne : t ≠ o := fun eq => ht (eq ▸ owner)
          rw [e']
          exact ⟨update_of_ne ne _ _, update_of_ne ne _ _⟩
        · rw [e']
          rfl

/-! ## The loops end -/

/-- Linux is the least urgent task. -/
structure LinuxLast (s : System n) : Prop where
  priority : ∀ t, t ≠ rtLinuxTask → s.priority t < s.priority rtLinuxTask
  base : ∀ t, t ≠ rtLinuxTask → s.basePriority t < s.priority rtLinuxTask

theorem release_total {off : Option (Task n)} (h : Linked False off s) (last : LinuxLast s)
    (t : Task n) : ∃ q, s.release t mask = some q := by
  have made : ∃ q, s.disp.release t mask = some q := by
    unfold Dispatcher.release Dispatcher.makeReady
    dsimp only
    split
    next => exact ⟨_, rfl⟩
    next waits =>
      split
      next =>
        have real : t ≠ rtLinuxTask := by
          rintro rfl
          refine waits ?_
          rw [Dispatcher.remTimedTask_eq]
          exact h.lists.linuxState
        obtain ⟨l, ring, -⟩ := h.lists.ready
        obtain ⟨d, e⟩ := Dispatcher.enqReadyTask_total (t := t)
          (d := (s.disp.remTimedTask t).setState t
            (((s.disp.remTimedTask t).state t).clear mask)) (l := l)
          (by rw [Dispatcher.remTimedTask_eq]; exact ring)
          (by rw [Dispatcher.remTimedTask_eq]; exact last.priority t real)
        exact ⟨_, by rw [e]; rfl⟩
      next => exact ⟨_, rfl⟩
  obtain ⟨q, e⟩ := made
  exact ⟨_, by rw [System.release, e]; rfl⟩

/-- A queue is shorter than the fuel of a loop over it. -/
theorem ring_short {L : Links (QNode n)} (r : Ring L (.head q) (ts.map .queue)) :
    ts.length < fuel n := by
  have nodup : ts.Nodup := List.Nodup.of_map _ (List.nodup_cons.mp r.nodup).2
  have bound := nodup.length_le_card
  rw [Fintype.card_fin] at bound
  exact Nat.lt_of_le_of_lt bound (Nat.lt_succ_self _)

theorem releaseWaiters_total (h : Linked False none s) (last : LinuxLast s)
    (r : Ring s.queue (.head (.sem sem)) ((ts₁ ++ ts₂).map .queue)) (hk : ts₂.length < k) :
    ∃ q, s.releaseWaiters sem k ((ts₂.map .queue).headD (.head (.sem sem))) = some q := by
  induction k generalizing ts₁ ts₂ s with
  | zero => exact absurd hk (Nat.not_lt_zero _)
  | succ k ih =>
      cases ts₂ with
      | nil => exact ⟨_, if_pos rfl⟩
      | cons t ts₂ =>
          obtain ⟨-, next, r'⟩ := ring_behind r
          obtain ⟨⟨s₁, b⟩, e⟩ : ∃ q, s.release t (SEMAPHORE.set DELAYED) = some q :=
            release_total h last t
          obtain ⟨h₁, L, T, rfl⟩ := h.release rfl _ e
          obtain ⟨q, e'⟩ := ih h₁ ⟨last.priority, last.base⟩ r' (Nat.lt_of_succ_lt_succ hk)
          refine ⟨(q.1, b || q.2), ?_⟩
          rw [List.map_cons, List.headD_cons, releaseWaiters, if_neg (by simp)]
          simp only [taskOf]
          rw [e]
          dsimp only [Option.bind_eq_bind, Option.bind_some]
          rw [next, e']
          rfl

theorem renqReadyTask_total {d : Dispatcher n} {P : Task n → Prop} {p : Int}
    (h : ReadyIs d.ready P) (real : t ≠ rtLinuxTask) (ready : p ≠ d.priority t → P t)
    (urgent : p ≠ d.priority t → p < d.priority rtLinuxTask) :
    ∃ q, d.renqReadyTask t p = some q := by
  unfold Dispatcher.renqReadyTask
  split
  next => exact ⟨_, rfl⟩
  next changed =>
    have changed : p ≠ d.priority t := Ne.symm changed
    obtain ⟨l, ring, -⟩ := h.unlink (ready changed) real
    obtain ⟨d', e⟩ := Dispatcher.enqReadyTask_total (t := t)
      (d := (d.setPriority t p).unlinkReady t) (l := l) ring (by
        show update d.priority t p t < update d.priority t p rtLinuxTask
        rw [update_self, update_of_ne real.symm]
        exact urgent changed)
    exact ⟨_, by rw [e]; rfl⟩

/-- An owner at its place is requeued. -/
theorem renqByResources_total {P : Task n → Prop} {p : Int} (h : ReadyIs s.disp.ready P)
    (last : LinuxLast s) (real : t ≠ rtLinuxTask) (left : Linked.LeftWith s t p)
    (ready : p ≠ s.priority t → P t) : ∃ q, s.renqByResources t = some q := by
  have base : s.basePriority t < s.priority rtLinuxTask := last.base t real
  unfold Linked.LeftWith at left
  unfold renqByResources
  split
  next own =>
    rw [if_pos own] at left
    subst left
    obtain ⟨q, e⟩ := renqReadyTask_total h real ready fun _ => base
    exact ⟨_, by rw [e]; rfl⟩
  next own =>
    rw [if_neg own] at left
    split
    next calls =>
      rw [if_pos calls] at left
      obtain ⟨first, found, rfl⟩ := left
      obtain ⟨q, e⟩ := renqReadyTask_total (p := if s.basePriority t > s.priority first
        then s.priority first else s.basePriority t) h real ready fun _ => by
          show (if s.basePriority t > s.priority first then s.priority first
            else s.basePriority t) < s.priority rtLinuxTask
          split <;> omega
      refine ⟨({ s with disp := q.1 }, q.2), ?_⟩
      rw [found]
      dsimp only [Option.bind_eq_bind, Option.bind_some]
      rw [e]
      rfl
    next => exact ⟨_, rfl⟩

theorem releaseOwner_total {P : Task n → Prop} {p : Int} (h : ReadyIs s.disp.ready P)
    (last : LinuxLast s) (real : t ≠ rtLinuxTask) (left : Linked.LeftWith (s.withoutSem t) t p)
    (ready : p ≠ s.priority t → P t) : ∃ q, s.releaseOwner t sched = some q := by
  have last : LinuxLast (s.withoutSem t) := ⟨last.priority, last.base⟩
  obtain ⟨⟨s', moved⟩, e⟩ := renqByResources_total (s := s.withoutSem t) h last real left ready
  unfold releaseOwner
  dsimp only
  rw [giveBack_eq, e]
  dsimp only [Option.bind_eq_bind, Option.bind_some]
  split <;> exact ⟨_, rfl⟩

theorem releaseAll_total (ok : Ok False s) (last : LinuxLast s)
    (queue : Ring s.queue (.head (.sem sem)) (ts.map .queue)) : ∃ q, s.releaseAll sem = some q := by
  have ring : Ring (s.dismissed sem).queue (.head (.sem sem)) (([] ++ ts).map .queue) := queue
  have loop := releaseWaiters_total ok.dismissed ⟨last.priority, last.base⟩ ring (ring_short queue)
  rwa [← queue.next_head] at loop

/-- With the owner at its place the deletion comes to its end. -/
theorem semDeleteLists_total (ok : Ok False s) (last : LinuxLast s)
    (queue : Ring s.queue (.head (.sem sem)) (ts.map .queue)) (place : OwnerInPlace sem ts s) :
    ∃ q, s.semDeleteLists sem = some q := by
  obtain ⟨⟨s₁, woken⟩, loop⟩ := releaseAll_total ok last queue
  obtain ⟨linked, L, T, e⟩ := releaseAll_spec ok queue _ loop
  rw [semDeleteLists, loop]
  dsimp only [Option.bind_eq_bind, Option.bind_some]
  have owners : s₁.resourceOwner sem = s.resourceOwner sem := by
    subst e
    simp [resourceOwner]
  rw [owners]
  cases owner : s.resourceOwner sem with
  | none => exact ⟨_, rfl⟩
  | some o =>
      obtain ⟨p, left, moved, -⟩ := place o owner
      subst e
      exact releaseOwner_total (P := fun t => s.wordsBehind ts t = READY)
        linked.lists.ready ⟨last.priority, last.base⟩ (resourceOwner_real ok owner) left moved

/-- A semaphore is deleted as it should be if and only if its owner is at its place. -/
theorem semaphore_deleted (ok : Ok False s)
    (queue : Ring s.queue (.head (.sem sem)) (ts.map .queue)) :
    (∀ s₂ sched, s.semDeleteLists sem = some (s₂, sched) →
        (SemDeleted sem ts s s₂ ↔ OwnerInPlace sem ts s)) ∧
      (LinuxLast s → OwnerInPlace sem ts s →
        ∃ s₂ sched, s.semDeleteLists sem = some (s₂, sched) ∧ SemDeleted sem ts s s₂) := by
  refine ⟨fun s₂ sched done => semDeleted_iff ok queue done, fun last place => ?_⟩
  obtain ⟨⟨s₂, sched⟩, done⟩ := semDeleteLists_total ok last queue place
  exact ⟨s₂, sched, done, (semDeleted_iff ok queue done).mpr place⟩

/-- A run of the scheduling and semaphore services that ends no suspension put off. -/
abbrev ServiceRun (timer : Timer) (tr : List (Record (System n) (Event n))) (s : System n) : Prop :=
  Run step (fun s e => ReadyList.services e = true ∧ ReadyList.resumesSuspended s e = true)
    (boot n timer) tr s

theorem ok_of_services {timer : Timer} {tr : List (Record (System n) (Event n))}
    (r : ServiceRun timer tr s) : Ok False s :=
  r.invariant (boot_ok n timer False) fun {_ s' _} h guard stepped =>
    h.step (ReadyList.safe_of_resumesSuspended guard.1 guard.2) s' stepped

/-- One task waits for a resource. -/
theorem ring_one (first : s.queue.next (.head (.sem sem)) = .queue t ∧
    s.queue.prev (.queue t) = .head (.sem sem)) (last : s.queue.next (.queue t) = .head (.sem sem) ∧
    s.queue.prev (.head (.sem sem)) = .queue t) :
    Ring s.queue (.head (.sem sem)) ([t].map .queue) :=
  ⟨by simp, first.1, first.2, last⟩

/-- The owner deletes the semaphore itself, and falls back to its base priority. -/
theorem semaphore_deleted_owner : ∃ tr s s₂ sched, ServiceRun (n := 2) {} tr s ∧
    s.semDeleteLists (.user 0) = some (s₂, sched) ∧ SemDeleted (.user 0) [2] s s₂ := by
  let c : Clock := {}
  obtain ⟨tr, s, r, test⟩ := Run.of_execute step
    (fun s e => ReadyList.services e = true ∧ ReadyList.resumesSuspended s e = true) (boot 2 {})
    [.call (.taskInit 1 5 true) c, .call (.taskInit 2 3 true) c,
      .call (.typedSemInit (.user 0) 1 RES_SEM) c, .call (.taskResume 1) c,
      .call (.semWait (.user 0)) c, .call (.taskResume 2) c, .call (.semWait (.user 0)) c]
    (fun s => (s.queue.next (.head (.sem (.user 0))) = .queue 2 ∧
        s.queue.prev (.queue 2) = .head (.sem (.user 0))) ∧
      (s.queue.next (.queue 2) = .head (.sem (.user 0)) ∧
        s.queue.prev (.head (.sem (.user 0))) = .queue 2) ∧
      s.resourceOwner (.user 0) = some 1 ∧ (s.withoutSem 1).owndres 1 = 0 ∧
      s.wordsBehind [2] 1 = READY ∧ s.suspdepth 1 = 0 ∧
      (∀ t, t ≠ rtLinuxTask → s.priority t < s.priority rtLinuxTask) ∧
      ∀ t, t ≠ rtLinuxTask → s.basePriority t < s.priority rtLinuxTask)
    (by decide +kernel)
  simp only [decide_eq_true_eq] at test
  obtain ⟨first, last, owner, back, ready, depth, priority, base⟩ := test
  have place : OwnerInPlace (.user 0) [2] s := by
    intro t ht
    obtain rfl : 1 = t := Option.some.inj (owner.symm.trans ht)
    refine ⟨s.basePriority 1, ?_, fun _ => ready, fun pending => ?_⟩
    · rw [Linked.LeftWith, if_pos back]
      rfl
    · rw [depth] at pending
      exact absurd pending (by decide)
  obtain ⟨s₂, sched, done, deleted⟩ :=
    (semaphore_deleted (ok_of_services r) (ring_one first last)).2 ⟨priority, base⟩ place
  exact ⟨tr, s, s₂, sched, r, done, deleted⟩

/-- The owner is asleep when Linux deletes the semaphore, and is on the ready list afterwards. -/
theorem semaphore_deleted_asleep :
    ¬∀ (n : Nat) (timer : Timer) (tr : List (Record (System n) (Event n))) (s s₂ : System n)
      (sem : SemId) (ts : List (Task n)) (sched : Bool), ServiceRun timer tr s →
      Ring s.queue (.head (.sem sem)) (ts.map .queue) →
      s.semDeleteLists sem = some (s₂, sched) → SemDeleted sem ts s s₂ := by
  intro h
  let c : Clock := {}
  obtain ⟨tr, s, r, test⟩ := Run.of_execute step
    (fun s e => ReadyList.services e = true ∧ ReadyList.resumesSuspended s e = true) (boot 2 {})
    [.call (.taskInit 1 5 true) c, .call (.taskInit 2 3 true) c,
      .call (.typedSemInit (.user 0) 1 RES_SEM) c, .call (.taskResume 1) c,
      .call (.semWait (.user 0)) c, .call (.taskResume 2) c, .call (.semWait (.user 0)) c,
      .call (.sleepUntil 10) c]
    (fun s => (s.queue.next (.head (.sem (.user 0))) = .queue 2 ∧
        s.queue.prev (.queue 2) = .head (.sem (.user 0))) ∧
      (s.queue.next (.queue 2) = .head (.sem (.user 0)) ∧
        s.queue.prev (.head (.sem (.user 0))) = .queue 2) ∧
      (s.semDeleteLists (.user 0)).any fun p =>
        p.1.disp.ready.next rtLinuxTask = 1 ∧ p.1.state 1 ≠ READY)
    (by decide +kernel)
  simp only [decide_eq_true_eq] at test
  obtain ⟨first, last, test⟩ := test
  obtain ⟨⟨s₂, sched⟩, done, linked⟩ := (Option.any_eq_true _ _).mp test
  simp only [decide_eq_true_eq] at linked
  obtain ⟨listed, asleep⟩ := linked
  obtain ⟨l, ring, mem⟩ := (h 2 {} tr s s₂ (.user 0) [2] sched r (ring_one first last) done).ready
  refine asleep ((mem 1).mp ?_)
  rw [← listed]
  exact ring.next_mem List.mem_cons_self

end System

end Rtai.Up
