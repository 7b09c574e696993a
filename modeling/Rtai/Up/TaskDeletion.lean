import Rtai.Up.Counting
import Rtai.Up.SemaphoreDeletion

/-!
# Deleting a task

`deleteTask` is `rt_task_delete` of a task whose deletion is not deferred, up to
its `rt_schedule`.  `TaskDeleted` is what it is for: nothing that is in use
refers to the task, and who waited for it goes on with `NULL`.

`task_deleted` says when this is so.  `rt_task_delete` unlinks the task from the
lists and releases the tasks on its own queues; it looks neither at what the task
owns nor at who passed a priority to it, and not at the callers whose message it
took directly, which wait on no queue.
-/

namespace Rtai.Up

open Function Rtai.Lib

variable {n : Nat}

namespace System

variable {s s' : System n} {t u task : Task n} {q : Queue n} {mask : TaskState}
  {off : Option (Task n)} {c : Clock} {ts ts₁ ts₂ : List (Task n)} {b : Task n → Option (Queue n)}
  {k : Nat}

/-! ## The queues -/

/-- The live task is blocked on the queue. -/
def blocksOn (s : System n) (q : Queue n) (t : Task n) : Prop :=
  s.disp.magic t = true ∧ s.blockedOn t = some q

/-- The queues in use, and those live tasks are blocked on, are rings of the live tasks blocked
on them. -/
def QueuesRight (s : System n) : Prop :=
  ∀ q, (s.inUse q ∨ ∃ t, s.blocksOn q t) →
    ∃ ts : List (Task n), Ring s.queue (.head q) (ts.map .queue) ∧ ∀ t, t ∈ ts ↔ s.blocksOn q t

theorem nodes_apart {q q' : Queue n} {ts' : List (Task n)} (hq : q ≠ q')
    (apart : ∀ t ∈ ts, t ∉ ts') :
    ∀ x ∈ QNode.head q :: ts.map .queue, x ∉ QNode.head q' :: ts'.map .queue := by
  intro x hx hx'
  rcases List.mem_cons.mp hx with rfl | hx
  · rcases List.mem_cons.mp hx' with e | hx'
    · exact hq (QNode.head.inj e)
    · obtain ⟨t, -, e⟩ := List.mem_map.mp hx'
      cases e
  · obtain ⟨t, ht, rfl⟩ := List.mem_map.mp hx
    rcases List.mem_cons.mp hx' with e | hx'
    · cases e
    · obtain ⟨t', ht', e⟩ := List.mem_map.mp hx'
      cases e
      exact apart _ ht ht'

/-- A task that leaves its queue is on none. -/
theorem QueuesRight.leaveQueue (h : QueuesRight s) (live : s.disp.magic task = true)
    (used : s.inUse q) :
    ∃ ts : List (Task n), Ring (s.leaveQueue task).queue (.head q) (ts.map .queue) ∧
      ∀ t, t ∈ ts ↔ t ≠ task ∧ s.blocksOn q t := by
  obtain ⟨ts, ring, mem⟩ := h q (.inl used)
  obtain ⟨S, e⟩ := Linked.leaveQueue_eq s task
  rw [e]
  cases blocked : s.blockedOn task with
  | none =>
      refine ⟨ts, ring, fun t => (mem t).trans ⟨fun ht => ⟨?_, ht⟩, And.right⟩⟩
      rintro rfl
      exact absurd (ht.2.symm.trans blocked) (by simp)
  | some q' =>
      obtain ⟨ts', ring', mem'⟩ := h q' (.inr ⟨task, live, blocked⟩)
      have here : task ∈ ts' := (mem' task).mpr ⟨live, blocked⟩
      by_cases same : q = q'
      · subst same
        obtain rfl : ts = ts' := by
          have lists := ring.unique ring'
          exact List.map_injective_iff.mpr (fun _ _ => QNode.queue.inj) lists
        have nodup : ts.Nodup := List.Nodup.of_map _ (List.nodup_cons.mp ring.nodup).2
        refine ⟨ts.erase task, ?_, fun t => ?_⟩
        · rw [List.map_erase fun _ _ => QNode.queue.inj]
          exact ring.erase (List.mem_map_of_mem here)
        · rw [nodup.mem_erase_iff, mem t]
      · refine ⟨ts, ring.unlink_apart ring' (List.mem_map_of_mem here) ?_, fun t => ?_⟩
        · refine nodes_apart same fun t ht ht' => same ?_
          exact Option.some.inj (((mem t).mp ht).2.symm.trans ((mem' t).mp ht').2)
        · refine (mem t).trans ⟨fun ht => ⟨?_, ht⟩, And.right⟩
          rintro rfl
          exact same (Option.some.inj (ht.2.symm.trans blocked))

/-! ## The loops -/

/-- `blocked_on` behind the loop over a queue. -/
def freed (ts : List (Task n)) (b : Task n → Option (Queue n)) (t : Task n) : Option (Queue n) :=
  if ts.contains t then none else b t

theorem freed_cons : freed ts (update b t none) = freed (t :: ts) b := by
  funext u
  by_cases e : u = t
  · subst e
    simp [freed]
  · simp [freed, e]

/-- The loop releases the tasks on the queue. -/
theorem releaseQueue_spec (h : Linked False off s)
    (r : Ring s.queue (.head q) ((ts₁ ++ ts₂).map .queue)) (apart : ∀ t ∈ ts₂, some t ≠ off)
    (hd : mask.delayed = true) (hm : READY.clear mask = READY) :
    Ensures (s.releaseQueue q mask k ((ts₂.map .queue).headD (.head q))) fun s' =>
      Linked False off s' ∧ ∃ L T, s' = { s with
        disp := { s.disp with ready := L, timed := T, state := released mask ts₂ s.disp.state }
        blockedOn := freed ts₂ s.blockedOn } := by
  induction k generalizing ts₁ ts₂ s with
  | zero => exact .none
  | succ k ih =>
      cases ts₂ with
      | nil =>
          refine .ite (fun _ => .some ⟨h, s.disp.ready, s.disp.timed, ?_⟩) fun hne => absurd rfl hne
          rfl
      | cons t ts₂ =>
          refine .ite (fun e => ?_) fun _ => ?_
          · exact absurd e (by simp)
          refine .bind (P := fun u => t = u) (fun _ e => Option.some.inj e) ?_
          rintro _ rfl
          refine .bind (h.releaseOff (apart _ List.mem_cons_self) hd) ?_
          rintro ⟨_, b⟩ ⟨h₁, L, T, rfl⟩
          obtain ⟨out, next, r'⟩ := ring_behind r
          show Ensures (releaseQueue q mask k (s.queue.next (.queue t)) _) _
          rw [next]
          refine (ih h₁.setBlockedOn r' fun t ht => apart t (List.mem_cons_of_mem _ ht)).mono ?_
          rintro _ ⟨h₂, L', T', rfl⟩
          refine ⟨h₂, L', T', ?_⟩
          rw [← freed_cons, ← released_cons out hm]
          rfl

/-- The loop comes to the end of the queue. -/
theorem releaseQueue_total (h : Linked False off s) (last : LinuxLast s)
    (r : Ring s.queue (.head q) ((ts₁ ++ ts₂).map .queue)) (apart : ∀ t ∈ ts₂, some t ≠ off)
    (hd : mask.delayed = true) (hk : ts₂.length < k) :
    ∃ s', s.releaseQueue q mask k ((ts₂.map .queue).headD (.head q)) = some s' := by
  induction k generalizing ts₁ ts₂ s with
  | zero => exact absurd hk (Nat.not_lt_zero _)
  | succ k ih =>
      cases ts₂ with
      | nil => exact ⟨_, if_pos rfl⟩
      | cons t ts₂ =>
          obtain ⟨-, next, r'⟩ := ring_behind r
          obtain ⟨⟨s₁, b⟩, e⟩ := release_total h last t
          obtain ⟨h₁, L, T, rfl⟩ := h.releaseOff (apart t List.mem_cons_self) hd _ e
          obtain ⟨s', e'⟩ := ih (h₁.setBlockedOn (t := t) (q := none))
            ⟨last.priority, last.base⟩ r'
            (fun t ht => apart t (List.mem_cons_of_mem _ ht)) (Nat.lt_of_succ_lt_succ hk)
          refine ⟨s', ?_⟩
          rw [List.map_cons, List.headD_cons, releaseQueue, if_neg (by simp)]
          simp only [taskOf]
          dsimp only [Option.bind_eq_bind, Option.bind_some]
          rw [e, ← e', ← next]
          rfl

/-! ## The function -/

/-- `rt_task_delete` of a task whose deletion is not deferred. -/
theorem rtTaskDelete_eq (deletable : s.deletable task = true)
    (now : s.owndres task &&& SEMHLF = 0 ∨ task = s.current ∨
      s.priority s.current = RT_LINUX_PRIORITY) :
    s.rtTaskDelete task c = (s.deleteTask task).bind fun s' =>
      (s'.ret (.int 0)).scheduleIf (task = s'.current) c := by
  have accepted : s.disp.magic task = true ∧ s.priority task ≠ RT_LINUX_PRIORITY := by
    simpa [System.deletable] using deletable
  rw [rtTaskDelete, if_neg (by simp [accepted]), if_pos now]
  rfl

/-- The state words behind the two loops. -/
def wordsLeft (ms rs : List (Task n)) (s : System n) : Task n → TaskState :=
  released (RETURN.set DELAYED) rs (released ((SEND.set RPC).set DELAYED) ms s.disp.state)

/-- What `rt_task_delete` leaves behind. -/
def left (task : Task n) (ms rs : List (Task n)) (R T : Links (Task n)) (s : System n) : System n :=
  { s.leaveQueue task with
    disp := { s.disp with
      magic := update s.disp.magic task false
      ready := R
      timed := T
      state := update (s.wordsLeft ms rs) task DEAD }
    blockedOn := freed rs (freed ms s.blockedOn) }

variable {ms rs : List (Task n)} {R T : Links (Task n)}

/-- The system in the middle of the deletion. -/
def during (task : Task n) (st : Task n → TaskState) (b : Task n → Option (Queue n))
    (R T : Links (Task n)) (s : System n) : System n :=
  { s.leaveQueue task with
    disp := { s.disp with ready := R, timed := T, state := st }
    blockedOn := b }

/-- The task leaves the timed list and its queue. -/
theorem leaves_eq (task : Task n) (s : System n) :
    { s with disp := s.disp.remTimedTask task }.leaveQueue task =
      s.during task s.disp.state s.blockedOn s.disp.ready (s.disp.remTimedTask task).timed := by
  rw [Ok.leaveQueue_disp (by rw [Dispatcher.remTimedTask_eq]), during]
  obtain ⟨S, e⟩ := Linked.leaveQueue_eq s task
  rw [e, Dispatcher.remTimedTask_eq]

theorem Linked.leaves (h : Linked False none s) (task : Task n) : Linked False (some task)
    (s.during task s.disp.state s.blockedOn s.disp.ready (s.disp.remTimedTask task).timed) := by
  rw [← leaves_eq]
  refine (h.onDisp (h.lists.remTimedTask task) ?_).leaveQueue task
  rw [Dispatcher.remTimedTask_eq]
  exact h.linux.priority

theorem off_apart (apart : task ∉ ts) : ∀ t ∈ ts, some t ≠ some task := by
  rintro t ht e
  exact apart (Option.some.inj e ▸ ht)

theorem deleteTask_spec (h : Linked False none s) (real : task ≠ rtLinuxTask)
    (msgs : Ring (s.leaveQueue task).queue (.head (.msgQueue task)) (ms.map .queue))
    (rets : Ring (s.leaveQueue task).queue (.head (.retQueue task)) (rs.map .queue))
    (apart : task ∉ ms ∧ task ∉ rs) :
    Ensures (s.deleteTask task) fun s' => Linked False none s' ∧
      ∃ R T, s' = s.left task ms rs R T := by
  unfold deleteTask
  dsimp only
  rw [leaves_eq]
  have h₁ := Linked.leaves h task
  generalize (s.disp.remTimedTask task).timed = T at h₁
  generalize s.disp.ready = R at h₁
  refine .bind (P := fun s' => Linked False (some task) s' ∧ ∃ R T, s' = s.during task
    (released ((SEND.set RPC).set DELAYED) ms s.disp.state) (freed ms s.blockedOn) R T) ?_ ?_
  · have ring : Ring (s.leaveQueue task).queue (.head (.msgQueue task)) (([] ++ ms).map .queue) := msgs
    rw [show (s.during task s.disp.state s.blockedOn R T).queue = (s.leaveQueue task).queue from rfl,
      msgs.next_head]
    exact (releaseQueue_spec h₁ ring (off_apart apart.1) rfl rfl).mono
      fun s' loop => ⟨loop.1, loop.2⟩
  rintro _ ⟨h₂, R, T, rfl⟩
  refine .bind (P := fun s' => Linked False (some task) s' ∧ ∃ R T, s' = s.during task
    (s.wordsLeft ms rs) (freed rs (freed ms s.blockedOn)) R T) ?_ ?_
  · have ring : Ring (s.leaveQueue task).queue (.head (.retQueue task)) (([] ++ rs).map .queue) := rets
    rw [show (s.during task _ _ R T).queue = (s.leaveQueue task).queue from rfl, rets.next_head]
    exact (releaseQueue_spec h₂ ring (off_apart apart.2) rfl rfl).mono
      fun s' loop => ⟨loop.1, loop.2⟩
  rintro _ ⟨h₃, R, T, rfl⟩
  refine .some ⟨h₃.kill real, ?_⟩
  rw [Dispatcher.remReadyTask_eq]
  exact ⟨_, _, rfl⟩

theorem LinuxLast.during {st : Task n → TaskState} (last : LinuxLast s) :
    LinuxLast (s.during task st b R T) := by
  refine ⟨last.priority, ?_⟩
  obtain ⟨S, e⟩ := Linked.leaveQueue_eq s task
  rw [System.during, e]
  exact last.base

theorem deleteTask_total (h : Linked False none s) (last : LinuxLast s)
    (msgs : Ring (s.leaveQueue task).queue (.head (.msgQueue task)) (ms.map .queue))
    (rets : Ring (s.leaveQueue task).queue (.head (.retQueue task)) (rs.map .queue))
    (apart : task ∉ ms ∧ task ∉ rs) : ∃ s', s.deleteTask task = some s' := by
  have h₁ := Linked.leaves h task
  unfold deleteTask
  dsimp only
  rw [leaves_eq]
  generalize (s.disp.remTimedTask task).timed = T at h₁
  generalize s.disp.ready = R at h₁
  have first : Ring (s.leaveQueue task).queue (.head (.msgQueue task)) (([] ++ ms).map .queue) := msgs
  have second : Ring (s.leaveQueue task).queue (.head (.retQueue task)) (([] ++ rs).map .queue) := rets
  obtain ⟨s₁, e₁⟩ := releaseQueue_total h₁ last.during first (off_apart apart.1)
    (show ((SEND.set RPC).set DELAYED).delayed = true from rfl) (ring_short msgs)
  obtain ⟨h₂, R, T, behind⟩ := releaseQueue_spec h₁ first (off_apart apart.1) rfl rfl _ e₁
  obtain rfl : s₁ = s.during task (released ((SEND.set RPC).set DELAYED) ms s.disp.state)
    (freed ms s.blockedOn) R T := behind
  obtain ⟨s₂, e₂⟩ := releaseQueue_total h₂ last.during second (off_apart apart.2)
    (show (RETURN.set DELAYED).delayed = true from rfl) (ring_short rets)
  rw [← msgs.next_head] at e₁
  rw [← rets.next_head] at e₂
  refine ⟨_, Option.bind_eq_some_iff.mpr ⟨_, e₁, Option.bind_eq_some_iff.mpr ⟨_, e₂, rfl⟩⟩⟩

/-! ## What it is for -/

/-- The state word of a task that is `READY`, or would be if it were not suspended. -/
def Unblocked (st : TaskState) : Prop := st = READY ∨ st = SUSPENDED.set READY

/-- The task `t` sends to `task` or waits for its return. -/
def awaits (s : System n) (task t : Task n) : Prop :=
  s.disp.magic t = true ∧ t ≠ task ∧
    ((s.state t).send = true ∨ (s.state t).rpc = true ∨ (s.state t).ret = true) ∧
    s.msgQueueTask t = some task

instance (st : TaskState) : Decidable (Unblocked st) := inferInstanceAs (Decidable (_ ∨ _))

instance (s : System n) (task t : Task n) : Decidable (s.awaits task t) :=
  inferInstanceAs (Decidable (_ ∧ _))

/-- The task is deleted. -/
structure TaskDeleted (task : Task n) (s s' : System n) : Prop where
  /-- The lists are right, and the task is on neither. -/
  ready : ReadyIs s'.disp.ready fun t => t ≠ task ∧ s'.state t = READY
  timed : TimedIs False s'.disp.timed s'.disp.resumeTime fun t =>
    t ≠ task ∧ (s'.state t).delayed = true
  /-- It is on the queue of no semaphore and of no task. -/
  queues : ∀ q, s'.inUse q →
    ∃ ts : List (Task n), Ring s'.queue (.head q) (ts.map .queue) ∧ task ∉ ts
  semaphores : ∀ sem, (s'.sem sem).magic = true → (s'.sem sem).owndby ≠ some task
  mailboxes : ∀ b, (s'.mbx b).magic = true →
    (s'.mbx b).waitingTask ≠ some task ∧ (s'.mbx b).owndby ≠ some task
  priorities : ∀ t, s'.disp.magic t = true → s'.prioPassedTo t ≠ some task
  /-- Who waited for it is no longer blocked, and its call returns `NULL`. -/
  callers : ∀ t, s.awaits task t → Unblocked (s'.state t) ∧
    ∀ (s₂ : System n) (c : Clock) (f : Frame n) (fs : List (Frame n)), s₂.current = t →
      s₂.stack t = s'.stack t → s'.stack t = f :: fs → f.aim = .send task ∨ f.aim = .rpc task →
      s₂.msgQueueTask t = s'.msgQueueTask t →
      ∃ s₃, step (.resume c) s₂ = some s₃ ∧ s₃.retval t = .task none

/-- The task is on the `msg_queue` or the `ret_queue` of the other one and waits for nothing
else. -/
def onQueueOf (s : System n) (task t : Task n) : Prop :=
  s.blockedOn t = some (.msgQueue task) ∧ Unblocked ((s.state t).clear ((SEND.set RPC).set DELAYED)) ∨
    s.blockedOn t = some (.retQueue task) ∧ Unblocked ((s.state t).clear (RETURN.set DELAYED))

instance (s : System n) (task t : Task n) : Decidable (s.onQueueOf task t) :=
  inferInstanceAs (Decidable (_ ∨ _))

/-- What `rt_task_delete` does not look at does not refer to the task. -/
structure Unreferenced (task : Task n) (s : System n) : Prop where
  semaphores : ∀ sem, (s.sem sem).magic = true → (s.sem sem).owndby ≠ some task
  mailboxes : ∀ b, (s.mbx b).magic = true →
    (s.mbx b).waitingTask ≠ some task ∧ (s.mbx b).owndby ≠ some task
  priorities : ∀ t, t ≠ task → s.disp.magic t = true → s.prioPassedTo t ≠ some task
  callers : ∀ t, s.awaits task t → s.onQueueOf task t

/-- A send or call whose partner did not answer. -/
theorem resume_null {f : Frame n} {fs : List (Frame n)} (stack : s.stack s.current = f :: fs)
    (aim : f.aim = .send task ∨ f.aim = .rpc task) (partner : s.msgQueueTask s.current = some task)
    (other : task ≠ s.current) :
    ∃ s', step (.resume c) s = some s' ∧ s'.retval s.current = .task none := by
  have silent : ¬s.pop.msgQueueTask s.pop.current = some s.pop.current :=
    fun e => other (Option.some.inj (partner.symm.trans e))
  have goes : step (.resume c) s = s.pop.proceed c f := by rw [step, stack]
  rw [goes]
  cases f with
  | rtSend r msg =>
      refine ⟨_, rfl, ?_⟩
      rw [rtSendRest, if_neg silent]
      exact update_self _ _ _
  | rtSendUntil r msg =>
      refine ⟨_, rfl, ?_⟩
      rw [rtSendUntilRest, if_neg silent]
      exact update_self _ _ _
  | rtRpc r toDo =>
      refine ⟨_, rfl, ?_⟩
      rw [rtRpcRest, if_neg silent]
      exact update_self _ _ _
  | rtRpcUntil r toDo =>
      refine ⟨_, rfl, ?_⟩
      rw [rtRpcUntilRest, if_neg silent]
      exact update_self _ _ _
  | _ => rcases aim with e | e <;> cases e

/-- Behind the loops a caller is not blocked if it was on one of the queues. -/
theorem unblocked_iff (awaits : s.awaits task t) (msgs : t ∈ ms ↔ s.blockedOn t = some (.msgQueue task))
    (rets : t ∈ rs ↔ s.blockedOn t = some (.retQueue task)) :
    Unblocked (s.wordsLeft ms rs t) ↔ s.onQueueOf task t := by
  obtain ⟨-, -, waits, -⟩ := awaits
  unfold wordsLeft released onQueueOf
  by_cases msg : s.blockedOn t = some (.msgQueue task)
  · simp [msgs, rets, msg]
  by_cases ret : s.blockedOn t = some (.retQueue task)
  · simp [msgs, rets, ret]
  have stays : ¬Unblocked (s.state t) := by
    rintro (e | e)
    · rw [e] at waits
      exact absurd waits (by decide)
    · rw [e] at waits
      exact absurd waits (by decide)
  simpa [msgs, rets, msg, ret] using stays

/-- A semaphore keeps its `magic` and its owner when a task leaves its queue. -/
theorem leaveQueue_owndby (s : System n) (task : Task n) (sem : SemId) :
    ((s.leaveQueue task).sem sem).magic = (s.sem sem).magic ∧
      ((s.leaveQueue task).sem sem).owndby = (s.sem sem).owndby := by
  rcases leaveQueue_sem s task with ⟨same, -⟩ | ⟨S, -, changed⟩
  · rw [same]
    exact ⟨rfl, rfl⟩
  · rw [changed]
    by_cases e : sem = S
    · subst e
      rw [update_self]
      exact ⟨rfl, rfl⟩
    · rw [update_of_ne e]
      exact ⟨rfl, rfl⟩

/-- The fields that `rt_task_delete` leaves alone. -/
theorem left_same : (s.left task ms rs R T).mbx = s.mbx ∧
    (s.left task ms rs R T).prioPassedTo = s.prioPassedTo ∧
    (s.left task ms rs R T).msgQueueTask = s.msgQueueTask := by
  obtain ⟨S, e⟩ := Linked.leaveQueue_eq s task
  rw [left, e]
  exact ⟨rfl, rfl, rfl⟩

theorem left_inUse (used : (s.left task ms rs R T).inUse q) : s.inUse q := by
  cases q with
  | sem sem => exact (leaveQueue_owndby s task sem).1.symm.trans used
  | msgQueue r | retQueue r =>
      by_cases e : r = task
      · subst e
        exact absurd ((update_self _ _ _).symm.trans used) Bool.false_ne_true
      · exact (update_of_ne e _ _).symm.trans used

theorem taskDeleted_iff (ok : Ok False s) (right : QueuesRight s)
    (live : s.disp.magic task = true) (done : s.deleteTask task = some s') :
    TaskDeleted task s s' ↔ Unreferenced task s := by
  have real := ok.lists.realTime live
  obtain ⟨ms, msgs, onMsgs⟩ := right.leaveQueue (q := .msgQueue task) live live
  obtain ⟨rs, rets, onRets⟩ := right.leaveQueue (q := .retQueue task) live live
  have apart : task ∉ ms ∧ task ∉ rs :=
    ⟨fun m => ((onMsgs task).mp m).1 rfl, fun m => ((onRets task).mp m).1 rfl⟩
  obtain ⟨linked, R, T, rfl⟩ := deleteTask_spec ok.toLinked real msgs rets apart _ done
  obtain ⟨mbx, passed, partner⟩ : (s.left task ms rs R T).mbx = s.mbx ∧
      (s.left task ms rs R T).prioPassedTo = s.prioPassedTo ∧
      (s.left task ms rs R T).msgQueueTask = s.msgQueueTask := left_same
  have word : ∀ t, t ≠ task → (s.left task ms rs R T).state t = s.wordsLeft ms rs t :=
    fun t ht => update_of_ne ht _ _
  have unblocked : ∀ t, s.awaits task t →
      (Unblocked ((s.left task ms rs R T).state t) ↔ s.onQueueOf task t) := by
    intro t awaits
    obtain ⟨magic, other, -, -⟩ := id awaits
    rw [word t other]
    refine unblocked_iff awaits ?_ ?_
    · rw [onMsgs]
      exact ⟨fun h => h.2.2, fun h => ⟨other, magic, h⟩⟩
    · rw [onRets]
      exact ⟨fun h => h.2.2, fun h => ⟨other, magic, h⟩⟩
  have dead : (s.left task ms rs R T).state task = DEAD := update_self _ _ _
  constructor
  · intro h
    refine ⟨fun sem magic own => ?_, fun b magic => ?_, fun t ht magic => ?_, fun t awaits => ?_⟩
    · have same := leaveQueue_owndby s task sem
      exact h.semaphores sem (same.1.trans magic) (same.2.trans own)
    · have apart := h.mailboxes b
      rw [mbx] at apart
      exact apart magic
    · have apart := h.priorities t ((update_of_ne ht _ _).trans magic)
      rwa [passed] at apart
    · exact (unblocked t awaits).mp (h.callers t awaits).1
  · intro h
    refine ⟨?_, ?_, fun q used => ?_, fun sem magic own => ?_, fun b magic => ?_, fun t magic => ?_,
      fun t awaits => ⟨(unblocked t awaits).mpr (h.callers t awaits), ?_⟩⟩
    · refine linked.lists.ready.congr fun t => ⟨fun ready => ⟨?_, ready⟩, fun h => h.2⟩
      rintro rfl
      exact absurd (dead.symm.trans ready) (by decide)
    · refine linked.lists.timed.congr (fun t => ?_) fun _ _ => rfl
      refine ⟨fun delayed => ⟨?_, delayed.1⟩, fun delayed => ⟨delayed.2, by simp⟩⟩
      rintro rfl
      have bit : DEAD.delayed = true := dead ▸ delayed.1
      exact absurd bit (by decide)
    · obtain ⟨ts, ring, mem⟩ := right.leaveQueue live (left_inUse used)
      exact ⟨ts, ring, fun m => ((mem task).mp m).1 rfl⟩
    · have same := leaveQueue_owndby s task sem
      exact h.semaphores sem (same.1.symm.trans magic) (same.2.symm.trans own)
    · rw [mbx] at magic ⊢
      exact h.mailboxes b magic
    · rw [passed]
      have other : t ≠ task := by
        rintro rfl
        exact Bool.false_ne_true ((update_self _ _ _).symm.trans magic)
      exact h.priorities t other ((update_of_ne other _ _).symm.trans magic)
    · intro s₂ c f fs current top frames aim same
      obtain ⟨-, other, -, waits⟩ := awaits
      subst current
      rw [partner, waits] at same
      exact resume_null (top.trans frames) aim same (Ne.symm other)

/-- A deletion leaves nothing behind if and only if what it does not look at does not refer to
the task. -/
theorem task_deleted (ok : Ok False s) (right : QueuesRight s) (live : s.disp.magic task = true) :
    (∀ s', s.deleteTask task = some s' → (TaskDeleted task s s' ↔ Unreferenced task s)) ∧
      (LinuxLast s → ∃ s', s.deleteTask task = some s') := by
  refine ⟨fun s' done => taskDeleted_iff ok right live done, fun last => ?_⟩
  obtain ⟨ms, msgs, onMsgs⟩ := right.leaveQueue (q := .msgQueue task) live live
  obtain ⟨rs, rets, onRets⟩ := right.leaveQueue (q := .retQueue task) live live
  exact deleteTask_total ok.toLinked last msgs rets
    ⟨fun m => ((onMsgs task).mp m).1 rfl, fun m => ((onRets task).mp m).1 rfl⟩

/-! ## Runs without timed messages -/

/-- A service that waits for a message or its answer without a time. -/
def untimed : Op n → Bool
  | .send _ _ | .rpc _ _ | .receive _ => true
  | _ => false

/-- Tasks are created and started, and exchange messages without a time. -/
def ofUntimed (s : System n) : Event n → Bool
  | .call op _ => s.starts op || untimed op
  | .resume _ | .timer _ => true

/-- The states of such a run. -/
structure Untimed (s : System n) : Prop where
  messaging : Messaging s
  waits : Waits True s
  frames : ∀ t, ∀ f ∈ s.stack t, f.timed = false
  linux : s.stack rtLinuxTask = []
  /-- No semaphore and no mailbox is in use. -/
  unused : (∀ sem, (s.sem sem).magic = false) ∧ ∀ b, (s.mbx b).magic = false

variable {op : Op n} {e : Event n} {s₁ : System n}

theorem ofUntimed_messages (guard : s.ofUntimed e = true) : s.ofMessages e = true := by
  cases e with
  | call op c =>
      rcases Bool.or_eq_true_iff.mp guard with starts | plain
      · exact Bool.or_eq_true_iff.mpr (.inl starts)
      · cases op with
        | send | rpc | receive => simp [ofMessages, Op.messages, namesOther, Op.timedPartner]
        | _ => cases plain
  | resume c | timer c => rfl

/-- A call that exchanges a message. -/
theorem MsgCall.plain (moves : MsgCall s op s₁) (plain : untimed op = true) :
    s₁.sem = s.sem ∧ s₁.mbx = s.mbx ∧ (s₁.stack = s.stack ∨ ∃ f, f.timed = false ∧
      s₁.stack = update s.stack s.current (f :: s.stack s.current)) := by
  cases moves with
  | refuse => exact ⟨rfl, rfl, .inl rfl⟩
  | deliver call | queueSend call =>
      refine ⟨rfl, rfl, .inr ⟨_, ?_, rfl⟩⟩
      cases call with
      | send => rfl
      | _ => cases plain
  | directRpc call | queueRpc call =>
      refine ⟨rfl, rfl, .inr ⟨_, ?_, rfl⟩⟩
      cases call with
      | rpc => rfl
      | _ => cases plain
  | takeSend | takeRpc | listens => exact ⟨rfl, rfl, .inr ⟨_, rfl, rfl⟩⟩
  | replies | lateSend | lateReceive => cases plain

namespace Untimed

/-- A call. -/
theorem call (h : Untimed s) (guard : (s.starts op || untimed op) = true)
    (stepped : System.step (.call op c) s = some s') : Untimed s' := by
  have messaging : Messaging s' := h.messaging.step (e := .call op c)
    (ofUntimed_messages (s := s) (e := .call op c) guard) stepped
  obtain ⟨idle, admits, called⟩ := step_call stepped
  have running : s.disp.state s.current = READY := h.messaging.ok.running
  rcases Bool.or_eq_true_iff.mp guard with starts | plain
  · obtain ⟨s₁, moves, hs⟩ := h.messaging.start_moves starts admits called
    have kind : (∀ task, op ≠ .taskSuspend task) ∧ ∀ t, op ≠ .taskDelete t := by
      constructor <;> (intro t e; subst e; cases starts)
    have dead : ∀ t, s.disp.magic t = false → s.stack t = [] := by
      intro t off
      by_cases e : t = rtLinuxTask
      · rw [e, h.linux]
      · have phase := h.messaging.phased t
        rw [h.messaging.ok.lists.dead t e off] at phase
        exact phase.of_dead
    have waits : Waits True s₁ := by
      refine h.waits.taskCall moves (fun t e _ => ?_) kind dead
      subst e
      simpa [System.starts] using starts
    have same : ∀ t, ∀ f ∈ s₁.stack t, f ∈ s.stack t := fun t f hf => starts_stack starts moves hf
    have unused : s₁.sem = s.sem ∧ s₁.mbx = s.mbx := by
      cases moves with
      | refuse | init | resumeLater | resume => exact ⟨rfl, rfl⟩
      | _ => cases starts
    obtain ⟨d, rfl, -⟩ := id hs.woken
    refine ⟨messaging, waits.scheduled hs, fun t f hf => h.frames t f (same t f hf), ?_, ?_⟩
    · refine List.eq_nil_iff_forall_not_mem.mpr fun f hf => ?_
      have old := same _ f hf
      rw [h.linux] at old
      cases old
    · show (∀ sem, (s₁.sem sem).magic = false) ∧ ∀ b, (s₁.mbx b).magic = false
      rw [unused.1, unused.2]
      exact h.unused
  · have message : op.messages = true ∧ op.waits = true ∧ op.timedPartner = none := by
      cases op with
      | send | rpc | receive => exact ⟨rfl, rfl, rfl⟩
      | _ => cases plain
    have real : s.current ≠ rtLinuxTask := admits_waits admits message.2.1
    obtain ⟨s₁, moves, hs⟩ := h.messaging.ok.message_moves message.1 admits s' called
    have waits : Waits True s₁ := by
      refine h.waits.msgCall running idle moves (fun e => ?_) fun t result e => ?_
      · rw [message.2.2] at e
        cases e
      · subst e
        cases plain
    obtain ⟨sems, mbxs, stack⟩ := moves.plain plain
    obtain ⟨d, rfl, -⟩ := id hs.woken
    refine ⟨messaging, waits.scheduled hs, fun t f hf => ?_, ?_, ?_⟩
    · have hf : f ∈ s₁.stack t := hf
      rcases stack with same | ⟨f', timed, pushed⟩
      · rw [same] at hf
        exact h.frames t f hf
      · rw [pushed] at hf
        by_cases e : t = s.current
        · rw [e, update_self, idle, List.mem_singleton] at hf
          rw [hf, timed]
        · rw [update_of_ne e] at hf
          exact h.frames t f hf
    · show s₁.stack rtLinuxTask = []
      rcases stack with same | ⟨f', -, pushed⟩
      · rw [same, h.linux]
      · rw [pushed, update_of_ne (Ne.symm real), h.linux]
    · show (∀ sem, (s₁.sem sem).magic = false) ∧ ∀ b, (s₁.mbx b).magic = false
      rw [sems, mbxs]
      exact h.unused

theorem step (h : Untimed s) (guard : s.ofUntimed e = true) (stepped : System.step e s = some s') :
    Untimed s' := by
  have messaging := h.messaging.step (ofUntimed_messages guard) stepped
  cases e with
  | call op c => exact h.call guard stepped
  | resume c =>
      obtain ⟨f, fs, stack, goes⟩ := step_resume stepped
      obtain rfl := h.messaging.single stack
      have message := h.messaging.frames s.current f (by simp [stack])
      have waits := h.waits.messageRest h.messaging.ok.running stack message (fun timed => by
        rw [h.frames s.current f (by simp [stack])] at timed
        cases timed) s' goes
      obtain ⟨P, Q, rfl⟩ := h.messaging.rest stack message goes
      refine ⟨messaging, waits, fun t f' hf => ?_, ?_, h.unused⟩
      · by_cases e : t = s.current
        · simp [e, stack] at hf
        · exact h.frames t f' (by simpa [e] using hf)
      · have real : rtLinuxTask ≠ s.current := by
          intro e
          rw [← e, h.linux] at stack
          cases stack
        simpa [real] using h.linux
  | timer c =>
      obtain ⟨-, d, handled, rfl⟩ := step_timer stepped
      exact ⟨messaging, h.waits.woken (h.messaging.ok.lists.rtTimerHandler c d handled).2.1,
        h.frames, h.linux, h.unused⟩

/-- The queues are right in such a run. -/
theorem queuesRight (h : Untimed s) : QueuesRight s := by
  intro q _
  obtain ⟨ts, ring, -, mem⟩ := h.waits.queues.tasks q
  refine ⟨ts, ring, fun t => (mem t).trans ?_⟩
  rw [h.messaging.phased.waitsOn_eq]
  refine ⟨fun blocked => ⟨?_, blocked⟩, And.right⟩
  have waits : s.waitsOn t = some q := by
    rw [h.messaging.phased.waitsOn_eq]
    exact blocked
  have busy := (waitsOn_some waits).1
  refine h.messaging.ok.lists.magic (fun e => busy (e ▸ h.linux)) fun dead => ?_
  have phase := h.messaging.phased t
  rw [dead] at phase
  exact busy phase.of_dead

end Untimed

theorem boot_untimed (n : Nat) (timer : Timer) : Untimed (boot n timer) := by
  refine ⟨⟨boot_ok n timer False, boot_phased n timer True, fun t f hf => ?_⟩,
    boot_waits n timer True, fun t f hf => ?_, rfl, fun _ => rfl, fun _ => rfl⟩
  · cases hf
  · cases hf

theorem untimed_of_run {timer : Timer} {tr : List (Record (System n) (Event n))}
    (r : Run System.step (fun s e => s.ofUntimed e = true) (boot n timer) tr s) : Untimed s :=
  r.invariant (boot_untimed n timer) fun {_ _ _} h guard stepped => h.step guard stepped

/-- A task is deleted while another one sends to it. -/
theorem task_deleted_sender : ∃ tr s s',
    Run System.step (fun s e => s.ofUntimed e = true) (boot 2 {}) tr s ∧
    (∃ t, s.awaits 1 t) ∧ s.deleteTask 1 = some s' ∧ TaskDeleted 1 s s' := by
  let c : Clock := {}
  obtain ⟨tr, s, r, test⟩ := Run.of_execute System.step (fun s e => s.ofUntimed e = true) (boot 2 {})
    [.call (.taskInit 1 6 true) c, .call (.taskInit 2 5 true) c, .call (.taskResume 1) c,
      .call (.taskResume 2) c, .call (.send 1 7) c]
    (fun s => s.disp.magic 1 = true ∧ (∃ t, s.awaits 1 t) ∧ (∀ t, s.prioPassedTo t ≠ some 1) ∧
      (∀ t, s.awaits 1 t → s.onQueueOf 1 t) ∧
      (∀ t, t ≠ rtLinuxTask → s.priority t < s.priority rtLinuxTask) ∧
      ∀ t, t ≠ rtLinuxTask → s.basePriority t < s.priority rtLinuxTask)
    (by decide +kernel)
  simp only [decide_eq_true_eq] at test
  obtain ⟨live, waits, passed, callers, priority, base⟩ := test
  have untimed := untimed_of_run r
  obtain ⟨iff, total⟩ := task_deleted untimed.messaging.ok untimed.queuesRight live
  obtain ⟨s', done⟩ := total ⟨priority, base⟩
  refine ⟨tr, s, s', r, waits, done, (iff s' done).mpr ⟨?_, ?_, fun t _ _ => passed t, callers⟩⟩
  · intro sem magic
    exact absurd ((untimed.unused.1 sem).symm.trans magic) Bool.false_ne_true
  · intro b magic
    exact absurd ((untimed.unused.2 b).symm.trans magic) Bool.false_ne_true

/-- A caller keeps `prio_passed_to` when the task it called is deleted. -/
theorem task_deleted_prio_passed :
    ¬∀ (n : Nat) (timer : Timer) (tr : List (Record (System n) (Event n))) (s s' : System n)
      (task : Task n), Run System.step (fun s e => s.ofUntimed e = true) (boot n timer) tr s →
      s.deletable task = true → s.owndres task &&& SEMHLF = 0 → s.deleteTask task = some s' →
      TaskDeleted task s s' := by
  intro h
  let c : Clock := {}
  obtain ⟨tr, s, r, test⟩ := Run.of_execute System.step (fun s e => s.ofUntimed e = true) (boot 2 {})
    [.call (.taskInit 1 6 true) c, .call (.taskInit 2 5 true) c, .call (.taskResume 1) c,
      .call (.taskResume 2) c, .call (.rpc 1 7) c]
    (fun s => s.deletable 1 = true ∧ s.owndres 1 &&& SEMHLF = 0 ∧ (s.deleteTask 1).any fun s' =>
      s'.disp.magic 2 = true ∧ s'.prioPassedTo 2 = some 1)
    (by decide +kernel)
  simp only [decide_eq_true_eq] at test
  obtain ⟨deletable, free, test⟩ := test
  obtain ⟨s', done, kept⟩ := (Option.any_eq_true _ _).mp test
  simp only [decide_eq_true_eq] at kept
  exact (h 2 {} tr s s' 1 r deletable free done).priorities 2 kept.1 kept.2

end System

end Rtai.Up
