import Rtai.Up.Phases

/-!
# The queues tasks wait on

`Waits` adds to the phases of the tasks that the queues hold the tasks that wait
on them, those whose time is out included.  Between its services a task waits on
nothing, whatever its `blocked_on` is.
-/

namespace Rtai.Up

open Function Rtai.Lib

variable {n : Nat}

namespace System

/-- The queue a task waits on. -/
def waitsOn (s : System n) (t : Task n) : Option (Queue n) :=
  if s.stack t = [] then none else s.blockedOn t

/-- The structure a queue belongs to is in use. -/
def inUse (s : System n) : Queue n → Prop
  | .sem sem => (s.sem sem).magic = true
  | .msgQueue r | .retQueue r => s.disp.magic r = true

/-- Every task is in a phase, and on the queue it waits on. -/
structure Waits (tidy : Prop) (s : System n) : Prop where
  phased : Phased tidy s
  queues : OnQueues s.queue s.waitsOn
  inUse : ∀ t q, s.waitsOn t = some q → s.inUse q

variable {s s₁ s' : System n} {t r : Task n} {tidy ordered : Prop} {sem : SemId} {c : Clock}
  {q : Queue n}

theorem waitsOn_idle (h : s.stack t = []) : s.waitsOn t = none := if_pos h

theorem waitsOn_busy (h : s.stack t ≠ []) : s.waitsOn t = s.blockedOn t := if_neg h

/-- A task that waits on a queue is in a service. -/
theorem waitsOn_some (h : s.waitsOn t = some q) : s.stack t ≠ [] ∧ s.blockedOn t = some q := by
  by_cases e : s.stack t = []
  · rw [waitsOn_idle e] at h
    cases h
  · rw [waitsOn_busy e] at h
    exact ⟨e, h⟩

/-- The current task blocks on a queue. -/
theorem waitsOn_blocks (stack : ∀ t, t ≠ s.current → s₁.stack t = s.stack t)
    (busy : s₁.stack s.current ≠ [])
    (blocked : s₁.blockedOn = update s.blockedOn s.current (some q)) :
    s₁.waitsOn = update s.waitsOn s.current (some q) := by
  funext t
  by_cases e : t = s.current
  · rw [e, waitsOn_busy busy, blocked, update_self, update_self]
  · rw [waitsOn, stack t e, blocked, update_of_ne e, update_of_ne e, waitsOn]

/-- A task leaves the queue it waits on, or its service. -/
theorem waitsOn_leaves (stack : ∀ u, u ≠ t → s₁.stack u = s.stack u)
    (blocked : ∀ u, u ≠ t → s₁.blockedOn u = s.blockedOn u)
    (clear : s₁.stack t = [] ∨ s₁.blockedOn t = none) :
    s₁.waitsOn = update s.waitsOn t none := by
  funext u
  by_cases e : u = t
  · rw [e, update_self, waitsOn]
    rcases clear with e | e
    · rw [if_pos e]
    · rw [e, ite_self]
  · rw [waitsOn, stack u e, blocked u e, update_of_ne e, waitsOn]

/-- A task that waits on nothing leaves nothing. -/
theorem waitsOn_stays (h : s.waitsOn t = none) : update s.waitsOn t none = s.waitsOn := by
  rw [← h, update_eq_self]

namespace Phased

/-- A task that is blocked and not `READY` waits on the queue it is blocked on. -/
theorem waitsOn_blocked (h : Phased tidy s) (waits : s.disp.state t ≠ READY)
    (blocked : s.blockedOn t = some q) : s.waitsOn t = some q := by
  by_cases e : s.stack t = []
  · have phase := h t
    rw [e, blocked] at phase
    cases phase.of_nil (.inr waits)
  · rw [waitsOn_busy e, blocked]

/-- If every wait leaves `blocked_on` clear, it is the queue a task waits on. -/
theorem waitsOn_eq (h : Phased True s) : s.waitsOn = s.blockedOn := by
  funext t
  by_cases e : s.stack t = []
  · have phase := h t
    rw [e] at phase
    rw [waitsOn_idle e, phase.of_nil (.inl trivial)]
  · exact waitsOn_busy e

end Phased

/-- What is in use stays in use. -/
def KeepsUse (s s₁ : System n) : Prop :=
  (∀ sem, (s.sem sem).magic = true → (s₁.sem sem).magic = true) ∧
    ∀ r, s.disp.magic r = true → s₁.disp.magic r = true

theorem KeepsUse.inUse (h : KeepsUse s s₁) (live : s.inUse q) : s₁.inUse q := by
  cases q with
  | sem sem => exact h.1 sem live
  | msgQueue r | retQueue r => exact h.2 r live

/-- A change of a semaphore that keeps its `magic`. -/
theorem magic_update {S : SemId → Sem n} {v : Sem n} (hv : v.magic = (S sem).magic)
    (sem' : SemId) : (update S sem v sem').magic = (S sem').magic := by
  by_cases e : sem' = sem
  · subst e
    rw [update_self, hv]
  · rw [update_of_ne e]

namespace Waits

/-- Expiries. -/
theorem woken {d : Dispatcher n} {now : RTIME} (h : Waits tidy s) (woken : s.disp.Woken now d) :
    Waits tidy { s with disp := d } := by
  have use : KeepsUse s { s with disp := d } :=
    ⟨fun _ live => live, fun r live => (congrFun woken.magic r).trans live⟩
  exact ⟨h.phased.woken woken, h.queues, fun t q hq => use.inUse (h.inUse t q hq)⟩

theorem scheduled (h : Waits tidy s₁) (hs : Scheduled ordered c s₁ s') : Waits tidy s' := by
  obtain ⟨d, rfl, woken⟩ := hs.woken
  exact h.woken woken

section

variable (h : Waits tidy s)
include h

/-- A step that leaves the queues and who waits on them alone. -/
theorem same (phased : Phased tidy s₁) (queue : s₁.queue = s.queue)
    (waits : ∀ t, s₁.waitsOn t = s.waitsOn t) (use : KeepsUse s s₁) : Waits tidy s₁ := by
  refine ⟨phased, ?_, fun t q hq => ?_⟩
  · rw [queue]
    exact h.queues.congr waits
  · rw [waits] at hq
    exact use.inUse (h.inUse t q hq)

theorem taskOf_sem (first : s.taskOf (s.queue.next (.head (.sem sem))) = some t) :
    s.blockedOn t = some (.sem sem) ∧ s.stack t ≠ [] := by
  rcases h.queues.first (.sem sem) with e | ⟨u, e, hu⟩
  · rw [e] at first
    cases first
  · rw [e] at first
    cases first
    exact (waitsOn_some hu).symm

theorem nobody (none : s.taskOf (s.queue.next (.head (.sem sem))) = none) (t : Task n) :
    s.waitsOn t ≠ some (.sem sem) := by
  rcases h.queues.first (.sem sem) with e | ⟨u, e, hu⟩
  · exact h.queues.empty e t
  · rw [e] at none
    cases none

/-! ## Semaphores -/

theorem takeSem {count : Int} : Waits tidy (s.takeSem sem count) := by
  have phased : Phased tidy (s.takeSem sem count) := h.phased.takeSem
  rw [Phased.takeSem_eq] at phased ⊢
  refine h.same phased rfl (fun _ => rfl) ⟨fun sem' live => ?_, fun _ live => live⟩
  show ((if (s.sem sem).type > 0 then _ else s.sem) sem').magic = true
  split
  · exact (magic_update (by rfl) sem').trans live
  · exact live

/-- The current task blocks on a queue. -/
theorem blocks (phased : Phased tidy s₁)
    (queue : OnQueues s₁.queue (update s.waitsOn s.current (some q)))
    (stack : ∀ t, t ≠ s.current → s₁.stack t = s.stack t) (busy : s₁.stack s.current ≠ [])
    (blocked : s₁.blockedOn = update s.blockedOn s.current (some q)) (use : KeepsUse s s₁)
    (live : s₁.inUse q) : Waits tidy s₁ := by
  have waits := waitsOn_blocks stack busy blocked
  refine ⟨phased, queue.congr (congrFun waits), fun t q' hq => ?_⟩
  rw [waits] at hq
  by_cases e : t = s.current
  · subst e
    rw [update_self] at hq
    cases hq
    exact live
  · rw [update_of_ne e] at hq
    exact use.inUse (h.inUse t q' hq)

/-- A task leaves the queue it waits on. -/
theorem leaves (waits : s.waitsOn t = some q) (phased : Phased tidy s₁)
    (queue : s₁.queue = s.queue.unlink (.queue t)) (stack : ∀ u, u ≠ t → s₁.stack u = s.stack u)
    (blocked : ∀ u, u ≠ t → s₁.blockedOn u = s.blockedOn u)
    (clear : s₁.stack t = [] ∨ s₁.blockedOn t = none) (use : KeepsUse s s₁) : Waits tidy s₁ := by
  have waits₁ := waitsOn_leaves stack blocked clear
  refine ⟨phased, ?_, fun u q' hq => ?_⟩
  · rw [queue]
    exact (h.queues.dequeue waits).congr (congrFun waits₁)
  · rw [waits₁] at hq
    by_cases e : u = t
    · subst e
      rw [update_self] at hq
      cases hq
    · rw [update_of_ne e] at hq
      exact use.inUse (h.inUse u q' hq)

end

/-- A timed wait whose time is out takes the caller off the queue and its wait
off the count. -/
theorem rtSemWaitUntilRest_timedOut (magic : (s.sem sem).magic = true)
    (blocked : s.blockedOn s.current = some q) : s.rtSemWaitUntilRest sem =
      ((s.dequeueBlocked s.current).setCount sem (if (s.sem sem).count + 1 > 1 ∧
        (s.sem sem).type ≠ 0 then 1 else (s.sem sem).count + 1)).ret (.int SEM_TIMOUT) := by
  simp [System.rtSemWaitUntilRest, magic, blocked]

theorem rtSemWaitUntilRest_granted (magic : (s.sem sem).magic = true)
    (clear : s.blockedOn s.current = none) :
    s.rtSemWaitUntilRest sem = s.takeSem sem (s.sem sem).count := by
  simp [System.rtSemWaitUntilRest, magic, clear]

variable {f : Frame n} {op : Op n}

section

variable (h : Waits tidy s)
include h

theorem semWait (running : s.disp.state s.current = READY) (idle : s.stack s.current = [])
    (moves : SemWait s sem f s₁)
    (flat : tidy → (s.sem sem).type > 0 → (s.sem sem).owndby = some s.current →
      (s.sem sem).count ≤ 0 → f = .rtSemWait sem) : Waits tidy s₁ := by
  have phased := h.phased.semWait running idle moves flat
  cases moves with
  | refuse magic => exact h.same phased rfl (fun _ => rfl) ⟨fun _ live => live, fun _ live => live⟩
  | nest count type owner eq =>
      have use : ∀ v : Sem n, v.magic = (s.sem sem).magic → ∀ sem', (s.sem sem').magic = true →
          (update s.sem sem v sem').magic = true :=
        fun v hv sem' live => (magic_update hv sem').trans live
      rcases eq with ⟨rfl, rfl⟩ | ⟨rfl, time, future, rfl⟩
      · exact h.same phased rfl (fun _ => rfl) ⟨use _ rfl, fun _ live => live⟩
      · refine h.same phased rfl (fun t => ?_) ⟨use _ rfl, fun _ live => live⟩
        by_cases e : t = s.current
        · subst e
          rw [waitsOn_idle idle]
          exact waitsOn_idle idle
        · have hb : update s.blockedOn s.current (some (.sem sem)) t = s.blockedOn t :=
            update_of_ne e _ _
          show (if s.stack t = [] then none
            else update s.blockedOn s.current (some (.sem sem)) t) = _
          rw [hb, waitsOn]
  | take magic count =>
      have taken : Waits tidy (s.setCount sem ((s.sem sem).count - 1)) :=
        h.same h.phased rfl (fun _ => rfl)
          ⟨fun sem' live => (magic_update (by rfl) sem').trans live, fun _ live => live⟩
      exact taken.takeSem
  | block magic count other frame state blocked queue prio =>
      refine h.blocks phased (queue _ h.queues (fun _ u q hu hq => ?_) (waitsOn_idle idle))
        (fun t ht => update_of_ne ht _ _) (by simp) blocked
        ⟨fun sem' live => (magic_update (by rfl) sem').trans live, fun _ live => live⟩ ?_
      · exact h.phased.waitsOn_blocked hu hq
      · exact (magic_update (by rfl) sem).trans magic
  | @late T hf magic count =>
      have live : ({ ((s.setBlockedOn s.current (some (.sem sem))).setResumeTime T).setCount sem
          ((s.sem sem).count - 1) with queue := s.queue.reset (.queue s.current) }.sem sem).magic =
          true := (magic_update (by rfl) sem).trans magic
      rw [rtSemWaitUntilRest_timedOut live (q := .sem sem) (update_self _ _ _)] at phased ⊢
      have queue : (s.queue.reset (.queue s.current)).unlink (.queue s.current) =
          s.queue.reset (.queue s.current) :=
        OnQueues.unlink_self (by simp [Links.reset]) (by simp [Links.reset])
      have waits : ∀ t, (if s.stack t = [] then none else update (update s.blockedOn s.current
          (some (.sem sem))) s.current none t) = s.waitsOn t := by
        intro t
        by_cases e : t = s.current
        · subst e
          rw [if_pos idle, waitsOn_idle idle]
        · rw [update_of_ne e, update_of_ne e, waitsOn]
      refine ⟨phased, ?_, fun t q hq => ?_⟩
      · show OnQueues ((s.queue.reset (.queue s.current)).unlink (.queue s.current)) _
        rw [queue]
        exact (h.queues.reset (waitsOn_idle idle)).congr waits
      · exact KeepsUse.inUse ⟨fun sem' live => (magic_update (by rfl) sem').trans
          ((magic_update (by rfl) sem').trans live), fun _ live => live⟩
          (h.inUse t q ((waits t).symm.trans hq))

theorem grant {g : System n} (grant : Grant s sem g) : Waits tidy g := by
  have phased := h.phased.grant grant fun t => h.taskOf_sem
  cases grant with
  | nobody none =>
      exact h.same phased rfl (fun _ => rfl)
        ⟨fun sem' live => (magic_update (by rfl) sem').trans live, fun _ live => live⟩
  | @first t L T first =>
      obtain ⟨blocked, busy⟩ := h.taskOf_sem first
      refine h.leaves (t := t) ((waitsOn_busy busy).trans blocked) phased rfl (fun _ _ => rfl)
        (fun u hu => update_of_ne hu _ _) (.inr (update_self _ _ _))
        ⟨fun sem' live => (magic_update (by rfl) sem').trans live, fun _ live => live⟩

theorem rtSemWaitRest (running : s.disp.state s.current = READY)
    (stack : s.stack s.current = [.rtSemWait sem]) : Waits tidy (s.pop.rtSemWaitRest sem) := by
  have phase := h.phased s.current
  rw [stack, running] at phase
  obtain ⟨self, clear | ⟨timed, -⟩⟩ := phase.of_semaphore rfl rfl
  · have popped : Waits tidy s.pop := by
      refine h.same (.leaves (fun u hu => ?_) running (by simp [stack]) self fun _ => clear) rfl
        (fun t => ?_) ⟨fun _ live => live, fun _ live => live⟩
      · have other : u ≠ s.current := hu
        simpa [other] using h.phased u
      · by_cases e : t = s.current
        · subst e
          rw [waitsOn_idle (s := s.pop) (by simp [stack]), waitsOn, clear, ite_self]
        · simp [waitsOn, e]
    unfold System.rtSemWaitRest
    split
    · exact popped.same popped.phased rfl (fun _ => rfl) ⟨fun _ live => live, fun _ live => live⟩
    · exact popped.takeSem
  · cases timed

theorem rtSemWaitUntilRest (running : s.disp.state s.current = READY)
    (stack : s.stack s.current = [.rtSemWaitUntil sem]) :
    Waits tidy (s.pop.rtSemWaitUntilRest sem) := by
  have phase := h.phased s.current
  rw [stack, running] at phase
  have busy : s.stack s.current ≠ [] := by simp [stack]
  have idle : s.pop.stack s.current = [] := by simp [stack]
  obtain ⟨self, wait⟩ := phase.of_semaphore rfl rfl
  have phased : Phased tidy (s.pop.rtSemWaitUntilRest sem) := by
    refine .rtSemWaitUntilRest (fun u hu => ?_) running idle self fun dead _ => ?_
    · have other : u ≠ s.current := hu
      simpa [other] using h.phased u
    · refine wait.resolve_right fun ⟨_, queued⟩ => ?_
      have live := h.inUse s.current _ ((waitsOn_busy busy).trans queued)
      exact absurd (dead.symm.trans live) nofun
  rcases wait with clear | ⟨-, queued⟩
  · have waits : ∀ t, s.pop.waitsOn t = s.waitsOn t := by
      intro t
      by_cases e : t = s.current
      · subst e
        rw [waitsOn_idle idle, waitsOn_busy busy, clear]
      · simp [waitsOn, e]
    unfold System.rtSemWaitUntilRest at phased ⊢
    dsimp only at phased ⊢
    split
    next dead =>
      rw [if_pos dead] at phased
      exact h.same phased rfl waits ⟨fun _ live => live, fun _ live => live⟩
    next live =>
      rw [if_neg live] at phased
      have unqueued : ¬(s.pop.blockedOn s.pop.current).isSome = true := by simp [clear]
      rw [if_neg unqueued] at phased ⊢
      have popped : Waits tidy s.pop := by
        refine h.same ?_ rfl waits ⟨fun _ live => live, fun _ live => live⟩
        rw [Phased.takeSem_eq] at phased
        exact phased
      exact popped.takeSem
  · have live : (s.sem sem).magic = true :=
      h.inUse s.current _ ((waitsOn_busy busy).trans queued)
    rw [rtSemWaitUntilRest_timedOut (s := s.pop) live queued] at phased ⊢
    refine h.leaves ((waitsOn_busy busy).trans queued) phased rfl (fun u hu => ?_) (fun u hu => ?_)
      (.inl idle) ⟨fun sem' live => (magic_update (by rfl) sem').trans live, fun _ live => live⟩
    · exact update_of_ne hu _ _
    · exact update_of_ne hu _ _

/-- A semaphore is initialised: its queue is empty. -/
theorem initSem {value : Int} {type : Nat} (unused : (s.sem sem).magic = false) :
    Waits tidy (s.rtTypedSemInit sem value type) := by
  have nobody : ∀ t, s.waitsOn t ≠ some (.sem sem) := fun t hq => by
    have live : (s.sem sem).magic = true := h.inUse t _ hq
    exact absurd (unused.symm.trans live) nofun
  have use : KeepsUse s (s.rtTypedSemInit sem value type) := by
    refine ⟨fun sem' live => ?_, fun _ live => live⟩
    show (update s.sem sem (typedSem value type) sem').magic = true
    by_cases e : sem' = sem
    · subst e
      rw [update_self]
      rfl
    · rw [update_of_ne e]
      exact live
  exact ⟨h.phased, h.queues.resetHead nobody, fun t q hq => use.inUse (h.inUse t q hq)⟩

/-! ## Tasks -/

theorem taskCall (moves : TaskCall s op s₁)
    (start : ∀ t, op = .taskResume t → s.suspdepth t = 1 → s.disp.state t = SUSPENDED.set READY)
    (kind : (∀ task, op ≠ .taskSuspend task) ∧ ∀ t, op ≠ .taskDelete t)
    (dead : ∀ t, s.disp.magic t = false → s.stack t = []) : Waits tidy s₁ := by
  have phased := h.phased.taskCall moves start kind
  cases moves with
  | refuse | changeBase | resumeLater | resume =>
      exact h.same phased rfl (fun _ => rfl) ⟨fun _ live => live, fun _ live => live⟩
  | @init t prio memory free =>
      have idle := dead t free
      have unused : ∀ q : Queue n, q = .msgQueue t ∨ q = .retQueue t → ∀ u, s.waitsOn u ≠ some q := by
        rintro q (rfl | rfl) u hu <;> exact absurd (free.symm.trans (h.inUse u _ hu)) nofun
      have waits : ∀ u, ((s.initTask t prio).ret (.int 0)).waitsOn u = s.waitsOn u := by
        intro u
        by_cases e : u = t
        · subst e
          rw [waitsOn_idle idle]
          exact waitsOn_idle (update_self _ _ _)
        · simp [waitsOn, initTask, System.ret, e]
      have use : KeepsUse s ((s.initTask t prio).ret (.int 0)) := by
        refine ⟨fun _ live => live, fun r live => ?_⟩
        by_cases e : r = t
        · subst e
          exact update_self _ _ _
        · exact (update_of_ne e _ _).trans live
      refine ⟨phased, ?_, fun u q hq => use.inUse (h.inUse u q ((waits u).symm.trans hq))⟩
      exact (((h.queues.reset (waitsOn_idle idle)).resetHead (unused _ (.inl rfl))).resetHead
        (unused _ (.inr rfl))).congr waits
  | changePrio queue changes passes =>
      refine ⟨phased, queue _ h.queues fun u q hu hq => h.phased.waitsOn_blocked hu hq, ?_⟩
      exact fun u q hq => KeepsUse.inUse ⟨fun _ live => live, fun _ live => live⟩ (h.inUse u q hq)
  | suspendLater | suspend => exact absurd rfl (kind.1 _)
  | deleteLater | delete => exact absurd rfl (kind.2 _)

end

/-! ## Messages -/

/-- Unlinking the node would change nothing. -/
def Detached (s : System n) (t : Task n) : Prop :=
  s.queue.next (s.queue.prev (.queue t)) = s.queue.next (.queue t) ∧
    s.queue.prev (s.queue.next (.queue t)) = s.queue.prev (.queue t)

theorem of_tidy (phased : Phased True s) (queues : OnQueues s.queue s.blockedOn)
    (inUse : ∀ t q, s.blockedOn t = some q → s.inUse q) : Waits True s := by
  rw [← phased.waitsOn_eq] at queues inUse
  exact ⟨phased, queues, inUse⟩

/-- What a task that changes its place waits on is in use. -/
theorem inUse_update {w : Option (Queue n)} {u : Task n}
    (live : ∀ t q, s.blockedOn t = some q → s.inUse q) (hw : ∀ q, w = some q → s.inUse q)
    (hq : update s.blockedOn t w u = some q) : s.inUse q := by
  by_cases e : u = t
  · rw [e, update_self] at hq
    exact hw q hq
  · rw [update_of_ne e] at hq
    exact live u q hq

/-- A task leaves the queue it is blocked on, if it is on one. -/
theorem unlinks (queues : OnQueues s.queue s.blockedOn)
    (attached : s.blockedOn t = none → Detached s t) :
    OnQueues (s.queue.unlink (.queue t)) (update s.blockedOn t none) := by
  cases blocked : s.blockedOn t with
  | none =>
      have closed := attached blocked
      have same : update s.blockedOn t none = s.blockedOn := by
        rw [← blocked, update_eq_self]
      rw [OnQueues.unlink_self closed.1 closed.2, same]
      exact queues
  | some q => exact queues.dequeue blocked

/-- Behind a send that has queued nowhere. -/
theorem rtSendUntilRest_off (s : System n) {r : Task n}
    (next : s.queue.next (.queue s.current) = .queue s.current)
    (prev : s.queue.prev (.queue s.current) = .queue s.current)
    (clear : s.blockedOn s.current = none) : s.rtSendUntilRest r = { s with
      prioPassedTo := if s.exchanged then s.prioPassedTo else update s.prioPassedTo s.current none
      msgQueueTask := update s.msgQueueTask s.current (some s.current)
      retval := update s.retval s.current (.task (if s.exchanged then some r else none)) } := by
  have same : s.queue.unlink (.queue s.current) = s.queue :=
    OnQueues.unlink_self (by rw [prev]) (by rw [next])
  have stays : update s.blockedOn s.current none = s.blockedOn := by
    rw [← clear, update_eq_self]
  rw [rtSendUntilRest_eq, same, stays, ite_self, ite_self]

theorem msgCall (h : Waits True s) (running : s.disp.state s.current = READY)
    (idle : s.stack s.current = []) (moves : MsgCall s op s₁)
    (other : op.timedPartner = some s.current → op.late s.disp.timeH = true)
    (attached : ∀ t result, op = .ret t result → s.blockedOn t = none → Detached s t) :
    Waits True s₁ := by
  have phased := h.phased.msgCall running idle moves other
  have queues : OnQueues s.queue s.blockedOn := h.phased.waitsOn_eq ▸ h.queues
  have live : ∀ t q, s.blockedOn t = some q → s.inUse q := h.phased.waitsOn_eq ▸ h.inUse
  have clear : s.blockedOn s.current = none :=
    congrFun h.phased.waitsOn_eq.symm s.current ▸ waitsOn_idle idle
  cases moves with
  | refuse | deliver | directRpc | listens => exact .of_tidy phased queues live
  | @queueSend _ r msg f R T M Q st call magic busy state blocking early queue =>
      refine .of_tidy phased (queue _ queues clear) fun t q hq => ?_
      exact inUse_update (s := s) live (fun q e => by cases e; exact magic) hq
  | @queueRpc _ r toDo f R T M P Q st call magic busy state blocking early queue prio =>
      refine .of_tidy phased (queue _ queues (fun _ _ _ => id) clear) fun t q hq => ?_
      exact inUse_update (s := s) live (fun q e => by cases e; exact magic) hq
  | @lateSend r msg time magic busy late =>
      have off : OnQueues (s.queue.reset (.queue s.current)) s.blockedOn := queues.reset clear
      rw [rtSendUntilRest_off { (s.setMsgQueueTask s.current (some r)).setResumeTime time with
        queue := s.queue.reset (.queue s.current) } (update_self _ _ _) (update_self _ _ _) clear]
        at phased ⊢
      exact .of_tidy phased off live
  | @replies t result R T p returning client left =>
      refine .of_tidy phased (unlinks queues (attached t result rfl)) fun u q hq => ?_
      exact inUse_update (s := s) live (fun _ e => by cases e) hq
  | @takeSend _ task t R T call first sending send =>
      obtain ⟨f, r, -, -, -, blocked, -⟩ := (h.phased t).of_send send
      refine .of_tidy phased (queues.dequeue blocked) fun u q hq => ?_
      exact inUse_update (s := s) live (fun _ e => by cases e) hq
  | @takeRpc _ task t T Q B call first sending rpc blocked queue =>
      obtain ⟨ready, msg⟩ : (s.disp.state t).rpc = true ∧ s.msgQueueTask t = some s.current := by
        simpa [System.sending, rpc] using sending
      obtain ⟨f, r, -, -, -, waits, msg'⟩ := (h.phased t).of_rpc ready
      obtain rfl : s.current = r := Option.some.inj (msg.symm.trans msg')
      subst blocked
      have moved := queue _ (queues.dequeue waits) (update_self _ _ _)
      rw [update_idem] at moved
      refine .of_tidy phased moved fun u q hq => ?_
      refine inUse_update (s := s) live (fun q e => ?_) hq
      cases e
      exact (live t _ waits : s.inUse (.msgQueue s.current))
  | @lateReceive task t time first nothing =>
      rw [rtReceivedRest_eq] at phased ⊢
      exact .of_tidy phased queues live

/-- The current task goes on behind the `rt_schedule` of a message service.  A
direct call whose time is out has queued nowhere. -/
theorem messageRest (h : Waits True s)
    (running : s.disp.state s.current = READY) (stack : s.stack s.current = [f])
    (message : Phased.messageFrame f = true)
    (attached : f.timed = true → s.blockedOn s.current = none → ¬s.exchanged →
      Detached s s.current) :
    Ensures (s.pop.proceed c f) (Waits True) := by
  have phased := h.phased.messageRest (c := c) running stack message
  have queues : OnQueues s.queue s.blockedOn := h.phased.waitsOn_eq ▸ h.queues
  have live : ∀ t q, s.blockedOn t = some q → s.inUse q := h.phased.waitsOn_eq ▸ h.inUse
  cases f with
  | rtSend r msg =>
      rw [System.proceed, rtSendRest_eq] at phased ⊢
      exact .some (.of_tidy (phased _ rfl) queues live)
  | rtSendUntil r msg =>
      rw [System.proceed, rtSendUntilRest_eq] at phased ⊢
      refine .some (.of_tidy (phased _ rfl) ?_ fun u q hq => ?_)
      · by_cases exchanged : s.exchanged
        · simpa [exchanged] using queues
        · simpa [exchanged] using unlinks queues fun clear => attached rfl clear exchanged
      · by_cases exchanged : s.exchanged
        · exact live u q (by simpa [exchanged] using hq)
        · exact inUse_update (s := s) (w := none) live (fun _ e => by cases e) (by simpa [exchanged] using hq)
  | rtRpc r toDo =>
      rw [System.proceed, rtRpcRest_eq] at phased ⊢
      exact .some (.of_tidy (phased _ rfl) queues live)
  | rtRpcUntil r toDo =>
      rw [System.proceed, rtRpcUntilRest_eq] at phased ⊢
      refine .some (.of_tidy (phased _ rfl) ?_ fun u q hq => ?_)
      · by_cases exchanged : s.exchanged
        · simpa [exchanged] using queues
        · simpa [exchanged] using unlinks queues fun clear => attached rfl clear exchanged
      · by_cases exchanged : s.exchanged
        · exact live u q (by simpa [exchanged] using hq)
        · exact inUse_update (s := s) (w := none) live (fun _ e => by cases e) (by simpa [exchanged] using hq)
  | rtReceive =>
      rw [System.proceed, rtReceiveRest, rtReceivedRest_eq] at phased ⊢
      exact .some (.of_tidy (phased _ rfl) queues live)
  | rtReceived =>
      rw [System.proceed, rtReceivedRest_eq] at phased ⊢
      exact .some (.of_tidy (phased _ rfl) queues live)
  | _ => cases message

end Waits

/-! ## The initial state -/

theorem boot_phased (n : Nat) (timer : Timer) (tidy : Prop) : Phased tidy (boot n timer) := by
  intro t
  by_cases e : t = rtLinuxTask
  · subst e
    have linux : Phase tidy (rtLinuxTask : Task n) [] READY none (some rtLinuxTask) :=
      .runs fun _ => rfl
    simpa [boot] using linux
  · have absent : Phase tidy t [] DEAD none none := .absent
    simpa [boot, e] using absent

theorem boot_waits (n : Nat) (timer : Timer) (tidy : Prop) : Waits tidy (boot n timer) := by
  have none : ∀ t, (boot n timer).waitsOn t = none := fun t => waitsOn_idle rfl
  refine ⟨boot_phased n timer tidy, ⟨fun _ => [], ⟨fun q => ?_, ?_⟩, fun q x => ?_⟩, ?_⟩
  · exact ⟨by simp, rfl, rfl⟩
  · intro q q' x hx hx'
    rw [List.mem_singleton] at hx hx'
    exact QNode.head.inj (hx.symm.trans hx')
  · simp [none]
  · intro t q hq
    cases (none t).symm.trans hq

end System

end Rtai.Up
