import Rtai.Up.Messaging

/-!
# The queues of the message services

Real time tasks exchange messages by any of the services, with a time or without.  In all
states of such a run the queue of a task holds those that wait to send to it or to call it,
and its return queue those whose call it has taken, each once.

A call that finds its callee in a receive queues nowhere.  `rt_return` unlinks the caller all
the same, and so does the caller when its time is out.  Its node then has the links it had
when it last left a queue, and must not have come between others that are queued now.
-/

namespace Rtai.Up

open Function Rtai.Lib

variable {n : Nat}

theorem Phase.of_blocked {t : Task n} {stack : List (Frame n)} {st : TaskState} {q : Queue n}
    {m : Option (Task n)} (h : Phase True t stack st (some q) m)
    (message : ∀ f ∈ stack, System.Phased.messageFrame f = true) :
    st.send = true ∨ st.rpc = true ∨ st.ret = true ∨
      st = READY ∧ ∃ f, stack = [f] ∧ f.timed = true := by
  cases h with
  | runs clear => cases clear trivial
  | @semWaits f sem frame | @semTimedOut f sem frame =>
      have message := message f (List.mem_singleton_self f)
      cases f with
      | rtSemWait | rtSemWaitUntil => cases message
      | _ => cases frame
  | @sends f => exact .inl (by cases f.timed <;> rfl)
  | @calls f => exact .inr (.inl (by cases f.timed <;> rfl))
  | called => exact .inr (.inr (.inl rfl))
  | sendTimedOut frame timed | callTimedOut frame timed =>
      exact .inr (.inr (.inr ⟨rfl, _, rfl, timed⟩))

namespace System

/-- Unlinking the node of a task does what it is to do: it takes the task off its queue, or
nothing. -/
def unlinkable (s : System n) (t : Task n) : Bool :=
  s.blockedOn t ≠ none || (s.queue.next (s.queue.prev (.queue t)) = s.queue.next (.queue t) &&
    s.queue.prev (s.queue.next (.queue t)) = s.queue.prev (.queue t))

/-- `rt_return` to a task that waits for it. -/
def answers (s : System n) (t : Task n) : Bool :=
  (s.state t).ret && s.msgQueueTask t = some s.current

/-- What the step unlinks is `unlinkable`. -/
def unlinksQueued (s : System n) : Event n → Bool
  | .call (.ret t _) _ => !s.answers t || s.unlinkable t
  | .call _ _ | .timer _ => true
  | .resume _ => (s.stack s.current).all fun f =>
      !f.timed || s.exchanged || s.unlinkable s.current

/-- The message services of real time tasks.  Linux creates and starts them. -/
def ofTasks (s : System n) : Event n → Bool
  | .call op _ => s.starts op || s.current ≠ rtLinuxTask
  | .resume _ | .timer _ => true

/-- The guard of the runs. -/
def ofExchange (s : System n) (e : Event n) : Bool :=
  s.ofMessages e && s.ofTasks e && s.unlinksQueued e

/-- What holds in all states of such a run. -/
structure Exchanging (s : System n) : Prop where
  messaging : Messaging s
  waits : Waits True s
  linux : s.stack rtLinuxTask = []

/-- Where the tasks are that wait for a message or an answer. -/
structure Queued (s : System n) : Prop where
  /-- A queue is a ring through the tasks that are blocked on it. -/
  rings : ∀ q, ∃ ts : List (Task n), Ring s.queue (.head q) (ts.map .queue) ∧ ts.Nodup ∧
    ∀ t, t ∈ ts ↔ s.blockedOn t = some q
  /-- Who sends or calls is on the queue of a task that exists. -/
  sends : ∀ t, (s.state t).send = true ∨ (s.state t).rpc = true →
    ∃ r, s.msgQueueTask t = some r ∧ s.blockedOn t = some (.msgQueue r) ∧ s.disp.magic r = true
  /-- Who waits for an answer is on the return queue of the task it called, or on none. -/
  returns : ∀ t, (s.state t).ret = true → ∃ r, r ≠ t ∧ s.msgQueueTask t = some r ∧
    (s.blockedOn t = some (.retQueue r) ∧ s.disp.magic r = true ∨ s.blockedOn t = none)
  receives : ∀ t, (s.state t).receive = true → s.blockedOn t = none
  /-- Whoever is on a queue waits, or finds next that its time is out. -/
  blocked : ∀ t q, s.blockedOn t = some q →
    (s.state t).send = true ∨ (s.state t).rpc = true ∨ (s.state t).ret = true ∨
      s.state t = READY ∧ ∃ f, s.stack t = [f] ∧ f.timed = true

variable {s s₁ s' : System n} {t : Task n} {op : Op n} {c : Clock} {e : Event n}

theorem unlinkable_detached (ok : s.unlinkable t = true) (clear : s.blockedOn t = none) :
    Waits.Detached s t := by
  simpa [unlinkable, clear, Waits.Detached] using ok

/-- `rt_return` unlinks only a task that waits for it. -/
theorem Waits.exchange (h : Waits True s) (running : s.disp.state s.current = READY)
    (idle : s.stack s.current = []) (moves : MsgCall s op s₁)
    (other : op.timedPartner = some s.current → op.late s.disp.timeH = true)
    (queued : ∀ t result, op = .ret t result → s.answers t = true → s.unlinkable t = true) :
    Waits True s₁ := by
  by_cases refused : ∃ t result, op = .ret t result ∧ s.answers t = false
  · obtain ⟨t, result, rfl, no⟩ := refused
    have phased := h.phased.msgCall running idle moves other
    cases moves with
    | refuse =>
        exact h.same phased rfl (fun _ => rfl) ⟨fun _ live => live, fun _ live => live⟩
    | replies returning client =>
        have yes : s.answers t = true := by simp [answers, returning, client]
        exact absurd (no.symm.trans yes) Bool.false_ne_true
    | deliver call | queueSend call | directRpc call | queueRpc call => cases call
    | takeSend call | takeRpc call | listens call => cases call
  · refine h.msgCall running idle moves other fun t result ret clear => ?_
    have yes : s.answers t = true := by
      by_contra no
      exact refused ⟨t, result, ret, Bool.eq_false_iff.mpr no⟩
    exact unlinkable_detached (queued t result ret yes) clear

/-- Creating or starting a task is no message service. -/
theorem starts_msgCall (starts : s.starts op = true) (moves : MsgCall s op s₁) :
    s₁.stack = s.stack := by
  cases moves with
  | refuse => rfl
  | replies | lateSend | lateReceive => cases starts
  | deliver call | queueSend call | directRpc call | queueRpc call => cases call <;> cases starts
  | takeSend call | takeRpc call | listens call => cases call <;> cases starts

namespace Exchanging

theorem starts (h : Exchanging s) (starts : s.starts op = true) (moves : TaskCall s op s₁) :
    Waits True s₁ := by
  have kind : (∀ task, op ≠ .taskSuspend task) ∧ ∀ t, op ≠ .taskDelete t := by
    constructor <;> (intro t e; subst e; cases starts)
  refine h.waits.taskCall moves (fun t e _ => ?_) kind fun t off => ?_
  · subst e
    simpa [System.starts] using starts
  · by_cases linux : t = rtLinuxTask
    · rw [linux, h.linux]
    · have phase := h.messaging.phased t
      rw [h.messaging.ok.lists.dead t linux off] at phase
      exact phase.of_dead

theorem step (h : Exchanging s) (guard : s.ofExchange e = true) (stepped : System.step e s = some s') :
    Exchanging s' := by
  obtain ⟨⟨message, tasks⟩, unlinks⟩ : (s.ofMessages e = true ∧ s.ofTasks e = true) ∧
      s.unlinksQueued e = true := by
    simpa only [ofExchange, Bool.and_eq_true] using guard
  have messaging := h.messaging.step message stepped
  have running : s.disp.state s.current = READY := h.messaging.ok.running
  cases h.messaging.cases message stepped with
  | @message op c s₁ _ idle other moves hs =>
      have waits : Waits True s₁ := by
        refine h.waits.exchange running idle moves (fun self => ?_) fun t result ret yes => ?_
        · simpa [namesOther, self] using other
        · subst ret
          simpa [unlinksQueued, yes] using unlinks
      obtain ⟨d, rfl, -⟩ := id hs.woken
      refine ⟨messaging, waits.scheduled hs, ?_⟩
      show s₁.stack rtLinuxTask = []
      rcases Bool.or_eq_true_iff.mp tasks with starts | real
      · rw [starts_msgCall starts moves, h.linux]
      · have real : rtLinuxTask ≠ s.current := Ne.symm (of_decide_eq_true real)
        rcases moves.stack with same | ⟨f, -, pushed⟩
        · rw [same, h.linux]
        · rw [pushed, update_of_ne real, h.linux]
  | @task op c s₁ _ idle starts moves hs =>
      obtain ⟨d, rfl, -⟩ := id hs.woken
      refine ⟨messaging, (h.starts starts moves).scheduled hs, ?_⟩
      refine List.eq_nil_iff_forall_not_mem.mpr fun f hf => ?_
      have old := starts_stack starts moves hf
      rw [h.linux] at old
      cases old
  | @resume f c _ stack frame goes =>
      have waits := h.waits.messageRest running stack frame (fun timed clear out => by
        refine unlinkable_detached ?_ clear
        simpa [unlinksQueued, stack, timed, out] using unlinks) s' goes
      obtain ⟨P, Q, rfl⟩ := h.messaging.rest stack frame goes
      have real : rtLinuxTask ≠ s.current := by
        intro linux
        rw [← linux, h.linux] at stack
        cases stack
      exact ⟨messaging, waits, by simpa [real] using h.linux⟩
  | timer idle woken => exact ⟨messaging, h.waits.woken woken, h.linux⟩

/-- The queues, read off the phases of the tasks. -/
theorem queued (h : Exchanging s) : Queued s := by
  have waits : s.waitsOn = s.blockedOn := h.messaging.phased.waitsOn_eq
  have live : ∀ t q, s.blockedOn t = some q → s.inUse q := waits ▸ h.waits.inUse
  refine ⟨fun q => ?_, fun t sends => ?_, fun t ret => ?_, fun t receive => ?_, fun t q blocked => ?_⟩
  · rw [← waits]
    exact h.waits.queues.tasks q
  · rcases sends with send | rpc
    · obtain ⟨f, r, -, -, -, blocked, msg⟩ := (h.messaging.phased t).of_send send
      exact ⟨r, msg, blocked, live t _ blocked⟩
    · obtain ⟨f, r, -, -, -, blocked, msg⟩ := (h.messaging.phased t).of_rpc rpc
      exact ⟨r, msg, blocked, live t _ blocked⟩
  · obtain ⟨f, r, -, -, other, msg, place⟩ := (h.messaging.phased t).of_ret ret
    refine ⟨r, other, msg, place.imp ?_ And.right⟩
    exact fun here => ⟨here.2, live t _ here.2⟩
  · exact ((h.messaging.phased t).of_receive receive).2.1
  · have phase := h.messaging.phased t
    rw [blocked] at phase
    exact phase.of_blocked (h.messaging.frames t)

end Exchanging

theorem boot_exchanging (n : Nat) (timer : Timer) : Exchanging (boot n timer) :=
  ⟨boot_messaging n timer, boot_waits n timer True, rfl⟩

/-- The queues hold the tasks that wait on them, in every state of a run that unlinks no node
from among others. -/
theorem messages_queued {timer : Timer} {tr : List (Record (System n) (Event n))}
    (r : Run System.step (fun s e => s.ofExchange e = true) (boot n timer) tr s) : Queued s := by
  have exchanging : Exchanging s := r.invariant (boot_exchanging n timer)
    fun {_ _ _} h guard stepped => h.step guard stepped
  exact exchanging.queued

/-- Task 1 has taken the call of task 2 and waits for task 3, which sends to task 2. -/
theorem messages_queued_call : ∃ tr s,
    Run System.step (fun s e => s.ofExchange e = true) (boot 3 {}) tr s ∧
      ((s.state 2).ret = true ∧ (s.state 3).send = true) ∧ Queued s := by
  let c : Clock := {}
  obtain ⟨tr, s, r, test⟩ := Run.of_execute System.step (fun s e => s.ofExchange e = true)
    (boot 3 {})
    [.call (.taskInit 1 1 true) c, .call (.taskInit 2 2 true) c, .call (.taskInit 3 3 true) c,
      .call (.taskResume 1) c, .call (.receive none) c, .call (.taskResume 2) c,
      .call (.rpc 1 7) c, .resume c, .call (.receive (some 3)) c, .call (.taskResume 3) c,
      .call (.send 2 9) c]
    (fun s => (s.state 2).ret = true ∧ (s.state 3).send = true) (by decide +kernel)
  exact ⟨tr, s, r, by simpa using test, messages_queued r⟩

/-- Task 3 was between tasks 2 and 4 on the queue of task 1, where task 5 is when task 6
returns to task 3. -/
theorem messages_queued_lost : ∃ tr s,
    Run System.step (fun s e => s.ofMessages e = true ∧ s.ofTasks e = true) (boot 6 {}) tr s ∧
      ¬Queued s := by
  let c : Clock := {}
  obtain ⟨tr, s, r, test⟩ := Run.of_execute System.step
    (fun s e => s.ofMessages e = true ∧ s.ofTasks e = true) (boot 6 {})
    [.call (.taskInit 1 1 true) c, .call (.taskInit 2 10 true) c, .call (.taskInit 3 11 true) c,
      .call (.taskInit 4 13 true) c, .call (.taskInit 5 12 true) c, .call (.taskInit 6 20 true) c,
      .call (.taskResume 6) c, .call (.receive none) c, .call (.taskResume 2) c,
      .call (.send 1 0) c, .call (.taskResume 3) c, .call (.send 1 0) c, .call (.taskResume 4) c,
      .call (.send 1 0) c, .call (.taskResume 1) c, .call (.receive (some 3)) c, .resume c,
      .call (.receive (some 6)) c, .resume c, .call (.taskResume 5) c, .call (.rpc 6 7) c,
      .call (.send 1 0) c, .resume c, .call (.ret 3 9) c]
    (fun s => s.blockedOn 5 = some (.msgQueue 1) ∧
      s.queue.prev (s.queue.next (.queue 5)) ≠ .queue 5) (by decide +kernel)
  obtain ⟨blocked, lost⟩ : s.blockedOn 5 = some (.msgQueue 1) ∧
      s.queue.prev (s.queue.next (.queue 5)) ≠ .queue 5 := by simpa using test
  refine ⟨tr, s, r, fun queued => ?_⟩
  obtain ⟨ts, ring, -, mem⟩ := queued.rings (.msgQueue 1)
  have here := List.mem_map_of_mem (f := QNode.queue) ((mem 5).mpr blocked)
  exact lost (ring.prev_next (List.mem_cons_of_mem _ here))

end System

end Rtai.Up
