import Rtai.Up.Waiting

/-!
# Runs of the message services

Tasks are created and started, exchange messages and time out.  `MessageStep`
lists the steps of such a run and `Messaging` is what the tasks have in common
in all of its states.  No task waits for itself with a time: it would find
`msg_queue.task == rt_current` and take its own message for delivered.
-/

namespace Rtai.Up

open Function Rtai.Lib

variable {n : Nat} {t : Task n} {f : Frame n} {fs : List (Frame n)} {tidy : Prop}

/-- The message services. -/
def Op.messages : Op n → Bool
  | .send _ _ | .sendIf _ _ | .sendUntil _ _ _ | .rpc _ _ | .rpcIf _ _ | .rpcUntil _ _ _
  | .ret _ _ | .receive _ | .receiveIf _ | .receiveUntil _ _ => true
  | _ => false

theorem Phase.single {st : TaskState} {b : Option (Queue n)} {m : Option (Task n)}
    (h : Phase tidy t (f :: fs) st b m) : fs = [] := by
  cases h <;> rfl

namespace System

/-- The calls that create a task and that start it. -/
def starts (s : System n) : Op n → Bool
  | .taskInit _ _ _ => true
  | .taskResume t => s.state t = SUSPENDED.set READY
  | _ => false

/-- No timed send or call of a task names the task itself, unless its time is
over. -/
def namesOther (s : System n) (op : Op n) : Bool :=
  op.timedPartner ≠ some s.current || op.late s.disp.timeH

/-- The steps of a run of the message services. -/
inductive MessageStep (s : System n) : Event n → System n → Prop
  | message {op : Op n} {c : Clock} {s₁ s' : System n} (idle : s.stack s.current = [])
      (other : s.namesOther op = true)
      (moves : MsgCall s op s₁) (hs : Scheduled False c s₁ s') : MessageStep s (.call op c) s'
  | task {op : Op n} {c : Clock} {s₁ s' : System n} (idle : s.stack s.current = [])
      (starts : s.starts op = true) (moves : TaskCall s op s₁) (hs : Scheduled False c s₁ s') :
      MessageStep s (.call op c) s'
  | resume {f : Frame n} {c : Clock} {s' : System n} (stack : s.stack s.current = [f])
      (message : Phased.messageFrame f = true) (goes : s.pop.proceed c f = some s') :
      MessageStep s (.resume c) s'
  | timer {c : Clock} {d : Dispatcher n} (idle : s.stack s.current = [])
      (woken : s.disp.Woken (s.disp.handlerTime c) d) :
      MessageStep s (.timer c) { s with disp := d }

/-- What holds of the tasks in a run of the message services. -/
structure Messaging (s : System n) : Prop where
  ok : Ok False s
  phased : Phased True s
  frames : ∀ t, ∀ f ∈ s.stack t, Phased.messageFrame f = true

variable {s s₁ s' : System n} {c : Clock} {op : Op n} {e : Event n}

theorem Messaging.single (h : Messaging s) (stack : s.stack t = f :: fs) : fs = [] := by
  have phase := h.phased t
  rw [stack] at phase
  exact phase.single

/-- The frames of the message services run with interrupts disabled. -/
theorem Messaging.idle (h : Messaging s) (ready : s.interruptible = true) :
    s.stack s.current = [] := by
  cases stack : s.stack s.current with
  | nil => rfl
  | cons f fs =>
      have message := h.frames s.current f (by simp [stack])
      simp only [interruptible, stack, List.head?_cons, Option.all_some] at ready
      cases f <;>
        first | exact absurd message Bool.false_ne_true | exact absurd ready Bool.false_ne_true

theorem Ok.message_moves (h : Ok False s) (message : op.messages = true)
    (admits : s.admits op = true) : Ensures (s.service c op) fun s' =>
      ∃ s₁, MsgCall s op s₁ ∧ Scheduled False c s₁ s' := by
  have hc := admits_waits admits
  cases op with
  | send t msg => exact h.rtSend_moves (hc rfl)
  | sendIf t msg => exact h.rtSendIf_moves
  | sendUntil t msg time => exact h.rtSendUntil_moves (hc rfl)
  | rpc t toDo => exact h.rtRpc_moves (hc rfl)
  | rpcIf t toDo => exact h.rtRpcIf_moves (hc rfl)
  | rpcUntil t toDo time => exact h.rtRpcUntil_moves (hc rfl)
  | ret t result => exact h.rtReturn_moves
  | receive task => exact h.rtReceive_moves (hc rfl)
  | receiveIf task => exact h.rtReceiveIf_moves
  | receiveUntil task time => exact h.rtReceiveUntil_moves (hc rfl)
  | _ => cases message

/-- The guard of the runs. -/
def ofMessages (s : System n) : Event n → Bool
  | .call op _ => s.starts op || op.messages && s.namesOther op
  | .resume _ | .timer _ => true

theorem ofMessages_safe (h : s.ofMessages e = true) : s.SafeEvent False e := by
  cases e with
  | call op c =>
      cases op with
      | taskResume t =>
          intro _
          have fresh : s.state t = SUSPENDED.set READY := by
            simpa [ofMessages, starts, Op.messages] using h
          rw [fresh]
          exact ⟨by decide, rfl⟩
      | taskMakePeriodicRelativeNs | taskMakePeriodic | setResumeTime | taskDelete | schedLock
      | schedUnlock | semDelete => simp [ofMessages, starts, Op.messages] at h
      | _ => trivial
  | resume c => trivial
  | timer c => trivial

/-- What a message service returns behind its `rt_schedule`. -/
def restValue (f : Frame n) (s : System n) : Option (Task n) :=
  match f with
  | .rtSend r _ | .rtSendUntil r _ | .rtRpc r _ | .rtRpcUntil r _ =>
      if s.exchanged then some r else none
  | _ => if s.retQueueTask s.current then none else s.msgQueueTask s.current

/-- The message its caller has then. -/
def restMessage (f : Frame n) (s : System n) : UInt32 :=
  match f with
  | .rtRpc _ _ | .rtRpcUntil _ _ => if s.exchanged then s.msg s.current else s.out s.current
  | .rtReceive => s.msg s.current
  | _ => s.out s.current

/-- Behind its `rt_schedule` a receive forgets that it waits. -/
def restWaits (f : Frame n) (s : System n) : Bool :=
  match f with
  | .rtReceive | .rtReceived => false
  | _ => s.retQueueTask s.current

/-- A call of a message service leaves at most its own frame. -/
theorem MsgCall.stack (moves : MsgCall s op s₁) : s₁.stack = s.stack ∨
    ∃ f, Phased.messageFrame f = true ∧
      s₁.stack = update s.stack s.current (f :: s.stack s.current) := by
  cases moves with
  | refuse | replies => exact .inl rfl
  | deliver call | queueSend call =>
      refine .inr ⟨_, ?_, rfl⟩
      cases call <;> rfl
  | directRpc call | queueRpc call =>
      refine .inr ⟨_, ?_, rfl⟩
      cases call <;> rfl
  | lateSend => exact .inl (by rw [rtSendUntilRest_eq]; rfl)
  | takeSend | takeRpc | listens => exact .inr ⟨_, rfl, rfl⟩
  | lateReceive => exact .inl (by rw [rtReceivedRest_eq]; rfl)

/-- Creating and starting tasks. -/
theorem Phased.starts (h : Phased tidy s) (starts : s.starts op = true) (moves : TaskCall s op s₁) :
    Phased tidy s₁ := by
  refine h.taskCall moves (fun t e _ => ?_) ⟨fun t e => ?_, fun t e => ?_⟩
  · subst e
    simpa [System.starts] using starts
  · subst e
    cases starts
  · subst e
    cases starts

theorem starts_stack (starts : s.starts op = true) (moves : TaskCall s op s₁) (hf : f ∈ s₁.stack t) :
    f ∈ s.stack t := by
  cases moves with
  | refuse | resumeLater | resume => exact hf
  | @init u prio memory free =>
      change f ∈ update s.stack u [] t at hf
      by_cases e : t = u
      · simp [e] at hf
      · rwa [update_of_ne e] at hf
  | _ => cases starts

namespace Messaging

variable (h : Messaging s)
include h

/-- Creating a task, and starting one. -/
theorem start_moves (starts : s.starts op = true) (admits : s.admits op = true)
    (called : s.service c op = some s') : ∃ s₁, TaskCall s op s₁ ∧ Scheduled False c s₁ s' := by
  have guard : s.ofMessages (.call op c) = true := by simp [ofMessages, starts]
  cases op with
  | taskInit t prio memory =>
      have ok : Ok False s' := h.ok.service admits trivial s' called
      exact ⟨s', Ok.rtTaskInit_moves s' called, ok.stays⟩
  | taskResume t => exact h.ok.rtTaskResume_moves (ofMessages_safe guard) s' called
  | _ => cases starts

theorem cases (guard : s.ofMessages e = true) (stepped : step e s = some s') :
    MessageStep s e s' := by
  cases e with
  | call op c =>
      obtain ⟨idle, admits, called⟩ := step_call stepped
      by_cases message : op.messages = true
      · obtain ⟨s₁, moves, hs⟩ := h.ok.message_moves message admits s' called
        have other : s.namesOther op = true := by
          cases op with
          | taskInit | taskResume => cases message
          | _ => simpa [ofMessages, starts, message] using guard
        exact .message idle other moves hs
      · have starts : s.starts op = true := by simpa [ofMessages, message] using guard
        obtain ⟨s₁, moves, hs⟩ := h.start_moves starts admits called
        exact .task idle starts moves hs
  | resume c =>
      obtain ⟨f, fs, stack, goes⟩ := step_resume stepped
      obtain rfl := h.single stack
      exact .resume stack (h.frames s.current f (by simp [stack])) goes
  | timer c =>
      obtain ⟨ready, d, handled, rfl⟩ := step_timer stepped
      exact .timer (h.idle ready) (h.ok.lists.rtTimerHandler c d handled).2.1

/-- The code behind the `rt_schedule` of a message service. -/
theorem rest (stack : s.stack s.current = [f]) (message : Phased.messageFrame f = true)
    (goes : s.pop.proceed c f = some s') :
    ∃ P Q, s' = { s.pop with
      prioPassedTo := P
      queue := Q
      blockedOn := update s.blockedOn s.current none
      msgQueueTask := update s.msgQueueTask s.current (some s.current)
      retQueueTask := update s.retQueueTask s.current (s.restWaits f)
      retval := update s.retval s.current (.task (s.restValue f))
      out := update s.out s.current (s.restMessage f) } := by
  have phase := h.phased s.current
  rw [stack, show s.disp.state s.current = READY from h.ok.running] at phase
  have clear : s.blockedOn s.current = none →
      update s.blockedOn s.current none = s.blockedOn := fun e => by rw [← e, update_eq_self]
  cases f with
  | rtSend r msg =>
      rw [System.proceed, rtSendRest_eq] at goes
      refine ⟨s.prioPassedTo, s.queue, ?_⟩
      obtain ⟨-, e⟩ | ⟨timed, -⟩ := phase.of_sent rfl rfl
      · simp only [clear e, restWaits, restMessage, update_eq_self]
        exact (Option.some.inj goes).symm
      · cases timed
  | rtSendUntil r msg =>
      rw [System.proceed, rtSendUntilRest_eq] at goes
      simp only [restWaits, restMessage, update_eq_self]
      by_cases exchanged : s.exchanged
      · obtain ⟨-, e⟩ | ⟨-, other, msg, -⟩ := phase.of_sent rfl rfl
        · simp only [Phased.pop_exchanged, exchanged, if_true] at goes
          simp only [clear e, restValue, exchanged, if_true]
          exact ⟨_, _, (Option.some.inj goes).symm⟩
        · exact absurd (Option.some.inj (msg.symm.trans exchanged)) other
      · simp only [Phased.pop_exchanged, exchanged, if_false] at goes
        simp only [restValue, exchanged, if_false]
        exact ⟨_, _, (Option.some.inj goes).symm⟩
  | rtRpc r toDo =>
      rw [System.proceed, rtRpcRest_eq] at goes
      refine ⟨s.prioPassedTo, s.queue, ?_⟩
      obtain ⟨self, e⟩ | ⟨timed, -⟩ := phase.of_called rfl rfl
      · have exchanged : s.exchanged := self
        simp only [Phased.pop_exchanged, exchanged, if_true] at goes
        simp only [clear e, restWaits, restMessage, restValue, exchanged, if_true, update_eq_self]
        exact (Option.some.inj goes).symm
      · cases timed
  | rtRpcUntil r toDo =>
      rw [System.proceed, rtRpcUntilRest_eq] at goes
      simp only [restWaits, update_eq_self]
      by_cases exchanged : s.exchanged
      · obtain ⟨-, e⟩ | ⟨-, other, msg, -⟩ := phase.of_called rfl rfl
        · simp only [Phased.pop_exchanged, exchanged, if_true] at goes
          simp only [clear e, restMessage, restValue, exchanged, if_true]
          exact ⟨_, _, (Option.some.inj goes).symm⟩
        · exact absurd (Option.some.inj (msg.symm.trans exchanged)) other
      · simp only [Phased.pop_exchanged, exchanged, if_false] at goes
        simp only [restMessage, restValue, exchanged, if_false, update_eq_self]
        exact ⟨_, _, (Option.some.inj goes).symm⟩
  | rtReceive =>
      rw [System.proceed, rtReceiveRest, rtReceivedRest_eq] at goes
      refine ⟨s.prioPassedTo, s.queue, ?_⟩
      rw [clear (phase.of_receiving (.inl rfl))]
      exact (Option.some.inj goes).symm
  | rtReceived =>
      rw [System.proceed, rtReceivedRest_eq] at goes
      refine ⟨s.prioPassedTo, s.queue, ?_⟩
      simp only [clear (phase.of_receiving (.inr rfl)), restMessage, update_eq_self]
      exact (Option.some.inj goes).symm
  | _ => cases message

/-- A dispatcher function changes no stack. -/
theorem woken {d : Dispatcher n} {now : RTIME} (ok : Ok False { s with disp := d })
    (woken : s.disp.Woken now d) : Messaging { s with disp := d } :=
  ⟨ok, h.phased.woken woken, h.frames⟩

theorem step (guard : s.ofMessages e = true) (stepped : System.step e s = some s') :
    Messaging s' := by
  have ok : Ok False s' := h.ok.step (ofMessages_safe guard) s' stepped
  cases h.cases guard stepped with
  | message idle other moves hs =>
      have moved := h.phased.msgCall h.ok.running idle moves fun self => by
        simpa [namesOther, self] using other
      refine ⟨ok, moved.scheduled hs, ?_⟩
      obtain ⟨d, rfl, -⟩ := hs.woken
      rcases moves.stack with same | ⟨f, message, pushed⟩
      · rw [same]
        exact h.frames
      · intro t f' hf
        change f' ∈ _ at hf
        rw [pushed] at hf
        by_cases e : t = s.current
        · rw [e, update_self, idle, List.mem_singleton] at hf
          rw [hf, message]
        · rw [update_of_ne e] at hf
          exact h.frames t f' hf
  | task idle starts moves hs =>
      have moved := h.phased.starts starts moves
      refine ⟨ok, moved.scheduled hs, fun t f hf => h.frames t f ?_⟩
      obtain ⟨d, rfl, -⟩ := hs.woken
      exact starts_stack starts moves hf
  | resume stack message goes =>
      obtain ⟨P, Q, rfl⟩ := h.rest stack message goes
      refine ⟨ok, h.phased.messageRest h.ok.running stack message _ goes, fun t f hf => ?_⟩
      by_cases e : t = s.current
      · simp [e, stack] at hf
      · exact h.frames t f (by simpa [e] using hf)
  | timer idle woken => exact h.woken ok woken

end Messaging

theorem boot_messaging (n : Nat) (timer : Timer) : Messaging (boot n timer) :=
  ⟨boot_ok n timer False, boot_phased n timer True, fun _ _ mem => absurd mem List.not_mem_nil⟩

end System

end Rtai.Up
