import Rtai.Up.Upkeep

/-!
# How far a task has got in a wait

`blocked_on`, `msg_queue.task` and the bits of the state word are written by the
task itself, by its partners and by the timer.  `Phase` lists the combinations
there are, by the frame on the task's stack, for tasks that use semaphores and
messages and are not suspended.

A timer expiry moves a task to the phase in which its time is out (`Phase.wake`);
`blocked_on` and `msg_queue.task` are then those of the wait until the task runs
again.
-/

namespace Rtai.Up

open Function Rtai.Lib

variable {n : Nat} {op : Op n} {msg toDo : UInt32}

/-- The stack, state word, `blocked_on` and `msg_queue.task` of the task `t`.
`tidy` is whether every wait leaves `blocked_on` clear. -/
inductive Phase (tidy : Prop) (t : Task n) :
    List (Frame n) → TaskState → Option (Queue n) → Option (Task n) → Prop
  | absent {m : Option (Task n)} : Phase tidy t [] DEAD none m
  | fresh : Phase tidy t [] (SUSPENDED.set READY) none (some t)
  | runs {b : Option (Queue n)} (clear : tidy → b = none) : Phase tidy t [] READY b (some t)
  | semWaits {f : Frame n} {sem : SemId} (frame : f.aim = .semaphore sem) :
      Phase tidy t [f] (waiting SEMAPHORE f.timed) (some (.sem sem)) (some t)
  | semTimedOut {f : Frame n} {sem : SemId} (frame : f.aim = .semaphore sem)
      (timed : f.timed = true) : Phase tidy t [f] READY (some (.sem sem)) (some t)
  | semGranted {f : Frame n} {sem : SemId} (frame : f.aim = .semaphore sem) :
      Phase tidy t [f] READY none (some t)
  | sends {f : Frame n} {r : Task n} (frame : f.aim = .send r)
      (other : f.timed = true → r ≠ t) :
      Phase tidy t [f] (waiting SEND f.timed) (some (.msgQueue r)) (some r)
  | sendTimedOut {f : Frame n} {r : Task n} (frame : f.aim = .send r) (timed : f.timed = true)
      (other : r ≠ t) : Phase tidy t [f] READY (some (.msgQueue r)) (some r)
  | sent {f : Frame n} {r : Task n} (frame : f.aim = .send r) :
      Phase tidy t [f] READY none (some t)
  | calls {f : Frame n} {r : Task n} (frame : f.aim = .rpc r)
      (other : f.timed = true → r ≠ t) :
      Phase tidy t [f] (waiting RPC f.timed) (some (.msgQueue r)) (some r)
  | callTimedOut {f : Frame n} {r : Task n} (frame : f.aim = .rpc r) (timed : f.timed = true)
      (other : r ≠ t) : Phase tidy t [f] READY (some (.msgQueue r)) (some r)
  /-- The message was taken: the caller waits for the return without a time. -/
  | called {f : Frame n} {r : Task n} (frame : f.aim = .rpc r) (other : r ≠ t) :
      Phase tidy t [f] (waiting RETURN false) (some (.retQueue r)) (some r)
  | calledDirectly {f : Frame n} {r : Task n} (frame : f.aim = .rpc r) (other : r ≠ t) :
      Phase tidy t [f] (waiting RETURN f.timed) none (some r)
  | directTimedOut {f : Frame n} {r : Task n} (frame : f.aim = .rpc r)
      (timed : f.timed = true) (other : r ≠ t) : Phase tidy t [f] READY none (some r)
  | returned {f : Frame n} {r : Task n} (frame : f.aim = .rpc r) :
      Phase tidy t [f] READY none (some t)
  | receives {b : Bool} {m : Option (Task n)} : Phase tidy t [.rtReceive] (waiting RECEIVE b) none m
  | received {m : Option (Task n)} : Phase tidy t [.rtReceive] READY none m
  | takes {m : Option (Task n)} : Phase tidy t [.rtReceived] READY none m

namespace Phase

variable {tidy : Prop} {t r : Task n} {stack : List (Frame n)} {st : TaskState}
  {b : Option (Queue n)} {m : Option (Task n)} {f : Frame n}

/-- A wait that the timer ends leaves the task `READY`. -/
theorem expiry : ∀ timed : Bool, ∀ bit ∈ [SEMAPHORE, SEND, RPC, RETURN, RECEIVE],
    (waiting bit timed).delayed = true →
    timed = true ∧ (waiting bit timed).clear TIMED_OUT = READY := by
  decide

/-- The expiry of a timed wait. -/
theorem wake (h : Phase tidy t stack st b m) (delayed : st.delayed = true) :
    Phase tidy t stack (st.clear TIMED_OUT) b m := by
  cases h with
  | absent => cases delayed
  | fresh => cases delayed
  | runs clear => cases delayed
  | semWaits frame =>
      obtain ⟨timed, ready⟩ := expiry _ _ (by simp) delayed
      rw [ready]
      exact .semTimedOut frame timed
  | semTimedOut frame timed => cases delayed
  | semGranted frame => cases delayed
  | sends frame other =>
      obtain ⟨timed, ready⟩ := expiry _ _ (by simp) delayed
      rw [ready]
      exact .sendTimedOut frame timed (other timed)
  | sendTimedOut frame timed other => cases delayed
  | sent frame => cases delayed
  | calls frame other =>
      obtain ⟨timed, ready⟩ := expiry _ _ (by simp) delayed
      rw [ready]
      exact .callTimedOut frame timed (other timed)
  | callTimedOut frame timed other => cases delayed
  | called frame other => cases delayed
  | calledDirectly frame other =>
      obtain ⟨timed, ready⟩ := expiry _ _ (by simp) delayed
      rw [ready]
      exact .directTimedOut frame timed other
  | directTimedOut frame timed other => cases delayed
  | returned frame => cases delayed
  | receives =>
      rw [(expiry _ _ (by simp) delayed).2]
      exact .received
  | received => cases delayed
  | takes => cases delayed

/-- A task that runs its own code. -/
theorem of_idle (h : Phase tidy t [] READY b m) : (tidy → b = none) ∧ m = some t := by
  cases h with
  | runs clear => exact ⟨clear, rfl⟩

/-- A task between two services may keep a `blocked_on` only if it runs. -/
theorem of_nil (h : Phase tidy t [] st b m) (settled : tidy ∨ st ≠ READY) : b = none := by
  cases h with
  | absent | fresh => rfl
  | runs clear => exact clear (settled.resolve_right fun hne => hne rfl)

/-- A task that is not in use. -/
theorem of_dead (h : Phase tidy t stack DEAD b m) : stack = [] := by
  generalize dead : DEAD = st at h
  have other : ∀ timed : Bool, ∀ bit : TaskState, DEAD ≠ waiting bit timed := by
    intro timed bit e
    have := congrArg TaskState.ready e
    simp [DEAD] at this
  cases h with
  | absent => rfl
  | semWaits | sends | calls | called | calledDirectly | receives => exact absurd dead (other _ _)
  | _ => cases dead

section

variable (h : Phase tidy t stack st b m)
include h

theorem of_receive (receive : st.receive = true) :
    stack = [.rtReceive] ∧ b = none ∧ ∃ timed, st = waiting RECEIVE timed := by
  cases h with
  | receives => exact ⟨rfl, rfl, _, rfl⟩
  | semWaits | sends | calls | called | calledDirectly =>
      simp [SEMAPHORE, SEND, RPC, RETURN] at receive
  | _ => cases receive

theorem of_send (send : st.send = true) :
    ∃ f r, stack = [f] ∧ f.aim = .send r ∧ st = waiting SEND f.timed ∧
      b = some (.msgQueue r) ∧ m = some r := by
  cases h with
  | sends frame other => exact ⟨_, _, rfl, frame, rfl, rfl, rfl⟩
  | semWaits | receives | calls | called | calledDirectly =>
      simp [SEMAPHORE, RECEIVE, RPC, RETURN] at send
  | _ => cases send

theorem of_rpc (rpc : st.rpc = true) :
    ∃ f r, stack = [f] ∧ f.aim = .rpc r ∧ st = waiting RPC f.timed ∧
      b = some (.msgQueue r) ∧ m = some r := by
  cases h with
  | calls frame other => exact ⟨_, _, rfl, frame, rfl, rfl, rfl⟩
  | semWaits | sends | receives | called | calledDirectly =>
      simp [SEMAPHORE, SEND, RECEIVE, RETURN] at rpc
  | _ => cases rpc

theorem of_ret (ret : st.ret = true) :
    ∃ f r, stack = [f] ∧ f.aim = .rpc r ∧ r ≠ t ∧ m = some r ∧
      (st = waiting RETURN false ∧ b = some (.retQueue r) ∨
        st = waiting RETURN f.timed ∧ b = none) := by
  cases h with
  | called frame other => exact ⟨_, _, rfl, frame, other, rfl, .inl ⟨rfl, rfl⟩⟩
  | calledDirectly frame other => exact ⟨_, _, rfl, frame, other, rfl, .inr ⟨rfl, rfl⟩⟩
  | semWaits | sends | receives | calls => simp [SEMAPHORE, SEND, RECEIVE, RPC] at ret
  | _ => cases ret

end

theorem waiting_ne_ready : ∀ timed : Bool, ∀ bit ∈ [SEMAPHORE, SEND, RPC, RETURN, RECEIVE],
    waiting bit timed ≠ READY := by
  decide

section

variable (h : Phase tidy t [f] st b m)
include h

/-- A semaphore wait that can go on. -/
theorem of_semaphore {sem : SemId} (frame : f.aim = .semaphore sem) (ready : st = READY) :
    m = some t ∧ (b = none ∨ f.timed = true ∧ b = some (.sem sem)) := by
  cases h with
  | semWaits => exact absurd ready (waiting_ne_ready _ _ (by simp))
  | semTimedOut frame' timed =>
      cases frame.symm.trans frame'
      exact ⟨rfl, .inr ⟨timed, rfl⟩⟩
  | semGranted => exact ⟨rfl, .inl rfl⟩
  | receives | received | takes => cases frame
  | sends frame' | sendTimedOut frame' | sent frame' | calls frame' | callTimedOut frame'
  | called frame' | calledDirectly frame' | directTimedOut frame' | returned frame' =>
      cases frame.symm.trans frame'

/-- A task in a semaphore wait: it was granted, or is in the queue. -/
theorem of_waiter {sem : SemId} (frame : f.aim = .semaphore sem) :
    b = none ∧ st = READY ∨ b = some (.sem sem) ∧
      (st = waiting SEMAPHORE f.timed ∨ st = READY ∧ f.timed = true) := by
  cases h with
  | semWaits frame' =>
      cases frame.symm.trans frame'
      exact .inr ⟨rfl, .inl rfl⟩
  | semTimedOut frame' timed =>
      cases frame.symm.trans frame'
      exact .inr ⟨rfl, .inr ⟨rfl, timed⟩⟩
  | semGranted => exact .inl ⟨rfl, rfl⟩
  | receives | received | takes => cases frame
  | sends frame' | sendTimedOut frame' | sent frame' | calls frame' | callTimedOut frame'
  | called frame' | calledDirectly frame' | directTimedOut frame' | returned frame' =>
      cases frame.symm.trans frame'

/-- A send that can go on: it was received, or its time is out. -/
theorem of_sent (frame : f.aim = .send r) (ready : st = READY) :
    m = some t ∧ b = none ∨ f.timed = true ∧ r ≠ t ∧ m = some r ∧ b = some (.msgQueue r) := by
  cases h with
  | sends => exact absurd ready (waiting_ne_ready _ _ (by simp))
  | sendTimedOut frame' timed other =>
      cases frame.symm.trans frame'
      exact .inr ⟨timed, other, rfl, rfl⟩
  | sent => exact .inl ⟨rfl, rfl⟩
  | receives | received | takes => cases frame
  | semWaits frame' | semTimedOut frame' | semGranted frame' | calls frame' | callTimedOut frame'
  | called frame' | calledDirectly frame' | directTimedOut frame' | returned frame' =>
      cases frame.symm.trans frame'

/-- A call that can go on: it was answered, or its time is out. -/
theorem of_called (frame : f.aim = .rpc r) (ready : st = READY) :
    m = some t ∧ b = none ∨
      f.timed = true ∧ r ≠ t ∧ m = some r ∧ (b = some (.msgQueue r) ∨ b = none) := by
  cases h with
  | calls | called | calledDirectly => exact absurd ready (waiting_ne_ready _ _ (by simp))
  | callTimedOut frame' timed other =>
      cases frame.symm.trans frame'
      exact .inr ⟨timed, other, rfl, .inl rfl⟩
  | directTimedOut frame' timed other =>
      cases frame.symm.trans frame'
      exact .inr ⟨timed, other, rfl, .inr rfl⟩
  | returned => exact .inl ⟨rfl, rfl⟩
  | receives | received | takes => cases frame
  | semWaits frame' | semTimedOut frame' | semGranted frame' | sends frame' | sendTimedOut frame'
  | sent frame' => cases frame.symm.trans frame'

/-- A receive is blocked on no queue. -/
theorem of_receiving (frame : f = .rtReceive ∨ f = .rtReceived) : b = none := by
  have other : f.aim = .other := by
    rcases frame with rfl | rfl <;> rfl
  cases h with
  | receives | received | takes => rfl
  | semGranted | sent | calledDirectly | directTimedOut | returned => rfl
  | semWaits frame' | semTimedOut frame' | sends frame' | sendTimedOut frame' | calls frame'
  | callTimedOut frame' | called frame' => cases other.symm.trans frame'

end

/-- A task that was created and not yet started. -/
theorem of_fresh (h : Phase tidy t stack st b m) (fresh : st = SUSPENDED.set READY) :
    stack = [] ∧ b = none ∧ m = some t := by
  have other : ∀ timed : Bool, ∀ bit ∈ [SEMAPHORE, SEND, RPC, RETURN, RECEIVE],
      waiting bit timed ≠ SUSPENDED.set READY := by
    decide
  cases h with
  | fresh => exact ⟨rfl, rfl, rfl⟩
  | semWaits | sends | calls | called | calledDirectly | receives =>
      exact absurd fresh (other _ _ (by simp))
  | _ => cases fresh

/-- A task in the queue of a semaphore. -/
theorem of_queued {sem : SemId} (h : Phase tidy t stack st b m) (queued : b = some (.sem sem))
    (waits : stack ≠ []) : ∃ f, stack = [f] ∧ f.aim = .semaphore sem ∧ m = some t ∧
      (st = waiting SEMAPHORE f.timed ∨ st = READY ∧ f.timed = true) := by
  cases h with
  | semWaits frame =>
      cases queued
      exact ⟨_, rfl, frame, rfl, .inl rfl⟩
  | semTimedOut frame timed =>
      cases queued
      exact ⟨_, rfl, frame, rfl, .inr ⟨rfl, timed⟩⟩
  | runs => exact absurd rfl waits
  | _ => cases queued

end Phase

/-- The task a timed send or call names. -/
def Op.timedPartner : Op n → Option (Task n)
  | .sendUntil r _ _ | .rpcUntil r _ _ => some r
  | _ => none

theorem Op.Sends.aim {r : Task n} {f : Frame n} (h : op.Sends r msg f) : f.aim = .send r := by
  cases h <;> rfl

theorem Op.Calls.aim {r : Task n} {f : Frame n} (h : op.Calls r toDo f) : f.aim = .rpc r := by
  cases h <;> rfl

theorem Op.Sends.timedPartner {r : Task n} {f : Frame n} (h : op.Sends r msg f)
    (timed : f.timed = true) : op.timedPartner = some r := by
  cases h with
  | sendUntil => rfl
  | _ => cases timed

theorem Op.Calls.timedPartner {r : Task n} {f : Frame n} (h : op.Calls r toDo f)
    (timed : f.timed = true) : op.timedPartner = some r := by
  cases h with
  | rpcUntil => rfl
  | _ => cases timed

namespace System

/-- Every task is in one of the phases. -/
def Phased (tidy : Prop) (s : System n) : Prop :=
  ∀ t, Phase tidy t (s.stack t) (s.disp.state t) (s.blockedOn t) (s.msgQueueTask t)

variable {s s₁ s' : System n} {t r : Task n} {tidy ordered : Prop} {sem : SemId} {c : Clock}

namespace Phased

/-- Expiries. -/
theorem woken {d : Dispatcher n} {now : RTIME} (h : Phased tidy s) (woken : s.disp.Woken now d) :
    Phased tidy { s with disp := d } := by
  intro t
  rcases woken.state t with same | ⟨delayed, -, out⟩
  · show Phase tidy t (s.stack t) (d.state t) (s.blockedOn t) (s.msgQueueTask t)
    rw [same]
    exact h t
  · show Phase tidy t (s.stack t) (d.state t) (s.blockedOn t) (s.msgQueueTask t)
    rw [out]
    exact (h t).wake delayed

theorem scheduled (h : Phased tidy s₁) (hs : Scheduled ordered c s₁ s') : Phased tidy s' := by
  obtain ⟨d, rfl, woken⟩ := hs.woken
  exact h.woken woken

/-- A step that concerns two tasks. -/
theorem of_pair (h : Phased tidy s) (t r : Task n)
    (others : ∀ u, u ≠ t → u ≠ r → s₁.stack u = s.stack u ∧ s₁.disp.state u = s.disp.state u ∧
      s₁.blockedOn u = s.blockedOn u ∧ s₁.msgQueueTask u = s.msgQueueTask u)
    (ht : Phase tidy t (s₁.stack t) (s₁.disp.state t) (s₁.blockedOn t) (s₁.msgQueueTask t))
    (hr : r ≠ t → Phase tidy r (s₁.stack r) (s₁.disp.state r) (s₁.blockedOn r) (s₁.msgQueueTask r)) :
    Phased tidy s₁ := by
  intro u
  by_cases e : u = t
  · rw [e]
    exact ht
  by_cases e' : u = r
  · rw [e']
    exact hr fun e'' => e (e'.trans e'')
  obtain ⟨stack, state, blocked, msg⟩ := others u e e'
  rw [stack, state, blocked, msg]
  exact h u

/-- A step of the current task that concerns it alone. -/
theorem of_one (h : Phased tidy s) (t : Task n)
    (others : ∀ u, u ≠ t → s₁.stack u = s.stack u ∧ s₁.disp.state u = s.disp.state u ∧
      s₁.blockedOn u = s.blockedOn u ∧ s₁.msgQueueTask u = s.msgQueueTask u)
    (ht : Phase tidy t (s₁.stack t) (s₁.disp.state t) (s₁.blockedOn t) (s₁.msgQueueTask t)) :
    Phased tidy s₁ :=
  h.of_pair t t (fun u hu _ => others u hu) ht fun hne => absurd rfl hne

/-! ## Messages -/

theorem clear_receive (timed : Bool) :
    (waiting RECEIVE timed).clear (RECEIVE.set DELAYED) = READY := by
  cases timed <;> decide

theorem clear_send (timed : Bool) : (waiting SEND timed).clear (SEND.set DELAYED) = READY := by
  cases timed <;> decide

theorem clear_rpc (timed : Bool) :
    ((waiting RPC timed).clear (RPC.set DELAYED)).set RETURN = waiting RETURN false := by
  cases timed <;> decide

theorem clear_return (timed : Bool) :
    (waiting RETURN timed).clear (RETURN.set DELAYED) = READY := by
  cases timed <;> decide

theorem msgCall (h : Phased True s) (running : s.disp.state s.current = READY)
    (idle : s.stack s.current = []) (moves : MsgCall s op s₁)
    (other : op.timedPartner = some s.current → op.late s.disp.timeH = true) : Phased True s₁ := by
  obtain ⟨clear, self⟩ : s.blockedOn s.current = none ∧ s.msgQueueTask s.current = some s.current := by
    have := h s.current
    rw [idle, running] at this
    exact ⟨this.of_idle.1 trivial, this.of_idle.2⟩
  have awake : ∀ {r : Task n}, s.disp.state r ≠ READY → r ≠ s.current := by
    rintro r hr rfl
    exact hr running
  cases moves with
  | refuse value => exact h
  | @deliver _ r msg f R T call magic listening =>
      obtain ⟨stack, blocked, timed, st⟩ := (h r).of_receive (listening_receive listening)
      have hne : r ≠ s.current := awake (by rw [st]; cases timed <;> decide)
      refine h.of_pair s.current r (fun u hc hr => by simp [hc, hr]) ?_ fun _ => ?_
      · have now : Phase True s.current [f] READY none (some s.current) := .sent call.aim
        simpa [hne.symm, idle, running, clear, self] using now
      · have now : Phase True r [.rtReceive] READY none (some s.current) := .received
        simpa [hne, stack, blocked, st, clear_receive] using now
  | @queueSend _ r msg f R T M Q st call magic busy state blocking early queue =>
      refine h.of_one s.current (fun u hc => by simp [hc]) ?_
      have now : Phase True s.current [f] (waiting SEND f.timed) (some (.msgQueue r)) (some r) := by
        refine .sends call.aim fun timed e => ?_
        rw [other (e ▸ call.timedPartner timed)] at early
        cases early
      simpa [idle, state] using now
  | @lateSend r msg time magic busy late =>
      rw [rtSendUntilRest_eq]
      refine h.of_one s.current (fun u hc => ?_) ?_
      · split <;> simp [hc, setMsgQueueTask, setResumeTime, Dispatcher.setResumeTime]
      · have now : Phase True s.current [] READY none (some s.current) := .runs fun _ => rfl
        split <;>
          simpa [setMsgQueueTask, setResumeTime, Dispatcher.setResumeTime, idle, running, clear]
            using now
  | @directRpc _ r toDo f R T st call magic listening state =>
      obtain ⟨stack, blocked, timed, st⟩ := (h r).of_receive (listening_receive listening)
      have hne : r ≠ s.current := awake (by rw [st]; cases timed <;> decide)
      refine h.of_pair s.current r (fun u hc hr => by simp [hc, hr]) ?_ fun _ => ?_
      · have now : Phase True s.current [f] (waiting RETURN f.timed) none (some r) :=
          .calledDirectly call.aim hne
        simpa [idle, state, clear] using now
      · have now : Phase True r [.rtReceive] READY none (some s.current) := .received
        simpa [hne, stack, blocked, st, clear_receive] using now
  | @queueRpc _ r toDo f R T M P Q st call magic busy state blocking early queue prio =>
      refine h.of_one s.current (fun u hc => by simp [hc]) ?_
      have now : Phase True s.current [f] (waiting RPC f.timed) (some (.msgQueue r)) (some r) := by
        refine .calls call.aim fun timed e => ?_
        rw [other (e ▸ call.timedPartner timed)] at early
        cases early
      simpa [idle, state] using now
  | @replies t result R T p returning client left =>
      obtain ⟨f, r, stack, calls, hr, msg, wait⟩ := (h t).of_ret returning
      have hne : t ≠ s.current := awake (by
        intro e
        rw [show s.state t = READY from e] at returning
        cases returning)
      refine h.of_one t (fun u ht => by simp [ht]) ?_
      have now : Phase True t [f] READY none (some t) := .returned calls
      rcases wait with ⟨st, -⟩ | ⟨st, -⟩ <;> simpa [stack, st, clear_return] using now
  | @takeSend _ task t R T call first sending send =>
      obtain ⟨f, r, stack, sends, st, blocked, msg⟩ := (h t).of_send send
      have hne : t ≠ s.current := awake (by rw [st]; cases f.timed <;> decide)
      refine h.of_pair s.current t (fun u hc ht => by simp [hc, ht]) ?_ fun _ => ?_
      · have now : Phase True s.current [.rtReceived] READY none (some t) := .takes
        simpa [hne.symm, idle, running, clear] using now
      · have now : Phase True t [f] READY none (some t) := .sent sends
        simpa [hne, stack, st, clear_send] using now
  | @takeRpc _ task t T Q B call first sending rpc blocked queue =>
      obtain ⟨send, msg⟩ : (s.disp.state t).rpc = true ∧ s.msgQueueTask t = some s.current := by
        simpa [System.sending, rpc] using sending
      obtain ⟨f, r, stack, calls, st, -, msg'⟩ := (h t).of_rpc send
      have hne : t ≠ s.current := awake (by rw [st]; cases f.timed <;> decide)
      obtain rfl : s.current = r := Option.some.inj (msg.symm.trans msg')
      refine h.of_pair s.current t (fun u hc ht => by simp [hc, ht, blocked]) ?_ fun _ => ?_
      · have now : Phase True s.current [.rtReceived] READY none (some t) := .takes
        simpa [hne.symm, idle, running, clear, blocked] using now
      · have now : Phase True t [f] (waiting RETURN false) (some (.retQueue s.current))
            (some s.current) := .called calls hne.symm
        simpa [hne, stack, st, clear_rpc, blocked, msg] using now
  | @listens _ task t b R T M st call first nothing state blocking =>
      refine h.of_one s.current (fun u hc => by simp [hc]) ?_
      have now : ∀ m, Phase True s.current [.rtReceive] (waiting RECEIVE b) none m := fun _ => .receives
      simpa [idle, state, clear] using now _
  | @lateReceive task t time first nothing =>
      rw [rtReceivedRest_eq]
      refine h.of_one s.current (fun u hc => ?_) ?_
      · simp [hc, setRetQueueTask, setResumeTime, Dispatcher.setResumeTime]
      · have now : Phase True s.current [] READY none (some s.current) := .runs fun _ => rfl
        simpa [setRetQueueTask, setResumeTime, Dispatcher.setResumeTime, idle, running, clear]
          using now

section

variable (s : System n)

@[simp] theorem pop_disp : s.pop.disp = s.disp := rfl
@[simp] theorem pop_current : s.pop.current = s.current := rfl
@[simp] theorem pop_stack :
    s.pop.stack = update s.stack s.current (s.stack s.current).tail := rfl
@[simp] theorem pop_queue : s.pop.queue = s.queue := rfl
@[simp] theorem pop_blockedOn : s.pop.blockedOn = s.blockedOn := rfl
@[simp] theorem pop_msgQueueTask : s.pop.msgQueueTask = s.msgQueueTask := rfl
@[simp] theorem pop_exchanged : s.pop.exchanged = s.exchanged := rfl

end

/-- The frames of the message services. -/
def messageFrame : Frame n → Bool
  | .rtSend _ _ | .rtSendUntil _ _ | .rtRpc _ _ | .rtRpcUntil _ _ | .rtReceive | .rtReceived => true
  | _ => false

/-- The current task goes on behind the `rt_schedule` of a message service. -/
theorem messageRest {f : Frame n} (h : Phased True s)
    (running : s.disp.state s.current = READY) (stack : s.stack s.current = [f])
    (message : messageFrame f = true) : Ensures (s.pop.proceed c f) (Phased True) := by
  have phase := h s.current
  rw [stack, running] at phase
  have done : ∀ {s₁ : System n}, (∀ u, u ≠ s.current → s₁.stack u = s.stack u ∧
      s₁.disp.state u = s.disp.state u ∧ s₁.blockedOn u = s.blockedOn u ∧
      s₁.msgQueueTask u = s.msgQueueTask u) → s₁.stack s.current = [] →
      s₁.disp.state s.current = READY → s₁.blockedOn s.current = none →
      s₁.msgQueueTask s.current = some s.current → Phased True s₁ := by
    intro s₁ others hs hst hb hm
    refine h.of_one s.current others ?_
    rw [hs, hst, hb, hm]
    exact .runs fun _ => rfl
  cases f with
  | rtSend r msg =>
      rw [System.proceed, rtSendRest_eq]
      obtain ⟨-, clear⟩ | ⟨timed, -⟩ := phase.of_sent rfl rfl
      · refine .some (done (fun u hu => ?_) ?_ running clear ?_)
        · simp [hu]
        · simp [stack]
        · simp
      · cases timed
  | rtSendUntil r msg =>
      rw [System.proceed, rtSendUntilRest_eq]
      by_cases exchanged : s.exchanged
      · have clear : s.blockedOn s.current = none := by
          obtain ⟨-, clear⟩ | ⟨-, other, msg, -⟩ := phase.of_sent rfl rfl
          · exact clear
          · exact absurd (Option.some.inj (msg.symm.trans exchanged)) other
        exact .some (done (fun u hu => by simp [exchanged, hu]) (by simp [stack]) running
          (by simp [exchanged, clear]) (by simp))
      · exact .some (done (fun u hu => by simp [exchanged, hu]) (by simp [stack]) running
          (by simp [exchanged]) (by simp))
  | rtRpc r toDo =>
      rw [System.proceed, rtRpcRest_eq]
      obtain ⟨-, clear⟩ | ⟨timed, -⟩ := phase.of_called rfl rfl
      · refine .some (done (fun u hu => ?_) ?_ running clear ?_)
        · simp [hu]
        · simp [stack]
        · simp
      · cases timed
  | rtRpcUntil r toDo =>
      rw [System.proceed, rtRpcUntilRest_eq]
      by_cases exchanged : s.exchanged
      · have clear : s.blockedOn s.current = none := by
          obtain ⟨-, clear⟩ | ⟨-, other, msg, -⟩ := phase.of_called rfl rfl
          · exact clear
          · exact absurd (Option.some.inj (msg.symm.trans exchanged)) other
        exact .some (done (fun u hu => by simp [exchanged, hu]) (by simp [stack]) running
          (by simp [exchanged, clear]) (by simp))
      · exact .some (done (fun u hu => by simp [exchanged, hu]) (by simp [stack]) running
          (by simp [exchanged]) (by simp))
  | rtReceive =>
      rw [System.proceed, rtReceiveRest, rtReceivedRest_eq]
      refine .some (done (fun u hu => ?_) ?_ running (phase.of_receiving (.inl rfl)) ?_)
      · simp [store, hu]
      · simp [store, stack]
      · simp [store]
  | rtReceived =>
      rw [System.proceed, rtReceivedRest_eq]
      refine .some (done (fun u hu => ?_) ?_ running (phase.of_receiving (.inr rfl)) ?_)
      · simp [hu]
      · simp [stack]
      · simp
  | _ => cases message

/-! ## Tasks -/

/-- Tasks are created and started, and their priorities change. -/
theorem taskCall (h : Phased tidy s) (moves : TaskCall s op s₁)
    (start : ∀ t, op = .taskResume t → s.suspdepth t = 1 → s.disp.state t = SUSPENDED.set READY)
    (kind : (∀ task, op ≠ .taskSuspend task) ∧ ∀ t, op ≠ .taskDelete t) : Phased tidy s₁ := by
  cases moves with
  | refuse | changeBase | changePrio | resumeLater => exact h
  | @init t prio memory free =>
      refine h.of_one t (fun u hu => by simp [initTask, System.ret, hu]) ?_
      have now : Phase tidy t [] (SUSPENDED.set READY) none (some t) := .fresh
      simpa [initTask, System.ret] using now
  | @resume t R magic depth =>
      have fresh := start t rfl depth
      obtain ⟨stack, clear, self⟩ := (h t).of_fresh fresh
      refine h.of_one t (fun u hu => by simp [System.ret, setSuspdepth, hu]) ?_
      have now : Phase tidy t [] READY none (some t) := .runs fun _ => rfl
      have started : (SUSPENDED.set READY).clear SUSPENDED = READY := rfl
      simpa [System.ret, setSuspdepth, stack, clear, self, fresh, started] using now
  | suspendLater | suspend => exact absurd rfl (kind.1 _)
  | deleteLater | delete => exact absurd rfl (kind.2 _)

/-! ## Semaphores -/

theorem takeSem_eq (s : System n) (sem : SemId) (count : Int) : s.takeSem sem count = { s with
    sem := if (s.sem sem).type > 0 then
      update s.sem sem { s.sem sem with owndby := some s.current } else s.sem
    owndres := if (s.sem sem).type > 0 then
      update s.owndres s.current (s.owndres s.current + 1) else s.owndres
    retval := update s.retval s.current (.int count) } := by
  unfold System.takeSem
  by_cases h : (s.sem sem).type > 0 <;> simp [h, System.ret, setOwndby, setSem, setOwndres]

theorem takeSem {count : Int} (h : Phased tidy s) : Phased tidy (s.takeSem sem count) := by
  rw [takeSem_eq]
  exact h

section

variable (others : ∀ u, u ≠ s.current → Phase tidy u (s.stack u) (s.disp.state u) (s.blockedOn u) (s.msgQueueTask u))
  (running : s.disp.state s.current = READY) (stack : s.stack s.current = [])
  (self : s.msgQueueTask s.current = some s.current)
include others running stack self

/-- The current task leaves a semaphore service: it has no frame any more. -/
theorem leaves (clear : tidy → s.blockedOn s.current = none) : Phased tidy s := by
  intro u
  by_cases e : u = s.current
  · rw [e, running, stack, self]
    exact .runs clear
  · exact others u e

theorem rtSemWaitUntilRest
    (clear : (s.sem sem).magic = false → tidy → s.blockedOn s.current = none) :
    Phased tidy (s.rtSemWaitUntilRest sem) := by
  unfold System.rtSemWaitUntilRest
  dsimp only
  split
  next magic => exact leaves others running stack self (clear (by simpa using magic))
  next => split
          next =>
            refine leaves (s := System.ret _ (System.setCount _ _ _)) (fun u hu => ?_) running stack
              self fun _ => update_self _ _ _
            have hb : update s.blockedOn s.current none u = s.blockedOn u := update_of_ne hu _ _
            have := others u hu
            rw [← hb] at this
            exact this
          next clear =>
            refine takeSem (leaves others running stack self fun _ => ?_)
            simpa using clear

end

theorem semWait {f : Frame n} (h : Phased tidy s) (running : s.disp.state s.current = READY)
    (idle : s.stack s.current = []) (moves : SemWait s sem f s₁)
    (flat : tidy → (s.sem sem).type > 0 → (s.sem sem).owndby = some s.current →
      (s.sem sem).count ≤ 0 → f = .rtSemWait sem) : Phased tidy s₁ := by
  have phase := h s.current
  rw [idle, running] at phase
  obtain ⟨clear, self⟩ := phase.of_idle
  cases moves with
  | refuse magic => exact h
  | nest count type owner eq =>
      rcases eq with ⟨rfl, rfl⟩ | ⟨rfl, time, future, rfl⟩
      · exact h
      · refine leaves (fun u hu => ?_) running idle self fun tidy => ?_
        · have hb : update s.blockedOn s.current (some (.sem sem)) u = s.blockedOn u :=
            update_of_ne hu _ _
          have := h u
          rw [← hb] at this
          exact this
        · cases flat tidy type owner count
  | take magic count => exact Phased.takeSem h
  | block magic count other frame state blocked queue prio =>
      refine h.of_one s.current (fun u hu => by simp [hu, blocked]) ?_
      have now : Phase tidy s.current [f] (waiting SEMAPHORE f.timed) (some (.sem sem))
          (some s.current) := .semWaits frame
      simpa [idle, state, blocked, self] using now
  | late hf magic count =>
      refine rtSemWaitUntilRest (fun u hu => ?_) running idle self fun dead => ?_
      · have hb : update s.blockedOn s.current (some (.sem sem)) u = s.blockedOn u :=
          update_of_ne hu _ _
        have := h u
        rw [← hb] at this
        exact this
      · have live : (update s.sem sem { s.sem sem with count := (s.sem sem).count - 1 } sem).magic
            = false := dead
        rw [update_self] at live
        exact absurd (magic.symm.trans live) nofun

/-- A waiter leaves the queue of a semaphore. -/
theorem release (h : Phased tidy s) (queued : s.blockedOn t = some (.sem sem))
    (waits : s.stack t ≠ [])
    (others : ∀ u, u ≠ t → s₁.disp.state u = s.disp.state u ∧ s₁.blockedOn u = s.blockedOn u)
    (stack : s₁.stack = s.stack) (msg : s₁.msgQueueTask = s.msgQueueTask)
    (state : s₁.disp.state t = if s.disp.state t = READY then READY
      else (s.disp.state t).clear (SEMAPHORE.set DELAYED))
    (clear : s₁.blockedOn t = none) : Phased tidy s₁ := by
  have ready : ∀ timed, (waiting SEMAPHORE timed).clear (SEMAPHORE.set DELAYED) = READY := by
    decide
  obtain ⟨f, one, frame, self, st⟩ := (h t).of_queued queued waits
  refine h.of_one t (fun u hu => ⟨by rw [stack], (others u hu).1, (others u hu).2, by rw [msg]⟩) ?_
  have now : Phase tidy t [f] READY none (some t) := .semGranted frame
  rw [stack, state, clear, msg, one, self]
  rcases st with st | ⟨st, -⟩
  · rwa [st, if_neg (Phase.waiting_ne_ready _ _ (by simp)), ready]
  · rwa [if_pos st]

theorem grant {g : System n} (h : Phased tidy s) (grant : Grant s sem g)
    (queued : ∀ t, s.taskOf (s.queue.next (.head (.sem sem))) = some t →
      s.blockedOn t = some (.sem sem) ∧ s.stack t ≠ []) : Phased tidy g := by
  cases grant with
  | nobody none => exact h
  | first first =>
      obtain ⟨blocked, waits⟩ := queued _ first
      exact h.release blocked waits (fun u hu => by simp [hu]) rfl rfl
        (update_self _ _ _) (update_self _ _ _)

end Phased

end System

end Rtai.Up
