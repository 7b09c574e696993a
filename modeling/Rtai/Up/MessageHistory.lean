import Rtai.Up.Messaging

/-!
# What the message services return

In every run of the message services, timed or not, a receive that returns a task returns
what that task has sent to the caller or called it with.  A remote procedure call that returns
its callee returns what the callee passed to `rt_return` while the call was waiting.

`Heard` says of a task where the message comes from that it would return with now.
-/

namespace Rtai.Up

open Function Rtai.Lib

variable {n : Nat}

/-- The receiver and the message of a send or a call. -/
def Op.passes : Op n → Option (Task n × UInt32)
  | .send r msg | .sendIf r msg | .sendUntil r msg _ | .rpc r msg | .rpcIf r msg
  | .rpcUntil r msg _ => some (r, msg)
  | _ => none

theorem Op.Sends.passes {op : Op n} {r : Task n} {msg : UInt32} {f : Frame n}
    (call : op.Sends r msg f) : op.passes = some (r, msg) := by
  cases call <;> rfl

theorem Op.Calls.passes {op : Op n} {r : Task n} {msg : UInt32} {f : Frame n}
    (call : op.Calls r msg f) : op.passes = some (r, msg) := by
  cases call <;> rfl

/-- The trace of a run. -/
abbrev Trace (n : Nat) := List (Record (System n) (Event n))

/-- A call whose answer is there has no time to wait for any more. -/
theorem Phase.not_delayed {t r : Task n} {f : Frame n} {st : TaskState} {b : Option (Queue n)}
    (h : Phase True t [f] st b (some t)) (aim : f.aim = .rpc r) : ¬st.delayed = true := by
  intro delayed
  cases h with
  | @calls f _ frame other =>
      cases timed : f.timed with
      | true => exact other timed rfl
      | false => simp [waiting, timed, READY, RPC, TaskState.set] at delayed
  | calledDirectly _ other => exact other rfl
  | called _ other => exact other rfl
  | semWaits frame | sends frame => cases aim.symm.trans frame
  | receives => cases aim
  | _ => cases delayed

namespace System

/-- The task `t` has passed the message to `r`. -/
def Passed (tr : Trace n) (t r : Task n) (msg : UInt32) : Prop :=
  ∃ x ∈ tr, x.pre.current = t ∧ ∃ op c, x.event = .call op c ∧ op.passes = some (r, msg)

/-- While `t` waited in the frame `f`, the task `r` returned the result to it, and `t` has not
run since. -/
def Answered (tr : Trace n) (t : Task n) (f : Frame n) (r : Task n) (result : UInt32) : Prop :=
  ∃ before y behind, tr = before ++ y :: behind ∧ y.pre.current = r ∧
    (∃ c, y.event = .call (.ret t result) c) ∧ y.pre.stack t = [f] ∧
    ∀ z ∈ behind, z.pre.current ≠ t

/-- The words of a task that the message services use. -/
structure Words (n : Nat) where
  state : TaskState
  stack : List (Frame n)
  task : Option (Task n)
  waits : Bool
  msg : UInt32
  out : UInt32

def words (s : System n) (u : Task n) : Words n :=
  ⟨s.state u, s.stack u, s.msgQueueTask u, s.retQueueTask u, s.msg u, s.out u⟩

/-- Where the message of the task `u` comes from. -/
structure Heard (tr : Trace n) (u : Task n) (w : Words n) : Prop where
  /-- What waits to be received was sent. -/
  sent : ∀ r, w.state.send = true ∨ w.state.rpc = true → w.task = some r → Passed tr u r w.msg
  /-- A receive that waited, after it was sent to. -/
  delivered : ∀ t, w.stack = [.rtReceive] → w.waits = false → w.task = some t → Passed tr t u w.msg
  /-- A receive that has taken a message. -/
  taken : ∀ t, w.stack = [.rtReceived] → w.waits = false → w.task = some t → Passed tr t u w.out
  /-- A call that is over. -/
  answered : ∀ f r, w.stack = [f] → f.aim = .rpc r → w.state = READY → w.task = some u →
    Answered tr u f r w.msg

variable {tr : Trace n} {z : Record (System n) (Event n)} {s s₁ s' : System n} {t u r : Task n}
  {op : Op n} {c : Clock} {e : Event n} {msg : UInt32} {f : Frame n} {w : Words n}

theorem Passed.snoc (h : Passed tr t r msg) : Passed (tr ++ [z]) t r msg := by
  obtain ⟨x, mem, by_, op, c, event, passes⟩ := h
  exact ⟨x, List.mem_append_left _ mem, by_, op, c, event, passes⟩

theorem Passed.last (passes : op.passes = some (r, msg)) (hz : z.event = .call op c) :
    Passed (tr ++ [z]) z.pre.current r msg :=
  ⟨z, List.mem_append_right _ (List.mem_singleton_self z), rfl, op, c, hz, passes⟩

theorem Answered.snoc (h : Answered tr t f r msg) (other : z.pre.current ≠ t) :
    Answered (tr ++ [z]) t f r msg := by
  obtain ⟨before, y, behind, rfl, by_, event, stack, since⟩ := h
  refine ⟨before, y, behind ++ [z], by simp, by_, event, stack, ?_⟩
  intro x mem
  rcases List.mem_append.mp mem with old | last
  · exact since x old
  · rwa [List.mem_singleton.mp last]

namespace Heard

/-- A task in its own code, behind a send or not started. -/
theorem silent (bits : ¬(w.state.send = true ∨ w.state.rpc = true))
    (frames : ∀ f ∈ w.stack, ∃ r, f.aim = .send r) : Heard tr u w where
  sent _ sends := absurd sends bits
  delivered t stack := by simp [stack, Frame.aim] at frames
  taken t stack := by simp [stack, Frame.aim] at frames
  answered f r stack aim := by simp [stack, aim] at frames

/-- A task that waits behind a send or a call. -/
theorem waits (stack : w.stack = [f]) (aim : f.aim ≠ .other) (busy : w.state ≠ READY)
    (passed : w.state.send = true ∨ w.state.rpc = true →
      ∀ r, w.task = some r → Passed tr u r w.msg) : Heard tr u w where
  sent r sends := passed sends r
  delivered t here := by cases stack.symm.trans here; exact absurd rfl aim
  taken t here := by cases stack.symm.trans here; exact absurd rfl aim
  answered _ _ _ _ ready := absurd ready busy

/-- A task behind a receive that waits. -/
theorem receives (stack : w.stack = [.rtReceive])
    (bits : ¬(w.state.send = true ∨ w.state.rpc = true))
    (passed : w.waits = false → ∀ t, w.task = some t → Passed tr t u w.msg) : Heard tr u w where
  sent _ sends := absurd sends bits
  delivered t _ got := passed got t
  taken t here := by cases stack.symm.trans here
  answered f r here aim := by cases stack.symm.trans here; cases aim

/-- A task behind a receive that has not waited. -/
theorem takes (stack : w.stack = [.rtReceived]) (ready : w.state = READY)
    (passed : ∀ t, w.task = some t → Passed tr t u w.out) : Heard tr u w where
  sent _ sends := by simp [ready, READY] at sends
  delivered t here := by cases stack.symm.trans here
  taken t _ _ := passed t
  answered f r here aim := by cases stack.symm.trans here; cases aim

/-- The answer has come. -/
theorem returned (stack : w.stack = [f]) (aim : f.aim = .rpc r) (ready : w.state = READY)
    (answered : Answered tr u f r w.msg) : Heard tr u w where
  sent _ sends := by simp [ready, READY] at sends
  delivered t here := by cases stack.symm.trans here; cases aim
  taken t here := by cases stack.symm.trans here; cases aim
  answered f' r' here aim' _ _ := by
    cases stack.symm.trans here
    cases aim.symm.trans aim'
    exact answered

/-- A task that the step does not touch, and that does not take it. -/
theorem snoc (h : Heard tr u w) (other : z.pre.current ≠ u) : Heard (tr ++ [z]) u w where
  sent r sends to_ := (h.sent r sends to_).snoc
  delivered t stack got from_ := (h.delivered t stack got from_).snoc
  taken t stack got from_ := (h.taken t stack got from_).snoc
  answered f r stack aim ready self := (h.answered f r stack aim ready self).snoc other

theorem frame (h : Heard tr u (s.words u)) (other : z.pre.current ≠ u)
    (same : s₁.words u = s.words u) : Heard (tr ++ [z]) u (s₁.words u) := same ▸ h.snoc other

/-- An expiry makes no sender and no answer. -/
theorem woken {d : Dispatcher n} {now : RTIME} (h : Heard tr u (s.words u))
    (phase : Phase True u (s.stack u) (s.disp.state u) (s.blockedOn u) (s.msgQueueTask u))
    (woken : s.disp.Woken now d) : Heard tr u (System.words { s with disp := d } u) := by
  rcases woken.state u with same | ⟨delayed, -, cleared⟩
  · have words : System.words { s with disp := d } u = s.words u := by
      simp only [System.words, System.state, same]
    exact words ▸ h
  · refine ⟨fun r sends => h.sent r ?_, h.delivered, h.taken, fun f r stack aim _ self => ?_⟩
    · rw [show (System.words { s with disp := d } u).state = (s.disp.state u).clear TIMED_OUT from
        cleared] at sends
      exact sends.imp (fun send => (Bool.and_eq_true_iff.mp send).1)
        fun rpc => (Bool.and_eq_true_iff.mp rpc).1
    · rw [show s.stack u = [f] from stack, show s.msgQueueTask u = some u from self] at phase
      exact absurd delayed (phase.not_delayed aim)

/-- Creating and starting tasks. -/
theorem starts (starts : s.starts op = true) (phased : Phased True s) (moves : TaskCall s op s₁)
    (pre : z.pre = s) (running : s.disp.state s.current = READY) (idle : s.stack s.current = [])
    (h : ∀ u, Heard tr u (s.words u)) (u : Task n) : Heard (tr ++ [z]) u (s₁.words u) := by
  subst pre
  have untouched (same : s₁.words u = z.pre.words u) : Heard (tr ++ [z]) u (s₁.words u) := by
    by_cases current : u = z.pre.current
    · rw [same, current]
      exact .silent (by simp [words, System.state, running, READY]) (by simp [words, idle])
    · exact (h u).frame (Ne.symm current) same
  cases moves with
  | refuse | resumeLater => exact untouched rfl
  | @init t prio memory free =>
      by_cases partner : u = t
      · subst partner
        refine .silent ?_ ?_ <;>
          simp [words, System.state, System.ret, initTask, SUSPENDED, READY, TaskState.set]
      · exact untouched (by simp [words, System.state, System.ret, initTask, partner])
  | @resume t R magic depth =>
      have fresh : z.pre.state t = SUSPENDED.set READY := of_decide_eq_true starts
      by_cases partner : u = t
      · subst partner
        obtain ⟨stack, -⟩ := (phased u).of_fresh fresh
        refine .silent ?_ ?_
        · show ¬((update z.pre.disp.state u _ u).send = true ∨ (update z.pre.disp.state u _ u).rpc = true)
          rw [update_self, show z.pre.disp.state u = _ from fresh]
          decide
        · simp [words, System.ret, setSuspdepth, stack]
      · exact untouched (by simp [words, System.state, System.ret, setSuspdepth, partner])
  | _ => cases starts

theorem unsent : ∀ timed : Bool, ∀ bit ∈ [RETURN, RECEIVE],
    ¬((waiting bit timed).send = true ∨ (waiting bit timed).rpc = true) := by
  decide

/-- The caller of a message service. -/
theorem msgCaller (running : s.disp.state s.current = READY)
    (idle : s.stack s.current = []) (moves : MsgCall s op s₁)
    (passed : ∀ {r msg}, op.passes = some (r, msg) → Passed (tr ++ [z]) s.current r msg)
    (sent : ∀ t r, (s.state t).send = true ∨ (s.state t).rpc = true → s.msgQueueTask t = some r →
      Passed tr t r (s.msg t)) : Heard (tr ++ [z]) s.current (s₁.words s.current) := by
  have apart {r : Task n} (busy : s.state r ≠ READY) : s.current ≠ r := fun e => busy (e ▸ running)
  have own (state : s₁.state s.current = READY) (stack : s₁.stack s.current = []) :
      Heard (tr ++ [z]) s.current (s₁.words s.current) :=
    .silent (by simp [words, state, READY]) (by simp [words, stack])
  -- a task that waits for an answer, or on a queue with what it passes
  have behind {f : Frame n} {b : TaskState} (mem : b ∈ [SEMAPHORE, SEND, RPC, RETURN, RECEIVE])
      (aim : f.aim ≠ .other) (stack : s₁.stack s.current = [f])
      (state : s₁.state s.current = waiting b f.timed)
      (passes : b = RETURN ∨ ∃ r, op.passes = some (r, s₁.msg s.current) ∧
        s₁.msgQueueTask s.current = some r) :
      Heard (tr ++ [z]) s.current (s₁.words s.current) := by
    refine .waits (f := f) stack aim (ne_of_eq_of_ne state (Phase.waiting_ne_ready _ _ mem)) ?_
    intro sends r to_
    rcases passes with rfl | ⟨r', passes, task⟩
    · rw [show (s₁.words s.current).state = _ from state] at sends
      exact absurd sends (unsent _ _ (by simp))
    · cases task.symm.trans to_
      exact passed passes
  cases moves with
  | refuse => exact own running idle
  | lateSend =>
      rw [rtSendUntilRest_eq] at own ⊢
      exact own running idle
  | lateReceive =>
      rw [rtReceivedRest_eq] at own ⊢
      exact own running idle
  | @deliver _ r msg f R T call magic listening =>
      have real := apart (r := r) fun ready => by simp [System.listening, ready, READY] at listening
      refine .silent (by simp [words, System.state, real, running, READY]) ?_
      simpa [words, idle] using ⟨r, call.aim⟩
  | queueSend call =>
      refine behind (b := SEND) (by simp) (by rw [call.aim]; simp) (by simp [idle]) ?_ (.inr ?_)
      · simpa [System.state]
      · simp [call.passes]
  | @directRpc _ r msg f R T st call magic listening =>
      refine behind (b := RETURN) (by simp) (by rw [call.aim]; simp) (by simp [idle]) ?_ (.inl rfl)
      simpa [System.state]
  | queueRpc call =>
      refine behind (b := RPC) (by simp) (by rw [call.aim]; simp) (by simp [idle]) ?_ (.inr ?_)
      · simpa [System.state]
      · simp [call.passes]
  | @replies t _ R T p returning =>
      have real := apart (r := t) fun ready => by simp [ready, READY] at returning
      exact own (by simp [System.state, real, running]) idle
  | @takeSend _ task t R T call first sending send =>
      have real := apart (r := t) fun ready => by simp [ready, READY] at send
      refine .takes (by simp [words, idle]) (by simp [words, System.state, real, running]) fun t' from_ => ?_
      obtain rfl : t = t' := by simpa [words, real] using from_
      simpa [words] using (sent t _ (.inl send) (by simpa [System.sending, send] using sending)).snoc
  | @takeRpc _ task t T Q B call first sending rpc =>
      obtain ⟨waits, to_⟩ : (s.state t).rpc = true ∧ s.msgQueueTask t = some s.current := by
        simpa [System.sending, rpc] using sending
      have real := apart (r := t) fun ready => by simp [ready, READY] at waits
      refine .takes (by simp [words, idle]) (by simp [words, System.state, real, running]) fun t' from_ => ?_
      obtain rfl : t = t' := by simpa [words] using from_
      simpa [words] using (sent t _ (.inr waits) to_).snoc
  | @listens _ task t b R T M st call first nothing state =>
      refine .receives (by simp [words, idle]) ?_ (by simp [words])
      show ¬((update s.disp.state s.current st s.current).send = true ∨
        (update s.disp.state s.current st s.current).rpc = true)
      rw [update_self, state]
      exact unsent _ _ (by simp)

/-- A call of a message service. -/
theorem msgCall (phased : Phased True s) (running : s.disp.state s.current = READY)
    (idle : s.stack s.current = []) (moves : MsgCall s op s₁) (pre : z.pre = s)
    (event : z.event = .call op c) (h : ∀ u, Heard tr u (s.words u)) (u : Task n) :
    Heard (tr ++ [z]) u (s₁.words u) := by
  subst pre
  have passed {r : Task n} {msg : UInt32} (passes : op.passes = some (r, msg)) :
      Passed (tr ++ [z]) z.pre.current r msg := .last passes event
  by_cases current : u = z.pre.current
  · subst current
    exact msgCaller running idle moves passed fun t => (h t).sent
  · have same : s₁.words u = z.pre.words u → Heard (tr ++ [z]) u (s₁.words u) :=
      (h u).frame (Ne.symm current)
    -- what a receiver gets
    have gets (listening : z.pre.listening u = true) (passes : op.passes = some (u, s₁.msg u))
        (state : s₁.state u = (z.pre.state u).clear (RECEIVE.set DELAYED))
        (stack : s₁.stack u = z.pre.stack u) (task : s₁.msgQueueTask u = some z.pre.current) :
        Heard (tr ++ [z]) u (s₁.words u) := by
      obtain ⟨frame, -, timed, word⟩ := (phased u).of_receive (Bool.and_eq_true_iff.mp listening).1
      refine .receives (stack.trans frame) ?_ fun _ t from_ => ?_
      · rw [show (s₁.words u).state = _ from state, show z.pre.state u = _ from word,
          Phased.clear_receive]
        decide
      · cases task.symm.trans from_
        exact passed passes
    cases moves with
    | refuse => exact same rfl
    | queueSend | queueRpc | listens => exact same (by simp [words, System.state, current])
    | lateSend =>
        exact same (by simp [rtSendUntilRest_eq, words, System.state, setMsgQueueTask, setResumeTime,
          Dispatcher.setResumeTime, current])
    | lateReceive =>
        exact same (by simp [rtReceivedRest_eq, words, System.state, setRetQueueTask, setResumeTime,
          Dispatcher.setResumeTime, current])
    | @deliver _ r msg f R T call magic listening =>
        by_cases partner : u = r
        · subst partner
          exact gets listening (by simp [call.passes]) (by simp [System.state]) (by simp [current]) (by simp)
        · exact same (by simp [words, System.state, current, partner])
    | @directRpc _ r msg f R T st call magic listening =>
        by_cases partner : u = r
        · subst partner
          exact gets listening (by simp [call.passes]) (by simp [System.state, current]) (by simp [current])
            (by simp [current])
        · exact same (by simp [words, System.state, current, partner])
    | @replies t result R T p returning client =>
        by_cases partner : u = t
        · subst partner
          obtain ⟨f, r, stack, aim, -, task, state⟩ := (phased u).of_ret returning
          obtain rfl : r = z.pre.current := Option.some.inj (task.symm.trans client)
          refine .returned stack aim ?_ ⟨tr, z, [], rfl, rfl, ⟨c, ?_⟩, stack, List.forall_mem_nil _⟩
          · show update z.pre.disp.state u _ u = READY
            rw [update_self]
            rcases state with ⟨word, -⟩ | ⟨word, -⟩ <;>
              rw [show z.pre.disp.state u = _ from word, Phased.clear_return]
          · simpa [words] using event
        · exact same (by simp [words, System.state, partner])
    | @takeSend _ task t R T call first sending send =>
        by_cases partner : u = t
        · subst partner
          obtain ⟨f, r, stack, aim, word, -⟩ := (phased u).of_send send
          refine .silent ?_ (by simpa [words, current, stack] using ⟨r, aim⟩)
          show ¬((update z.pre.disp.state u _ u).send = true ∨ (update z.pre.disp.state u _ u).rpc = true)
          rw [update_self, show z.pre.disp.state u = _ from word, Phased.clear_send]
          decide
        · exact same (by simp [words, System.state, current, partner])
    | @takeRpc _ task t T Q B call first sending rpc =>
        by_cases partner : u = t
        · subst partner
          have calls : (z.pre.state u).rpc = true := by
            simpa [System.sending, rpc] using (Bool.and_eq_true_iff.mp sending).1
          obtain ⟨f, r, stack, aim, word, -⟩ := (phased u).of_rpc calls
          have now : ((z.pre.disp.state u).clear (RPC.set DELAYED)).set RETURN = waiting RETURN false := by
            rw [show z.pre.disp.state u = _ from word, Phased.clear_rpc]
          refine .waits (f := f) ((update_of_ne current _ _).trans stack) (by rw [aim]; simp) ?_
            fun sends => absurd ?_ (unsent false RETURN (by simp))
          · simpa [words, System.state, now] using Phase.waiting_ne_ready false RETURN (by simp)
          · simpa [words, System.state, now] using sends
        · exact same (by simp [words, System.state, current, partner])

/-- The code behind the `rt_schedule` of a message service. -/
theorem rest {P : Task n → Option (Task n)} {Q : Links (QNode n)} {v : Task n → Ret n}
    (running : s.disp.state s.current = READY) (stack : s.stack s.current = [f]) (pre : z.pre = s)
    (h : ∀ u, Heard tr u (s.words u)) (u : Task n) : Heard (tr ++ [z]) u (System.words { s.pop with
      prioPassedTo := P
      queue := Q
      blockedOn := update s.blockedOn s.current none
      msgQueueTask := update s.msgQueueTask s.current (some s.current)
      retQueueTask := update s.retQueueTask s.current (s.restWaits f)
      retval := v
      out := update s.out s.current (s.restMessage f) } u) := by
  subst pre
  by_cases current : u = z.pre.current
  · subst current
    exact .silent (by simp [words, System.state, pop, running, READY]) (by simp [words, pop, stack])
  · exact (h u).frame (Ne.symm current) (by simp [words, System.state, pop, current])

theorem step (messaging : Messaging s) (h : ∀ u, Heard tr u (s.words u)) (guard : s.ofMessages e = true)
    (stepped : System.step e s = some s') (u : Task n) : Heard (tr ++ [⟨s, e, s'⟩]) u (s'.words u) := by
  have running : s.disp.state s.current = READY := messaging.ok.running
  cases messaging.cases guard stepped with
  | @message op c s₁ _ idle other moves hs =>
      have phased : Phased True s₁ := messaging.phased.msgCall running idle moves fun self => by
        simpa [namesOther, self] using other
      obtain ⟨d, rfl, woken⟩ := hs.woken
      exact (msgCall (z := ⟨s, .call op c, _⟩) messaging.phased running idle moves rfl rfl h u).woken
        (phased u) woken
  | @task op c s₁ _ idle starts moves hs =>
      have phased : Phased True s₁ := messaging.phased.starts starts moves
      obtain ⟨d, rfl, woken⟩ := hs.woken
      exact (Heard.starts (z := ⟨s, .call op c, _⟩) starts messaging.phased moves rfl running idle h u).woken
        (phased u) woken
  | @resume f c _ stack frame goes =>
      obtain ⟨P, Q, rfl⟩ := messaging.rest stack frame goes
      exact rest (z := ⟨s, .resume c, _⟩) running stack rfl h u
  | @timer c d idle woken =>
      refine Heard.woken (s := s) ?_ (messaging.phased u) woken
      by_cases current : u = s.current
      · subst current
        exact .silent (by simp [words, System.state, running, READY]) (by simp [words, idle])
      · exact (h u).frame (Ne.symm current) rfl

end Heard

theorem boot_heard (n : Nat) (timer : Timer) (u : Task n) : Heard [] u ((boot n timer).words u) := by
  refine .silent ?_ (fun _ mem => absurd mem List.not_mem_nil)
  show ¬((update (fun _ => DEAD) rtLinuxTask READY u).send = true ∨
    (update (fun _ => DEAD) rtLinuxTask READY u).rpc = true)
  by_cases e : u = rtLinuxTask
  · rw [e, update_self]
    decide
  · rw [update_of_ne e]
    decide

variable {timer : Timer}

/-- In every state each task knows where its message comes from. -/
theorem heard (run : Run System.step (fun s e => s.ofMessages e = true) (boot n timer) tr s) :
    Messaging s ∧ ∀ u, Heard tr u (s.words u) := by
  refine run.history (P := fun tr s => Messaging s ∧ ∀ u, Heard tr u (s.words u)) ?_ ?_
  · exact ⟨boot_messaging n timer, boot_heard n timer⟩
  · intro tr s s' e h guard stepped
    exact ⟨h.1.step guard stepped, Heard.step h.1 h.2 guard stepped⟩

/-- What the code behind `rt_schedule` leaves to its caller. -/
theorem Messaging.returns (h : Messaging s) (stack : s.stack s.current = [f])
    (guard : s.ofMessages (.resume c) = true) (stepped : System.step (.resume c) s = some s')
    (value : s'.retval s.current = .task (some t)) :
    s.restValue f = some t ∧ s'.out s.current = s.restMessage f := by
  cases h.cases guard stepped with
  | resume stack' frame goes =>
      cases stack'.symm.trans stack
      obtain ⟨P, Q, rfl⟩ := h.rest stack frame goes
      exact ⟨Ret.task.inj ((update_self s.current _ s.retval).symm.trans value),
        update_self s.current _ s.out⟩

section

variable {before behind : Trace n} {x : Record (System n) (Event n)}
  (run : Run System.step (fun s e => s.ofMessages e = true) (boot n timer) tr s)
  (here : tr = before ++ x :: behind) (resumes : x.event = .resume c)
  (stack : x.pre.stack x.pre.current = [f])
  (value : x.post.retval x.pre.current = .task (some t))

include run here resumes stack value

/-- A receive returns a task that has passed the message to the caller. -/
theorem receives_returned (receives : f = .rtReceive ∨ f = .rtReceived) :
    Passed before t x.pre.current (x.post.out x.pre.current) := by
  obtain ⟨reached, guard, stepped⟩ := run.before here
  rw [resumes] at guard stepped
  obtain ⟨messaging, heard⟩ := heard reached
  obtain ⟨rest, message⟩ := messaging.returns stack guard stepped value
  obtain ⟨got, from_⟩ : x.pre.retQueueTask x.pre.current = false ∧
      x.pre.msgQueueTask x.pre.current = some t := by
    rcases receives with rfl | rfl <;> simpa [restValue] using rest
  rw [message]
  rcases receives with rfl | rfl
  · exact (heard x.pre.current).delivered t stack got from_
  · exact (heard x.pre.current).taken t stack got from_

/-- A remote procedure call returns its callee, which has passed the result to `rt_return`. -/
theorem rpcs_returned (aim : f.aim = .rpc r) :
    t = r ∧ Answered before x.pre.current f r (x.post.out x.pre.current) := by
  obtain ⟨reached, guard, stepped⟩ := run.before here
  rw [resumes] at guard stepped
  obtain ⟨messaging, heard⟩ := heard reached
  obtain ⟨rest, message⟩ := messaging.returns stack guard stepped value
  have answered := (heard x.pre.current).answered f r stack aim messaging.ok.running
  cases f with
  | rtRpc | rtRpcUntil =>
      cases aim
      obtain ⟨exchanged, rfl⟩ : x.pre.exchanged ∧ r = t := by simpa [restValue] using rest
      rw [message]
      exact ⟨rfl, by simpa [restMessage, exchanged, words] using answered exchanged⟩
  | _ => cases aim

end

/-- The task `r` waits, and `t` calls it. -/
def called (r t : Task 2) : List (Event 2) :=
  let c : Clock := {}
  [.call (.taskInit r 1 true) c, .call (.taskInit t 2 true) c, .call (.taskResume r) c,
    .call (.receive none) c, .call (.taskResume t) c, .call (.rpc r 7) c]

/-- Task 1 receives what task 2 calls it with. -/
theorem receives_returned_call : ∃ (tr : Trace 2) (s s' : System 2),
    Run System.step (fun s e => s.ofMessages e = true) (boot 2 {}) tr s ∧
      s'.retval 1 = .task (some 2) ∧ Passed tr 2 1 (s'.out 1) := by
  obtain ⟨tr, s, run, test⟩ := Run.of_execute System.step (fun s e => s.ofMessages e = true)
    (boot 2 {}) (called 1 2) (fun s => s.current = 1 ∧ s.stack 1 = [.rtReceive] ∧
      (System.step (.resume {}) s).any fun s' => s'.retval 1 = .task (some 2)) (by decide +kernel)
  obtain ⟨current, stack, next⟩ := of_decide_eq_true test
  obtain ⟨s', stepped, value⟩ := (Option.any_eq_true _ _).mp next
  have value := of_decide_eq_true value
  have passed := receives_returned (run.snoc (e := .resume {}) rfl stepped) rfl rfl
    (by rw [current, stack]) (by rw [current, value]) (.inl rfl)
  exact ⟨tr, s, s', run, value, by simpa [current] using passed⟩

/-- Task 1 returns 9, and task 2 has it. -/
theorem rpcs_returned_call : ∃ (tr : Trace 2) (s s' : System 2),
    Run System.step (fun s e => s.ofMessages e = true) (boot 2 {}) tr s ∧
      s'.out 2 = 9 ∧ Answered tr 2 (.rtRpc 1 7) 1 (s'.out 2) := by
  obtain ⟨tr, s, run, test⟩ := Run.of_execute System.step (fun s e => s.ofMessages e = true)
    (boot 2 {}) (called 1 2 ++ [.resume {}, .call (.ret 2 9) {}, .call (.receive none) {}])
    (fun s => s.current = 2 ∧ s.stack 2 = [.rtRpc 1 7] ∧
      (System.step (.resume {}) s).any fun s' => s'.retval 2 = .task (some 1) ∧ s'.out 2 = 9)
    (by decide +kernel)
  obtain ⟨current, stack, next⟩ := of_decide_eq_true test
  obtain ⟨s', stepped, value⟩ := (Option.any_eq_true _ _).mp next
  obtain ⟨value, out⟩ := of_decide_eq_true value
  have answered := rpcs_returned (run.snoc (e := .resume {}) rfl stepped) rfl rfl
    (by rw [current, stack]) (by rw [current, value]) rfl
  exact ⟨tr, s, s', run, out, by simpa [current] using answered.2⟩

end System

end Rtai.Up
