import Rtai.Up.SemaphoreMoves

/-!
# What the message services do

`MsgCall` lists the outcomes of a call of a message service, each with the
state it leaves to `rt_schedule`.  As in `SemaphoreMoves` the links of the ready
and the timed list are left open.

The code behind the `rt_schedule` of a message service writes a few fields of
its caller only, and is used as it stands.
-/

namespace Rtai.Up

open Function Rtai.Lib

variable {n : Nat}

/-! ## The calls -/

/-- A send, with the frame it leaves. -/
inductive Op.Sends : Op n → Task n → UInt32 → Frame n → Prop
  | send {r : Task n} {msg : UInt32} : Op.Sends (.send r msg) r msg (.rtSend r msg)
  | sendIf {r : Task n} {msg : UInt32} : Op.Sends (.sendIf r msg) r msg (.rtSend r msg)
  | sendUntil {r : Task n} {msg : UInt32} {time : RTIME} :
      Op.Sends (.sendUntil r msg time) r msg (.rtSendUntil r msg)

/-- A remote procedure call, with the frame it leaves. -/
inductive Op.Calls : Op n → Task n → UInt32 → Frame n → Prop
  | rpc {r : Task n} {toDo : UInt32} : Op.Calls (.rpc r toDo) r toDo (.rtRpc r toDo)
  | rpcIf {r : Task n} {toDo : UInt32} : Op.Calls (.rpcIf r toDo) r toDo (.rtRpc r toDo)
  | rpcUntil {r : Task n} {toDo : UInt32} {time : RTIME} :
      Op.Calls (.rpcUntil r toDo time) r toDo (.rtRpcUntil r toDo)

/-- A receive, with the task it names. -/
inductive Op.Receives : Op n → Option (Task n) → Prop
  | receive {task : Option (Task n)} : Op.Receives (.receive task) task
  | receiveIf {task : Option (Task n)} : Op.Receives (.receiveIf task) task
  | receiveUntil {task : Option (Task n)} {time : RTIME} :
      Op.Receives (.receiveUntil task time) task

/-- The conditional forms give up instead of blocking on a queue. -/
def Op.conditional : Op n → Bool
  | .sendIf _ _ | .rpcIf _ _ | .receiveIf _ => true
  | _ => false

/-- The time of a timed message call is over. -/
def Op.late (timeH : RTIME) : Op n → Bool
  | .sendUntil _ _ time | .rpcUntil _ _ time | .receiveUntil _ time => !(time > timeH)
  | _ => false

namespace System

/-- `owndres` behind an `rt_return`. -/
def owndresReturned (own : BitVec 32) : BitVec 32 := if own &&& RPCHLF = 0 then own else own - RPCINC

/-- The outcomes of a call of a message service. -/
inductive MsgCall (s : System n) : Op n → System n → Prop
  /-- Nothing is exchanged and the caller does not wait. -/
  | refuse {op : Op n} {M : Task n → RTIME} {v : Ret n} (value : v = .msgErr ∨ v = .task none) :
      MsgCall s op ({ s with disp := { s.disp with resumeTime := M } }.ret v)
  /-- The receiver listens. -/
  | deliver {op : Op n} {r : Task n} {msg : UInt32} {f : Frame n} {R T : Links (Task n)}
      (call : op.Sends r msg f) (magic : s.disp.magic r = true)
      (listening : s.listening r = true) :
      MsgCall s op { s with
        disp := { s.disp with
          ready := R
          timed := T
          state := update s.disp.state r ((s.disp.state r).clear (RECEIVE.set DELAYED)) }
        msg := update s.msg r msg
        msgQueueTask := update s.msgQueueTask r (some s.current)
        retQueueTask := update s.retQueueTask r false
        stack := update s.stack s.current (f :: s.stack s.current) }
  /-- The sender queues. -/
  | queueSend {op : Op n} {r : Task n} {msg : UInt32} {f : Frame n} {R T : Links (Task n)}
      {M : Task n → RTIME} {Q : Links (QNode n)} {st : TaskState}
      (call : op.Sends r msg f) (magic : s.disp.magic r = true) (busy : s.listening r = false)
      (state : st = waiting SEND f.timed) (blocking : op.conditional = false) (early : op.late s.disp.timeH = false)
      (queue : Enqueues s.queue s.current (.msgQueue r) Q) :
      MsgCall s op { s with
        disp := { s.disp with
          ready := R
          timed := T
          resumeTime := M
          state := update s.disp.state s.current st }
        queue := Q
        blockedOn := update s.blockedOn s.current (some (.msgQueue r))
        msg := update s.msg s.current msg
        msgQueueTask := update s.msgQueueTask s.current (some r)
        stack := update s.stack s.current (f :: s.stack s.current) }
  /-- The time of a timed send is over before it has queued. -/
  | lateSend {r : Task n} {msg : UInt32} {time : RTIME} (magic : s.disp.magic r = true)
      (busy : s.listening r = false) (late : ¬time > s.disp.timeH) :
      MsgCall s (.sendUntil r msg time)
        ({ (s.setMsgQueueTask s.current (some r)).setResumeTime time with
          queue := s.queue.reset (.queue s.current) }.rtSendUntilRest r)
  /-- The callee listens. -/
  | directRpc {op : Op n} {r : Task n} {toDo : UInt32} {f : Frame n} {R T : Links (Task n)}
      {st : TaskState} (call : op.Calls r toDo f) (magic : s.disp.magic r = true)
      (listening : s.listening r = true) (state : st = waiting RETURN f.timed) :
      MsgCall s op { s with
        disp := { s.disp with
          ready := R
          timed := T
          state := update (update s.disp.state r ((s.disp.state r).clear (RECEIVE.set DELAYED)))
            s.current st }
        msg := update (update s.msg s.current toDo) r toDo
        msgQueueTask := update (update s.msgQueueTask r (some s.current)) s.current (some r)
        retQueueTask := update s.retQueueTask r false
        stack := update s.stack s.current (f :: s.stack s.current) }
  /-- The caller queues and passes its priority. -/
  | queueRpc {op : Op n} {r : Task n} {toDo : UInt32} {f : Frame n} {R T : Links (Task n)}
      {M : Task n → RTIME} {P : Task n → Int} {Q : Links (QNode n)} {st : TaskState}
      (call : op.Calls r toDo f) (magic : s.disp.magic r = true) (busy : s.listening r = false)
      (state : st = waiting RPC f.timed) (blocking : op.conditional = false) (early : op.late s.disp.timeH = false)
      (queue : ∀ b, OnQueues s.queue b →
        (∀ u q, s.state u ≠ READY → s.blockedOn u = some q → b u = some q) →
        b s.current = none → OnQueues Q (update b s.current (some (.msgQueue r))))
      (prio : Passes s.disp.priority (update s.prioPassedTo s.current (some r))
        (s.disp.priority s.current) (some r) P) :
      MsgCall s op { s with
        disp := { s.disp with
          ready := R
          timed := T
          resumeTime := M
          priority := P
          state := update s.disp.state s.current st }
        prioPassedTo := update s.prioPassedTo s.current (some r)
        owndres := update s.owndres r (s.owndres r + RPCINC)
        queue := Q
        blockedOn := update s.blockedOn s.current (some (.msgQueue r))
        msg := update s.msg s.current toDo
        msgQueueTask := update s.msgQueueTask s.current (some r)
        stack := update s.stack s.current (f :: s.stack s.current) }
  /-- `rt_return` to a task that waits for it. -/
  | replies {t : Task n} {result : UInt32} {R T : Links (Task n)} {p : Int}
      (returning : (s.state t).ret = true) (client : s.msgQueueTask t = some s.current)
      (left : Linked.LeftWith ((s.dequeueBlocked t).setOwndres s.current
        (owndresReturned (s.owndres s.current))) s.current p) :
      MsgCall s (.ret t result) { s with
        disp := { s.disp with
          ready := R
          timed := T
          priority := update s.disp.priority s.current p
          state := update s.disp.state t ((s.disp.state t).clear (RETURN.set DELAYED)) }
        prioPassedTo := update s.prioPassedTo t none
        owndres := update s.owndres s.current (owndresReturned (s.owndres s.current))
        queue := s.queue.unlink (.queue t)
        blockedOn := update s.blockedOn t none
        msg := update s.msg t result
        msgQueueTask := update s.msgQueueTask t (some t)
        retval := update s.retval s.current (.task (some t)) }
  /-- A queued sender's message is taken. -/
  | takeSend {op : Op n} {task : Option (Task n)} {t : Task n} {R T : Links (Task n)}
      (call : op.Receives task) (first : s.senderFor task = some t)
      (sending : s.sending t = true) (send : (s.state t).send = true) :
      MsgCall s op { s with
        disp := { s.disp with
          ready := R
          timed := T
          state := update s.disp.state t ((s.disp.state t).clear (SEND.set DELAYED)) }
        prioPassedTo := update s.prioPassedTo t none
        queue := s.queue.unlink (.queue t)
        blockedOn := update s.blockedOn t none
        out := update s.out s.current (s.msg t)
        msgQueueTask := update (update s.msgQueueTask s.current (some t)) t (some t)
        stack := update s.stack s.current (.rtReceived :: s.stack s.current) }
  /-- A queued caller's message is taken; it waits on for the return. -/
  | takeRpc {op : Op n} {task : Option (Task n)} {t : Task n} {T : Links (Task n)}
      {Q : Links (QNode n)} {B : Task n → Option (Queue n)}
      (call : op.Receives task) (first : s.senderFor task = some t)
      (sending : s.sending t = true) (rpc : (s.state t).send = false)
      (blocked : B = update s.blockedOn t (some (.retQueue s.current)))
      (queue : Enqueues (s.queue.unlink (.queue t)) t (.retQueue s.current) Q) :
      MsgCall s op { s with
        disp := { s.disp with
          timed := T
          state := update s.disp.state t (((s.disp.state t).clear (RPC.set DELAYED)).set RETURN) }
        prioPassedTo := update s.prioPassedTo t none
        queue := Q
        blockedOn := B
        out := update s.out s.current (s.msg t)
        msgQueueTask := update s.msgQueueTask s.current (some t)
        stack := update s.stack s.current (.rtReceived :: s.stack s.current) }
  /-- The receiver waits. -/
  | listens {op : Op n} {task : Option (Task n)} {t : Task n} {b : Bool}
      {R T : Links (Task n)} {M : Task n → RTIME} {st : TaskState}
      (call : op.Receives task) (first : s.senderFor task = some t)
      (nothing : s.sending t = false) (state : st = waiting RECEIVE b)
      (blocking : op.conditional = false) :
      MsgCall s op { s with
        disp := { s.disp with
          ready := R
          timed := T
          resumeTime := M
          state := update s.disp.state s.current st }
        msgQueueTask := update s.msgQueueTask s.current (if t = s.current then none else some t)
        retQueueTask := update s.retQueueTask s.current true
        stack := update s.stack s.current (.rtReceive :: s.stack s.current) }
  /-- The time of a timed receive is over before it has waited. -/
  | lateReceive {task : Option (Task n)} {t : Task n} {time : RTIME}
      (first : s.senderFor task = some t) (nothing : s.sending t = false) :
      MsgCall s (.receiveUntil task time)
        ((s.setRetQueueTask s.current true).setResumeTime time).rtReceivedRest

variable {s : System n} {t : Task n} {ordered : Prop} {c : Clock} {time : RTIME}

/-! ## The code behind `rt_schedule` -/

/-- `msg_queue.task == rt_current`: the partner has done its part. -/
def exchanged (s : System n) : Prop := s.msgQueueTask s.current = some s.current

instance (s : System n) : Decidable s.exchanged :=
  inferInstanceAs (Decidable (s.msgQueueTask s.current = some s.current))

theorem exchanged_self (h : s.msgQueueTask s.current = some s.current) :
    update s.msgQueueTask s.current (some s.current) = s.msgQueueTask := by
  rw [← h, update_eq_self]

theorem rtSendRest_eq (s : System n) (t : Task n) : s.rtSendRest t = { s with
    msgQueueTask := update s.msgQueueTask s.current (some s.current)
    retval := update s.retval s.current (.task (if s.exchanged then some t else none)) } := by
  by_cases h : s.msgQueueTask s.current = some s.current
  · simp [rtSendRest, exchanged, h, exchanged_self h, System.ret]
  · simp [rtSendRest, exchanged, h, System.ret, setMsgQueueTask]

theorem rtSendUntilRest_eq (s : System n) (t : Task n) : s.rtSendUntilRest t = { s with
    prioPassedTo := if s.exchanged then s.prioPassedTo else update s.prioPassedTo s.current none
    queue := if s.exchanged then s.queue else s.queue.unlink (.queue s.current)
    blockedOn := if s.exchanged then s.blockedOn else update s.blockedOn s.current none
    msgQueueTask := update s.msgQueueTask s.current (some s.current)
    retval := update s.retval s.current (.task (if s.exchanged then some t else none)) } := by
  by_cases h : s.msgQueueTask s.current = some s.current
  · simp [rtSendUntilRest, exchanged, h, exchanged_self h, System.ret]
  · simp [rtSendUntilRest, exchanged, h, System.ret, dequeueBlocked, setPrioPassedTo, unlinkQueue,
      setBlockedOn, setMsgQueueTask]

theorem rtRpcRest_eq (s : System n) (t : Task n) : s.rtRpcRest t = { s with
    out := if s.exchanged then update s.out s.current (s.msg s.current) else s.out
    msgQueueTask := update s.msgQueueTask s.current (some s.current)
    retval := update s.retval s.current (.task (if s.exchanged then some t else none)) } := by
  by_cases h : s.msgQueueTask s.current = some s.current
  · simp [rtRpcRest, exchanged, h, exchanged_self h, System.ret, store]
  · simp [rtRpcRest, exchanged, h, System.ret, setMsgQueueTask]

theorem rtRpcUntilRest_eq (s : System n) (t : Task n) : s.rtRpcUntilRest t = { s with
    out := if s.exchanged then update s.out s.current (s.msg s.current) else s.out
    prioPassedTo := if s.exchanged then s.prioPassedTo else update s.prioPassedTo s.current none
    queue := if s.exchanged then s.queue else s.queue.unlink (.queue s.current)
    blockedOn := if s.exchanged then s.blockedOn else update s.blockedOn s.current none
    msgQueueTask := update s.msgQueueTask s.current (some s.current)
    retval := update s.retval s.current (.task (if s.exchanged then some t else none)) } := by
  by_cases h : s.msgQueueTask s.current = some s.current
  · simp [rtRpcUntilRest, exchanged, h, exchanged_self h, System.ret, store]
  · simp [rtRpcUntilRest, exchanged, h, System.ret, dequeueBlocked, setPrioPassedTo, unlinkQueue,
      setBlockedOn, setMsgQueueTask]

theorem rtReceivedRest_eq (s : System n) : s.rtReceivedRest = { s with
    retQueueTask := update s.retQueueTask s.current false
    msgQueueTask := update s.msgQueueTask s.current (some s.current)
    retval := update s.retval s.current
      (.task (if s.retQueueTask s.current then none else s.msgQueueTask s.current)) } := by
  cases h : s.retQueueTask s.current with
  | true => simp [rtReceivedRest, h, System.ret, setRetQueueTask, setMsgQueueTask]
  | false =>
      have same : update s.retQueueTask s.current false = s.retQueueTask := by
        rw [← h, update_eq_self]
      simp [rtReceivedRest, h, same, System.ret, setMsgQueueTask]

/-! ## The outcomes of the calls -/

theorem listening_receive (h : s.listening t = true) : (s.state t).receive = true := by
  simp only [listening, Bool.and_eq_true] at h
  exact h.1

/-- What the test of the time says. -/
theorem late_of_future {timeH : RTIME} (h : time > timeH) : (!decide (time > timeH)) = false := by
  simpa using h

namespace Ok

variable {msg toDo result : UInt32} {op : Op n} {task : Option (Task n)} {f : Frame n}
  (h : Ok ordered s)
include h

theorem deliver (listening : s.listening t = true) :
    Ensures (s.deliver t msg) fun p => Ok ordered p.1 ∧ ∃ R T, p.1 = { s with
      disp := { s.disp with
        ready := R
        timed := T
        state := update s.disp.state t ((s.disp.state t).clear (RECEIVE.set DELAYED)) }
      msg := update s.msg t msg
      msgQueueTask := update s.msgQueueTask t (some s.current)
      retQueueTask := update s.retQueueTask t false } := by
  have h₁ : Ok ordered
      (((s.setMsg t msg).setMsgQueueTask t (some s.current)).setRetQueueTask t false) :=
    ⟨h.setMsg.setMsgQueueTask.setRetQueueTask, h.running⟩
  refine (h₁.releaseWaiting rfl fun e => ?_).mono ?_
  · have receive := listening_receive listening
    rw [show s.state t = READY from e] at receive
    exact Bool.false_ne_true receive
  · rintro ⟨_, b⟩ ⟨h₂, R, T, rfl⟩
    exact ⟨h₂, R, T, rfl⟩

/-- The branch of the sends in which the receiver listens. -/
theorem sendNow (call : op.Sends t msg f) (magic : s.disp.magic t = true)
    (listening : s.listening t = true) (hf : s.current = rtLinuxTask → f.waits = false) :
    Ensures (do
      let (s, woken) ← s.deliver t msg
      (s.push f).scheduleIf woken c)
      fun s' => ∃ s₁, MsgCall s op s₁ ∧ Scheduled ordered c s₁ s' := by
  refine .bind (h.deliver listening) ?_
  rintro ⟨_, b⟩ ⟨h₁, R, T, rfl⟩
  have h₂ : Ok ordered (System.push f _) := ⟨h₁.push hf, h₁.running⟩
  exact (h₂.scheduled c).mono fun s' hs => ⟨_, .deliver call magic listening, hs⟩

theorem refused {v : Ret n} (value : v = .msgErr ∨ v = .task none) :
    ∃ s₁, MsgCall s op s₁ ∧ Scheduled ordered c s₁ (s.ret v) :=
  ⟨_, .refuse (M := s.disp.resumeTime) value, stays ⟨h.ret, h.running⟩⟩

theorem rtSend_moves (hc : s.current ≠ rtLinuxTask) :
    Ensures (s.rtSend t msg c) fun s' =>
      ∃ s₁, MsgCall s (.send t msg) s₁ ∧ Scheduled ordered c s₁ s' := by
  refine .ite (fun _ => .some (h.refused (.inl rfl))) fun hm => .ite (fun listening => ?_)
    fun busy => ?_
  · exact h.sendNow .send (by simpa using hm) listening fun e => absurd e hc
  · refine .bind (h.setMsg.setMsgQueueTask).enqueueBlocked ?_
    rintro _ ⟨h₁, Q, rfl, hQ⟩
    have h₂ := h₁.blockUntimed SEND h.running hc (by decide) rfl
    refine (Linked.scheduled (h₂.push fun _ => rfl) c).mono fun s' hs => ⟨_, ?_, hs⟩
    have running : s.disp.state s.current = READY := h.running
    exact .queueSend .send (by simpa using hm) (eq_false_of_ne_true busy)
      (congrArg (·.set SEND) running) rfl rfl hQ

theorem rtSendIf_moves :
    Ensures (s.rtSendIf t msg c) fun s' =>
      ∃ s₁, MsgCall s (.sendIf t msg) s₁ ∧ Scheduled ordered c s₁ s' := by
  refine .ite (fun _ => .some (h.refused (.inl rfl))) fun hm => .ite (fun listening => ?_)
    fun _ => .some (h.refused (.inr rfl))
  exact h.sendNow .sendIf (by simpa using hm) listening fun _ => rfl

theorem rtSendUntilRest : Ok ordered (s.rtSendUntilRest t) := by
  unfold System.rtSendUntilRest
  split
  · exact ⟨h.ret, h.running⟩
  · exact ⟨(h.dequeueBlocked s.current).setMsgQueueTask.ret, h.running⟩

theorem rtSendUntil_moves (hc : s.current ≠ rtLinuxTask) :
    Ensures (s.rtSendUntil t msg time c) fun s' =>
      ∃ s₁, MsgCall s (.sendUntil t msg time) s₁ ∧ Scheduled ordered c s₁ s' := by
  refine .ite (fun _ => .some (h.refused (.inl rfl))) fun hm => .ite (fun listening => ?_)
    fun busy => ?_
  · exact h.sendNow .sendUntil (by simpa using hm) listening fun e => absurd e hc
  have hm : s.disp.magic t = true := by simpa using hm
  have h₁ : Ok ordered ((s.setMsgQueueTask s.current (some t)).setResumeTime time) :=
    ⟨h.setMsgQueueTask.setResumeTime hc h.running, h.running⟩
  refine .ite (fun early => ?_) fun late => .some ⟨_, .lateSend hm (eq_false_of_ne_true busy) late, ?_⟩
  · refine .bind h₁.setMsg.enqueueBlocked ?_
    rintro _ ⟨h₂, Q, rfl, hQ⟩
    obtain ⟨h₃, delayed⟩ := Ok.blockTimed ⟨h₂, h.running⟩ (SEND.set DELAYED) hc (by decide) rfl
    refine .bind (h₃.enqTimedCurrent delayed hc) ?_
    rintro _ ⟨h₄, T, rfl⟩
    refine (Linked.scheduled (h₄.push fun e => absurd e hc) c).mono fun s' hs => ⟨_, ?_, hs⟩
    have running : s.disp.state s.current = READY := h.running
    exact .queueSend .sendUntil hm (eq_false_of_ne_true busy)
      (congrArg (·.set (SEND.set DELAYED)) running) rfl (late_of_future early) hQ
  · exact stays (Ok.rtSendUntilRest ⟨h₁.setQueue, h.running⟩)

/-! ## Remote procedure calls -/

theorem directRpc (listening : s.listening t = true) :
    Ensures (s.directRpc t toDo) fun s' => Ok ordered s' ∧ ∃ R T, s' = { s with
      disp := { s.disp with
        ready := R
        timed := T
        state := update s.disp.state t ((s.disp.state t).clear (RECEIVE.set DELAYED)) }
      msg := update (update s.msg s.current toDo) t toDo
      msgQueueTask := update s.msgQueueTask t (some s.current)
      retQueueTask := update s.retQueueTask t false } := by
  have h₁ : Ok ordered (s.setMsg s.current toDo) := ⟨h.setMsg, h.running⟩
  refine .bind (h₁.deliver (t := t) listening) ?_
  rintro ⟨_, b⟩ ⟨h₂, R, T, rfl⟩
  exact .some ⟨h₂, R, T, rfl⟩

theorem queueRpc (ht : t ≠ rtLinuxTask) :
    Ensures (s.queueRpc t toDo) fun s' => Ok ordered s' ∧ ∃ P R Q, s' = { s with
      disp := { s.disp with
        ready := R
        priority := P }
      prioPassedTo := update s.prioPassedTo s.current (some t)
      owndres := update s.owndres t (s.owndres t + RPCINC)
      queue := Q
      blockedOn := update s.blockedOn s.current (some (.msgQueue t))
      msg := update s.msg s.current toDo } ∧
      (∀ b, OnQueues s.queue b →
        (∀ u q, s.state u ≠ READY → s.blockedOn u = some q → b u = some q) →
        b s.current = none → OnQueues Q (update b s.current (some (.msgQueue t)))) ∧
      Passes s.disp.priority (update s.prioPassedTo s.current (some t))
        (s.disp.priority s.current) (some t) P := by
  refine .bind ((h.setMsg.setOwndres ht).passPrio fun e => ht (Option.some.inj e)) ?_
  rintro _ ⟨h₁, P, R, Q, rfl, hQ, hP⟩
  refine h₁.enqueueBlocked.mono ?_
  rintro _ ⟨h₂, Q', rfl, hQ'⟩
  exact ⟨⟨h₂, h.running⟩, P, R, Q', rfl, fun b hb same hn => hQ' b (hQ b hb same) hn, hP⟩

section

variable (hc : s.current ≠ rtLinuxTask)
include hc

/-- The caller of a remote procedure waits for a time. -/
theorem waitTimed {mask : TaskState} (hm : READY.set mask ≠ READY) (hd : mask.delayed = true) :
    Ensures (do
      let s' ← ((s.blockCurrent mask).setMsgQueueTask s.current (some t)).enqTimedCurrent
      (s'.push f).rtSchedule c) fun s' => ∃ T, Scheduled ordered c
        { s with
          disp := { (s.disp.blockCurrent mask) with timed := T }
          msgQueueTask := update s.msgQueueTask s.current (some t)
          stack := update s.stack s.current (f :: s.stack s.current) } s' := by
  obtain ⟨h₁, delayed⟩ := h.blockTimed mask hc hm hd
  have h₂ : Linked ordered (some s.current)
      ((s.blockCurrent mask).setMsgQueueTask s.current (some t)) := h₁.setMsgQueueTask
  refine .bind (Linked.enqTimedCurrent
    (s := (s.blockCurrent mask).setMsgQueueTask s.current (some t)) h₂ delayed hc) ?_
  rintro _ ⟨h₃, T, rfl⟩
  exact (Linked.scheduled (h₃.push fun e => absurd e hc) c).mono fun s' hs => ⟨T, hs⟩

theorem rtRpc_moves :
    Ensures (s.rtRpc t toDo c) fun s' =>
      ∃ s₁, MsgCall s (.rpc t toDo) s₁ ∧ Scheduled ordered c s₁ s' := by
  have running : s.disp.state s.current = READY := h.running
  refine .ite (fun _ => .some (h.refused (.inl rfl))) fun hm => ?_
  have hm : s.disp.magic t = true := by simpa using hm
  refine .bind (P := fun s' => Linked ordered none s' ∧ s'.current = s.current ∧
    MsgCall s (.rpc t toDo)
      ((s'.setMsgQueueTask s'.current (some t)).push (.rtRpc t toDo))) ?_ ?_
  · refine .ite (fun listening => .map ?_) fun busy => .map ?_
    · refine (h.directRpc listening).mono ?_
      rintro _ ⟨h₁, R, T, rfl⟩
      refine ⟨h₁.blockUntimed RETURN h₁.running hc (by decide) rfl, rfl, ?_⟩
      exact .directRpc .rpc hm listening (congrArg (·.set RETURN) h₁.running)
    · refine (h.queueRpc (h.lists.realTime hm)).mono ?_
      rintro _ ⟨h₁, P, R, Q, rfl, hQ, hP⟩
      refine ⟨h₁.blockUntimed RPC h₁.running hc (by decide) rfl, rfl, ?_⟩
      exact .queueRpc .rpc hm (eq_false_of_ne_true busy) (congrArg (·.set RPC) running) rfl rfl hQ hP
  · rintro s₁ ⟨h₁, current, moves⟩
    have hc₁ : s₁.current ≠ rtLinuxTask := current ▸ hc
    exact (Linked.scheduled (h₁.setMsgQueueTask.push fun e => absurd e hc₁) c).mono fun s' hs =>
      ⟨_, moves, hs⟩

theorem rtRpcIf_moves :
    Ensures (s.rtRpcIf t toDo c) fun s' =>
      ∃ s₁, MsgCall s (.rpcIf t toDo) s₁ ∧ Scheduled ordered c s₁ s' := by
  refine .ite (fun _ => .some (h.refused (.inl rfl))) fun hm => .ite (fun listening => ?_)
    fun _ => .some (h.refused (.inr rfl))
  refine .bind (h.directRpc listening) ?_
  rintro _ ⟨h₁, R, T, rfl⟩
  have h₂ := h₁.blockUntimed RETURN h₁.running hc (by decide) rfl
  refine (Linked.scheduled (h₂.setMsgQueueTask.push fun e => absurd e hc) c).mono fun s' hs =>
    ⟨_, ?_, hs⟩
  exact .directRpc .rpcIf (by simpa using hm) listening (congrArg (·.set RETURN) h₁.running)

theorem rtRpcUntil_moves :
    Ensures (s.rtRpcUntil t toDo time c) fun s' =>
      ∃ s₁, MsgCall s (.rpcUntil t toDo time) s₁ ∧ Scheduled ordered c s₁ s' := by
  have running : s.disp.state s.current = READY := h.running
  refine .ite (fun _ => .some (h.refused (.inl rfl))) fun hm => ?_
  have hm : s.disp.magic t = true := by simpa using hm
  refine .ite (fun listening => ?_) fun busy => ?_
  · refine .bind (h.directRpc listening) ?_
    rintro _ ⟨h₁, R, T, rfl⟩
    refine (h₁.waitTimed hc (by decide) rfl).mono ?_
    rintro s' ⟨T', hs⟩
    exact ⟨_, .directRpc .rpcUntil hm listening (congrArg (·.set (RETURN.set DELAYED)) h₁.running), hs⟩
  · have h₁ : Ok ordered (s.setResumeTime time) := ⟨h.setResumeTime hc h.running, h.running⟩
    refine .ite (fun _ => .some ⟨_, .refuse (.inr rfl), stays ⟨h₁.ret, h₁.running⟩⟩) fun early => ?_
    refine .bind (h₁.queueRpc (h.lists.realTime hm)) ?_
    rintro _ ⟨h₂, P, R, Q, rfl, hQ, hP⟩
    refine (h₂.waitTimed hc (by decide) rfl).mono ?_
    rintro s' ⟨T', hs⟩
    have early : time > s.disp.timeH := Int64.not_le.mp early
    exact ⟨_, .queueRpc .rpcUntil hm (eq_false_of_ne_true busy)
      (congrArg (·.set (RPC.set DELAYED)) running) rfl (late_of_future early) hQ hP, hs⟩

end

/-- The return to a task that waits for it. -/
theorem rtReturnLists_client (magic : s.disp.magic t = true) (returning : (s.state t).ret = true)
    (client : s.msgQueueTask t = some s.current) :
    Ensures (s.rtReturnLists t result) fun q => Ok ordered q.1 ∧ ∃ R T p,
      Linked.LeftWith ((s.dequeueBlocked t).setOwndres s.current
        (owndresReturned (s.owndres s.current))) s.current p ∧
      q.1 = { s with
        disp := { s.disp with
          ready := R
          timed := T
          priority := update s.disp.priority s.current p
          state := update s.disp.state t ((s.disp.state t).clear (RETURN.set DELAYED)) }
        prioPassedTo := update s.prioPassedTo t none
        owndres := update s.owndres s.current (owndresReturned (s.owndres s.current))
        queue := s.queue.unlink (.queue t)
        blockedOn := update s.blockedOn t none
        msg := update s.msg t result
        msgQueueTask := update s.msgQueueTask t (some t)
        retval := update s.retval s.current (.task (some t)) } := by
  rw [rtReturnLists, if_neg (by simp [magic]), if_pos ⟨returning, client⟩]
  have h₁ : Ok ordered (((s.dequeueBlocked t).ret (.task (some t))).setOwndres s.current
      (owndresReturned (s.owndres s.current))) :=
    Ok.countDown (s := (s.dequeueBlocked t).ret (.task (some t)))
      ⟨(h.dequeueBlocked t).ret, h.running⟩
  dsimp only
  rw [ite_setOwndres]
  refine .bind h₁.renqByResources ?_
  rintro ⟨_, b⟩ ⟨h₂, L, p, rfl, hp⟩
  refine .bind (Ok.releaseWaiting ⟨h₂.setMsg.setMsgQueueTask, h₂.running⟩ rfl fun e => ?_) ?_
  · rw [show s.state t = READY from e] at returning
    exact Bool.false_ne_true returning
  rintro ⟨_, b'⟩ ⟨h₃, R, T, rfl⟩
  exact .some ⟨h₃, R, T, p, hp, rfl⟩

theorem rtReturnLists_moves :
    Ensures (s.rtReturnLists t result) fun q => Ok ordered q.1 ∧ MsgCall s (.ret t result) q.1 := by
  by_cases magic : s.disp.magic t = true
  · by_cases client : (s.state t).ret ∧ s.msgQueueTask t = some s.current
    · refine (h.rtReturnLists_client magic client.1 client.2).mono ?_
      rintro ⟨_, b⟩ ⟨h₁, R, T, p, left, rfl⟩
      exact ⟨h₁, .replies client.1 client.2 left⟩
    · rw [rtReturnLists, if_neg (by simp [magic]), if_neg client]
      exact .some ⟨⟨h.ret, h.running⟩, .refuse (.inr rfl)⟩
  · rw [rtReturnLists, if_pos magic]
    exact .some ⟨⟨h.ret, h.running⟩, .refuse (.inl rfl)⟩

theorem rtReturn_moves :
    Ensures (s.rtReturn t result c) fun s' =>
      ∃ s₁, MsgCall s (.ret t result) s₁ ∧ Scheduled ordered c s₁ s' := by
  refine .bind h.rtReturnLists_moves ?_
  rintro ⟨s₁, b⟩ ⟨h₁, moves⟩
  exact (h₁.scheduled c).mono fun s' hs => ⟨s₁, moves, hs⟩

/-! ## Receive -/

/-- A sender is taken off the message queue; it was not running. -/
theorem takeMessage (call : op.Receives task) (first : s.senderFor task = some t)
    (sending : s.sending t = true) :
    Ensures (s.takeMessage t) fun p => Ok ordered p.1 ∧
      MsgCall s op (p.1.push .rtReceived) := by
  have hst : s.disp.state t ≠ READY ∧ s.disp.state t ≠ DEAD := by
    constructor <;>
    · intro e
      simp [System.sending, System.state, e, READY, DEAD] at sending
  have ht : t ≠ rtLinuxTask := fun e => hst.1 (e ▸ h.lists.linuxState)
  have hm : s.disp.magic t = true := h.lists.magic ht hst.2
  have hne : s.current ≠ t := fun e => hst.1 (e ▸ h.running)
  have h₁ : Linked ordered (some t) { s with disp := s.disp.remTimedTask t } := by
    refine h.onDisp (h.lists.remTimedTask t) ?_
    rw [Dispatcher.remTimedTask_eq]
    exact h.linux.priority
  unfold System.takeMessage
  simp only [show (s.dequeueBlocked t).disp = s.disp from rfl]
  rw [Dispatcher.remTimedTask_eq] at h₁ ⊢
  have h₂ : Linked ordered (some t) ((({ s.dequeueBlocked t with
      disp := { s.disp with timed := (s.disp.remTimedTask t).timed } }).store (s.msg t)).setMsgQueueTask
        s.current (some t)) :=
    ⟨h₁.lists, { h.linux with
      prioPassedTo := (h.toLinked.dequeueBlocked t).linux.prioPassedTo }⟩
  refine .ite (fun send => ?_) fun rpc => ?_
  · refine .bind (h₂.lists.makeReadyWaiting (fun _ => rfl) hst.1) ?_
    rintro ⟨_, b⟩ ⟨h₃, L, rfl⟩
    refine .some ⟨⟨⟨h₃, { h₂.linux with }⟩, (update_of_ne hne _ _).trans h.running⟩, ?_⟩
    exact .takeSend call first sending send
  · refine .bind h₂.enqueueBlocked ?_
    rintro _ ⟨h₃, Q, rfl, hQ⟩
    refine .some ⟨⟨h₃.onDisp (h₃.lists.setState hst.1 ?_ ?_ ?_) h.linux.priority, ?_⟩, ?_⟩
    · simp [TaskState.set, RETURN, READY]
    · simp [TaskState.set, TaskState.clear, RPC, DELAYED, RETURN]
    · exact fun e => absurd (e.symm.trans hm) Bool.false_ne_true
    · exact (update_of_ne hne _ _).trans h.running
    · exact .takeRpc call first sending (eq_false_of_ne_true rpc) (update_idem _ _ _) hQ

theorem rtReceivedRest : Ok ordered s.rtReceivedRest := by
  unfold System.rtReceivedRest
  dsimp only
  split
  · exact ⟨h.setRetQueueTask.ret.setMsgQueueTask, h.running⟩
  · exact ⟨h.ret.setMsgQueueTask, h.running⟩

/-- The branch of the receives that finds a sender. -/
theorem receiveNow (call : op.Receives task) (first : s.senderFor task = some t)
    (sending : s.sending t = true) :
    Ensures (do
      let (s, woken) ← s.takeMessage t
      (s.push .rtReceived).scheduleIf woken c)
      fun s' => ∃ s₁, MsgCall s op s₁ ∧ Scheduled ordered c s₁ s' := by
  refine .bind (h.takeMessage call first sending) ?_
  rintro ⟨s₁, b⟩ ⟨h₁, moves⟩
  have h₂ : Ok ordered (s₁.push .rtReceived) := ⟨h₁.push fun _ => rfl, h₁.running⟩
  exact (h₂.scheduled c).mono fun s' hs => ⟨_, moves, hs⟩

theorem rtReceive_moves (hc : s.current ≠ rtLinuxTask) :
    Ensures (s.rtReceive task c) fun s' =>
      ∃ s₁, MsgCall s (.receive task) s₁ ∧ Scheduled ordered c s₁ s' := by
  refine .ite (fun _ => .some (h.refused (.inl rfl))) fun _ => ?_
  refine .bind (P := fun t => s.senderFor task = some t) (fun _ => id) fun t first =>
    .ite (h.receiveNow .receive first) fun nothing => ?_
  have h₁ : Linked ordered none ((s.setRetQueueTask s.current true).blockCurrent RECEIVE) :=
    h.setRetQueueTask.blockUntimed _ h.running hc (by decide) rfl
  refine (Linked.scheduled (h₁.setMsgQueueTask.push fun e => absurd e hc) c).mono fun s' hs =>
    ⟨_, ?_, hs⟩
  exact .listens (b := false) .receive first (eq_false_of_ne_true nothing)
    (congrArg (·.set RECEIVE) h.running) rfl

theorem rtReceiveIf_moves :
    Ensures (s.rtReceiveIf task c) fun s' =>
      ∃ s₁, MsgCall s (.receiveIf task) s₁ ∧ Scheduled ordered c s₁ s' := by
  refine .ite (fun _ => .some (h.refused (.inl rfl))) fun _ => ?_
  exact .bind (P := fun t => s.senderFor task = some t) (fun _ => id) fun t first =>
    .ite (h.receiveNow .receiveIf first) fun _ => .some (h.refused (.inr rfl))

theorem rtReceiveUntil_moves (hc : s.current ≠ rtLinuxTask) :
    Ensures (s.rtReceiveUntil task time c) fun s' =>
      ∃ s₁, MsgCall s (.receiveUntil task time) s₁ ∧ Scheduled ordered c s₁ s' := by
  refine .ite (fun _ => .some (h.refused (.inl rfl))) fun _ => ?_
  refine .bind (P := fun t => s.senderFor task = some t) (fun _ => id) fun t first =>
    .ite (h.receiveNow .receiveUntil first) fun nothing => ?_
  have nothing := eq_false_of_ne_true nothing
  have h₁ : Ok ordered ((s.setRetQueueTask s.current true).setResumeTime time) :=
    ⟨h.setRetQueueTask.setResumeTime hc h.running, h.running⟩
  refine .ite (fun _ => ?_) fun _ => .some
    ⟨_, .lateReceive first nothing, stays h₁.rtReceivedRest⟩
  obtain ⟨h₂, delayed⟩ := h₁.blockTimed (RECEIVE.set DELAYED) hc (by decide) rfl
  refine .bind (Linked.enqTimedCurrent h₂.setMsgQueueTask delayed hc) ?_
  rintro _ ⟨h₃, T, rfl⟩
  refine (Linked.scheduled (h₃.push fun e => absurd e hc) c).mono fun s' hs => ⟨_, ?_, hs⟩
  exact .listens (b := true) .receiveUntil first nothing
    (congrArg (·.set (RECEIVE.set DELAYED)) h.running) rfl

end Ok

end System

end Rtai.Up
