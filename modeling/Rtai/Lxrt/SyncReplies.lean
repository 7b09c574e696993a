import Rtai.Lxrt.SyncReceives

/-!
# What a reply does

`Answered` is a reply to a task that waits for the caller's return in an `rt_Send`, and
`Failed` a call that changes nothing and returns an error.  `reply_settled` says for which
calls there is no third way.

`rt_Reply` takes `msg` of the task for the address of a `MSGCB` and stores the answer before
`rt_return` looks at whether the task waits for it (`storeReply`).  So a task that waits for
another's return gets the bytes all the same, and a task that waits for the caller's return
of a message sent otherwise is let go.
-/

/-! ## The return comes to its end -/

namespace Rtai.Up.System

open Function Rtai.Lib

variable {n : Nat} {s : System n} {t : Up.Task n} {result : UInt32} {p : Int}

/-- The first of the current task's `msg_queue` can be read when `t` has left its queue. -/
def HeadInPlace (s : System n) (t : Up.Task n) : Prop :=
  ((s.dequeueBlocked t).taskOf
    ((s.dequeueBlocked t).queue.next (.head (.msgQueue s.current)))).isSome = true

theorem HeadInPlace.leftWith (place : HeadInPlace s t) (own : BitVec 32) :
    ∃ p, Linked.LeftWith (((s.dequeueBlocked t).ret (.task (some t))).setOwndres s.current own)
      s.current p := by
  obtain ⟨first, found⟩ := Option.isSome_iff_exists.mp place
  unfold Linked.LeftWith
  split
  · exact ⟨_, rfl⟩
  · split
    · exact ⟨_, first, found, rfl⟩
    · exact ⟨_, rfl⟩

/-- What a task is left with is more urgent than Linux, or it is Linux. -/
theorem LinuxLast.leftWith (last : LinuxLast s) (left : Linked.LeftWith s t p)
    (real : t ≠ rtLinuxTask) : p < s.priority rtLinuxTask := by
  have base := last.base t real
  unfold Linked.LeftWith at left
  split at left
  · rw [left]
    exact base
  · split at left
    · obtain ⟨first, -, rfl⟩ := left
      split <;> omega
    · rw [left]
      exact last.priority t real

theorem renqByResources_last (ok : Ok False s) (last : LinuxLast s)
    (left : Linked.LeftWith s s.current p) :
    ∃ q, s.renqByResources s.current = some q ∧ LinuxLast q.1 := by
  by_cases linux : s.current = rtLinuxTask
  · -- Linux owns nothing, and has its base priority
    have base : s.disp.priority rtLinuxTask = s.basePriority rtLinuxTask :=
      ok.linux.priority.trans ok.linux.base.symm
    refine ⟨(s, false), ?_, last⟩
    rw [linux, renqByResources, if_pos ok.linux.owndres, Dispatcher.renqReadyTask, if_pos base]
    rfl
  · obtain ⟨⟨s₁, sched⟩, e⟩ :=
      renqByResources_total ok.lists.ready last linux left fun _ => ok.running
    obtain ⟨-, L, p', rfl, left'⟩ := ok.renqByResources _ e
    have same : update s.disp.priority s.current p' rtLinuxTask = s.priority rtLinuxTask :=
      update_of_ne (Ne.symm linux) _ _
    refine ⟨_, e, fun t real => ?_, fun t real => ?_⟩
    · show update s.disp.priority s.current p' t < update s.disp.priority s.current p' rtLinuxTask
      rw [same]
      by_cases self : t = s.current
      · rw [self, update_self]
        exact last.leftWith left' linux
      · rw [update_of_ne self]
        exact last.priority t real
    · show s.basePriority t < update s.disp.priority s.current p' rtLinuxTask
      rw [same]
      exact last.base t real

theorem rtReturnLists_total (ok : Ok False s) (last : LinuxLast s) (place : HeadInPlace s t)
    (result : UInt32) : ∃ q, s.rtReturnLists t result = some q := by
  unfold rtReturnLists
  split
  next => exact ⟨_, rfl⟩
  next =>
    split
    next =>
      have h₁ : Ok False (((s.dequeueBlocked t).ret (.task (some t))).setOwndres s.current
          (owndresReturned (s.owndres s.current))) :=
        Ok.countDown (s := (s.dequeueBlocked t).ret (.task (some t)))
          ⟨(ok.dequeueBlocked t).ret, ok.running⟩
      obtain ⟨p, left⟩ := place.leftWith (owndresReturned (s.owndres s.current))
      obtain ⟨⟨s₂, sched⟩, e, last₂⟩ := renqByResources_last h₁ ⟨last.priority, last.base⟩ left
      obtain ⟨h₂, -⟩ := h₁.renqByResources _ e
      obtain ⟨⟨s₃, woken⟩, e'⟩ : ∃ q, ((s₂.setMsg t result).setMsgQueueTask t (some t)).release t
          (RETURN.set DELAYED) = some q :=
        release_total h₂.setMsg.setMsgQueueTask ⟨last₂.priority, last₂.base⟩ t
      dsimp only at e ⊢
      rw [ite_setOwndres]
      exact ⟨_, Option.bind_eq_some_iff.mpr ⟨_, e, Option.bind_eq_some_iff.mpr ⟨_, e', rfl⟩⟩⟩
    next => exact ⟨_, rfl⟩

end Rtai.Up.System

/-! ## What a reply is to do -/

namespace Rtai.Lxrt.SyncMessages

open Function Rtai.Lib Rtai.Up Rtai.Lxrt.Identifiers

variable {n : Nat}

namespace State

/-- An `rt_return` of the current task lets the task go. -/
def returnsTo (t : Up.Task n) (s : State n) : Bool :=
  s.sys.disp.magic t && (s.sys.state t).ret && s.sys.msgQueueTask t = some s.sys.current

/-- The task is in an `rt_Send`, with this `MSGCB`. -/
def Sends (t : Up.Task n) (block : Msgcb) (s : State n) : Prop :=
  ∃ r cb, s.inside t = some (.send r cb block)

/-- The `rt_Send` of the task returns `v` when the task goes on as it is. -/
def SendReturns (t : Up.Task n) (v : Int) (s : State n) : Prop :=
  ∀ (s₁ : State n) (c : Clock), s₁.sys.current = t → s₁.inside t = s.inside t →
    s₁.sys.stack t = s.sys.stack t → s₁.sys.msgQueueTask t = s.sys.msgQueueTask t →
    s₁.sys.msg t = s.sys.msg t →
    ∃ s₂ s₃, step (.resume c) s₁ = some s₂ ∧ step (.resume c) s₂ = some s₃ ∧
      s₃.inside t = none ∧ s₃.value t = v

/-- What is known of the senders while the current task runs its own code. -/
structure Serving (s : State n) : Prop where
  ok : System.Ok False s.sys
  sends : ∀ t r cb block, s.inside t = some (.send r cb block) → (s.sys.state t).ret = true →
    s.sys.msg t = cb ∧ s.msgcb cb = block ∧ block.cmd = SYNCMSG ∧ s.sys.stack t = [.rtRpc r cb]

theorem Sound.serving {s : State n} (h : s.Sound) : s.Serving := by
  refine ⟨h.messaging.ok, fun t r cb block call returning => ?_⟩
  obtain ⟨filled, command, sent⟩ := (h.placed.tasks t).sends r cb block call
  refine ⟨sent (.inr returning), filled, command, ?_⟩
  have frames : s.sys.stack t = [] ∨ s.sys.stack t = [.rtRpc r cb] := by
    have frames := (h.placed.tasks t).frames
    rwa [call] at frames
  rcases frames with none | rpc
  · have ready := (h.placed.tasks t).ready (by simp [call]) none
    rw [ready] at returning
    exact absurd returning Bool.false_ne_true
  · exact rpc

end State

/-- The sender `t` has got its answer. -/
structure Answered (t : Up.Task n) (block : Msgcb) (msg size : UInt32) (s s₁ : State n) : Prop where
  sends : s.Sends t block
  awaits : s.returnsTo t = true
  value : s₁.value s.sys.current = 0
  stored : s₁.mem = s.mem.write block.rbuf.toNat
    (s.mem.read msg.toNat (min size.toNat block.rbytes.toNat))
  released : (s₁.sys.state t).ret = false
  returns : s₁.SendReturns t (min size.toNat block.rbytes.toNat : Nat)

/-- The call has returned an error and done nothing else. -/
def Failed (s s₁ : State n) : Prop :=
  ∃ e v, e < 0 ∧ s₁ = { s with sys := s.sys.ret v }.leave e

/-- `rt_Reply` has done what it is for, or nothing. -/
def Settled (pid : Pid) (msg size : UInt32) (s s₁ : State n) (sched : Bool) : Prop :=
  (∃ t block, s.taskAt (s.tables.pid2rttask pid) = some t ∧ Answered t block msg size s s₁) ∨
    Failed s s₁ ∧ sched = false

/-- The pid is nobody's, or what `msg` of its task points to has another command; or the task
waits for the caller's return in an `rt_Send`; or it does not wait for it, and the bytes of the
answer are where `rbuf` points to. -/
def CanReply (pid : Pid) (msg size : UInt32) (s : State n) : Prop :=
  s.tables.pid2rttask pid = 0 ∨ ∃ t, s.taskAt (s.tables.pid2rttask pid) = some t ∧
    ((s.blockOf t).cmd ≠ SYNCMSG ∨
      if s.returnsTo t then (∃ block, s.Sends t block) ∧ (s.retlen t size).toNat < 2 ^ 31
      else s.mem.read (s.blockOf t).rbuf.toNat (s.retlen t size).toNat =
        s.mem.read msg.toNat (s.retlen t size).toNat)

section

variable {s s₁ : State n} {t r : Up.Task n} {cb v : UInt32} {block : Msgcb} {pid : Pid}
  {msg size : UInt32} {sched : Bool}

namespace State

theorem retlen_toNat : (s.retlen t size).toNat = min size.toNat (s.blockOf t).rbytes.toNat :=
  clip_toNat

theorem storeReply_eq : s.storeReply t msg size = s.mem.write (s.blockOf t).rbuf.toNat
    (s.mem.read msg.toNat (s.retlen t size).toNat) := copy_eq

/-- The code of an `rt_Send` whose call was returned `v`. -/
theorem send_resumes (call : s.inside t = some (.send r cb block))
    (stack : s.sys.stack t = [.rtRpc r cb]) (partner : s.sys.msgQueueTask t = some t)
    (answer : s.sys.msg t = v) : s.SendReturns t v.toInt32.toInt := by
  intro s₁ c current inside stack₁ partner₁ answer₁
  rw [call] at inside
  rw [stack] at stack₁
  rw [partner] at partner₁
  rw [answer] at answer₁
  subst current
  have goes : System.step (.resume c) s₁.sys = some (s₁.sys.pop.rtRpcRest r) := by
    simp [System.step, stack₁, System.proceed]
  let sys := (s₁.sys.pop.store (s₁.sys.msg s₁.sys.current)).ret (.task (some r))
  have rest : s₁.sys.pop.rtRpcRest r = sys := if_pos partner₁
  rw [rest] at goes
  let s₂ : State n := { s₁ with sys := sys }
  refine ⟨s₂, s₂.proceed (.send r cb block), ?_, ?_, ?_, ?_⟩
  · rw [step, if_neg (by simp [stack₁]), run, goes]
    rfl
  · have idle : s₂.sys.stack s₂.sys.current = [] := by
      simp [s₂, sys, System.pop, System.store, System.ret, stack₁]
    rw [step, if_pos idle, show s₂.inside s₂.sys.current = _ from inside]
    rfl
  · simp [s₂, sys, proceed, rtSendRest, leave, System.ret, System.store, System.pop]
  · simp [s₂, sys, proceed, rtSendRest, leave, System.ret, System.store, System.pop, answer₁]

/-- A task can be made the current one as it is. -/
theorem SendReturns.unique {v v' : Int} (h : s.SendReturns t v) (h' : s.SendReturns t v') :
    v = v' := by
  let here : State n := { s with sys := { s.sys with disp := { s.sys.disp with current := t } } }
  obtain ⟨s₂, s₃, first, second, -, value⟩ := h here {} rfl rfl rfl rfl rfl
  obtain ⟨s₂', s₃', first', second', -, value'⟩ := h' here {} rfl rfl rfl rfl rfl
  cases first.symm.trans first'
  cases second.symm.trans second'
  exact value.symm.trans value'

end State

theorem toInt_of_word : v.toInt32.toInt = v.toNat ↔ v.toNat < 2 ^ 31 := by
  have bits : v.toInt32.toInt = v.toBitVec.toInt := rfl
  have bound := v.toNat_lt
  have same : v.toBitVec.toNat = v.toNat := rfl
  rw [bits, BitVec.toInt_eq_toNat_cond, same]
  split <;> omega

/-! ## What it does -/

namespace State

theorem rtReplyLists_nobody (unknown : s.tables.pid2rttask pid = 0) :
    s.rtReplyLists pid msg size = some (s.leave (-ESRCH), false) := if_pos unknown

theorem rtReplyLists_task (known : s.tables.pid2rttask pid ≠ 0)
    (task : s.taskAt (s.tables.pid2rttask pid) = some t) :
    s.rtReplyLists pid msg size =
      if (s.blockOf t).cmd = SYNCMSG then
        (s.sys.rtReturnLists t (s.retlen t size)).map fun q =>
          ({ s with sys := q.1, mem := s.storeReply t msg size }.leave
            (replyValue t (q.1.retval q.1.current)), q.2)
      else some (s.leave (-EPERM), false) := by
  rw [rtReplyLists, if_neg known, task]
  dsimp only [Option.bind_eq_bind, Option.bind_some]
  split
  · rw [Option.map_eq_bind]
    rfl
  · rfl

/-- An `rt_return` to a task that does not wait for it. -/
theorem rtReturnLists_refused (refused : s.returnsTo t = false) :
    ∃ w : Ret n, s.sys.rtReturnLists t v = some (s.sys.ret w, false) ∧ replyValue t w < 0 := by
  unfold System.rtReturnLists
  split
  next => exact ⟨_, rfl, by simp [replyValue, ESRCH]⟩
  next magic =>
    rw [if_neg]
    · exact ⟨_, rfl, by simp [replyValue, EINVAL]⟩
    · rintro ⟨returning, client⟩
      have magic : s.sys.disp.magic t = true := by simpa using magic
      simp [returnsTo, magic, returning, client] at refused

end State

/-- A call that returns an error before it has looked at the task's wait. -/
theorem Failed.leave {e : Int} (error : e < 0) : Failed s (s.leave e) := by
  refine ⟨e, s.sys.retval s.sys.current, error, ?_⟩
  rw [System.ret, update_eq_self]

/-- The task does not wait for the caller. -/
theorem settled_refused (known : s.tables.pid2rttask pid ≠ 0)
    (task : s.taskAt (s.tables.pid2rttask pid) = some t) (command : (s.blockOf t).cmd = SYNCMSG)
    (refused : s.returnsTo t = false) (replied : s.rtReplyLists pid msg size = some (s₁, sched)) :
    Settled pid msg size s s₁ sched ↔ s.mem.read (s.blockOf t).rbuf.toNat (s.retlen t size).toNat =
      s.mem.read msg.toNat (s.retlen t size).toNat := by
  obtain ⟨w, returned, error⟩ := State.rtReturnLists_refused (v := s.retlen t size) refused
  have value : (s.sys.ret w).retval (s.sys.ret w).current = w := update_self _ _ _
  rw [State.rtReplyLists_task known task, if_pos command, returned, Option.map_some, value]
    at replied
  cases replied
  have there : s.storeReply t msg size = s.mem ↔
      s.mem.read (s.blockOf t).rbuf.toNat (s.retlen t size).toNat =
        s.mem.read msg.toNat (s.retlen t size).toNat := by
    rw [State.storeReply_eq, Memory.write_eq_self, Memory.length_read]
  rw [← there]
  constructor
  · rintro (⟨t', block, task', answered⟩ | ⟨⟨e, v, -, same⟩, -⟩)
    · cases task.symm.trans task'
      exact absurd (answered.awaits.symm.trans refused) Bool.noConfusion
    · exact congrArg State.mem same
  · intro same
    refine .inr ⟨⟨_, w, error, ?_⟩, rfl⟩
    rw [same]

/-- The state a reply leaves a task that waits for the caller in. -/
structure LetGo (t : Up.Task n) (msg size : UInt32) (s s₁ : State n) : Prop where
  value : s₁.value s.sys.current = 0
  mem : s₁.mem = s.storeReply t msg size
  inside : s₁.inside t = s.inside t
  stack : s₁.sys.stack t = s.sys.stack t
  released : (s₁.sys.state t).ret = false
  partner : s₁.sys.msgQueueTask t = some t
  answer : s₁.sys.msg t = s.retlen t size

theorem LetGo.of_replied (h : s.Serving) (known : s.tables.pid2rttask pid ≠ 0)
    (task : s.taskAt (s.tables.pid2rttask pid) = some t) (command : (s.blockOf t).cmd = SYNCMSG)
    (awaits : s.returnsTo t = true) (replied : s.rtReplyLists pid msg size = some (s₁, sched)) :
    LetGo t msg size s s₁ := by
  obtain ⟨⟨magic, returning⟩, client⟩ : (s.sys.disp.magic t = true ∧ (s.sys.state t).ret = true) ∧
      s.sys.msgQueueTask t = some s.sys.current := by
    simpa [State.returnsTo] using awaits
  rw [State.rtReplyLists_task known task, if_pos command] at replied
  obtain ⟨⟨sys, b⟩, returned, moved⟩ := Option.map_eq_some_iff.mp replied
  obtain ⟨-, R, T, p, -, rfl⟩ := h.ok.rtReturnLists_client magic returning client _ returned
  obtain ⟨rfl, -⟩ := Prod.mk.inj moved
  have other : t ≠ s.sys.current := by
    rintro rfl
    rw [show s.sys.state s.sys.current = READY from h.ok.running] at returning
    exact Bool.false_ne_true returning
  refine ⟨?_, rfl, update_of_ne other _ _, rfl, ?_, update_self _ _ _, update_self _ _ _⟩
  · show update s.value s.sys.current (State.replyValue t
      (update s.sys.retval s.sys.current (.task (some t)) s.sys.current)) s.sys.current = 0
    rw [update_self, update_self, State.replyValue, if_pos rfl]
  · show (update s.sys.disp.state t ((s.sys.disp.state t).clear (RETURN.set DELAYED)) t).ret = false
    rw [update_self]
    simp [TaskState.clear, TaskState.set, RETURN, DELAYED]

/-- The task waits for the caller, and is let go. -/
theorem settled_returned (h : s.Serving) (task : s.taskAt (s.tables.pid2rttask pid) = some t)
    (awaits : s.returnsTo t = true) (gone : LetGo t msg size s s₁) :
    Settled pid msg size s s₁ sched ↔
      (∃ block, s.Sends t block) ∧ (s.retlen t size).toNat < 2 ^ 31 := by
  have returning : (s.sys.state t).ret = true := by
    simp only [State.returnsTo, Bool.and_eq_true] at awaits
    exact awaits.1.2
  have returns (block : Msgcb) (sends : s.Sends t block) :
      s.blockOf t = block ∧ s₁.SendReturns t (s.retlen t size).toInt32.toInt := by
    obtain ⟨r, cb, call⟩ := sends
    obtain ⟨sent, filled, -, stack⟩ := h.sends t r cb block call returning
    refine ⟨by rw [State.blockOf, sent, filled], ?_⟩
    exact State.send_resumes (gone.inside.trans call) (gone.stack.trans stack) gone.partner
      gone.answer
  constructor
  · rintro (⟨t', block, task', answered⟩ | ⟨⟨e, v, error, same⟩, -⟩)
    · cases task.symm.trans task'
      obtain ⟨rfl, returned⟩ := returns block answered.sends
      have value := returned.unique answered.returns
      rw [← State.retlen_toNat] at value
      exact ⟨⟨_, answered.sends⟩, toInt_of_word.mp value⟩
    · have value := gone.value
      rw [same, State.leave] at value
      simp only [System.ret, update_self] at value
      omega
  · rintro ⟨⟨block, sends⟩, small⟩
    obtain ⟨rfl, returned⟩ := returns block sends
    rw [toInt_of_word.mpr small, State.retlen_toNat] at returned
    refine .inl ⟨t, _, task, sends, awaits, gone.value, ?_, gone.released, returned⟩
    rw [gone.mem, State.storeReply_eq, State.retlen_toNat]

/-- A reply has answered a sender or done nothing if and only if `CanReply`, and where the
lists are in order it comes to its end. -/
theorem reply_settled (h : s.Serving) :
    (∀ s₁ sched, s.rtReplyLists pid msg size = some (s₁, sched) →
        (Settled pid msg size s s₁ sched ↔ CanReply pid msg size s)) ∧
      (System.LinuxLast s.sys → (∀ t, System.HeadInPlace s.sys t) → CanReply pid msg size s →
        ∃ s₁ sched, s.rtReplyLists pid msg size = some (s₁, sched) ∧
          Settled pid msg size s s₁ sched) := by
  have exact_when (s₁ : State n) (sched : Bool)
      (replied : s.rtReplyLists pid msg size = some (s₁, sched)) :
      Settled pid msg size s s₁ sched ↔ CanReply pid msg size s := by
    by_cases unknown : s.tables.pid2rttask pid = 0
    · rw [State.rtReplyLists_nobody unknown] at replied
      cases replied
      exact iff_of_true (.inr ⟨.leave (by simp [ESRCH]), rfl⟩) (.inl unknown)
    cases task : s.taskAt (s.tables.pid2rttask pid) with
    | none =>
        rw [State.rtReplyLists, if_neg unknown, task] at replied
        cases replied
    | some t =>
        have only : CanReply pid msg size s ↔ ((s.blockOf t).cmd ≠ SYNCMSG ∨
            if s.returnsTo t then (∃ block, s.Sends t block) ∧ (s.retlen t size).toNat < 2 ^ 31
            else s.mem.read (s.blockOf t).rbuf.toNat (s.retlen t size).toNat =
              s.mem.read msg.toNat (s.retlen t size).toNat) := by
          constructor
          · rintro (h₀ | ⟨t', task', can⟩)
            · exact absurd h₀ unknown
            · cases task.symm.trans task'
              exact can
          · exact fun can => .inr ⟨t, task, can⟩
        rw [only]
        by_cases command : (s.blockOf t).cmd = SYNCMSG
        · rw [or_iff_right (not_not_intro command)]
          by_cases awaits : s.returnsTo t = true
          · rw [if_pos awaits]
            exact settled_returned h task awaits (.of_replied h unknown task command awaits replied)
          · rw [if_neg awaits]
            exact settled_refused unknown task command (eq_false_of_ne_true awaits) replied
        · rw [State.rtReplyLists_task unknown task, if_neg command] at replied
          cases replied
          exact iff_of_true (.inr ⟨.leave (by simp [EPERM]), rfl⟩) (.inl command)
  refine ⟨exact_when, fun last place can => ?_⟩
  obtain ⟨⟨s₁, sched⟩, replied⟩ : ∃ q, s.rtReplyLists pid msg size = some q := by
    rcases can with unknown | ⟨t, task, -⟩
    · exact ⟨_, State.rtReplyLists_nobody unknown⟩
    · by_cases unknown : s.tables.pid2rttask pid = 0
      · exact ⟨_, State.rtReplyLists_nobody unknown⟩
      rw [State.rtReplyLists_task unknown task]
      split
      · obtain ⟨q, returned⟩ := System.rtReturnLists_total h.ok last (place t)
          (s.retlen t size)
        exact ⟨_, by rw [returned]; rfl⟩
      · exact ⟨_, rfl⟩
  exact ⟨s₁, sched, replied, (exact_when s₁ sched replied).mpr can⟩

end

/-! ## An answer to the wrong task -/

theorem reply_settled_sender : ∃ tr, ∃ s s₁ : State 2, ∃ sched,
    Run State.step State.TellsPid (start {} structures (UInt8.ofNat ·) fun _ => {}) tr s ∧
      s.rtReplyLists 0x102 400 3 = some (s₁, sched) ∧ Settled 0x102 400 3 s s₁ sched := by
  have ⟨tr, s, run, test⟩ := Run.of_execute State.step State.TellsPid
    (start {} structures (UInt8.ofNat ·) fun _ => {} : State 2)
    (exchange [1, 2] [1, 2] : List (Event 2))
    (fun s => decide (∀ t, t ≠ rtLinuxTask → s.sys.priority t < s.sys.priority rtLinuxTask ∧
        s.sys.basePriority t < s.sys.priority rtLinuxTask) &&
      decide (∀ t, ((s.sys.dequeueBlocked t).taskOf
        ((s.sys.dequeueBlocked t).queue.next (.head (.msgQueue s.sys.current)))).isSome = true) &&
      s.taskAt (s.tables.pid2rttask 0x102) == some 2 && s.returnsTo 2 &&
      decide ((s.retlen 2 3).toNat < 2 ^ 31) &&
      s.inside 2 == some (.send 1 40 { sbuf := 200, sbytes := 4, rbuf := 300, rbytes := 8 }))
    (by decide +kernel)
  simp only [Bool.and_eq_true, beq_iff_eq, decide_eq_true_eq] at test
  obtain ⟨⟨⟨⟨⟨last, place⟩, task⟩, awaits⟩, small⟩, call⟩ := test
  obtain ⟨s₁, sched, replied, settled⟩ := (reply_settled (sound_of_run run).serving).2
    ⟨fun t real => (last t real).1, fun t real => (last t real).2⟩ place
    (.inr ⟨2, task, .inr (by rw [if_pos awaits]; exact ⟨⟨_, 1, 40, call⟩, small⟩)⟩)
  exact ⟨tr, s, s₁, sched, run, replied, settled⟩

/-- The third task, which the sender has sent nothing, is told so, and has overwritten three
bytes of the reply buffer. -/
theorem not_settled_other : ¬∀ tr, ∀ s s₁ : State 3, ∀ sched,
    Run State.step (fun _ _ => True) (start {} structures (UInt8.ofNat ·) fun _ => {}) tr s →
      s.sys.current = 3 → s.idle = true → s.rtReplyLists 0x102 400 3 = some (s₁, sched) →
      Settled 0x102 400 3 s s₁ sched := by
  intro settled
  have ⟨tr, s, run, test⟩ := Run.of_execute State.step (fun _ _ => True)
    (start {} structures (UInt8.ofNat ·) fun _ => {} : State 3)
    (exchange [1, 2, 3] [1, 2, 3] ++ [.rtReceive 0 100 8 {}] : List (Event 3))
    (fun s => s.sys.current == 3 && s.idle && s.tables.pid2rttask 0x102 != 0 &&
      s.taskAt (s.tables.pid2rttask 0x102) == some 2 &&
      decide ((s.blockOf 2).cmd = SYNCMSG) && !s.returnsTo 2 &&
      (s.rtReplyLists 0x102 400 3).isSome &&
      s.mem.read (s.blockOf 2).rbuf.toNat (s.retlen 2 3).toNat !=
        s.mem.read 400 (s.retlen 2 3).toNat)
    (by decide +kernel)
  simp only [Bool.and_eq_true, beq_iff_eq, bne_iff_ne, decide_eq_true_eq, Bool.not_eq_true']
    at test
  obtain ⟨⟨⟨⟨⟨⟨⟨current, idle⟩, known⟩, task⟩, command⟩, refused⟩, comes⟩, fresh⟩ := test
  obtain ⟨⟨s₁, sched⟩, replied⟩ := Option.isSome_iff_exists.mp comes
  exact fresh ((settled_refused known task command refused replied).mp
    (settled tr s s₁ sched run current idle replied))

end Rtai.Lxrt.SyncMessages
