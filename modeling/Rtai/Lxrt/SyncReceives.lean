import Rtai.Lxrt.SyncMoves

/-!
# What a receive returns

A receive returns the message of one sender with the pid of that sender, or nothing; and then
it has taken no message (`FindsNothing`).  So every `rt_Send` that waits for a return has a receiver
that knows its pid.

The scheduler takes a message off its queue, or hands it over, before `rttask2pid` is asked for
the sender.  `receives_settled` is about the runs in which it is asked for senders only whose
pid leads back to them (`TellsPid`).  A sender without a pid is lost in both receives: its
message is off the queue, and its receiver cannot name it.
-/

namespace Rtai.Lxrt.SyncMessages

open Function Rtai.Lib Rtai.Up Rtai.Lxrt.Identifiers

variable {n : Nat}

/-- The scheduler as it is booted. -/
def start (timer : Timer) (addr : Up.Task n → TaskPtr) (mem : Memory) (msgcb : UInt32 → Msgcb) :
    State n where
  sys := boot n timer
  tables := {}
  addr := addr
  mem := mem
  msgcb := msgcb
  inside := fun _ => none
  value := fun _ => 0
  msglen := fun _ => 0
  known := fun _ => none

namespace State

/-- The step in which a receive returns. -/
def Finishes (s : State n) (e : Event n) (msg maxsize : UInt32) : Prop :=
  (∃ c, e = .resume c) ∧ s.sys.stack s.sys.current = [] ∧
    (s.inside s.sys.current = some (.receive msg maxsize) ∨
      s.inside s.sys.current = some (.creceive msg maxsize))

/-- A receive that returns has got its message from a task whose pid leads back to it. -/
def TellsPid (s : State n) : Event n → Prop
  | .resume _ => s.sys.stack s.sys.current = [] → (s.inHand s.sys.current).all s.HasPid
  | _ => True

instance (s : State n) (e : Event n) : Decidable (s.TellsPid e) := by
  cases e <;> simp only [TellsPid] <;> infer_instance

/-- What a step has done. -/
structure Settles (s : State n) (e : Event n) (s' : State n) : Prop where
  keeps : Keeps s s'
  finishes : ∀ msg maxsize, s.Finishes e msg maxsize →
    (∃ t, Delivered msg maxsize t s s') ∨ s.inHand s.sys.current = none ∧ FindsNothing s s'

structure Sound (s : State n) : Prop where
  messaging : System.Messaging s.sys
  placed : s.Placed

variable {s s' : State n} {t : Up.Task n} {c : Clock} {e : Event n} {op : Op n} {sys : System n}

/-- The current task calls a message service of the scheduler. -/
theorem Sound.native (h : s.Sound) (idle : s.sys.stack s.sys.current = [])
    (goes : s.sys.service c op = some sys) (message : op.messages = true)
    (untimed : op.timedPartner = none) (admits : s.sys.admits op = true) :
    System.Messaging sys ∧ ∃ sys₁, System.MsgCall s.sys op sys₁ ∧
      System.Scheduled False c sys₁ sys := by
  have stepped : System.step (.call op c) s.sys = some sys := (if_pos ⟨idle, admits⟩).trans goes
  refine ⟨h.messaging.step ?_ stepped, h.messaging.ok.message_moves message admits sys goes⟩
  simp [System.ofMessages, message, System.namesOther, untimed]

theorem idle_iff : s.idle = true ↔
    s.sys.stack s.sys.current = [] ∧ s.inside s.sys.current = none := by
  simp [idle]

/-- A step in which no receive returns. -/
theorem Settles.of_keeps (keeps : Keeps s s') (other : ∀ msg maxsize, ¬s.Finishes e msg maxsize) :
    Settles s e s' := ⟨keeps, fun msg maxsize finishes => absurd finishes (other msg maxsize)⟩

theorem not_finishes (other : ∀ c, e ≠ .resume c) (msg maxsize : UInt32) :
    ¬s.Finishes e msg maxsize := fun ⟨⟨c, h⟩, _⟩ => other c h

namespace Sound

variable {call : Service n} {msg maxsize : UInt32}

section

variable {pid : Pid} (h : s.Sound) (idle : s.idle = true)
include h idle

theorem rtSend {smsg rmsg ssize rsize cb : UInt32} (real : s.sys.current ≠ rtLinuxTask)
    (unused : s.unused cb = true) (sent : s.rtSend pid smsg rmsg ssize rsize cb c = some s') :
    s'.Sound ∧ Keeps s s' := by
  obtain ⟨stack, outside⟩ := idle_iff.mp idle
  have running : s.sys.state s.sys.current = READY := h.messaging.ok.running
  unfold State.rtSend at sent
  dsimp only at sent
  split at sent
  next =>
    cases sent
    obtain ⟨placed, keeps⟩ := h.placed.leave (v := -ESRCH) running stack (inHand_idle outside)
    exact ⟨⟨h.messaging, placed⟩, keeps⟩
  next =>
    obtain ⟨t, -, sent⟩ := Option.bind_eq_some_iff.mp sent
    obtain ⟨sys, called, sent⟩ := Option.bind_eq_some_iff.mp sent
    cases sent
    have goes : s.sys.service c (.rpc t cb) = some sys := called
    obtain ⟨messaging, sys₁, moves, hs⟩ := h.native stack goes rfl rfl
      (by simp [System.admits, Op.waits, real])
    let block : Msgcb :=
      { cmd := SYNCMSG, sbuf := smsg, sbytes := ssize, rbuf := rmsg, rbytes := rsize }
    have moved : (s.sent sys₁ t cb block).Placed ∧ Keeps s (s.sent sys₁ t cb block) :=
      h.placed.send h.messaging.phased running stack outside unused rfl moves
    obtain ⟨placed, keeps⟩ := Placed.scheduled moved hs
    exact ⟨⟨messaging, placed⟩, keeps⟩

/-- The two receives up to the `rt_schedule` in them. -/
theorem receive {task : Option (Up.Task n)} (receives : call.receives = true)
    (receive : op.Receives task) (admits : s.sys.admits op = true)
    (goes : s.sys.service c op = some sys) :
    (s.enter sys call).Sound ∧ Keeps s (s.enter sys call) := by
  obtain ⟨stack, outside⟩ := idle_iff.mp idle
  obtain ⟨messaging, sys₁, moves, hs⟩ := h.native stack goes (by cases receive <;> rfl)
    (by cases receive <;> rfl) admits
  have moved := h.placed.receive h.messaging.phased h.messaging.ok.running stack outside receives
    receive moves
  obtain ⟨placed, keeps⟩ := Placed.scheduled moved hs
  exact ⟨⟨messaging, placed⟩, keeps⟩

theorem rtReceive (real : s.sys.current ≠ rtLinuxTask)
    (received : s.rtReceive pid msg maxsize c = some s') : s'.Sound ∧ Keeps s s' := by
  obtain ⟨task, -, received⟩ := Option.bind_eq_some_iff.mp received
  obtain ⟨sys, called, received⟩ := Option.bind_eq_some_iff.mp received
  cases received
  exact h.receive idle rfl .receive (by simp [System.admits, Op.waits, real]) called

theorem rtCreceive {delay : RTIME} (real : delay ≠ 0 → s.sys.current ≠ rtLinuxTask)
    (received : s.rtCreceive pid msg maxsize delay c = some s') : s'.Sound ∧ Keeps s s' := by
  obtain ⟨task, -, received⟩ := Option.bind_eq_some_iff.mp received
  obtain ⟨sys, called, received⟩ := Option.bind_eq_some_iff.mp received
  cases received
  split at called
  next timed =>
    exact h.receive idle rfl .receiveUntil (by simp [System.admits, Op.waits, real timed]) called
  next => exact h.receive idle rfl .receiveIf rfl called

theorem rtReply {size : UInt32} (replied : s.rtReply pid msg size c = some s') :
    s'.Sound ∧ Keeps s s' := by
  obtain ⟨stack, outside⟩ := idle_iff.mp idle
  have running : s.sys.state s.sys.current = READY := h.messaging.ok.running
  obtain ⟨⟨s₁, sched⟩, lists, replied⟩ := Option.bind_eq_some_iff.mp replied
  obtain ⟨sys, scheduled, replied⟩ := Option.bind_eq_some_iff.mp replied
  cases replied
  unfold rtReplyLists at lists
  dsimp only at lists
  split at lists
  next =>
    cases lists
    cases scheduled
    obtain ⟨placed, keeps⟩ := h.placed.leave (v := -ESRCH) running stack (inHand_idle outside)
    exact ⟨⟨h.messaging, placed⟩, keeps⟩
  next =>
    obtain ⟨t, -, lists⟩ := Option.bind_eq_some_iff.mp lists
    split at lists
    next =>
      obtain ⟨⟨sys₁, b⟩, returned, lists⟩ := Option.bind_eq_some_iff.mp lists
      cases lists
      have called : s.sys.service c (.ret t (s.retlen t size)) = some sys := by
        show s.sys.rtReturn t (s.retlen t size) c = some sys
        rw [System.rtReturn, returned]
        exact scheduled
      obtain ⟨messaging, -⟩ := h.native stack called rfl rfl rfl
      obtain ⟨ok, moves⟩ := h.messaging.ok.rtReturnLists_moves _ returned
      have moved := h.placed.reply (s.storeReply t msg size)
        (replyValue t (sys₁.retval sys₁.current)) h.messaging.phased running stack outside moves
      obtain ⟨placed, keeps⟩ := Placed.scheduled moved (ok.scheduled c sys scheduled)
      exact ⟨⟨messaging, placed⟩, keeps⟩
    next =>
      cases lists
      cases scheduled
      obtain ⟨placed, keeps⟩ := h.placed.leave (v := -EPERM) running stack (inHand_idle outside)
      exact ⟨⟨h.messaging, placed⟩, keeps⟩

end

/-- The two receives behind that of the scheduler. -/
theorem received (nobody unknown : Int) (h : s.Sound) (stack : s.sys.stack s.sys.current = [])
    (inside : s.inside s.sys.current = some call) (receives : call.receives = true)
    (pids : (s.inHand s.sys.current).all s.HasPid = true) (hn : nobody ≤ 0) (hu : unknown ≤ 0) :
    ((s.received msg maxsize nobody unknown).Sound ∧
      Keeps s (s.received msg maxsize nobody unknown)) ∧
      ((∃ t, Delivered msg maxsize t s (s.received msg maxsize nobody unknown)) ∨
        s.inHand s.sys.current = none ∧ FindsNothing s (s.received msg maxsize nobody unknown)) := by
  have running : s.sys.state s.sys.current = READY := h.messaging.ok.running
  cases holds : s.inHand s.sys.current with
  | none =>
      have left (v : Int) (hv : v ≤ 0) (e : s.received msg maxsize nobody unknown = s.leave v) :
          ((s.received msg maxsize nobody unknown).Sound ∧
            Keeps s (s.received msg maxsize nobody unknown)) ∧
            FindsNothing s (s.received msg maxsize nobody unknown) := by
        obtain ⟨placed, keeps⟩ := h.placed.leave (v := v) running stack holds
        rw [e]
        exact ⟨⟨⟨h.messaging, placed⟩, keeps⟩, v, hv, rfl⟩
      rcases received_none h.placed inside receives stack holds with e | e
      · exact ⟨(left _ hn e).1, .inr ⟨rfl, (left _ hn e).2⟩⟩
      · exact ⟨(left _ hu e).1, .inr ⟨rfl, (left _ hu e).2⟩⟩
  | some t =>
      rw [holds] at pids
      obtain ⟨delivered, placed, keeps⟩ := h.placed.deliver h.messaging.phased running inside
        receives stack holds (by simpa using pids)
      have sys : (s.received msg maxsize nobody unknown).sys = s.sys := by
        unfold State.received
        dsimp only
        split
        · rfl
        · split <;> rfl
      exact ⟨⟨⟨sys ▸ h.messaging, placed⟩, keeps⟩, .inl ⟨t, delivered⟩⟩

variable (h : s.Sound)
include h

/-- The step in which the current task returns from its call. -/
theorem leaves (guard : s.TellsPid (.resume c)) (stack : s.sys.stack s.sys.current = [])
    (inside : s.inside s.sys.current = some call) :
    (s.proceed call).Sound ∧ s.Settles (.resume c) (s.proceed call) := by
  have running : s.sys.state s.sys.current = READY := h.messaging.ok.running
  cases call with
  | send r cb block =>
      obtain ⟨v, e⟩ : ∃ v, s.proceed (.send r cb block) = s.leave v := by
        show ∃ v, s.rtSendRest r = s.leave v
        unfold rtSendRest
        split
        · exact ⟨_, rfl⟩
        · split <;> exact ⟨_, rfl⟩
        · exact ⟨_, rfl⟩
      obtain ⟨placed, keeps⟩ := h.placed.leave (v := v) running stack (inHand_send inside)
      rw [e]
      refine ⟨⟨h.messaging, placed⟩, .of_keeps keeps fun msg maxsize finishes => ?_⟩
      rcases finishes.2.2 with call | call <;> cases inside.symm.trans call
  | receive msg maxsize =>
      obtain ⟨⟨sound, keeps⟩, finished⟩ := h.received (-EINVAL) (-ESRCH) stack inside rfl
        (guard stack) (by decide) (by decide)
      refine ⟨sound, keeps, fun msg' maxsize' finishes => ?_⟩
      rcases finishes.2.2 with call | call <;> cases inside.symm.trans call
      exact finished
  | creceive msg maxsize =>
      obtain ⟨⟨sound, keeps⟩, finished⟩ := h.received 0 0 stack inside rfl (guard stack) le_rfl
        le_rfl
      refine ⟨sound, keeps, fun msg' maxsize' finishes => ?_⟩
      rcases finishes.2.2 with call | call <;> cases inside.symm.trans call
      exact finished

/-- A step between the calls and the returns from them. -/
theorem goesOn (went : s.run (.resume c) = some s') : s'.Sound ∧ Keeps s s' := by
  obtain ⟨sys, stepped, rfl⟩ := Option.map_eq_some_iff.mp went
  obtain ⟨f, fs, frames, goes⟩ := System.step_resume stepped
  obtain rfl := h.messaging.single frames
  obtain ⟨placed, keeps⟩ := h.placed.goOn h.messaging frames goes
  exact ⟨⟨h.messaging.step rfl stepped, placed⟩, keeps⟩

theorem start (idle : s.idle = true) (starts : s.sys.starts op = true)
    (started : s.run (.call op c) = some s') : s'.Sound ∧ Keeps s s' := by
  obtain ⟨sys, stepped, rfl⟩ := Option.map_eq_some_iff.mp started
  have messaging := h.messaging.step (by simp [System.ofMessages, starts]) stepped
  obtain ⟨-, admits, called⟩ := System.step_call stepped
  obtain ⟨sys₁, moves, hs⟩ := h.messaging.start_moves starts admits called
  have moved := h.placed.start h.messaging (idle_iff.mp idle).2 starts admits moves
  obtain ⟨placed, keeps⟩ := Placed.scheduled moved hs
  exact ⟨⟨messaging, placed⟩, keeps⟩

theorem timer (ticked : s.run (.timer c) = some s') : s'.Sound ∧ Keeps s s' := by
  obtain ⟨sys, stepped, rfl⟩ := Option.map_eq_some_iff.mp ticked
  have messaging := h.messaging.step rfl stepped
  obtain ⟨-, d, handled, rfl⟩ := System.step_timer stepped
  have woken := (h.messaging.ok.lists.rtTimerHandler c d handled).2.1
  exact ⟨⟨messaging, h.placed.woken woken⟩,
    Keeps.rfl.behind (fun t ht => ht.woken woken) (fun _ => rfl) rfl⟩

theorem step (guard : s.TellsPid e) (stepped : State.step e s = some s') :
    s'.Sound ∧ s.Settles e s' := by
  cases e with
  | start op c =>
      obtain ⟨⟨idle, starts⟩, started⟩ := Option.ite_none_right_eq_some.mp stepped
      obtain ⟨sound, keeps⟩ := h.start idle starts started
      exact ⟨sound, .of_keeps keeps (not_finishes nofun)⟩
  | rtSend pid smsg rmsg ssize rsize cb c =>
      obtain ⟨⟨idle, real, unused⟩, sent⟩ := Option.ite_none_right_eq_some.mp stepped
      obtain ⟨sound, keeps⟩ := h.rtSend idle real unused sent
      exact ⟨sound, .of_keeps keeps (not_finishes nofun)⟩
  | rtReceive pid msg maxsize c =>
      obtain ⟨⟨idle, real⟩, received⟩ := Option.ite_none_right_eq_some.mp stepped
      obtain ⟨sound, keeps⟩ := h.rtReceive idle real received
      exact ⟨sound, .of_keeps keeps (not_finishes nofun)⟩
  | rtCreceive pid msg maxsize delay c =>
      obtain ⟨⟨idle, real⟩, received⟩ := Option.ite_none_right_eq_some.mp stepped
      obtain ⟨sound, keeps⟩ := h.rtCreceive idle real received
      exact ⟨sound, .of_keeps keeps (not_finishes nofun)⟩
  | rtReply pid msg size c =>
      obtain ⟨idle, replied⟩ := Option.ite_none_right_eq_some.mp stepped
      obtain ⟨sound, keeps⟩ := h.rtReply idle replied
      exact ⟨sound, .of_keeps keeps (not_finishes nofun)⟩
  | resume c =>
      simp only [State.step] at stepped
      split at stepped
      next stack =>
        obtain ⟨call, inside, rfl⟩ := Option.map_eq_some_iff.mp stepped
        exact h.leaves guard stack inside
      next busy =>
        obtain ⟨sound, keeps⟩ := h.goesOn stepped
        exact ⟨sound, .of_keeps keeps fun _ _ finishes => busy finishes.2.1⟩
  | timer c =>
      obtain ⟨sound, keeps⟩ := h.timer stepped
      exact ⟨sound, .of_keeps keeps (not_finishes nofun)⟩
  | pids tables =>
      obtain ⟨free, moved⟩ := Option.ite_none_right_eq_some.mp stepped
      cases moved
      refine ⟨⟨h.messaging, ⟨free, fun t => ?_, fun r t hr => ?_, h.placed.addressed⟩⟩,
        .of_keeps ⟨fun _ => .inl, fun _ _ => .inl⟩ (not_finishes nofun)⟩
      · obtain ⟨frames, ready, sends, unknown, waits, forgets⟩ := h.placed.tasks t
        exact ⟨frames, ready, sends, unknown, waits, forgets⟩
      · obtain ⟨waits, untold, sends⟩ := h.placed.held r t hr
        exact ⟨waits, untold, sends⟩

end Sound

end State

section

variable {timer : Timer} {addr : Up.Task n → TaskPtr} {mem : Memory} {msgcb : UInt32 → Msgcb}

theorem start_sound : (start timer addr mem msgcb).Sound := by
  have out (t : Up.Task n) : (start timer addr mem msgcb).inHand t = none := State.inHand_idle rfl
  refine ⟨⟨System.boot_ok n timer False, System.boot_phased n timer True,
    fun _ _ mem => absurd mem List.not_mem_nil⟩, ⟨rfl, fun t => ?_,
    fun r t hr => ?_, fun t ret => ?_⟩⟩
  · by_cases linux : t = rtLinuxTask
    · subst linux
      exact .of_ready rfl rfl nofun nofun
    · have dead : (start timer addr mem msgcb).sys.state t = DEAD := by
        show update (fun _ => DEAD) rtLinuxTask READY t = DEAD
        exact update_of_ne linux _ _
      exact .of_outside rfl rfl (by rw [dead]; rfl) (by rw [dead]; rfl) rfl
  · cases (out r).symm.trans hr
  · change (update (fun _ => DEAD) rtLinuxTask READY t).ret = true at ret
    by_cases linux : t = rtLinuxTask
    · rw [linux, update_self] at ret
      cases ret
    · rw [update_of_ne linux] at ret
      cases ret

variable {tr : List (Record (State n) (Event n))} {s : State n}

theorem sound_of_run (run : Run State.step State.TellsPid (start timer addr mem msgcb) tr s) :
    s.Sound :=
  run.invariant start_sound fun sound guard stepped => (sound.step guard stepped).1

end

/-! ## A sender without a pid -/

/-- Where the structures of the tasks are. -/
def structures (t : Up.Task n) : TaskPtr := BitVec.ofNat 32 (0x1000 + 0x200 * t.val)

/-- Pids are given to tasks. -/
def pidsOf (ts : List (Up.Task n)) : Tables :=
  ts.foldl (fun tables t => (tables.assignPid (structures t) true).1) {}

/-- The tasks run, the first being the most urgent. -/
def started (ts : List (Up.Task n)) : List (Event n) :=
  ts.flatMap fun t => [.start (.taskInit t t.val true) {}, .start (.taskResume t) {}]

/-- The second task sends the first, which waits for it, four bytes. -/
def exchange (ts known : List (Up.Task n)) : List (Event n) :=
  started ts ++ [.pids (pidsOf known), .rtReceive 0 100 8 {}, .rtSend 0x101 200 300 4 8 40 {},
    .resume {}, .resume {}]

end Rtai.Lxrt.SyncMessages
