import Rtai.Lxrt.SyncMessages

/-!
# Runs of the synchronous messages

`Placed` is what holds of the tasks between two steps.  A message is on the receiver's queue
(`Queued`), or in the hand of a receive that has not returned (`inHand`), or its receiver has
been told who sent it (`known`).

The lemmas take a step of the scheduler up to its `rt_schedule`; what the dispatching leaves
alone is `Placed.woken`.  `Placed.of_pair` is the rule for a step that concerns two tasks, the
current one and its partner.
-/

namespace Rtai.Lxrt.SyncMessages

open Function Rtai.Lib Rtai.Up Rtai.Lxrt.Identifiers

variable {n : Nat}

/-- The frames that the service of the scheduler has in a call. -/
def FramesOf : Option (Service n) → List (Frame n) → Prop
  | none, fs => fs = []
  | some (.send r cb _), fs => fs = [] ∨ fs = [.rtRpc r cb]
  | some _, fs => fs = [] ∨ fs = [.rtReceive] ∨ fs = [.rtReceived]

namespace Service

/-- The call is one of the receives. -/
def receives : Service n → Bool
  | .send _ _ _ => false
  | _ => true

end Service

namespace State

/-- The task whose message the receive that `r` is in has got. -/
def inHand (s : State n) (r : Up.Task n) : Option (Up.Task n) :=
  if (s.inside r).any Service.receives then
    if s.sys.stack r = [] then
      match s.sys.retval r with
      | .task t => t
      | _ => none
    else if s.sys.retQueueTask r then none
    else s.sys.msgQueueTask r
  else none

/-- The message that goes with it. -/
def carried (s : State n) (r : Up.Task n) : UInt32 :=
  if s.sys.stack r = [.rtReceive] then s.sys.msg r else s.sys.out r

/-- The message of the task is on the queue of its receiver. -/
def Queued (s : State n) (t : Up.Task n) : Prop :=
  ∃ r cb block, s.inside t = some (.send r cb block) ∧ s.sys.state t = waiting RPC false ∧
    s.sys.blockedOn t = some (.msgQueue r) ∧ s.sys.msg t = cb ∧ s.msgcb cb = block

/-- The fields of one task. -/
structure PlacedAt (s : State n) (t : Up.Task n) : Prop where
  frames : FramesOf (s.inside t) (s.sys.stack t)
  ready : s.inside t ≠ none → s.sys.stack t = [] → s.sys.state t = READY
  sends : ∀ r cb block, s.inside t = some (.send r cb block) → s.msgcb cb = block ∧
    block.cmd = SYNCMSG ∧
    ((s.sys.state t).rpc = true ∨ (s.sys.state t).ret = true → s.sys.msg t = cb)
  unknown : (s.sys.state t).rpc = true → s.known t = none
  waits : (s.sys.state t).receive = true → s.sys.retQueueTask t = true
  forgets : s.sys.retQueueTask t = true → s.sys.stack t = [.rtReceive]

/-- `r` has got the message of `t` and has not been told who sent it. -/
structure Holds (s : State n) (r t : Up.Task n) : Prop where
  waits : s.sys.state t = waiting RETURN false
  untold : s.known t = none
  sends : ∃ cb block, s.inside t = some (.send r cb block) ∧ s.carried r = cb

/-- Whoever waits for a return has a receiver that knows it, or is about to. -/
def Addressed (s : State n) : Prop :=
  ∀ t, (s.sys.state t).ret = true → (s.known t).isSome = true ∨ ∃ r, s.inHand r = some t

structure Placed (s : State n) : Prop where
  tables : s.tables.rttask2pid MSG_ERR = 0
  tasks : ∀ t, s.PlacedAt t
  held : ∀ r t, s.inHand r = some t → s.Holds r t
  addressed : s.Addressed

/-- A step takes a message off a queue only into a receiver's hand, and out of it only when
the receiver is told who sent it. -/
structure Keeps (s s' : State n) : Prop where
  queued : ∀ t, s.Queued t → s'.Queued t ∨ ∃ r, s'.inHand r = some t
  held : ∀ r t, s.inHand r = some t → s'.inHand r = some t ∨ (s'.known t).isSome = true

/-- The fields of a task are the same. -/
structure Same (s s' : State n) (t : Up.Task n) : Prop where
  inside : s'.inside t = s.inside t
  known : s'.known t = s.known t
  stack : s'.sys.stack t = s.sys.stack t
  state : s'.sys.state t = s.sys.state t
  blockedOn : s'.sys.blockedOn t = s.sys.blockedOn t
  msg : s'.sys.msg t = s.sys.msg t
  partner : s'.sys.msgQueueTask t = s.sys.msgQueueTask t
  waits : s'.sys.retQueueTask t = s.sys.retQueueTask t
  retval : s'.sys.retval t = s.sys.retval t
  out : s'.sys.out t = s.sys.out t

/-- The blocks that the task's call uses are the same. -/
def SameBlock (s s' : State n) (t : Up.Task n) : Prop :=
  ∀ r cb block, s.inside t = some (.send r cb block) → s'.msgcb cb = s.msgcb cb

variable {s s' s₁ : State n} {t r a b : Up.Task n} {d : Dispatcher n} {now : RTIME}
  {call : Service n} {f : Frame n} {fs : List (Frame n)} {o : Option (Up.Task n)}

namespace Same

theorem placedAt (same : Same s s' t) (blocks : SameBlock s s' t) (h : s.PlacedAt t) :
    s'.PlacedAt t := by
  refine ⟨?_, ?_, fun r cb block call => ?_, ?_, ?_, ?_⟩
  · rw [same.inside, same.stack]
    exact h.frames
  · rw [same.inside, same.stack, same.state]
    exact h.ready
  · rw [same.inside] at call
    rw [blocks r cb block call, same.state, same.msg]
    exact h.sends r cb block call
  · rw [same.state, same.known]
    exact h.unknown
  · rw [same.state, same.waits]
    exact h.waits
  · rw [same.waits, same.stack]
    exact h.forgets

theorem inHand (same : Same s s' r) : s'.inHand r = s.inHand r := by
  rw [State.inHand, State.inHand, same.inside, same.stack, same.retval, same.waits, same.partner]

theorem carried (same : Same s s' r) : s'.carried r = s.carried r := by
  rw [State.carried, State.carried, same.stack, same.msg, same.out]

theorem queued (same : Same s s' t) (blocks : SameBlock s s' t) (h : s.Queued t) :
    s'.Queued t := by
  obtain ⟨r, cb, block, call, state, blocked, msg, filled⟩ := h
  refine ⟨r, cb, block, same.inside.trans call, same.state.trans state,
    same.blockedOn.trans blocked, same.msg.trans msg, ?_⟩
  rw [blocks r cb block call, filled]

theorem holds (receiver : Same s s' r) (sender : Same s s' t) (h : s.Holds r t) :
    s'.Holds r t := by
  obtain ⟨cb, block, call, carried⟩ := h.sends
  exact ⟨sender.state.trans h.waits, sender.known.trans h.untold, cb, block,
    sender.inside.trans call, receiver.carried.trans carried⟩

end Same

/-! ## Rules -/

theorem Keeps.rfl : Keeps s s := ⟨fun _ => .inl, fun _ _ => .inl⟩

/-- What a task holds, it holds of one that waits for a return. -/
theorem Placed.not_held (h : s.Placed) (other : s.sys.state t ≠ waiting RETURN false) :
    s.inHand r ≠ some t := fun holds => other (h.held r t holds).waits

/-- A step that concerns the tasks `a` and `b`. -/
theorem Placed.of_pair (h : s.Placed) (a b : Up.Task n) (tables : s'.tables = s.tables)
    (others : ∀ u, u ≠ a → u ≠ b → Same s s' u)
    (blocks : ∀ u, u ≠ a → u ≠ b → SameBlock s s' u)
    (placed : ∀ u, u = a ∨ u = b → s'.PlacedAt u)
    (held : ∀ r t, r = a ∨ r = b → s'.inHand r = some t → s'.Holds r t)
    (free : ∀ r u, u = a ∨ u = b → r ≠ a → r ≠ b → s.inHand r ≠ some u)
    (addressed : ∀ u, u = a ∨ u = b → (s'.sys.state u).ret = true →
      (s'.known u).isSome = true ∨ ∃ r, s'.inHand r = some u)
    (keeps : ∀ r t, r = a ∨ r = b → s.inHand r = some t →
      s'.inHand r = some t ∨ (s'.known t).isSome = true)
    (queued : ∀ u, u = a ∨ u = b → s.Queued u → s'.Queued u ∨ ∃ r, s'.inHand r = some u) :
    s'.Placed ∧ Keeps s s' := by
  have apart (u : Up.Task n) : (u = a ∨ u = b) ∨ Same s s' u ∧ SameBlock s s' u := by
    by_cases ha : u = a
    · exact .inl (.inl ha)
    by_cases hb : u = b
    · exact .inl (.inr hb)
    exact .inr ⟨others u ha hb, blocks u ha hb⟩
  have holds (r t : Up.Task n) (hr : s.inHand r = some t) :
      s'.inHand r = some t ∨ (s'.known t).isSome = true := by
    rcases apart r with pair | ⟨same, -⟩
    · exact keeps r t pair hr
    · exact .inl (same.inHand.trans hr)
  refine ⟨⟨by rw [tables]; exact h.tables, fun t => ?_, fun r t hr => ?_, fun t ret => ?_⟩,
    fun t ht => ?_, holds⟩
  · rcases apart t with pair | ⟨same, block⟩
    · exact placed t pair
    · exact same.placedAt block (h.tasks t)
  · by_cases pair : r = a ∨ r = b
    · exact held r t pair hr
    obtain ⟨ha, hb⟩ := not_or.mp pair
    have hr' : s.inHand r = some t := (others r ha hb).inHand.symm.trans hr
    rcases apart t with partner | ⟨same, -⟩
    · exact absurd hr' (free r t partner ha hb)
    · exact (others r ha hb).holds same (h.held r t hr')
  · rcases apart t with pair | ⟨same, -⟩
    · exact addressed t pair ret
    · rw [same.state] at ret
      rcases h.addressed t ret with told | ⟨r, hr⟩
      · exact .inl (by rw [same.known, told])
      · exact (holds r t hr).symm.imp_right fun hr => ⟨r, hr⟩
  · rcases apart t with pair | ⟨same, block⟩
    · exact queued t pair ht
    · exact .inl (same.queued block ht)

/-- A task that runs is on nobody's queue and in nobody's hand. -/
theorem Placed.runs (h : s.Placed) (running : s.sys.state a = READY) :
    (∀ r, s.inHand r ≠ some a) ∧ ¬s.Queued a := by
  refine ⟨fun r => h.not_held (by rw [running]; decide), fun ⟨_, _, _, _, waits, _⟩ => ?_⟩
  rw [running] at waits
  exact absurd waits (by decide)

/-- A step of the task `a`, which runs, and of its partner `b`. -/
theorem Placed.of_partners (h : s.Placed) (a b : Up.Task n) (running : s.sys.state a = READY)
    (tables : s'.tables = s.tables) (others : ∀ u, u ≠ a → u ≠ b → Same s s' u)
    (blocks : ∀ u, u ≠ a → u ≠ b → SameBlock s s' u)
    (placed : s'.PlacedAt a) (placed' : s'.PlacedAt b)
    (held : ∀ t, s'.inHand a = some t → s'.Holds a t)
    (held' : ∀ t, s'.inHand b = some t → s'.Holds b t)
    (free : ∀ r, r ≠ a → r ≠ b → s.inHand r ≠ some b)
    (addressed : (s'.sys.state a).ret = true →
      (s'.known a).isSome = true ∨ ∃ r, s'.inHand r = some a)
    (addressed' : (s'.sys.state b).ret = true →
      (s'.known b).isSome = true ∨ ∃ r, s'.inHand r = some b)
    (keeps : ∀ t, s.inHand a = some t → s'.inHand a = some t ∨ (s'.known t).isSome = true)
    (keeps' : ∀ t, s.inHand b = some t → s'.inHand b = some t ∨ (s'.known t).isSome = true)
    (queued : s.Queued b → s'.Queued b ∨ ∃ r, s'.inHand r = some b) : s'.Placed ∧ Keeps s s' := by
  obtain ⟨alone, unqueued⟩ := h.runs running
  refine h.of_pair a b tables others blocks ?_ ?_ ?_ ?_ ?_ ?_
  · rintro u (rfl | rfl)
    · exact placed
    · exact placed'
  · rintro r t (rfl | rfl)
    · exact held t
    · exact held' t
  · rintro r u (rfl | rfl) ha hb
    · exact alone r
    · exact free r ha hb
  · rintro u (rfl | rfl)
    · exact addressed
    · exact addressed'
  · rintro r t (rfl | rfl)
    · exact keeps t
    · exact keeps' t
  · rintro u (rfl | rfl) hu
    · exact absurd hu unqueued
    · exact queued hu

/-- A step of the task `a` alone, which runs. -/
theorem Placed.of_one (h : s.Placed) (a : Up.Task n) (running : s.sys.state a = READY)
    (tables : s'.tables = s.tables) (others : ∀ u, u ≠ a → Same s s' u)
    (blocks : ∀ u, u ≠ a → SameBlock s s' u) (placed : s'.PlacedAt a)
    (held : ∀ t, s'.inHand a = some t → s'.Holds a t)
    (addressed : (s'.sys.state a).ret = true →
      (s'.known a).isSome = true ∨ ∃ r, s'.inHand r = some a)
    (keeps : ∀ t, s.inHand a = some t → s'.inHand a = some t ∨ (s'.known t).isSome = true) :
    s'.Placed ∧ Keeps s s' :=
  h.of_partners a a running tables (fun u hu _ => others u hu) (fun u hu _ => blocks u hu) placed
    placed held held (fun r _ _ => (h.runs running).1 r) addressed addressed keeps keeps
    fun hu => absurd hu (h.runs running).2

/-- A wait without a time is not ended by the timer. -/
theorem woken_state (woken : s.sys.disp.Woken now d) (untimed : (s.sys.state t).delayed = false) :
    d.state t = s.sys.state t := by
  rcases woken.state t with same | ⟨delayed, -, -⟩
  · exact same
  · exact absurd (delayed.symm.trans untimed) Bool.noConfusion

/-- The timer sets no bit. -/
theorem woken_bits (woken : s.sys.disp.Woken now d) (t : Up.Task n) :
    ((d.state t).rpc = true → (s.sys.state t).rpc = true) ∧
      ((d.state t).ret = true → (s.sys.state t).ret = true) ∧
      ((d.state t).receive = true → (s.sys.state t).receive = true) := by
  rcases woken.state t with same | ⟨-, -, out⟩
  · rw [same]
    exact ⟨id, id, id⟩
  · rw [out]
    simp [TaskState.clear, TIMED_OUT]

/-- Expiries. -/
theorem Queued.woken (h : s.Queued t) (woken : s.sys.disp.Woken now d) :
    State.Queued { s with sys := { s.sys with disp := d } } t := by
  obtain ⟨r, cb, block, call, state, rest⟩ := h
  exact ⟨r, cb, block, call, (woken_state woken (by rw [state]; rfl)).trans state, rest⟩

theorem Placed.woken (h : s.Placed) (woken : s.sys.disp.Woken now d) :
    State.Placed { s with sys := { s.sys with disp := d } } := by
  have stays {t : Up.Task n} {st : TaskState} (state : s.sys.state t = st)
      (untimed : st.delayed = false) : d.state t = st :=
    (woken_state woken (state ▸ untimed)).trans state
  refine ⟨h.tables, fun t => ?_, fun r t hr => ?_, fun t ret => ?_⟩
  · obtain ⟨rpc, ret, receive⟩ := woken_bits woken t
    have at_t := h.tasks t
    refine ⟨at_t.frames, fun call idle => stays (at_t.ready call idle) rfl,
      fun r cb block call => ?_, fun hr => at_t.unknown (rpc hr),
      fun hr => at_t.waits (receive hr), at_t.forgets⟩
    obtain ⟨filled, command, msg⟩ := at_t.sends r cb block call
    exact ⟨filled, command, fun waits => msg (waits.imp rpc ret)⟩
  · have holds := h.held r t hr
    exact ⟨stays holds.waits rfl, holds.untold, holds.sends⟩
  · exact h.addressed t ((woken_bits woken t).2.1 ret)

/-- A step that moves nothing is added. -/
theorem Keeps.behind {s₂ : State n} (h : Keeps s s₁) (queued : ∀ t, s₁.Queued t → s₂.Queued t)
    (held : ∀ r, s₂.inHand r = s₁.inHand r) (known : s₂.known = s₁.known) : Keeps s s₂ := by
  refine ⟨fun t ht => ?_, fun r t hr => ?_⟩
  · rcases h.queued t ht with still | ⟨r, hr⟩
    · exact .inl (queued t still)
    · exact .inr ⟨r, (held r).trans hr⟩
  · rw [held, known]
    exact h.held r t hr

theorem Placed.scheduled {sys : System n} {c : Clock} (h : s₁.Placed ∧ Keeps s s₁)
    (hs : System.Scheduled False c s₁.sys sys) :
    State.Placed { s₁ with sys := sys } ∧ Keeps s { s₁ with sys := sys } := by
  obtain ⟨d, rfl, woken⟩ := hs.woken
  exact ⟨h.1.woken woken, h.2.behind (fun t ht => ht.woken woken) (fun _ => rfl) rfl⟩

/-! ## Who waits where -/

/-- The current task holds nothing while it runs its own code. -/
theorem inHand_idle (idle : s.inside r = none) : s.inHand r = none := by
  simp [inHand, idle]

theorem inHand_send {cb : UInt32} {block : Msgcb} (call : s.inside r = some (.send t cb block)) :
    s.inHand r = none := by
  simp [inHand, call, Service.receives]

theorem inHand_frame (inside : s.inside r = some call) (receives : call.receives = true)
    (stack : s.sys.stack r = f :: fs) (attends : s.sys.retQueueTask r = false)
    (partner : s.sys.msgQueueTask r = o) : s.inHand r = o := by
  simp [inHand, inside, receives, stack, attends, partner]

/-- A receive of the scheduler has returned. -/
theorem inHand_back (inside : s.inside r = some call) (receives : call.receives = true)
    (idle : s.sys.stack r = []) (value : s.sys.retval r = .task o) : s.inHand r = o := by
  simp [inHand, inside, receives, idle, value]

theorem inHand_refused {v : Ret n} (idle : s.sys.stack r = []) (value : s.sys.retval r = v)
    (nobody : v = .msgErr ∨ v = .task none) : s.inHand r = none := by
  rcases nobody with rfl | rfl <;> simp [inHand, idle, value]

/-- A receive of the scheduler waits for a message. -/
theorem inHand_listens (stack : s.sys.stack r = f :: fs) (waits : s.sys.retQueueTask r = true) :
    s.inHand r = none := by
  simp [inHand, stack, waits]

theorem framesOf_receives {inside : Option (Service n)} (here : inside = some call)
    (receives : call.receives = true) (frames : fs = [] ∨ fs = [.rtReceive] ∨ fs = [.rtReceived]) :
    FramesOf inside fs := by
  subst here
  cases call with
  | send => cases receives
  | receive | creceive => exact frames

/-- The frames there are. -/
theorem PlacedAt.frame (h : s.PlacedAt t) (stack : s.sys.stack t = [f]) :
    (f = .rtReceive ∨ f = .rtReceived) ∧ (s.inside t).any Service.receives = true ∨
      ∃ r cb block, s.inside t = some (.send r cb block) ∧ f = .rtRpc r cb := by
  have frames := h.frames
  rw [stack] at frames
  cases call : s.inside t with
  | none =>
      rw [call] at frames
      cases frames
  | some service =>
      rw [call] at frames
      cases service with
      | send r cb block =>
          rcases frames with e | e
          · cases e
          · exact .inr ⟨r, cb, block, rfl, List.head_eq_of_cons_eq e⟩
      | receive | creceive =>
          rcases frames with e | e | e
          · cases e
          · exact .inl ⟨.inl (List.head_eq_of_cons_eq e), rfl⟩
          · exact .inl ⟨.inr (List.head_eq_of_cons_eq e), rfl⟩

/-- A task that waits in an `rt_rpc` is in an `rt_Send`. -/
theorem PlacedAt.sending (h : s.PlacedAt t) {r : Up.Task n} (stack : s.sys.stack t = [f])
    (aim : f.aim = .rpc r) :
    ∃ cb block, s.inside t = some (.send r cb block) ∧ f = .rtRpc r cb := by
  rcases h.frame stack with ⟨rfl | rfl, -⟩ | ⟨r', cb, block, call, rfl⟩
  · cases aim
  · cases aim
  · cases aim
    exact ⟨cb, block, call, rfl⟩

/-- No task is in an `rt_send`. -/
theorem PlacedAt.not_send (h : s.PlacedAt t) (phased : System.Phased True s.sys) :
    (s.sys.state t).send = false := by
  rw [← Bool.not_eq_true]
  intro send
  obtain ⟨f, r, stack, aim, -⟩ := (phased t).of_send send
  rcases h.frame stack with ⟨rfl | rfl, -⟩ | ⟨r', cb, block, -, rfl⟩ <;> cases aim

/-- A task that waits for a message has none. -/
theorem PlacedAt.inHand_waits (h : s.PlacedAt r) (phased : System.Phased True s.sys)
    (receive : (s.sys.state r).receive = true) :
    s.sys.stack r = [.rtReceive] ∧ (∃ call, s.inside r = some call ∧ call.receives = true) ∧
      s.inHand r = none := by
  obtain ⟨stack, -, -⟩ := (phased r).of_receive receive
  rcases h.frame stack with ⟨-, receives⟩ | ⟨_, _, _, -, e⟩
  · refine ⟨stack, (Option.any_eq_true _ _).mp receives, ?_⟩
    simp [inHand, stack, h.waits receive]
  · cases e

variable (h : s.PlacedAt t) (phased : System.Phased True s.sys)
include h phased

/-- What a queued sender has done. -/
theorem PlacedAt.queued (rpc : (s.sys.state t).rpc = true) :
    ∃ r cb block, s.inside t = some (.send r cb block) ∧
      s.sys.state t = waiting RPC false ∧ s.sys.stack t = [.rtRpc r cb] ∧
      s.sys.msgQueueTask t = some r ∧ s.sys.msg t = cb ∧ s.known t = none := by
  obtain ⟨f, r, stack, aim, state, -, partner⟩ := (phased t).of_rpc rpc
  obtain ⟨cb, block, call, rfl⟩ := h.sending stack aim
  exact ⟨r, cb, block, call, state, stack, partner,
    (h.sends r cb block call).2.2 (.inl rpc), h.unknown rpc⟩

/-- What a sender that waits for its return has done. -/
theorem PlacedAt.returning (ret : (s.sys.state t).ret = true) :
    ∃ r cb block, s.inside t = some (.send r cb block) ∧
      s.sys.state t = waiting RETURN false ∧ s.sys.stack t = [.rtRpc r cb] ∧
      s.sys.msgQueueTask t = some r ∧ s.sys.msg t = cb := by
  obtain ⟨f, r, stack, aim, -, partner, waits⟩ := (phased t).of_ret ret
  obtain ⟨cb, block, call, rfl⟩ := h.sending stack aim
  have state : s.sys.state t = waiting RETURN false := by
    rcases waits with ⟨state, -⟩ | ⟨state, -⟩ <;> exact state
  exact ⟨r, cb, block, call, state, stack, partner, (h.sends r cb block call).2.2 (.inr ret)⟩

end State

end Rtai.Lxrt.SyncMessages
