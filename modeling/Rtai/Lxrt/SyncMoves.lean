import Rtai.Lxrt.SyncRuns

/-!
# What the synchronous messages move

A lemma for each piece of a call, up to the `rt_schedule` in it: it leaves the tasks `Placed`
and the messages where they can be received.  The last one returns a message to its receiver,
which must be able to tell the pid of the sender.
-/

namespace Rtai.Lxrt.SyncMessages

open Function Rtai.Lib Rtai.Up Rtai.Lxrt.Identifiers

variable {n : Nat}

namespace State

variable {s s' s₁ : State n} {t r a b : Up.Task n} {cb msg maxsize : UInt32} {block : Msgcb}
  {sys : System n} {call : Service n} {nobody unknown : Int} {op : Op n} {f : Frame n}

/-- A bit that is not in the state word. -/
theorem no_bit {st st' : TaskState} {bit : TaskState → Bool} {p : Prop} (state : st = st')
    (set : bit st = true) (out : bit st' = false) : p := by
  rw [state, out] at set
  cases set

/-! ## Sending -/

/-- A task that can run. -/
theorem PlacedAt.of_ready (frames : FramesOf (s.inside t) (s.sys.stack t))
    (ready : s.sys.state t = READY)
    (sends : ∀ r cb block, s.inside t = some (.send r cb block) →
      s.msgcb cb = block ∧ block.cmd = SYNCMSG)
    (forgets : s.sys.retQueueTask t = true → s.sys.stack t = [.rtReceive]) : s.PlacedAt t := by
  refine ⟨frames, fun _ _ => ready, fun r cb block call => ?_, ?_, ?_, forgets⟩
  · obtain ⟨filled, command⟩ := sends r cb block call
    refine ⟨filled, command, ?_⟩
    simp [ready, READY]
  · simp [ready, READY]
  · simp [ready, READY]

theorem PlacedAt.of_outside (outside : s.inside t = none) (idle : s.sys.stack t = [])
    (rpc : (s.sys.state t).rpc = false) (receive : (s.sys.state t).receive = false)
    (attends : s.sys.retQueueTask t = false) : s.PlacedAt t := by
  refine ⟨?_, fun call => absurd outside call, fun r cb block call => ?_, fun h => ?_, fun h => ?_,
    fun h => ?_⟩
  · rw [outside]
    exact idle
  · cases outside.symm.trans call
  · exact absurd (rpc.symm.trans h) Bool.noConfusion
  · exact absurd (receive.symm.trans h) Bool.noConfusion
  · exact absurd (attends.symm.trans h) Bool.noConfusion

/-- A task that is back from its call. -/
theorem PlacedAt.of_back (outside : s.inside t = none) (idle : s.sys.stack t = [])
    (ready : s.sys.state t = READY) (attends : s.sys.retQueueTask t = false) : s.PlacedAt t := by
  refine .of_outside outside idle ?_ ?_ attends
  · rw [ready]
    rfl
  · rw [ready]
    rfl

/-- A sender waits for the receiver, or for its return. -/
theorem PlacedAt.of_sender (call : s.inside t = some (.send r cb block))
    (stack : s.sys.stack t = [.rtRpc r cb])
    (filled : s.msgcb cb = block ∧ block.cmd = SYNCMSG) (msg : s.sys.msg t = cb)
    (unknown : (s.sys.state t).rpc = true → s.known t = none)
    (receive : (s.sys.state t).receive = false) (attends : s.sys.retQueueTask t = false) :
    s.PlacedAt t := by
  refine ⟨?_, fun _ empty => ?_, fun r' cb' block' call' => ?_, unknown, fun receives => ?_,
    fun waits => ?_⟩
  · rw [call]
    exact .inr stack
  · exact absurd (stack.symm.trans empty) (List.cons_ne_nil _ _)
  · cases call.symm.trans call'
    exact ⟨filled.1, filled.2, fun _ => msg⟩
  · exact absurd (receive.symm.trans receives) Bool.noConfusion
  · exact absurd (attends.symm.trans waits) Bool.noConfusion

theorem PlacedAt.attends_of_ne (h : s.PlacedAt t) (frame : s.sys.stack t ≠ [.rtReceive]) :
    s.sys.retQueueTask t = false := by
  rw [← Bool.not_eq_true]
  exact fun waits => frame (h.forgets waits)

/-- A task with no frame waits for no message. -/
theorem PlacedAt.attends (h : s.PlacedAt t) (idle : s.sys.stack t = []) :
    s.sys.retQueueTask t = false :=
  h.attends_of_ne (by simp [idle])

/-- The block of a call that is under way stays when another one is filled in. -/
theorem unused_apart {cb' : UInt32} (unused : s.unused cb = true)
    (call : s.inside t = some (.send r cb' block)) : cb' ≠ cb := by
  have all := List.all_eq_true.mp unused t (List.mem_finRange t)
  rw [call] at all
  simpa using all

/-- `rt_Send` up to the `rt_schedule` of `rt_rpc`. -/
def sent (sys : System n) (t : Up.Task n) (cb : UInt32) (block : Msgcb) (s : State n) : State n :=
  { s.enter sys (.send t cb block) with
    msgcb := update s.msgcb cb block
    known := update s.known s.sys.current none }

section

variable (h : s.Placed) (phased : System.Phased True s.sys)
  (running : s.sys.state s.sys.current = READY) (idle : s.sys.stack s.sys.current = [])
  (outside : s.inside s.sys.current = none)
include h phased running idle outside

theorem Placed.send (unused : s.unused cb = true) (command : block.cmd = SYNCMSG)
    (moves : System.MsgCall s.sys (.rpc t cb) sys) :
    (s.sent sys t cb block).Placed ∧ Keeps s (s.sent sys t cb block) := by
  have attends := (h.tasks s.sys.current).attends idle
  have blocks (u : Up.Task n) : SameBlock s (s.sent sys t cb block) u := fun r cb' block' call =>
    update_of_ne (unused_apart unused call) _ _
  have call : (s.sent sys t cb block).inside s.sys.current = some (.send t cb block) :=
    update_self _ _ _
  have untold : (s.sent sys t cb block).known s.sys.current = none := update_self _ _ _
  have empty (u : Up.Task n) : (s.sent sys t cb block).inHand s.sys.current ≠ some u := by
    rw [inHand_send call]
    exact nofun
  have nothing (u : Up.Task n) : s.inHand s.sys.current ≠ some u := by
    rw [inHand_idle outside]
    exact nofun
  cases moves with
  | refuse value =>
      refine h.of_one s.sys.current running rfl (fun u hu => ?_) (fun u _ => blocks u) ?_
        (fun u holds => absurd holds (empty u)) (fun ret => ?_)
        fun u holds => absurd holds (nothing u)
      · exact ⟨update_of_ne hu _ _, update_of_ne hu _ _, rfl, rfl, rfl, rfl, rfl, rfl,
          update_of_ne hu _ _, rfl⟩
      · refine .of_ready ?_ running (fun r cb' block' call' => ?_) fun waits => ?_
        · rw [call]
          exact .inl idle
        · cases call.symm.trans call'
          exact ⟨update_self _ _ _, command⟩
        · exact absurd (attends.symm.trans waits) Bool.noConfusion
      · exact no_bit running ret rfl
  | @queueRpc _ r toDo f R T M P Q st calls magic busy state blocking early queue prio =>
      cases calls
      have now : update s.sys.disp.state s.sys.current st s.sys.current = waiting RPC false :=
        (update_self _ _ _).trans state
      have frame : update s.sys.stack s.sys.current (.rtRpc t cb :: s.sys.stack s.sys.current)
          s.sys.current = [.rtRpc t cb] := by
        rw [update_self, idle]
      refine h.of_one s.sys.current running rfl (fun u hu => ?_) (fun u _ => blocks u) ?_
        (fun u holds => absurd holds (empty u)) (fun ret => ?_)
        fun u holds => absurd holds (nothing u)
      · exact ⟨update_of_ne hu _ _, update_of_ne hu _ _, update_of_ne hu _ _, update_of_ne hu _ _,
          update_of_ne hu _ _, update_of_ne hu _ _, update_of_ne hu _ _, rfl, rfl, rfl⟩
      · exact .of_sender call frame ⟨update_self _ _ _, command⟩ (update_self _ _ _)
          (fun _ => untold) ((congrArg TaskState.receive now).trans rfl) attends
      · exact no_bit now ret rfl
  | @directRpc _ r toDo f R T st calls magic listening state =>
      cases calls
      have receive : (s.sys.state t).receive = true := System.listening_receive listening
      obtain ⟨stack, ⟨call', inside', receives⟩, open_⟩ := (h.tasks t).inHand_waits phased receive
      obtain ⟨-, -, timed, waits⟩ := (phased t).of_receive receive
      have other : t ≠ s.sys.current := by
        rintro rfl
        rw [running] at receive
        cases receive
      have now : update (update s.sys.disp.state t
          ((s.sys.disp.state t).clear (RECEIVE.set DELAYED))) s.sys.current st s.sys.current =
            waiting RETURN false := (update_self _ _ _).trans state
      have now' : update (update s.sys.disp.state t
          ((s.sys.disp.state t).clear (RECEIVE.set DELAYED))) s.sys.current st t = READY := by
        rw [update_of_ne other, update_self, waits, System.Phased.clear_receive]
      -- what the listening task and its call are now
      have frame : update s.sys.stack s.sys.current
          (.rtRpc t cb :: s.sys.stack s.sys.current) t = [.rtReceive] := by
        rw [update_of_ne other, stack]
      have still : update s.inside s.sys.current (some (.send t cb block)) t = some call' := by
        rw [update_of_ne other, inside']
      have partner : update (update s.sys.msgQueueTask t (some s.sys.current)) s.sys.current
          (some t) t = some s.sys.current := by
        rw [update_of_ne other, update_self]
      have attending : update s.sys.retQueueTask t false t = false := update_self _ _ _
      refine h.of_partners s.sys.current t running rfl (fun u hc ht => ?_)
        (fun u _ _ => blocks u) ?_ ?_ (fun u holds => absurd holds (empty u)) (fun u holds => ?_)
        (fun r _ _ => h.not_held (by rw [show s.sys.state t = _ from waits]; cases timed <;> decide)) (fun _ => .inr ⟨t, ?_⟩)
        (fun ret => ?_) (fun u holds => absurd holds (nothing u)) (fun u holds => ?_) fun hu => ?_
      · exact ⟨update_of_ne hc _ _, update_of_ne hc _ _, update_of_ne hc _ _,
          (update_of_ne hc _ _).trans (update_of_ne ht _ _), rfl,
          (update_of_ne ht _ _).trans (update_of_ne hc _ _),
          (update_of_ne hc _ _).trans (update_of_ne ht _ _), update_of_ne ht _ _, rfl, rfl⟩
      · refine .of_sender call ((update_self _ _ _).trans (by rw [idle]))
          ⟨update_self _ _ _, command⟩ ?_ (fun _ => untold)
          ((congrArg TaskState.receive now).trans rfl)
          ((update_of_ne (Ne.symm other) _ _).trans attends)
        exact (update_of_ne (Ne.symm other) _ _).trans (update_self _ _ _)
      · refine .of_ready ?_ now' (fun r cb' block' call => ?_) fun waits => ?_
        · exact framesOf_receives still receives (.inr (.inl frame))
        · cases still.symm.trans call
          cases receives
        · exact absurd (attending.symm.trans waits) Bool.noConfusion
      · cases holds.symm.trans (inHand_frame still receives frame attending partner)
        refine ⟨now, untold, cb, block, call, ?_⟩
        exact (if_pos frame).trans (update_self _ _ _)
      · exact inHand_frame still receives frame attending partner
      · exact no_bit now' ret rfl
      · cases open_.symm.trans holds
      · obtain ⟨-, -, -, -, state, -⟩ := hu
        rw [show s.sys.state t = _ from waits] at state
        exact absurd state (by cases timed <;> decide)
  | deliver calls | queueSend calls => cases calls
  | takeSend calls | takeRpc calls | listens calls => cases calls

/-! ## Receiving -/

theorem Placed.receive {task : Option (Up.Task n)} (receives : call.receives = true)
    (receive : op.Receives task) (moves : System.MsgCall s.sys op sys) :
    (s.enter sys call).Placed ∧ Keeps s (s.enter sys call) := by
  have attends := (h.tasks s.sys.current).attends idle
  have blocks (u : Up.Task n) : SameBlock s (s.enter sys call) u := fun _ _ _ _ => rfl
  have inside : (s.enter sys call).inside s.sys.current = some call := update_self _ _ _
  have sends (r : Up.Task n) (cb : UInt32) (block : Msgcb) :
      (s.enter sys call).inside s.sys.current ≠ some (.send r cb block) := by
    rw [inside]
    rintro e
    cases e
    cases receives
  have nothing (u : Up.Task n) : s.inHand s.sys.current ≠ some u := by
    rw [inHand_idle outside]
    exact nofun
  cases moves with
  | refuse value =>
      refine h.of_one s.sys.current running rfl (fun u hu => ?_) (fun u _ => blocks u) ?_
        (fun u holds => ?_) (fun ret => ?_) fun u holds => absurd holds (nothing u)
      · exact ⟨update_of_ne hu _ _, rfl, rfl, rfl, rfl, rfl, rfl, rfl, update_of_ne hu _ _, rfl⟩
      · refine .of_ready ?_ running (fun r cb block call' => absurd call' (sends r cb block))
          fun waits => ?_
        · exact framesOf_receives inside receives (.inl idle)
        · exact absurd (attends.symm.trans waits) Bool.noConfusion
      · cases holds.symm.trans (inHand_refused idle (update_self _ _ _) value)
      · exact no_bit running ret rfl
  | @takeSend _ task t R T call' first sending send =>
      exact absurd (((h.tasks t).not_send phased).symm.trans send) Bool.noConfusion
  | @takeRpc _ task t T Q B call' first sending send blocked queue =>
      obtain ⟨rpc, partner⟩ : (s.sys.state t).rpc = true ∧
          s.sys.msgQueueTask t = some s.sys.current := by
        simpa [System.sending, send] using sending
      obtain ⟨r, cb, block, sent, waits, stack, partner', msg, untold⟩ :=
        (h.tasks t).queued phased rpc
      cases partner.symm.trans partner'
      have other : t ≠ s.sys.current := by
        rintro rfl
        rw [running] at rpc
        cases rpc
      have now : update s.sys.disp.state t
          (((s.sys.disp.state t).clear (RPC.set DELAYED)).set RETURN) t = waiting RETURN false := by
        rw [update_self, show s.sys.disp.state t = _ from waits]
        rfl
      have runs : update s.sys.disp.state t
          (((s.sys.disp.state t).clear (RPC.set DELAYED)).set RETURN) s.sys.current = READY :=
        (update_of_ne (Ne.symm other) _ _).trans running
      have frame : update s.sys.stack s.sys.current (.rtReceived :: s.sys.stack s.sys.current)
          s.sys.current = [.rtReceived] := by
        rw [update_self, idle]
      have still : update s.inside s.sys.current (some call) t = some (.send s.sys.current cb block) :=
        (update_of_ne other _ _).trans sent
      have frame' : update s.sys.stack s.sys.current (.rtReceived :: s.sys.stack s.sys.current) t =
          [.rtRpc s.sys.current cb] := (update_of_ne other _ _).trans stack
      refine h.of_partners s.sys.current t running rfl (fun u hc ht => ?_)
        (fun u _ _ => blocks u) ?_ ?_ (fun u holds => ?_) (fun u holds => ?_)
        (fun r _ _ => h.not_held (by rw [waits]; decide)) (fun ret => ?_)
        (fun _ => .inr ⟨s.sys.current, ?_⟩) (fun u holds => absurd holds (nothing u))
        (fun u holds => ?_)
        fun _ => .inr ⟨s.sys.current, ?_⟩
      · exact ⟨update_of_ne hc _ _, rfl, update_of_ne hc _ _, update_of_ne ht _ _,
          by rw [blocked]; exact update_of_ne ht _ _, rfl, update_of_ne hc _ _, rfl, rfl,
          update_of_ne hc _ _⟩
      · refine .of_ready ?_ runs (fun r cb block call' => absurd call' (sends r cb block))
          fun waits => ?_
        · exact framesOf_receives inside receives (.inr (.inr frame))
        · exact absurd (attends.symm.trans waits) Bool.noConfusion
      · obtain ⟨filled, command, -⟩ := (h.tasks t).sends _ cb block sent
        have attends' := (h.tasks t).attends_of_ne (by simp [stack])
        exact .of_sender still frame' ⟨filled, command⟩ msg (fun _ => untold)
          ((congrArg TaskState.receive now).trans rfl) attends'
      · cases holds.symm.trans (inHand_frame inside receives frame attends (update_self _ _ _))
        refine ⟨now, untold, cb, block, still, ?_⟩
        refine (if_neg fun e => ?_).trans ((update_self _ _ _).trans msg)
        cases frame.symm.trans e
      · cases holds.symm.trans (inHand_send still)
      · exact no_bit runs ret rfl
      · exact inHand_frame inside receives frame attends (update_self _ _ _)
      · cases (inHand_send sent).symm.trans holds
      · exact inHand_frame inside receives frame attends (update_self _ _ _)
  | @listens _ task t b R T M st call' first nobody state blocking =>
      have now : update s.sys.disp.state s.sys.current st s.sys.current = waiting RECEIVE b :=
        (update_self _ _ _).trans state
      have frame : update s.sys.stack s.sys.current (.rtReceive :: s.sys.stack s.sys.current)
          s.sys.current = [.rtReceive] := by
        rw [update_self, idle]
      have waits : update s.sys.retQueueTask s.sys.current true s.sys.current = true :=
        update_self _ _ _
      refine h.of_one s.sys.current running rfl (fun u hu => ?_) (fun u _ => blocks u) ?_
        (fun u holds => ?_) (fun ret => ?_) fun u holds => absurd holds (nothing u)
      · exact ⟨update_of_ne hu _ _, rfl, update_of_ne hu _ _, update_of_ne hu _ _, rfl, rfl,
          update_of_ne hu _ _, update_of_ne hu _ _, rfl, rfl⟩
      · refine ⟨framesOf_receives inside receives (.inr (.inl frame)), fun _ empty => ?_,
          fun r cb block call' => absurd call' (sends r cb block), fun rpc => ?_, fun _ => waits,
          fun _ => frame⟩
        · exact absurd (frame.symm.trans empty) (List.cons_ne_nil _ _)
        · exact no_bit now rpc (by cases b <;> rfl)
      · cases holds.symm.trans (inHand_listens frame waits)
      · exact no_bit now ret (by cases b <;> rfl)
  | @lateReceive task t time first nobody =>
      rw [System.rtReceivedRest_eq] at blocks inside sends ⊢
      have waited : update s.sys.retQueueTask s.sys.current true s.sys.current = true :=
        update_self _ _ _
      refine h.of_one s.sys.current running rfl (fun u hu => ?_) (fun u _ => blocks u) ?_
        (fun u holds => ?_) (fun ret => ?_) fun u holds => absurd holds (nothing u)
      · exact ⟨update_of_ne hu _ _, rfl, rfl, rfl, rfl, rfl, update_of_ne hu _ _,
          (update_of_ne hu _ _).trans (update_of_ne hu _ _), update_of_ne hu _ _, rfl⟩
      · refine .of_ready ?_ running (fun r cb block call' => absurd call' (sends r cb block))
          fun waits => ?_
        · exact framesOf_receives inside receives (.inl idle)
        · exact absurd ((update_self _ _ _).symm.trans waits) Bool.noConfusion
      · have value : update s.sys.retval s.sys.current (.task
            (if update s.sys.retQueueTask s.sys.current true s.sys.current then none
              else s.sys.msgQueueTask s.sys.current)) s.sys.current = .task none := by
          rw [update_self, if_pos waited]
        cases holds.symm.trans (inHand_refused idle value (.inr rfl))
      · exact no_bit running ret rfl
  | deliver calls | queueSend calls => cases receive <;> cases calls
  | directRpc calls | queueRpc calls => cases receive <;> cases calls
  | lateSend | replies => cases receive

end

/-! ## Replying -/

theorem Placed.reply {result : UInt32} (mem : Memory) (v : Int) (h : s.Placed)
    (phased : System.Phased True s.sys) (running : s.sys.state s.sys.current = READY)
    (idle : s.sys.stack s.sys.current = []) (outside : s.inside s.sys.current = none)
    (moves : System.MsgCall s.sys (.ret t result) sys) :
    (State.leave v { s with sys := sys, mem := mem }).Placed ∧
      Keeps s (State.leave v { s with sys := sys, mem := mem }) := by
  have attends := (h.tasks s.sys.current).attends idle
  have nothing (u : Up.Task n) : s.inHand s.sys.current ≠ some u := by
    rw [inHand_idle outside]
    exact nofun
  cases moves with
  | @refuse _ M w value =>
      have back : update s.inside s.sys.current none s.sys.current = none := update_self _ _ _
      refine h.of_one s.sys.current running rfl (fun u hu => ?_) (fun u _ _ _ _ _ => rfl) ?_
        (fun u holds => ?_) (fun ret => ?_) fun u holds => absurd holds (nothing u)
      · exact ⟨update_of_ne hu _ _, rfl, rfl, rfl, rfl, rfl, rfl, rfl, update_of_ne hu _ _, rfl⟩
      · exact .of_back back idle running attends
      · cases (inHand_idle back).symm.trans holds
      · exact no_bit running ret rfl
  | @replies _ _ R T p returning client left =>
      obtain ⟨r, cb, block, call, waits, stack, partner, -⟩ :=
        (h.tasks t).returning phased returning
      cases client.symm.trans partner
      have other : t ≠ s.sys.current := by
        rintro rfl
        rw [running] at returning
        cases returning
      have now : update s.sys.disp.state t
          ((s.sys.disp.state t).clear (RETURN.set DELAYED)) t = READY := by
        rw [update_self, show s.sys.disp.state t = _ from waits, System.Phased.clear_return]
      have runs : update s.sys.disp.state t
          ((s.sys.disp.state t).clear (RETURN.set DELAYED)) s.sys.current = READY :=
        (update_of_ne (Ne.symm other) _ _).trans running
      have back : update s.inside s.sys.current none s.sys.current = none := update_self _ _ _
      have still : update s.inside s.sys.current none t = some (.send s.sys.current cb block) :=
        (update_of_ne other _ _).trans call
      refine h.of_partners s.sys.current t running rfl (fun u hc ht => ?_)
        (fun u _ _ _ _ _ _ => rfl) ?_ ?_ (fun u holds => ?_) (fun u holds => ?_)
        (fun r hr _ holds => ?_) (fun ret => ?_) (fun ret => ?_)
        (fun u holds => absurd holds (nothing u)) (fun u holds => ?_) fun hu => ?_
      · exact ⟨update_of_ne hc _ _, rfl, rfl, update_of_ne ht _ _, update_of_ne ht _ _,
          update_of_ne ht _ _, update_of_ne ht _ _, rfl, update_of_ne hc _ _, rfl⟩
      · exact .of_back back idle runs attends
      · refine .of_ready ?_ now (fun r cb' block' call' => ?_) (h.tasks t).forgets
        · rw [show State.inside _ t = _ from still]
          exact .inr stack
        · obtain ⟨filled, command, -⟩ :=
            (h.tasks t).sends r cb' block' (call.trans (still.symm.trans call'))
          exact ⟨filled, command⟩
      · cases (inHand_idle back).symm.trans holds
      · cases (inHand_send still).symm.trans holds
      · obtain ⟨_, _, call', -⟩ := (h.held r t holds).sends
        cases call.symm.trans call'
        exact hr rfl
      · exact no_bit runs ret rfl
      · exact no_bit now ret rfl
      · cases (inHand_send call).symm.trans holds
      · obtain ⟨-, -, -, -, state, -⟩ := hu
        rw [waits] at state
        exact absurd state (by decide)
  | deliver calls | queueSend calls | directRpc calls | queueRpc calls => cases calls
  | takeSend calls | takeRpc calls | listens calls => cases calls

/-! ## Going on -/

theorem framesOf_nil (inside : Option (Service n)) : FramesOf inside [] := by
  cases inside with
  | none => rfl
  | some call =>
      cases call with
      | send | receive | creceive => exact .inl rfl

/-- What a receive has in hand while its service of the scheduler runs. -/
theorem inHand_busy {fs : List (Frame n)} (stack : s.sys.stack r = f :: fs)
    (receives : (s.inside r).any Service.receives = true) :
    s.inHand r = if s.sys.retQueueTask r then none else s.sys.msgQueueTask r := by
  simp [inHand, stack, receives]

/-- The code of the scheduler's service behind its `rt_schedule`. -/
theorem Placed.goOn {c : Clock} (h : s.Placed) (messaging : System.Messaging s.sys)
    (stack : s.sys.stack s.sys.current = [f]) (goes : s.sys.pop.proceed c f = some sys) :
    State.Placed { s with sys := sys } ∧ Keeps s { s with sys := sys } := by
  have running : s.sys.state s.sys.current = READY := messaging.ok.running
  have message := messaging.frames s.sys.current f (by simp [stack])
  obtain ⟨P, Q, rfl⟩ := messaging.rest stack message goes
  have idle : update s.sys.stack s.sys.current (s.sys.stack s.sys.current).tail s.sys.current =
      [] := by
    rw [update_self, stack]
    rfl
  have others (u : Up.Task n) (hu : u ≠ s.sys.current) : Same s { s with sys := { s.sys.pop with
      prioPassedTo := P
      queue := Q
      blockedOn := update s.sys.blockedOn s.sys.current none
      msgQueueTask := update s.sys.msgQueueTask s.sys.current (some s.sys.current)
      retQueueTask := update s.sys.retQueueTask s.sys.current (s.sys.restWaits f)
      retval := update s.sys.retval s.sys.current (.task (s.sys.restValue f))
      out := update s.sys.out s.sys.current (s.sys.restMessage f) } } u :=
    ⟨rfl, rfl, update_of_ne hu _ _, rfl, update_of_ne hu _ _, rfl, update_of_ne hu _ _,
      update_of_ne hu _ _, update_of_ne hu _ _, update_of_ne hu _ _⟩
  have sends (r : Up.Task n) (cb : UInt32) (block : Msgcb)
      (call : s.inside s.sys.current = some (.send r cb block)) :
      s.msgcb cb = block ∧ block.cmd = SYNCMSG := by
    obtain ⟨filled, command, -⟩ := (h.tasks s.sys.current).sends r cb block call
    exact ⟨filled, command⟩
  rcases (h.tasks s.sys.current).frame stack with ⟨frame, receives⟩ | ⟨r, cb, block, call, rfl⟩
  · -- the message in hand becomes what the service returns
    obtain ⟨call, inside, receives'⟩ := (Option.any_eq_true _ _).mp receives
    have attends : s.sys.restWaits f = false := by
      rcases frame with rfl | rfl <;> rfl
    have value : s.sys.restValue f = s.inHand s.sys.current := by
      rw [inHand_busy stack receives]
      rcases frame with rfl | rfl <;> rfl
    have message : s.sys.restMessage f = s.carried s.sys.current := by
      rcases frame with rfl | rfl
      · exact (if_pos stack).symm
      · refine (if_neg fun e => ?_).symm
        cases stack.symm.trans e
    have same : update s.sys.retval s.sys.current (.task (s.sys.restValue f)) s.sys.current =
        .task (s.inHand s.sys.current) := by
      rw [update_self, value]
    refine h.of_one s.sys.current running rfl others (fun u _ _ _ _ _ => rfl) ?_
      (fun u holds => ?_) (fun ret => ?_) fun u holds => ?_
    · refine .of_ready ?_ running sends fun waits => ?_
      · rw [show System.stack _ s.sys.current = _ from idle]
        exact framesOf_nil _
      · exact absurd (attends.symm.trans ((update_self _ _ _).symm.trans waits)) Bool.noConfusion
    · have held := h.held s.sys.current u
        (holds.symm.trans (inHand_back inside receives' idle same)).symm
      obtain ⟨cb, block, sent, carried⟩ := held.sends
      refine ⟨held.waits, held.untold, cb, block, sent, ?_⟩
      refine (if_neg fun e => ?_).trans ((update_self _ _ _).trans (message.trans carried))
      cases idle.symm.trans e
    · exact no_bit running ret rfl
    · exact .inl (Eq.trans (inHand_back inside receives' idle same) holds)
  · refine h.of_one s.sys.current running rfl others (fun u _ _ _ _ _ => rfl) ?_
      (fun u holds => ?_) (fun ret => ?_) fun u holds => ?_
    · refine .of_ready ?_ running sends fun waits => ?_
      · rw [show System.stack _ s.sys.current = _ from idle]
        exact framesOf_nil _
      · have frame := (h.tasks s.sys.current).forgets ((update_self _ _ _).symm.trans waits)
        rw [stack] at frame
        cases frame
    · cases holds.symm.trans (inHand_send call)
    · exact no_bit running ret rfl
    · cases (inHand_send call).symm.trans holds

/-- A call returns that has no message in hand. -/
theorem Placed.leave {v : Int} (h : s.Placed) (running : s.sys.state s.sys.current = READY)
    (idle : s.sys.stack s.sys.current = []) (nothing : s.inHand s.sys.current = none) :
    (s.leave v).Placed ∧ Keeps s (s.leave v) := by
  have back : (s.leave v).inside s.sys.current = none := update_self _ _ _
  refine h.of_one s.sys.current running rfl (fun u hu => ?_) (fun u _ _ _ _ _ => rfl) ?_
    (fun u holds => ?_) (fun ret => ?_) fun u holds => ?_
  · exact ⟨update_of_ne hu _ _, rfl, rfl, rfl, rfl, rfl, rfl, rfl, rfl, rfl⟩
  · exact .of_back back idle running ((h.tasks s.sys.current).attends idle)
  · cases (inHand_idle back).symm.trans holds
  · exact no_bit running ret rfl
  · cases nothing.symm.trans holds

/-- The pid of the task leads back to it. -/
def HasPid (s : State n) (t : Up.Task n) : Prop :=
  s.tables.rttask2pid (s.addr t) ≠ 0 ∧
    s.tables.pid2rttask (s.tables.rttask2pid (s.addr t)) = s.addr t

instance (s : State n) (t : Up.Task n) : Decidable (s.HasPid t) :=
  inferInstanceAs (Decidable (_ ∧ _))

/-- A receive has stored the message of `t` for its caller, and returned the pid of `t`. -/
structure Delivered (msg maxsize : UInt32) (t : Up.Task n) (s s' : State n) : Prop where
  sends : ∃ cb block, s.inside t = some (.send s.sys.current cb block) ∧
    s'.mem = s.mem.write msg.toNat
      (s.mem.read block.sbuf.toNat (min maxsize.toNat block.sbytes.toNat)) ∧
    (s'.msglen s.sys.current).toNat = min maxsize.toNat block.sbytes.toNat
  awaits : s'.sys.state t = waiting RETURN false ∧ s'.sys.msgQueueTask t = some s.sys.current
  pid : s.HasPid t
  value : s'.value s.sys.current = (s.tables.rttask2pid (s.addr t)).toInt
  told : s'.known t = some (s.tables.rttask2pid (s.addr t))

/-- A receive has returned without a message, and has changed nothing but its caller's place. -/
def FindsNothing (s s' : State n) : Prop := ∃ v, v ≤ 0 ∧ s' = s.leave v

/-- What the receives do behind that of the scheduler. -/
theorem received_none (h : s.Placed) (inside : s.inside s.sys.current = some call)
    (receives : call.receives = true) (idle : s.sys.stack s.sys.current = [])
    (nothing : s.inHand s.sys.current = none) :
    s.received msg maxsize nobody unknown = s.leave nobody ∨
      s.received msg maxsize nobody unknown = s.leave unknown := by
  unfold received pointer
  cases value : s.sys.retval s.sys.current with
  | int v => exact .inl (if_pos rfl)
  | msgErr =>
      refine .inr ((if_neg (show MSG_ERR ≠ 0 by decide)).trans (if_pos ?_))
      exact h.tables
  | task o =>
      cases o with
      | none => exact .inl (if_pos rfl)
      | some t =>
          have holds := inHand_back inside receives idle value
          rw [nothing] at holds
          cases holds

/-- A receive that returns the message of `t`. -/
theorem received_some (value : s.sys.retval s.sys.current = .task (some t)) (pid : s.HasPid t)
    (out : s.sys.out s.sys.current = cb) (filled : s.msgcb cb = block) :
    s.received msg maxsize nobody unknown = State.leave (s.tables.rttask2pid (s.addr t)).toInt
      { s with
        mem := s.mem.write msg.toNat
          (s.mem.read block.sbuf.toNat (min maxsize.toNat block.sbytes.toNat))
        msglen := update s.msglen s.sys.current
          (if maxsize ≤ block.sbytes then maxsize else block.sbytes)
        known := update s.known t (some (s.tables.rttask2pid (s.addr t))) } := by
  have pointer : s.pointer = s.addr t := by rw [State.pointer, value]
  have told (p : Pid) : s.tell p = update s.known t (some p) := by rw [State.tell, value]
  have task : s.addr t ≠ 0 := fun zero => pid.1 (by rw [zero]; rfl)
  unfold received
  dsimp only
  rw [pointer, if_neg task, if_neg pid.1, out, filled, told, copy_eq, clip_toNat]

theorem Placed.deliver (h : s.Placed) (phased : System.Phased True s.sys)
    (running : s.sys.state s.sys.current = READY) (inside : s.inside s.sys.current = some call)
    (receives : call.receives = true) (idle : s.sys.stack s.sys.current = [])
    (holds : s.inHand s.sys.current = some t) (pid : s.HasPid t) :
    Delivered msg maxsize t s (s.received msg maxsize nobody unknown) ∧
      (s.received msg maxsize nobody unknown).Placed ∧
      Keeps s (s.received msg maxsize nobody unknown) := by
  have held := h.held s.sys.current t holds
  obtain ⟨cb, block, call', carried⟩ := held.sends
  have value : s.sys.retval s.sys.current = .task (some t) := by
    simp only [inHand, inside, Option.any_some, receives, if_true, idle] at holds
    split at holds
    next o value => rw [value, holds]
    next => cases holds
  have out : s.sys.out s.sys.current = cb := by
    rw [← carried, State.carried, idle]
    rfl
  obtain ⟨filled, command, -⟩ := (h.tasks t).sends _ cb block call'
  obtain ⟨_, _, _, called, -, stack, partner, msg⟩ :=
    (h.tasks t).returning phased (by rw [held.waits]; rfl)
  cases call'.symm.trans called
  have other : t ≠ s.sys.current := by
    rintro rfl
    exact absurd (running.symm.trans held.waits) (by decide)
  rw [received_some value pid out filled]
  refine ⟨⟨⟨cb, block, call', rfl, ?_⟩, ⟨held.waits, partner⟩, pid, update_self _ _ _,
    update_self _ _ _⟩, ?_⟩
  · exact (congrArg UInt32.toNat (update_self _ _ _)).trans clip_toNat
  · have back : update s.inside s.sys.current none s.sys.current = none := update_self _ _ _
    have still : update s.inside s.sys.current none t = some (.send s.sys.current cb block) :=
      (update_of_ne other _ _).trans call'
    have told : (update s.known t (some (s.tables.rttask2pid (s.addr t))) t).isSome = true := by
      rw [update_self]
      rfl
    refine h.of_partners s.sys.current t running rfl (fun u hc ht => ?_)
      (fun u _ _ _ _ _ _ => rfl) ?_ ?_ (fun u holds => ?_) (fun u holds => ?_)
      (fun r hr _ holds => ?_) (fun ret => ?_) (fun _ => .inl told) (fun u holds' => ?_)
      (fun u holds => ?_) fun hu => ?_
    · exact ⟨update_of_ne hc _ _, update_of_ne ht _ _, rfl, rfl, rfl, rfl, rfl, rfl, rfl, rfl⟩
    · exact .of_back back idle running ((h.tasks s.sys.current).attends idle)
    · exact .of_sender still stack ⟨filled, command⟩ msg (fun rpc => no_bit held.waits rpc rfl)
        ((congrArg TaskState.receive held.waits).trans rfl)
        ((h.tasks t).attends_of_ne (by simp [stack]))
    · cases (inHand_idle back).symm.trans holds
    · cases holds.symm.trans (inHand_send still)
    · obtain ⟨_, _, called, -⟩ := (h.held r t holds).sends
      cases call'.symm.trans called
      exact hr rfl
    · exact no_bit running ret rfl
    · cases holds.symm.trans holds'
      exact .inr told
    · cases (inHand_send call').symm.trans holds
    · obtain ⟨-, -, -, -, state, -⟩ := hu
      exact absurd (held.waits.symm.trans state) (by decide)

/-! ## Starting -/

/-- The current task starts another, which is in no call. -/
theorem Placed.started (h : s.Placed) (running : s.sys.state s.sys.current = READY)
    (outside : s.inside s.sys.current = none) (outside' : s.inside t = none)
    (others : ∀ u, u ≠ s.sys.current → u ≠ t → Same s { s with sys := sys } u)
    (stack : sys.stack s.sys.current = s.sys.stack s.sys.current)
    (state : sys.state s.sys.current = READY)
    (attends : sys.retQueueTask s.sys.current = s.sys.retQueueTask s.sys.current)
    (stack' : sys.stack t = []) (ret : (sys.state t).ret = false) (rpc : (sys.state t).rpc = false)
    (receive : (sys.state t).receive = false) (attends' : sys.retQueueTask t = false) :
    State.Placed { s with sys := sys } ∧ Keeps s { s with sys := sys } := by
  have nothing {s₁ : State n} {r u : Up.Task n} (none : s₁.inside r = none) : s₁.inHand r ≠ some u := by
    rw [inHand_idle none]
    exact nofun
  have idle : s.sys.stack s.sys.current = [] := by
    have frames := (h.tasks s.sys.current).frames
    rwa [outside] at frames
  refine h.of_partners s.sys.current t running rfl others (fun u _ _ _ _ _ _ => rfl) ?_ ?_
    (fun u holds => absurd holds (nothing outside)) (fun u holds => absurd holds (nothing outside'))
    (fun r _ _ holds => ?_) (fun ret => ?_) (fun ret' => ?_)
    (fun u holds => absurd holds (nothing outside)) (fun u holds => absurd holds (nothing outside'))
    fun ⟨_, _, _, call, _⟩ => ?_
  · exact .of_back outside (stack.trans idle) state
      (attends.trans ((h.tasks s.sys.current).attends idle))
  · exact .of_outside outside' stack' rpc receive attends'
  · obtain ⟨_, _, call, -⟩ := (h.held r t holds).sends
    cases outside'.symm.trans call
  · exact no_bit state ret rfl
  · exact absurd (ret.symm.trans ret') Bool.noConfusion
  · cases outside'.symm.trans call

/-- The current task returns from a service of the scheduler that has done nothing. -/
theorem Placed.quiet (h : s.Placed) (running : s.sys.state s.sys.current = READY)
    (outside : s.inside s.sys.current = none)
    (others : ∀ u, u ≠ s.sys.current → Same s { s with sys := sys } u)
    (stack : sys.stack s.sys.current = s.sys.stack s.sys.current)
    (state : sys.state s.sys.current = READY)
    (attends : sys.retQueueTask s.sys.current = s.sys.retQueueTask s.sys.current) :
    State.Placed { s with sys := sys } ∧ Keeps s { s with sys := sys } := by
  have idle : s.sys.stack s.sys.current = [] := by
    have frames := (h.tasks s.sys.current).frames
    rwa [outside] at frames
  refine h.of_one s.sys.current running rfl others (fun u _ _ _ _ _ => rfl) ?_ (fun u holds => ?_)
    (fun ret => ?_) fun u holds => ?_
  · exact .of_back outside (stack.trans idle) state
      (attends.trans ((h.tasks s.sys.current).attends idle))
  · cases holds.symm.trans (inHand_idle outside)
  · exact no_bit state ret rfl
  · cases (inHand_idle outside).symm.trans holds

/-- A task is created or started. -/
theorem Placed.start (h : s.Placed) (messaging : System.Messaging s.sys)
    (outside : s.inside s.sys.current = none) (starts : s.sys.starts op = true)
    (admits : s.sys.admits op = true) (moves : System.TaskCall s.sys op sys) :
    State.Placed { s with sys := sys } ∧ Keeps s { s with sys := sys } := by
  have running : s.sys.state s.sys.current = READY := messaging.ok.running
  have away {t : Up.Task n} (waits : s.sys.state t ≠ READY) (idle : s.sys.stack t = []) :
      s.inside t = none := by
    by_contra call
    exact waits ((h.tasks t).ready call idle)
  have value (u : Up.Task n) (hu : u ≠ s.sys.current) (v : Ret n) :
      update s.sys.retval s.sys.current v u = s.sys.retval u := update_of_ne hu _ _
  cases moves with
  | refuse =>
      exact h.quiet running outside
        (fun u hu => ⟨rfl, rfl, rfl, rfl, rfl, rfl, rfl, rfl, value u hu _, rfl⟩) rfl running rfl
  | resumeLater =>
      exact h.quiet running outside
        (fun u hu => ⟨rfl, rfl, rfl, rfl, rfl, rfl, rfl, rfl, value u hu _, rfl⟩) rfl running rfl
  | @init t prio memory free =>
      have real : t ≠ rtLinuxTask := by simpa [System.admits] using admits
      have dead : s.sys.state t = DEAD := messaging.ok.lists.dead t real free
      have other : s.sys.current ≠ t := by
        intro e
        rw [← e, running] at dead
        exact absurd dead (by decide)
      have phase := messaging.phased t
      rw [show s.sys.disp.state t = _ from dead] at phase
      have fresh : update s.sys.disp.state t (SUSPENDED.set READY) t = SUSPENDED.set READY :=
        update_self _ _ _
      refine h.started running outside (away (by rw [dead]; decide) phase.of_dead)
        (fun u hc ht => ?_) (update_of_ne other _ _) ((update_of_ne other _ _).trans running)
        (update_of_ne other _ _) (update_self _ _ _) (congrArg TaskState.ret fresh)
        (congrArg TaskState.rpc fresh) (congrArg TaskState.receive fresh) (update_self _ _ _)
      exact ⟨rfl, rfl, update_of_ne ht _ _, update_of_ne ht _ _, update_of_ne ht _ _,
        update_of_ne ht _ _, update_of_ne ht _ _, update_of_ne ht _ _, value u hc _, rfl⟩
  | @resume t R magic depth =>
      have waits : s.sys.state t = SUSPENDED.set READY := by
        simpa [System.starts] using starts
      have other : s.sys.current ≠ t := by
        intro e
        rw [← e, running] at waits
        exact absurd waits (by decide)
      obtain ⟨idle, -, -⟩ := (messaging.phased t).of_fresh waits
      have ready : update s.sys.disp.state t ((s.sys.disp.state t).clear SUSPENDED) t = READY := by
        rw [update_self, show s.sys.disp.state t = _ from waits]
        rfl
      have inside := away (by rw [waits]; decide) idle
      have attends := (h.tasks t).attends idle
      refine h.started running outside inside (fun u hc ht => ?_) rfl
        ((update_of_ne other _ _).trans running) rfl idle (congrArg TaskState.ret ready)
        (congrArg TaskState.rpc ready) (congrArg TaskState.receive ready) attends
      exact ⟨rfl, rfl, rfl, update_of_ne ht _ _, rfl, rfl, rfl, rfl, value u hc _, rfl⟩
  | suspendLater | suspend | changeBase | changePrio | deleteLater | delete => cases starts

end State

end Rtai.Lxrt.SyncMessages
