import Rtai.Up.Messaging
import Mathlib.Data.Fintype.Card

/-!
# Timed remote procedure calls

`rpcUntilBlocks` is `rt_rpc_until` up to its `rt_schedule`, when it gets there.
`TimesOut` says what the time of the call is good for: the blocked caller is on
the timed list with it, a wake-up releases the caller from that time on and not
before, and a caller that goes on without an answer returns `NULL` and leaves
the `owndres` of the callee as if there had been no call.

`timed_call` says when this is so.  A call that queues sets `resume_time` but
owes the callee an `RPCINC` that only `rt_return` takes back; one that is
delivered at once owes nothing but leaves `resume_time` as it was.

A wake-up is a loop over the timed list, and `Awake` collects what makes it end
(`wakeUpTimedTasks_total`): the lists are right and Linux is the least urgent
task.
-/

namespace Rtai.Up

open Function Rtai.Lib

variable {n : Nat}

/-! ## Wake-ups -/

namespace Dispatcher

/-- Wake-ups come to an end. -/
structure Awake (d : Dispatcher n) : Prop where
  linked : d.Linked True none
  urgent : ∀ t, t ≠ rtLinuxTask → d.priority t < d.priority rtLinuxTask
  policy : 0 ≤ d.policy rtLinuxTask
  time : d.timeH < RT_TIME_END

variable {d : Dispatcher n} {t : Task n} {l l₁ l₂ : List (Task n)}

theorem length_lt_fuel {L : Links (Task n)} (r : Ring L rtLinuxTask (l₁ ++ l₂)) :
    l₂.length < fuel n := by
  have bound := r.nodup.length_le_card
  simp only [List.length_cons, List.length_append, Fintype.card_fin] at bound
  simp only [fuel]
  omega

theorem enqReadyTask_total (r : Ring d.ready rtLinuxTask l)
    (urgent : d.priority t < d.priority rtLinuxTask) : ∃ d', d.enqReadyTask t = some d' := by
  have position : ∃ x, d.readyPosition (d.priority t) = some x := by
    unfold readyPosition
    rw [r.next_head]
    dsimp only
    split
    next => exact ⟨_, rfl⟩
    next behind =>
      cases l with
      | nil => exact absurd urgent behind
      | cons x l =>
          rw [List.headD_cons, (show Ring d.ready rtLinuxTask ([] ++ x :: l) from r).next_headD]
          have r' : Ring d.ready rtLinuxTask ([x] ++ l) := r
          exact r'.seek_total (by simp [urgent]) (length_lt_fuel r')
  obtain ⟨x, e⟩ := position
  exact ⟨_, by rw [enqReadyTask, e]; rfl⟩

theorem enqReadyEdfTask_total (r : Ring d.ready rtLinuxTask l) (policy : 0 ≤ d.policy rtLinuxTask) :
    ∃ d', d.enqReadyEdfTask t = some d' := by
  have r' : Ring d.ready rtLinuxTask ([] ++ l) := r
  obtain ⟨x, e⟩ : ∃ x, seek d.ready.next (fun u => !(d.policy u < 0 && d.period u ≤ d.period t))
      (fuel n) (l.headD rtLinuxTask) = some x :=
    r'.seek_total (by simp [Int.not_lt.mpr policy]) (length_lt_fuel r')
  rw [← r.next_head] at e
  exact ⟨_, by rw [enqReadyEdfTask, e]; rfl⟩

theorem wakeUpTask_total (r : Ring d.ready rtLinuxTask l)
    (urgent : d.priority t < d.priority rtLinuxTask) (policy : 0 ≤ d.policy rtLinuxTask) :
    ∃ d', d.wakeUpTask t = some d' := by
  unfold wakeUpTask
  dsimp only
  split
  next =>
    split
    next => exact enqReadyEdfTask_total (d := d.setState t _) r policy
    next => exact enqReadyTask_total (d := d.setState t _) r urgent
  next => exact ⟨_, rfl⟩

/-- The loop ends when it has met the tasks of the list, at the latest. -/
theorem wakeUpLoop_total {k : Nat} (r : Ring d.timed rtLinuxTask (l₁ ++ l₂))
    (h : ReadyIs d.ready fun u => d.state u = READY) (waiting : ∀ u ∈ l₂, d.state u ≠ READY)
    (urgent : ∀ t, t ≠ rtLinuxTask → d.priority t < d.priority rtLinuxTask)
    (policy : 0 ≤ d.policy rtLinuxTask) (late : ¬d.resumeTime rtLinuxTask ≤ d.timeH)
    (hk : l₂.length < k) : ∃ p, wakeUpLoop k (l₂.headD rtLinuxTask) d = some p := by
  induction k generalizing l₁ l₂ d with
  | zero => exact absurd hk (Nat.not_lt_zero _)
  | succ k ih =>
      cases l₂ with
      | nil => exact ⟨_, if_neg late⟩
      | cons x l₂ =>
          by_cases due : d.resumeTime x ≤ d.timeH
          · obtain ⟨ready, ring, -⟩ := id h
            have hx : x ≠ rtLinuxTask := by
              rintro rfl
              exact late due
            obtain ⟨d', woken⟩ := wakeUpTask_total ring (urgent x hx) policy
            obtain ⟨L, rfl, hL⟩ := wakeUpTask_spec h (waiting x List.mem_cons_self) d' woken
            have nodup := (List.nodup_append.mp (List.nodup_cons.mp r.nodup).2).2.1
            have hx₂ : x ∉ l₂ := (List.nodup_cons.mp nodup).1
            have r' : Ring d.timed rtLinuxTask ((l₁ ++ [x]) ++ l₂) := by simpa using r
            have waiting' : ∀ u ∈ l₂,
                update d.state x ((d.state x).clear TIMED_OUT) u ≠ READY := by
              intro u hu
              have other : u ≠ x := by
                rintro rfl
                exact hx₂ hu
              rw [update_of_ne other]
              exact waiting u (List.mem_cons_of_mem x hu)
            obtain ⟨p, e⟩ := ih (d := { d with
              ready := L
              state := update d.state x ((d.state x).clear TIMED_OUT) }) r' hL waiting' urgent
              policy late (Nat.lt_of_succ_lt_succ hk)
            refine ⟨p, ?_⟩
            rw [List.headD_cons, wakeUpLoop, if_pos due, woken]
            dsimp only [Option.bind_eq_bind, Option.bind_some]
            rw [r.next_headD, e]
          · exact ⟨_, if_neg due⟩

/-- A wake-up releases the tasks whose time has come, and no others. -/
theorem wakeUpTimedTasks_total (h : d.Awake) : ∃ d', d.wakeUpTimedTasks = some d' ∧
    ∀ t, (d.state t).delayed = true →
      d'.state t = if d.resumeTime t ≤ d.timeH then (d.state t).clear TIMED_OUT else d.state t := by
  obtain ⟨l, r, mem, sorted⟩ := h.linked.timed
  have waiting : ∀ u ∈ l, d.state u ≠ READY := by
    intro u hu hr
    have delayed := ((mem u).mp hu).1
    rw [hr] at delayed
    exact Bool.false_ne_true delayed
  have late : ¬d.resumeTime rtLinuxTask ≤ d.timeH := by
    rw [h.linked.linuxTime]
    exact Int64.not_le.mpr h.time
  have r' : Ring d.timed rtLinuxTask ([] ++ l) := r
  obtain ⟨⟨d₁, x⟩, e⟩ := wakeUpLoop_total r' h.linked.ready waiting h.urgent h.policy late
    (length_lt_fuel r')
  obtain ⟨m₁, m₂, L, rfl, rfl, due, rfl, -⟩ :=
    wakeUpLoop_spec r' h.linked.ready waiting late _ e
  have stopped := wakeUpLoop_late _ e
  rw [← r.next_head] at e
  refine ⟨_, by rw [wakeUpTimedTasks, e]; rfl, fun t ht => ?_⟩
  have member : t ∈ m₁ ++ m₂ := (mem t).mpr ⟨ht, by simp⟩
  dsimp only
  by_cases first : t ∈ m₁
  · rw [if_pos first, if_pos (due t first)]
  · have behind : t ∈ m₂ := (List.mem_append.mp member).resolve_left first
    have notDue : ¬d.resumeTime t ≤ d.timeH := by
      cases m₂ with
      | nil => cases behind
      | cons y m₂ =>
          rcases List.mem_cons.mp behind with rfl | tail
          · exact stopped
          · have after := (List.pairwise_append.mp (sorted trivial)).2.1
            have order : d.resumeTime y ≤ d.resumeTime t := (List.pairwise_cons.mp after).1 t tail
            exact fun h => stopped (Int64.le_trans order h)
    rw [if_neg first, if_neg notDue]

end Dispatcher

/-! ## The call -/

namespace System

/-- `rt_rpc_until` does not return at once. -/
def rpcUntilWaits (task : Task n) (time : RTIME) (s : System n) : Bool :=
  s.disp.magic task && (s.listening task || !(time ≤ s.disp.timeH))

/-- `rt_rpc_until` up to its `rt_schedule`. -/
def rpcUntilBlocks (task : Task n) (toDo : UInt32) (time : RTIME) (s : System n) :
    Option (System n) :=
  if s.rpcUntilWaits task time then do
    let s ← (if s.listening task then
        (s.directRpc task toDo).map (blockCurrent (RETURN.set DELAYED))
      else ((s.setResumeTime time).queueRpc task toDo).map (blockCurrent (RPC.set DELAYED)))
    let s ← (s.setMsgQueueTask s.current (some task)).enqTimedCurrent
    return s.push (.rtRpcUntil task toDo)
  else none

variable {s s₁ : System n} {task : Task n} {toDo : UInt32} {time : RTIME} {ordered : Prop}

/-- What is left of the call is its `rt_schedule`. -/
theorem rtRpcUntil_blocks (c : Clock) (waits : s.rpcUntilWaits task time = true) :
    s.rtRpcUntil task toDo time c =
      (s.rpcUntilBlocks task toDo time).bind fun s₁ => s₁.rtSchedule c := by
  obtain ⟨magic, goes⟩ : s.disp.magic task = true ∧
      (s.listening task = true ∨ ¬time ≤ s.disp.timeH) := by
    simpa [rpcUntilWaits] using waits
  rw [rpcUntilBlocks, if_pos waits, rtRpcUntil, if_neg (by simp [magic])]
  by_cases listening : s.listening task = true
  · rw [if_pos listening, if_pos listening]
    simp [Option.bind_map, Option.bind_assoc]
    rfl
  · have early : ¬time ≤ (s.setResumeTime time).disp.timeH := goes.resolve_left listening
    rw [if_neg listening, if_neg listening, if_neg early]
    simp [Option.bind_map, Option.bind_assoc]
    rfl

/-- What the call has done to its caller and to the callee's `owndres` when it blocks. -/
structure RpcBlocked (task : Task n) (toDo : UInt32) (time : RTIME) (s s₁ : System n) : Prop where
  linked : Linked False none s₁
  current : s₁.current = s.current
  state : s₁.state s.current = waiting (if s.listening task then RETURN else RPC) true
  resumeTime : s₁.disp.resumeTime s.current =
    if s.listening task then s.disp.resumeTime s.current else time
  stack : s₁.stack s.current = .rtRpcUntil task toDo :: s.stack s.current
  partner : s₁.msgQueueTask s.current = some task
  owndres : s₁.owndres task =
    if s.listening task then s.owndres task else s.owndres task + RPCINC

/-- The statements from the change of the caller's state on. -/
theorem RpcBlocked.of_wait {mask : TaskState} (h : Ok False s₁) (hc : s₁.current ≠ rtLinuxTask)
    (current : s₁.current = s.current) (hm : READY.set mask ≠ READY) (hd : mask.delayed = true)
    (state : READY.set mask = waiting (if s.listening task then RETURN else RPC) true)
    (resumeTime : s₁.disp.resumeTime s.current =
      if s.listening task then s.disp.resumeTime s.current else time)
    (stack : s₁.stack = s.stack)
    (owndres : s₁.owndres task =
      if s.listening task then s.owndres task else s.owndres task + RPCINC) :
    Ensures (do
      let s' ← ((s₁.blockCurrent mask).setMsgQueueTask s₁.current (some task)).enqTimedCurrent
      return s'.push (.rtRpcUntil task toDo)) (RpcBlocked task toDo time s) := by
  obtain ⟨h₁, delayed⟩ := h.blockTimed mask hc hm hd
  have h₂ : Linked False (some s₁.current)
      ((s₁.blockCurrent mask).setMsgQueueTask s₁.current (some task)) := h₁.setMsgQueueTask
  refine .bind (Linked.enqTimedCurrent
    (s := (s₁.blockCurrent mask).setMsgQueueTask s₁.current (some task)) h₂ delayed hc) ?_
  rintro _ ⟨h₃, T, rfl⟩
  refine .some ⟨h₃.push fun e => absurd e hc, current, ?_, resumeTime, ?_, ?_, owndres⟩
  · rw [← state, ← current]
    show update s₁.disp.state s₁.current ((s₁.disp.state s₁.current).set mask) s₁.current = _
    rw [update_self, show s₁.disp.state s₁.current = READY from h.running]
  · rw [← current, ← stack]
    exact update_self _ _ _
  · rw [← current]
    exact update_self _ _ _

theorem rpcUntilBlocks_spec (h : Ok False s) (hc : s.current ≠ rtLinuxTask) :
    Ensures (s.rpcUntilBlocks task toDo time) (RpcBlocked task toDo time s) := by
  refine .ite (fun waits => ?_) fun _ => .none
  have magic : s.disp.magic task = true := (Bool.and_eq_true_iff.mp waits).1
  by_cases listening : s.listening task = true
  · rw [if_pos listening]
    refine .bind (P := fun s' => ∃ s₁, Ok False s₁ ∧ s₁.current = s.current ∧
      s₁.disp.resumeTime = s.disp.resumeTime ∧ s₁.stack = s.stack ∧ s₁.owndres = s.owndres ∧
      s' = s₁.blockCurrent (RETURN.set DELAYED)) (.map ?_) ?_
    · refine (h.directRpc listening).mono ?_
      rintro _ ⟨h₁, R, T, rfl⟩
      exact ⟨_, h₁, rfl, rfl, rfl, rfl, rfl⟩
    · rintro _ ⟨s₁, h₁, current, resumeTime, stack, owndres, rfl⟩
      exact .of_wait h₁ (current ▸ hc) current (by decide) rfl (by rw [if_pos listening]; rfl)
        (by rw [if_pos listening, resumeTime]) stack (by rw [if_pos listening, owndres])
  · rw [if_neg listening]
    have h₁ : Ok False (s.setResumeTime time) := ⟨h.setResumeTime hc h.running, h.running⟩
    refine .bind (P := fun s' => ∃ s₁, Ok False s₁ ∧ s₁.current = s.current ∧
      s₁.disp.resumeTime s.current = time ∧ s₁.stack = s.stack ∧
      s₁.owndres task = s.owndres task + RPCINC ∧
      s' = s₁.blockCurrent (RPC.set DELAYED)) (.map ?_) ?_
    · refine (h₁.queueRpc (h.lists.realTime magic)).mono ?_
      rintro _ ⟨h₂, P, R, Q, rfl, -, -⟩
      exact ⟨_, h₂, rfl, update_self _ _ _, rfl, update_self _ _ _, rfl⟩
    · rintro _ ⟨s₁, h₁, current, resumeTime, stack, owndres, rfl⟩
      exact .of_wait h₁ (current ▸ hc) current (by decide) rfl (by rw [if_neg listening]; rfl)
        (by rw [if_neg listening, resumeTime]) stack (by rw [if_neg listening, owndres])

/-- What the time of the call is good for, with the call blocked in `s₁`. -/
structure TimesOut (task : Task n) (time : RTIME) (s s₁ : System n) : Prop where
  listed : ∃ l, Ring s₁.disp.timed rtLinuxTask l ∧ s.current ∈ l
  resumeTime : s₁.disp.resumeTime s.current = time
  /-- While the caller waits as the call left it, a wake-up releases it if the time has come. -/
  wakes : ∀ d : Dispatcher n, d.Awake → d.state s.current = s₁.state s.current →
    d.resumeTime s.current = s₁.disp.resumeTime s.current →
    ∃ d', d.wakeUpTimedTasks = some d' ∧
      d'.state s.current = if time ≤ d.timeH then READY else d.state s.current
  /-- A caller that goes on without an answer returns `NULL`, and what the call added to the
  callee's `owndres` is taken back. -/
  returns : ∀ (s₂ : System n) (c : Clock), s₂.current = s.current → s₂.state s.current = READY →
    s₂.stack s.current = s₁.stack s.current →
    s₂.msgQueueTask s.current = s₁.msgQueueTask s.current →
    ∃ s₃, step (.resume c) s₂ = some s₃ ∧ s₃.retval s.current = .task none ∧
      s₃.owndres task - s₂.owndres task = s.owndres task - s₁.owndres task

/-- The caller's code behind `rt_schedule`. -/
theorem RpcBlocked.resumes {s₂ : System n} (h : RpcBlocked task toDo time s s₁) (c : Clock)
    (current : s₂.current = s.current) (stack : s₂.stack s.current = s₁.stack s.current) :
    step (.resume c) s₂ = some (s₂.pop.rtRpcUntilRest task) := by
  have top : s₂.stack s₂.current = .rtRpcUntil task toDo :: s.stack s.current := by
    rw [current, stack, h.stack]
  rw [step, top]
  rfl

/-- A timed call times out as it should if and only if the callee takes it at once and the
caller's `resume_time` is the time already. -/
theorem timed_call (ok : Ok False s) (real : s.current ≠ rtLinuxTask)
    (blocks : s.rpcUntilBlocks task toDo time = some s₁) :
    TimesOut task time s s₁ ↔
      s.listening task = true ∧ s.disp.resumeTime s.current = time := by
  have blocked : RpcBlocked task toDo time s s₁ := rpcUntilBlocks_spec ok real s₁ blocks
  constructor
  · intro h
    by_cases listening : s.listening task = true
    · have same := blocked.resumeTime
      rw [if_pos listening, h.resumeTime] at same
      exact ⟨listening, same.symm⟩
    · -- the caller goes on, and `owndres` is as it was
      let s₂ : System n := { s₁ with disp := s₁.disp.setState s.current READY }
      obtain ⟨s₃, goes, -, back⟩ := h.returns s₂ {} blocked.current (update_self _ _ _) rfl rfl
      have code : step (.resume {}) s₂ = some (s₂.pop.rtRpcUntilRest task) :=
        blocked.resumes {} blocked.current rfl
      rw [code, rtRpcUntilRest_eq] at goes
      obtain rfl := Option.some.inj goes
      have nothing : s₁.owndres task - s₁.owndres task = s.owndres task - s₁.owndres task := back
      rw [blocked.owndres, if_neg listening] at nothing
      simp only [RPCINC] at nothing
      bv_omega
  · rintro ⟨listening, already⟩
    have resumeTime : s₁.disp.resumeTime s.current = time := by
      rw [blocked.resumeTime, if_pos listening, already]
    have state : s₁.state s.current = waiting RETURN true := by
      rw [blocked.state, if_pos listening]
    have other : task ≠ s.current := by
      rintro rfl
      have receive := listening_receive listening
      rw [ok.running] at receive
      exact Bool.false_ne_true receive
    refine ⟨?_, resumeTime, ?_, ?_⟩
    · obtain ⟨l, ring, mem, -⟩ := blocked.linked.lists.timed
      exact ⟨l, ring, (mem _).mpr ⟨(congrArg (·.delayed) state).trans rfl, by simp⟩⟩
    · intro d awake waits sameTime
      obtain ⟨d', woken, released⟩ := d.wakeUpTimedTasks_total awake
      have delayed : (d.state s.current).delayed = true := by
        rw [waits, state]
        rfl
      refine ⟨d', woken, ?_⟩
      rw [released _ delayed, sameTime, resumeTime]
      refine if_congr Iff.rfl ?_ rfl
      rw [waits, state]
      rfl
    · intro s₂ c current _ stack partner
      have unanswered : ¬s₂.pop.exchanged := by
        show ¬s₂.msgQueueTask s₂.current = some s₂.current
        rw [current, partner, blocked.partner]
        exact fun e => other (Option.some.inj e)
      refine ⟨_, blocked.resumes c current stack, ?_, ?_⟩
      · rw [rtRpcUntilRest_eq, ← current]
        show update s₂.retval s₂.current (.task (if s₂.pop.exchanged then some task else none))
          s₂.current = .task none
        rw [update_self, if_neg unanswered]
      · rw [rtRpcUntilRest_eq, blocked.owndres, if_pos listening, BitVec.sub_self]
        exact BitVec.sub_self _

/-- The lists are right in runs of the message services. -/
theorem ok_of_messages {timer : Timer} {tr : List (Record (System n) (Event n))}
    (r : Run step (fun s e => s.ofMessages e = true) (boot n timer) tr s) : Ok False s :=
  r.invariant (boot_ok n timer False) fun {_ s' _} h guard stepped =>
    h.step (ofMessages_safe guard) s' stepped

/-- The caller's `resume_time` is left from a timed send, and the callee waits for it. -/
theorem timed_call_again : ∃ tr s s₁,
    Run step (fun s e => s.ofMessages e = true) (boot 2 {}) tr s ∧
    s.rpcUntilBlocks 2 7 100 = some s₁ ∧ TimesOut 2 100 s s₁ := by
  let c : Clock := {}
  obtain ⟨tr, s, r, test⟩ := Run.of_execute step (fun s e => s.ofMessages e = true) (boot 2 {})
    [.call (.taskInit 1 6 true) c, .call (.taskInit 2 5 true) c, .call (.taskResume 1) c,
      .call (.sendUntil 2 9 100) c, .call (.taskResume 2) c, .call (.receive none) c, .resume c,
      .call (.receive none) c, .resume c]
    (fun s => s.current = 1 ∧ s.listening 2 ∧ s.disp.resumeTime 1 = 100 ∧
      (s.rpcUntilBlocks 2 7 100).isSome)
    (by decide +kernel)
  simp only [decide_eq_true_eq] at test
  obtain ⟨current, listening, already, blocks⟩ := test
  obtain ⟨s₁, blocks⟩ := Option.isSome_iff_exists.mp blocks
  have real : s.current ≠ rtLinuxTask := by
    rw [current]
    decide
  exact ⟨tr, s, s₁, r, blocks,
    (timed_call (ok_of_messages r) real blocks).mpr ⟨listening, current.symm ▸ already⟩⟩

/-- The caller never waited for a time, and goes on the timed list with `RT_TIME_END`. -/
theorem timed_call_untimed :
    ¬∀ (n : Nat) (timer : Timer) (tr : List (Record (System n) (Event n))) (s s₁ : System n)
      (task : Task n) (toDo : UInt32) (time : RTIME),
      Run step (fun s e => s.ofMessages e = true) (boot n timer) tr s →
      s.current ≠ rtLinuxTask → s.rpcUntilBlocks task toDo time = some s₁ →
      TimesOut task time s s₁ := by
  intro h
  let c : Clock := {}
  obtain ⟨tr, s, r, test⟩ := Run.of_execute step (fun s e => s.ofMessages e = true) (boot 2 {})
    [.call (.taskInit 1 6 true) c, .call (.taskInit 2 5 true) c, .call (.taskResume 1) c,
      .call (.taskResume 2) c, .call (.receive none) c]
    (fun s => s.current = 1 ∧
      (s.rpcUntilBlocks 2 7 100).any fun s₁ => s₁.disp.resumeTime 1 = RT_TIME_END)
    (by decide +kernel)
  simp only [decide_eq_true_eq] at test
  obtain ⟨current, blocks⟩ := test
  obtain ⟨s₁, blocks, late⟩ := (Option.any_eq_true _ _).mp blocks
  have real : s.current ≠ rtLinuxTask := by
    rw [current]
    decide
  have time := (h 2 {} tr s s₁ 2 7 100 r real blocks).resumeTime
  rw [current, of_decide_eq_true late] at time
  exact absurd time (by decide)

end System

end Rtai.Up
