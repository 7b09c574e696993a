import Rtai.Tbx.Places
import Rtai.Lib.Run
import Mathlib.Algebra.BigOperators.Group.List.Basic

/-!
# An interrupted receive

`rt_task_suspend` and then `rt_task_resume` end the wait in `tbx_wait_msg`, as it is a suspension
that `suspdepth` does not count.  `tbx_wait_msg` takes a type byte before it looks at `blocked_on`.

`Pc.late` are the places behind the wait.  A call never comes back from one of them, so that before
it is interrupted it has taken one step, and that one has left the buffer alone.
-/

namespace Rtai.Tbx

open Function Rtai.Lib

/-- The places behind the waits. -/
def Pc.late : Pc → Prop
  | smxWait _ | entered _ | wait _ _ => False
  | _ => True

namespace Mailbox

variable {Task : Type} [DecidableEq Task] {s s₀ s' : Mailbox Task} {t t' : Task} {n msgSize : Nat}
  {e : Event Task} {f : Mailbox Task → Int} {r : Record (Mailbox Task) (Event Task)}
  {tr : List (Record (Mailbox Task) (Event Task))} {x : Smx} {op : Op} {out : Out} {type : UInt8}

/-! ## The places of a call -/

theorem late_setPc {pc : Pc} (late : pc.late) : ((s.setPc t pc).task t).pc.late := by
  rwa [setPc_self]

theorem late_finish : ((s.finish t out).task t).pc.late := late_setPc trivial

/-- Behind its wait a call stays behind it. -/
theorem late_goOn (late : (s.task t).pc.late) (h : s.goOn t = some s') : (s'.task t).pc.late := by
  rw [goOn] at h
  generalize (s.task t).pc = pc at late h
  cases pc with
  | user => cases h
  | smxWait op => exact late.elim
  | entered op => exact late.elim
  | wait op type => exact late.elim
  | put k form msg =>
      obtain ⟨p, -, rfl⟩ := Option.map_eq_some_iff.mp h
      exact late_setPc trivial
  | core msgSize type =>
      simp only [tbxReceiveCore] at h
      split at h
      · split at h <;> cases h <;> exact late_setPc trivial
      · obtain ⟨p, -, h⟩ := Option.bind_eq_some_iff.mp h
        split at h <;> cases h <;> exact late_setPc trivial
  | share msg =>
      cases h
      rw [shareMsg]
      split <;> exact late_setPc trivial
  | signal x out =>
      cases h
      exact late_setPc trivial
  | leave x out =>
      cases h
      rw [leaveSmx]
      split
      · exact late_setPc trivial
      · exact late_finish
  | lock out =>
      cases h
      rw [rtSemWait]
      split
      · rw [enqueueBlocked_pc, modify_self]
        trivial
      · exact late_finish
  | lockWait out =>
      cases h
      exact late_finish

theorem msgPassed_free (free : (s.task t).blockedOn = .nothing) :
    s.msgPassed t n type = s.setPc t (.core n type) := if_pos free

theorem msgPassed_blocked (blocked : (s.task t).blockedOn ≠ .nothing) :
    s.msgPassed t n type = s.setPc t (.leave .rcvsmx { value := n }) := if_neg blocked

/-- `tbx_wait_msg` either waits, and leaves the buffer alone, or comes to its end. -/
theorem tbxWaitMsg_goes : (s.tbxWaitMsg t n).buffer = s.buffer ∧
      (∃ type, ((s.tbxWaitMsg t n).task t).pc = .wait (.receive .plain n) type) ∨
    ((s.tbxWaitMsg t n).task t).pc.late := by
  have passed {v : Mailbox Task} {type : UInt8} : ((v.msgPassed t n type).task t).pc.late := by
    rw [msgPassed]
    split <;> exact late_setPc trivial
  rw [tbxWaitMsg]
  split_ifs
  · exact .inr passed
  · refine .inl ⟨rfl, TYPE_NONE, ?_⟩
    rw [await, modify_self]
  · exact .inr passed

/-! ## The call -/

/-- By how much the steps of a task have changed a number. -/
def changes (t : Task) (f : Mailbox Task → Int) (tr : List (Record (Mailbox Task) (Event Task))) :
    Int :=
  ((tr.filter fun r => r.event.runner = some t).map fun r => f r.post - f r.pre).sum

theorem changes_other (other : r.event.runner ≠ some t) :
    changes t f (tr ++ [r]) = changes t f tr := by
  simp [changes, other]

theorem changes_own (own : r.event.runner = some t) :
    changes t f (tr ++ [r]) = changes t f tr + (f r.post - f r.pre) := by
  simp [changes, own]

def avbs (s : Mailbox Task) : Int := s.buffer.avbs
def frbs (s : Mailbox Task) : Int := s.buffer.frbs
def fbyte (s : Mailbox Task) : Int := s.buffer.fbyte

/-- The task goes on in `tbx_wait_msg`, and nobody has signalled it. -/
def Interrupts (t : Task) (n : Nat) (r : Record (Mailbox Task) (Event Task)) : Prop :=
  r.event = .goOn t ∧ (∃ type, (r.pre.task t).pc = .wait (.receive .plain n) type) ∧
    (r.pre.task t).blockedOn ≠ .nothing

/-- From `s₀`, in which the task is about to look for a message, `tr` leads to the return of its
`rt_tbx_receive`, which has been interrupted. -/
structure InterruptedCall (t : Task) (n : Nat) (s₀ : Mailbox Task)
    (tr : List (Record (Mailbox Task) (Event Task))) (s : Mailbox Task) : Prop where
  run : Run step (fun _ _ => True) s₀ tr s
  begins : (s₀.task t).pc = .entered (.receive .plain n)
  inside : ∀ r ∈ tr, (r.pre.task t).pc ≠ .user
  returns : (s.task t).pc = .user
  interrupted : ∃ r ∈ tr, Interrupts t n r

/-- The call has failed, and its steps leave the mailbox as if it had not been made. -/
structure Undone (t : Task) (n : Nat) (tr : List (Record (Mailbox Task) (Event Task)))
    (s : Mailbox Task) : Prop where
  failed : ∃ out, s.returned = some (t, out) ∧ out.value = n
  fbyte : changes t fbyte tr = 0
  avbs : changes t avbs tr = 0
  frbs : changes t frbs tr = 0
  positive : 0 ≤ s.avbs
  waitingNr : ∀ r ∈ tr, Interrupts t n r → r.post.waitingNr = r.pre.waitingNr - 1
  waitingTask : s.waitingTask ≠ some t

/-- How far the call of the task has come. -/
inductive Phase (t : Task) (n : Nat) (tr : List (Record (Mailbox Task) (Event Task)))
    (s : Mailbox Task) : Prop where
  /-- It has not yet taken the type byte. -/
  | early (pc : (s.task t).pc = .entered (.receive .plain n) ∨
        ∃ type, (s.task t).pc = .wait (.receive .plain n) type)
      (avbs : changes t avbs tr = 0) (frbs : changes t frbs tr = 0)
      (none : ¬∃ r ∈ tr, Interrupts t n r)
  /-- It has taken it, and has not been interrupted. -/
  | passed (late : (s.task t).pc.late) (none : ¬∃ r ∈ tr, Interrupts t n r)
  /-- It has taken it, and has been interrupted. -/
  | spoilt (pc : (s.task t).pc = .leave .rcvsmx { value := n } ∨
        (s.task t).pc = .user ∧ s.returned = some (t, { value := n }))
      (avbs : changes t avbs tr = -1) (frbs : changes t frbs tr = 1)

omit [DecidableEq Task] in
theorem not_interrupts (none : ¬∃ r ∈ tr, Interrupts t n r) (not : ¬Interrupts t n r) :
    ¬∃ r' ∈ tr ++ [r], Interrupts t n r' := by
  rintro ⟨r', mem, interrupts⟩
  rcases List.mem_append.mp mem with mem | mem
  · exact none ⟨r', mem, interrupts⟩
  · rw [List.mem_singleton.mp mem] at interrupts
    exact not interrupts

/-- A step of another. -/
theorem Phase.elsewhere (h : Phase t n tr r.pre) (stepped : step r.event r.pre = some r.post)
    (inside : (r.pre.task t).pc ≠ .user) (other : r.event.runner ≠ some t) :
    Phase t n (tr ++ [r]) r.post := by
  have same := step_pc stepped other
  have not : ¬Interrupts t n r := fun interrupts => other (by rw [interrupts.1]; rfl)
  cases h with
  | early pc avbs frbs none =>
      rw [← same] at pc
      exact .early pc ((changes_other other).trans avbs) ((changes_other other).trans frbs)
        (not_interrupts none not)
  | passed late none =>
      rw [← same] at late
      exact .passed late (not_interrupts none not)
  | spoilt pc avbs frbs =>
      have leaves := pc.resolve_right fun e => inside e.1
      rw [← same] at leaves
      exact .spoilt (.inl leaves) ((changes_other other).trans avbs) ((changes_other other).trans frbs)

/-- A step of the task itself.  `v` is the state before it, with a result that is read no more. -/
theorem Phase.goOn {v : Mailbox Task} (h : Phase t n tr v) (inside : (v.task t).pc ≠ .user)
    (task : s.task = v.task) (buffer : s.buffer = v.buffer) (stepped : s.goOn t = some s') :
    Phase t n (tr ++ [⟨v, .goOn t, s'⟩]) s' := by
  have own {f : Mailbox Task → Int} :
      changes t f (tr ++ [⟨v, .goOn t, s'⟩]) = changes t f tr + (f s' - f v) := changes_own rfl
  have elsewhere (no : ∀ type, (v.task t).pc ≠ .wait (.receive .plain n) type) :
      ¬Interrupts t n ⟨v, .goOn t, s'⟩ := fun interrupts => interrupts.2.1.elim no
  cases h with
  | early pc avbs frbs none =>
      rw [← task] at pc
      rcases pc with pc | ⟨type, pc⟩
      · have not := elsewhere (by rw [← task, pc]; nofun)
        simp only [Mailbox.goOn, pc, Option.some.injEq] at stepped
        subst stepped
        rcases tbxWaitMsg_goes (s := s) with ⟨same, waits⟩ | late
        · rw [buffer] at same
          refine .early (.inr waits) ?_ ?_ (not_interrupts none not)
          · rw [own, avbs, Mailbox.avbs, Mailbox.avbs, same, Int.sub_self, Int.add_zero]
          · rw [own, frbs, Mailbox.frbs, Mailbox.frbs, same, Int.sub_self, Int.add_zero]
        · exact .passed late (not_interrupts none not)
      · simp only [Mailbox.goOn, pc, waited, Option.some.injEq] at stepped
        by_cases signalled : (s.takeType.task t).blockedOn = .nothing
        · rw [msgPassed_free signalled] at stepped
          subst stepped
          refine .passed (late_setPc trivial) (not_interrupts none fun interrupts => ?_)
          rw [takeType_task, task] at signalled
          exact interrupts.2.2 signalled
        · rw [msgPassed_blocked signalled] at stepped
          have taken : s'.buffer = s.takeType.buffer := by
            rw [← stepped]
            rfl
          subst stepped
          refine .spoilt (.inl setPc_self) ?_ ?_
          · rw [own, avbs, Mailbox.avbs, Mailbox.avbs, taken, ← buffer]
            show 0 + (s.buffer.avbs - 1 - s.buffer.avbs) = -1
            omega
          · rw [own, frbs, Mailbox.frbs, Mailbox.frbs, taken, ← buffer]
            show 0 + (s.buffer.frbs + 1 - s.buffer.frbs) = 1
            omega
  | passed late none =>
      have not : ∀ type, (v.task t).pc ≠ .wait (.receive .plain n) type := by
        intro type e
        rw [e] at late
        exact late
      rw [← task] at late
      exact .passed (late_goOn late stepped) (not_interrupts none (elsewhere not))
  | spoilt pc avbs frbs =>
      have leaves := pc.resolve_right fun e => inside e.1
      rw [← task] at leaves
      simp only [Mailbox.goOn, leaves, leaveSmx, Bool.false_eq_true, if_false, Option.some.injEq]
        at stepped
      have same : s'.buffer = v.buffer := by
        rw [← stepped, ← buffer]
        exact tbxSmxSignal_buffer
      subst stepped
      refine .spoilt (.inr ⟨setPc_self, rfl⟩) ?_ ?_
      · rw [own, avbs, Mailbox.avbs, Mailbox.avbs, same, Int.sub_self, Int.add_zero]
      · rw [own, frbs, Mailbox.frbs, Mailbox.frbs, same, Int.sub_self, Int.add_zero]

theorem InterruptedCall.phase (h : InterruptedCall t n s₀ tr s) : Phase t n tr s := by
  refine h.run.history (P := fun tr s => (∀ r ∈ tr, (r.pre.task t).pc ≠ .user) → Phase t n tr s)
    ?_ ?_ h.inside
  · intro _
    refine .early (.inl h.begins) rfl rfl ?_
    rintro ⟨r, mem, -⟩
    cases mem
  · intro tr s s' e phase _ stepped inside
    have now := phase fun r mem => inside r (List.mem_append_left _ mem)
    have here : (s.task t).pc ≠ .user :=
      inside ⟨s, e, s'⟩ (List.mem_append_right _ (List.mem_singleton_self _))
    by_cases own : e.runner = some t
    · cases e with
      | call u c =>
          obtain rfl : u = t := Option.some.inj own
          simp only [step] at stepped
          split at stepped
          next free => exact absurd free.2 here
          next => cases stepped
      | goOn u =>
          obtain rfl : u = t := Option.some.inj own
          simp only [step] at stepped
          split at stepped
          · exact now.goOn (s := { s with returned := none }) here rfl rfl stepped
          · cases stepped
      | suspend u => cases own
      | resume u => cases own
      | timer u => cases own
    · exact now.elsewhere (r := ⟨s, e, s'⟩) stepped here own

/-- An interrupted receive takes a byte out of the buffer, and is never as if it had not been made. -/
theorem interrupted_spoils (h : InterruptedCall t n s₀ tr s) :
    changes t avbs tr = -1 ∧ changes t frbs tr = 1 ∧ s.returned = some (t, { value := n }) ∧
      ¬Undone t n tr s := by
  cases h.phase with
  | early pc avbs frbs none => exact absurd h.interrupted none
  | passed late none => exact absurd h.interrupted none
  | spoilt pc avbs frbs =>
      have returned : s.returned = some (t, { value := n }) := by
        rcases pc with pc | ⟨-, returned⟩
        · rw [h.returns] at pc
          cases pc
        · exact returned
      refine ⟨avbs, frbs, returned, fun undone => ?_⟩
      have same := undone.avbs
      rw [avbs] at same
      cases same

/-- A new mailbox, and a task that is about to look for a message of one byte in it. -/
def receiving {Task : Type} [DecidableEq Task] (t : Task) : Mailbox Task :=
  (rtTbxInit 4 false fun _ => 0).rtTbxReceive .plain t 1

/-- The task waits, and is suspended and resumed. -/
theorem suspended_and_resumed : ∃ tr s, InterruptedCall 0 1 (receiving (0 : Fin 2)) tr s ∧
    changes 0 avbs tr = -1 ∧ s.avbs = -1 ∧ s.waitingNr = 1 ∧ s.waitingTask = some 0 := by
  obtain ⟨tr, s, run, passed⟩ := Run.of_records step (fun _ _ => True) (receiving (0 : Fin 2))
    [.goOn 0, .suspend 0, .resume 0, .goOn 0, .goOn 0]
    (fun tr s => decide ((∀ r ∈ tr, (r.pre.task 0).pc ≠ .user) ∧ (s.task 0).pc = .user ∧
      (∃ r ∈ tr, r.event = .goOn 0 ∧ (r.pre.task 0).pc = .wait (.receive .plain 1) TYPE_NONE ∧
        (r.pre.task 0).blockedOn ≠ .nothing) ∧
      changes 0 avbs tr = -1 ∧ s.avbs = -1 ∧ s.waitingNr = 1 ∧ s.waitingTask = some 0))
    (by decide +kernel)
  obtain ⟨inside, returns, ⟨r, mem, goes, pc, blocked⟩, after⟩ := of_decide_eq_true passed
  exact ⟨tr, s, ⟨run, rfl, inside, returns, r, mem, goes, ⟨TYPE_NONE, pc⟩, blocked⟩, after⟩

theorem interrupted_spoils_once : ∃ tr s, InterruptedCall 0 1 (receiving (0 : Fin 2)) tr s ∧
    changes 0 avbs tr = -1 ∧ changes 0 frbs tr = 1 ∧ ¬Undone 0 1 tr s := by
  obtain ⟨tr, s, call, -⟩ := suspended_and_resumed
  obtain ⟨avbs, frbs, -, not⟩ := interrupted_spoils call
  exact ⟨tr, s, call, avbs, frbs, not⟩

/-- With an empty mailbox `avbs` becomes negative, and `waiting_task` still names the task. -/
theorem avbs_negative : ¬∀ {tr₀ tr : List (Record (Mailbox (Fin 2)) (Event (Fin 2)))}
    {s₀ s : Mailbox (Fin 2)}, Run step (fun _ _ => True) (rtTbxInit 4 false fun _ => 0) tr₀ s₀ →
      InterruptedCall 0 1 s₀ tr s → Undone 0 1 tr s := by
  intro undone
  obtain ⟨tr, s, call, -, negative, -⟩ := suspended_and_resumed
  have called : step (.call 0 (.receive .plain 1)) (rtTbxInit 4 false fun _ => 0) =
      some (receiving (0 : Fin 2)) := rfl
  have positive := (undone (Run.nil.snoc trivial called) call).positive
  rw [negative] at positive
  cases positive

end Mailbox

end Rtai.Tbx
