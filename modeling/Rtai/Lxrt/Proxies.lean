import Rtai.Lib.Run
import Rtai.Up.Dispatcher

/-!
# Proxies

A proxy is a task that sends its receiver the same message for every trigger.  A trigger is
remembered twice: `nmsgs` counts it, and `rt_task_resume` takes it from `suspdepth`, below 0
when the proxy is not suspended.  A proxy that finds `nmsgs` 0 and is triggered before it
suspends itself therefore does not stop.

The agents `proxy_task` and `Proxy_Task` run the same loop, here one statement at a time.  A
trigger is two steps of the task that makes it, which may be preempted in between.  The
counters are integers: fewer than `2 ^ 31` triggers are outstanding.
-/

namespace Rtai.Lxrt.Proxies

open Rtai.Lib Rtai.Up

/-- The statements of the loop of a proxy. -/
inductive Point where
  /-- `while (my->nmsgs)`. -/
  | test
  /-- `atomic_dec(&my->nmsgs)`. -/
  | dec
  /-- `rt_rpc(my->receiver, ...)`. -/
  | rpc
  /-- In `rt_rpc`, behind its `rt_schedule`. -/
  | answered
  /-- `rt_task_suspend(me)`. -/
  | suspend
deriving DecidableEq

/-- A proxy and its `struct proxy_t`, as `__rt_proxy_attach` leaves them. -/
structure Proxy where
  nmsgs : Int := 0
  suspdepth : Int := 1
  owndres : BitVec 32 := 0
  state : TaskState := SUSPENDED.set READY
  point : Point := .test
  /-- The tasks in `rt_trigger` between `atomic_inc` and `rt_task_resume`. -/
  triggering : List Nat := []

namespace Proxy

/-- `rt_task_suspend(me)`. -/
def rtTaskSuspend (p : Proxy) : Proxy :=
  let p' := { p with suspdepth := p.suspdepth + 1 }
  if p.suspdepth = 0 ∧ p.owndres = 0 then { p' with state := p.state.set SUSPENDED } else p'

/-- `rt_task_resume(proxy)`. -/
def rtTaskResume (p : Proxy) : Proxy :=
  let p' := { p with suspdepth := p.suspdepth - 1 }
  if p'.suspdepth = 0 then { p' with state := p.state.clear SUSPENDED } else p'

/-- The next statement of the proxy; `listening` is whether the receiver waits for a
message. -/
def run (listening : Bool) (p : Proxy) : Proxy :=
  match p.point with
  | .test => { p with point := if p.nmsgs = 0 then .suspend else .dec }
  | .dec => { p with nmsgs := p.nmsgs - 1, point := .rpc }
  | .rpc =>
      { p with state := p.state.set (if listening then RETURN else RPC), point := .answered }
  | .answered => { p with point := .test }
  | .suspend => { p.rtTaskSuspend with point := .test }

/-- The receiver receives the message of a proxy that has had to wait. -/
def received (p : Proxy) : Proxy := { p with state := (p.state.clear RPC).set RETURN }

/-- The receiver's `rt_return`. -/
def returned (p : Proxy) : Proxy := { p with state := p.state.clear RETURN }

end Proxy

inductive Event where
  /-- The proxy runs. -/
  | run (listening : Bool)
  /-- `atomic_inc(&his->nmsgs)` of the task. -/
  | inc (task : Nat)
  /-- `rt_task_resume(proxy)` of the task. -/
  | resume (task : Nat)
  | receive
  | reply
deriving DecidableEq

def step : Event → Proxy → Option Proxy
  | .run listening, p => if p.state = READY then some (p.run listening) else none
  | .inc task, p =>
      if task ∈ p.triggering then none
      else some { p with nmsgs := p.nmsgs + 1, triggering := task :: p.triggering }
  | .resume task, p =>
      if task ∈ p.triggering then
        some { p.rtTaskResume with triggering := p.triggering.erase task }
      else none
  | .receive, p => if p.state.rpc then some p.received else none
  | .reply, p => if p.state.ret then some p.returned else none

abbrev Trace := List (Record Proxy Event)

/-- The proxies' `rt_rpc`s in the trace. -/
def sent (tr : Trace) : Nat :=
  tr.countP fun r => match r.event with
    | .run _ => r.pre.point = .rpc
    | _ => false

/-- The triggers in the trace. -/
def triggers (tr : Trace) : Nat :=
  tr.countP fun r => match r.event with
    | .inc _ => true
    | _ => false

/-- The message the proxy has taken from `nmsgs` and not passed to `rt_rpc` yet. -/
def Proxy.inHand (p : Proxy) : Nat := if p.point = .rpc then 1 else 0

/-! ## Triggers are neither lost nor doubled -/

/-- What is between the steps of the proxy and of the tasks that trigger it. -/
structure Proxy.Accounted (tr : Trace) (p : Proxy) : Prop where
  sum : (sent tr + p.inHand + p.nmsgs : Int) = triggers tr
  nonneg : 0 ≤ p.nmsgs
  left : p.point = .dec → 0 < p.nmsgs
  owndres : p.owndres = 0
  asleep : p.state.suspended = true → p.suspdepth = 1
  awake : p.state.suspended = false → p.suspdepth ≤ 0
  /-- A trigger of a suspended proxy will resume it. -/
  coming : p.state.suspended = true → p.nmsgs ≤ p.triggering.length
  /-- A trigger that has been overlooked keeps the proxy from being suspended. -/
  owed : p.point = .suspend → p.nmsgs ≤ p.triggering.length - p.suspdepth

section

variable {tr : Trace} {p p' : Proxy} {e : Event}
variable {task : Nat} (h : p.Accounted tr)
include h

theorem Proxy.Accounted.run (ready : p.state = READY) (listening : Bool) :
    (p.run listening).Accounted (tr ++ [⟨p, .run listening, p.run listening⟩]) := by
  have sum := h.sum
  have up : p.state.suspended = false := by simp [ready, READY]
  have awake := h.awake up
  have nonneg := h.nonneg
  cases point : p.point with
  | test =>
      simp only [Proxy.run, point]
      refine ⟨?_, nonneg, ?_, h.owndres, h.asleep, h.awake, h.coming, ?_⟩
      · by_cases none : p.nmsgs = 0 <;> simp_all [sent, triggers, Proxy.inHand]
      · split
        · simp
        · intro
          simp only
          omega
      · by_cases none : p.nmsgs = 0
        · intro
          simp only [none]
          omega
        · simp [none]
  | dec =>
      simp only [Proxy.run, point]
      have left := h.left point
      refine ⟨?_, ?_, by simp, h.owndres, h.asleep, h.awake, by simp [up], by simp⟩
      · simp [sent, triggers, Proxy.inHand, point] at sum ⊢
        omega
      · simp only
        omega
  | rpc =>
      simp only [Proxy.run, point]
      refine ⟨?_, nonneg, by simp, h.owndres, ?_, fun _ => awake, ?_, by simp⟩
      · simp [sent, triggers, Proxy.inHand, point] at sum ⊢
        omega
      · cases listening <;> simp [ready, TaskState.set, READY, RETURN, RPC]
      · cases listening <;> simp [ready, TaskState.set, READY, RETURN, RPC]
  | answered =>
      simp only [Proxy.run, point]
      refine ⟨?_, nonneg, by simp, h.owndres, h.asleep, h.awake, h.coming, by simp⟩
      simpa [sent, triggers, Proxy.inHand, point] using sum
  | suspend =>
      have owed := h.owed point
      simp only [Proxy.run, point, Proxy.rtTaskSuspend, h.owndres, and_true]
      split
      case isTrue zero =>
        refine ⟨?_, nonneg, by simp, rfl, ?_, ?_, ?_, by simp⟩
        · simpa [sent, triggers, Proxy.inHand, point] using sum
        · intro
          simp only [zero]
          omega
        · simp [TaskState.set, SUSPENDED]
        · intro
          simp only
          omega
      case isFalse =>
        refine ⟨?_, nonneg, by simp, rfl, by simp [up], ?_, by simp [up], by simp⟩
        · simpa [sent, triggers, Proxy.inHand, point] using sum
        · intro
          simp only
          omega

theorem Proxy.Accounted.inc
    (moved : p' = { p with nmsgs := p.nmsgs + 1, triggering := task :: p.triggering }) :
    p'.Accounted (tr ++ [⟨p, .inc task, p'⟩]) := by
  subst moved
  have nonneg := h.nonneg
  refine ⟨?_, ?_, ?_, h.owndres, h.asleep, h.awake, ?_, ?_⟩
  · have sum := h.sum
    simp [sent, triggers, Proxy.inHand] at sum ⊢
    omega
  · simp only
    omega
  · intro
    simp only
    omega
  · intro asleep
    have coming := h.coming asleep
    simp only [List.length_cons]
    omega
  · intro point
    have owed := h.owed point
    simp only [List.length_cons]
    omega

theorem Proxy.Accounted.resume (mem : task ∈ p.triggering)
    (moved : p' = { p.rtTaskResume with triggering := p.triggering.erase task }) :
    p'.Accounted (tr ++ [⟨p, .resume task, p'⟩]) := by
  have length := List.length_erase_of_mem mem
  have some := List.length_pos_of_mem mem
  have sum := h.sum
  subst moved
  simp only [Proxy.rtTaskResume]
  split
  case isTrue woken =>
    refine ⟨?_, h.nonneg, h.left, h.owndres, by simp [TaskState.clear, SUSPENDED], ?_, ?_, ?_⟩
    · simpa [sent, triggers, Proxy.inHand] using sum
    · intro
      simp only [woken]
      omega
    · simp [TaskState.clear, SUSPENDED]
    · intro point
      have owed := h.owed point
      simp only [length]
      omega
  case isFalse =>
    have down : p.state.suspended = false := by
      by_contra up
      have := h.asleep (by simpa using up)
      omega
    have awake := h.awake down
    refine ⟨?_, h.nonneg, h.left, h.owndres, by simp [down], ?_, by simp [down], ?_⟩
    · simpa [sent, triggers, Proxy.inHand] using sum
    · intro
      simp only
      omega
    · intro point
      have owed := h.owed point
      simp only [length]
      omega

/-- The receiver does not touch what the triggers work on. -/
theorem Proxy.Accounted.answer {st : TaskState} (same : st.suspended = p.state.suspended)
    (e_eq : e = .receive ∨ e = .reply) (moved : p' = { p with state := st }) :
    p'.Accounted (tr ++ [⟨p, e, p'⟩]) := by
  subst moved
  refine ⟨?_, h.nonneg, h.left, h.owndres, same ▸ h.asleep, same ▸ h.awake, same ▸ h.coming,
    h.owed⟩
  have sum := h.sum
  cases e_eq with
  | inl e_eq =>
      subst e_eq
      simpa [sent, triggers, Proxy.inHand] using sum
  | inr e_eq =>
      subst e_eq
      simpa [sent, triggers, Proxy.inHand] using sum

theorem Proxy.Accounted.step (stepped : step e p = some p') :
    p'.Accounted (tr ++ [⟨p, e, p'⟩]) := by
  simp only [Proxies.step] at stepped
  cases e with
  | run listening =>
      simp only [Option.ite_none_right_eq_some, Option.some.injEq] at stepped
      obtain ⟨ready, rfl⟩ := stepped
      exact h.run ready listening
  | inc task =>
      simp only [Option.ite_none_left_eq_some, Option.some.injEq] at stepped
      exact h.inc stepped.2.symm
  | resume task =>
      simp only [Option.ite_none_right_eq_some, Option.some.injEq] at stepped
      exact h.resume stepped.1 stepped.2.symm
  | receive =>
      simp only [Option.ite_none_right_eq_some, Option.some.injEq] at stepped
      exact h.answer (by simp [TaskState.clear, TaskState.set, RPC, RETURN]) (.inl rfl)
        stepped.2.symm
  | reply =>
      simp only [Option.ite_none_right_eq_some, Option.some.injEq] at stepped
      exact h.answer (by simp [TaskState.clear, RETURN]) (.inr rfl) stepped.2.symm

end

theorem accounted_start : Proxy.Accounted [] {} := by
  refine ⟨?_, ?_, ?_, rfl, fun _ => rfl, ?_, ?_, ?_⟩ <;> decide

/-- The messages sent, the one in hand and `nmsgs` are the triggers, and a proxy that is
suspended while no trigger is about to resume it has none left. -/
theorem triggers_kept {tr : Trace} {p : Proxy}
    (run : Run step (fun _ _ => True) {} tr p) :
    (sent tr + p.inHand + p.nmsgs : Int) = triggers tr ∧
      (p.state.suspended = true → p.triggering = [] → p.nmsgs = 0) := by
  have h : p.Accounted tr := by
    refine run.history (P := fun tr p => p.Accounted tr) accounted_start ?_
    intro _ _ _ _ h _ stepped
    exact h.step stepped
  refine ⟨h.sum, ?_⟩
  intro asleep idle
  have coming := h.coming asleep
  have nonneg := h.nonneg
  rw [idle, List.length_nil] at coming
  omega

/-- Two triggers, the second of which comes between the last test of `nmsgs` and the
suspension. -/
theorem triggers_kept_twice :
    ∃ tr p, Run step (fun _ _ => True) {} tr p ∧
      ((p.state.suspended = true ∧ p.triggering = []) ∧ triggers tr = 2) ∧
      (sent tr + p.inHand + p.nmsgs : Int) = triggers tr ∧
      (p.state.suspended = true → p.triggering = [] → p.nmsgs = 0) := by
  have ⟨tr, p, run, test⟩ := Run.of_records step (fun _ _ => True) {}
    [.inc 1, .resume 1, .run true, .run true, .run true, .reply, .run true, .run true,
      .inc 2, .resume 2, .run true, .run true, .run true, .run false, .receive, .reply,
      .run true, .run true, .run true]
    (fun tr p => (p.state.suspended && p.triggering.isEmpty) && triggers tr == 2) (by decide)
  exact ⟨tr, p, run, by simpa using test, triggers_kept run⟩

/-- Without the message in hand the sum is one less. -/
theorem not_sent_before_rpc :
    ¬∀ tr p, Run step (fun _ _ => True) {} tr p →
      (sent tr + p.nmsgs : Int) = triggers tr ∧
      (p.state.suspended = true → p.triggering = [] → p.nmsgs = 0) := by
  intro kept
  have ⟨tr, p, run, test⟩ := Run.of_records step (fun _ _ => True) {}
    [.inc 1, .resume 1, .run true, .run true]
    (fun tr p => sent tr == 0 && p.nmsgs == 0 && triggers tr == 1) (by decide)
  simp only [Bool.and_eq_true, beq_iff_eq] at test
  have sum := (kept tr p run).1
  omega

end Rtai.Lxrt.Proxies
