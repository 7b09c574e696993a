import Rtai.Lib.Run
import Mathlib.Order.Lattice

/-!
# The parameters of the watchdog

The seven `rt_wdset_...` functions of `rtai_watchdog.c`.  Each checks its argument against the
parameters as they are, sets its parameter and returns what it was before.

A constraint on two parameters is kept if both functions check it.  `rt_wdset_grace` does not
look at `Safety`, as `rt_wdset_safety` does at `Grace`, and nothing looks at `Policy` when
`Safety` and `Limit` are set.  A parameter that is `-EINVAL` is returned as such when it is
replaced.  `parameters_consistent` is about the runs without that.
-/

namespace Rtai.Watchdog

open Rtai.Lib

def EINVAL : Int := 22

/-- `enum watchdog_policy`, which has no negative value and is an `unsigned int`. -/
abbrev WdPolicy := BitVec 32

def NOTHING : WdPolicy := 0
def RESYNC : WdPolicy := 1
def DEBUG : WdPolicy := 2
def STRETCH : WdPolicy := 3
def SLIP : WdPolicy := 4
def SUSPEND : WdPolicy := 5
def KILL : WdPolicy := 6

/-- The module parameters, with their defaults. -/
structure Params where
  grace : Int := 3
  graceDiv : Int := 1
  safety : Int := 100
  policy : WdPolicy := SUSPEND
  stretch : Int := 10
  slip : Int := 10
  limit : Int := 100
deriving DecidableEq

namespace Params

/-- The two lines by which a policy forces other parameters. -/
def force (policy : WdPolicy) (p : Params) : Params :=
  let p := if policy ≤ STRETCH then { p with grace := 1, graceDiv := 1 } else p
  if policy = DEBUG then { p with safety := -1, limit := -1 } else p

/-- What `init_module` does to the parameters. -/
def initModule (p : Params) : Params := p.force p.policy

/-- A function that refuses its argument, or sets its parameter and returns the old one. -/
def set (p : Params) (refuses : Prop) [Decidable refuses] (old : Int) (p' : Params) : Params × Int :=
  if refuses then (p, -EINVAL) else (p', old)

def rtWdsetGrace (new : Int) (p : Params) : Params × Int :=
  p.set (p.policy ≤ STRETCH ∧ new ≠ 1 ∨ new < 1) p.grace { p with grace := new }

def rtWdsetGracediv (new : Int) (p : Params) : Params × Int :=
  p.set (p.policy ≤ STRETCH ∧ new ≠ 1 ∨ new < 1) p.graceDiv { p with graceDiv := new }

def rtWdsetSafety (new : Int) (p : Params) : Params × Int :=
  p.set (new ≥ 0 ∧ new < p.grace) p.safety { p with safety := new }

/-- What is returned is a `wd_policy`, read as an `int`. -/
def rtWdsetPolicy (new : WdPolicy) (p : Params) : Params × Int :=
  p.set (new < NOTHING ∨ new > KILL) p.policy.toInt { p.force new with policy := new }

def rtWdsetSlip (new : Int) (p : Params) : Params × Int :=
  p.set (new < 0) p.slip { p with slip := new }

def rtWdsetStretch (new : Int) (p : Params) : Params × Int :=
  p.set (new < 0) p.stretch { p with stretch := new }

/-- The one that refuses nothing. -/
def rtWdsetLimit (new : Int) (p : Params) : Params × Int := ({ p with limit := new }, p.limit)

end Params

inductive Call where
  | grace (new : Int)
  | gracediv (new : Int)
  | safety (new : Int)
  | policy (new : WdPolicy)
  | slip (new : Int)
  | stretch (new : Int)
  | limit (new : Int)
deriving DecidableEq

namespace Params

def call : Call → Params → Params × Int
  | .grace new, p => p.rtWdsetGrace new
  | .gracediv new, p => p.rtWdsetGracediv new
  | .safety new, p => p.rtWdsetSafety new
  | .policy new, p => p.rtWdsetPolicy new
  | .slip new, p => p.rtWdsetSlip new
  | .stretch new, p => p.rtWdsetStretch new
  | .limit new, p => p.rtWdsetLimit new

def step (e : Call) (p : Params) : Option Params := some (p.call e).1

/-- `Safety` is off or not below `Grace`. -/
def Safe (p : Params) : Prop := p.safety < 0 ∨ p.grace ≤ p.safety

instance (p : Params) : Decidable p.Safe := inferInstanceAs (Decidable (_ ∨ _))

/-- How the parameters are to fit together. -/
structure Consistent (p : Params) : Prop where
  forced : p.policy ≤ STRETCH → p.grace = 1 ∧ p.graceDiv = 1
  debug : p.policy = DEBUG → p.safety < 0 ∧ p.limit < 0
  safe : p.Safe
  grace : 1 ≤ p.grace
  graceDiv : 1 ≤ p.graceDiv

/-- A call that returns `-EINVAL` has changed nothing. -/
def Harmless (e : Call) (p : Params) : Prop := (p.call e).2 = -EINVAL → (p.call e).1 = p

/-- `Grace` stays below `Safety`, `Safety` and `Limit` stay off in `DEBUG`, and no parameter
that is `-EINVAL` is replaced. -/
def Proper (p : Params) : Call → Prop
  | .grace new => p.policy ≤ STRETCH ∨ p.safety < 0 ∨ new ≤ p.safety
  | .gracediv _ => True
  | .safety new =>
      (p.policy = DEBUG → new < p.grace) ∧
        (p.safety = -EINVAL → new = p.safety ∨ 0 ≤ new ∧ new < p.grace)
  | .policy new => p.policy.toInt = -EINVAL → KILL < new
  | .slip new => p.slip = -EINVAL → new < 0
  | .stretch new => p.stretch = -EINVAL → new < 0
  | .limit new => (p.policy = DEBUG → new < 0) ∧ (p.limit = -EINVAL → new = p.limit)

instance (p : Params) (e : Call) : Decidable (p.Proper e) := by
  cases e <;> simp only [Proper] <;> infer_instance

/-! ## One call -/

/-- What a call is to keep. -/
def Keeps (e : Call) (p : Params) : Prop := (p.call e).1.Consistent ∧ p.Harmless e

variable {p p' : Params} {old new : Int} {policy : WdPolicy}

theorem set_keeps {refuses : Prop} [Decidable refuses] (ok : p.Consistent) :
    ((p.set refuses old p').1.Consistent ∧
      ((p.set refuses old p').2 = -EINVAL → (p.set refuses old p').1 = p)) ↔
    (¬refuses → p'.Consistent ∧ (old = -EINVAL → p' = p)) := by
  unfold set
  by_cases h : refuses
  · simp [h, ok]
  · simp [h]

theorem force_low (low : policy ≤ STRETCH) :
    (p.force policy).grace = 1 ∧ (p.force policy).graceDiv = 1 := by
  unfold force
  rw [if_pos low]
  split <;> exact ⟨rfl, rfl⟩

theorem force_debug : (p.force DEBUG).safety = -1 ∧ (p.force DEBUG).limit = -1 := ⟨rfl, rfl⟩

theorem force_high (high : ¬policy ≤ STRETCH) : p.force policy = p := by
  have other : policy ≠ DEBUG := fun h => high (h ▸ by decide)
  simp [force, high, other]

/-- What is forced keeps `Safety` right. -/
theorem force_safe (safe : p.Safe) (grace : 1 ≤ p.grace) (policy : WdPolicy) :
    (p.force policy).Safe := by
  by_cases low : policy ≤ STRETCH
  · by_cases off : policy = DEBUG
    · rw [off]
      exact .inl (by simp [force_debug])
    · have same : p.force policy = { p with grace := 1, graceDiv := 1 } := by
        simp [force, low, off]
      rw [same]
      exact safe.imp_right grace.trans
  · rw [force_high low]
    exact safe

@[simp] theorem force_policy (policy : WdPolicy) : (p.force policy).policy = p.policy := by
  unfold force
  split <;> split <;> rfl

namespace Consistent

variable (ok : p.Consistent)
include ok

theorem grace_keeps : p.Keeps (.grace new) ↔ p.Proper (.grace new) := by
  refine (set_keeps ok).trans ⟨fun keeps => ?_, fun proper taken => ?_⟩
  · by_cases forced : p.policy ≤ STRETCH
    · exact .inl forced
    · by_cases low : new < 1
      · have := ok.grace
        exact .inr (ok.safe.imp_right fun above => by omega)
      · exact .inr (keeps (by simp [forced, low])).1.safe
  · obtain ⟨forced, low⟩ := not_or.mp taken
    have same (h : p.policy ≤ STRETCH) : new = 1 := not_not.mp fun other => forced ⟨h, other⟩
    refine ⟨⟨fun h => ⟨same h, (ok.forced h).2⟩, ok.debug, ?_, not_lt.mp low, ok.graceDiv⟩,
      fun e => ?_⟩
    · rcases proper with h | safe
      · have one := (ok.forced h).1
        have above := ok.safe
        unfold Safe at above ⊢
        simpa only [same h, ← one] using above
      · exact safe
    · have := ok.grace
      have : p.grace = -22 := e
      omega

theorem gracediv_keeps : p.Keeps (.gracediv new) := by
  refine (set_keeps ok).mpr fun taken => ?_
  obtain ⟨forced, low⟩ := not_or.mp taken
  have same (h : p.policy ≤ STRETCH) : new = 1 := not_not.mp fun other => forced ⟨h, other⟩
  refine ⟨⟨fun h => ⟨(ok.forced h).1, same h⟩, ok.debug, ok.safe, ok.grace, not_lt.mp low⟩,
    fun e => ?_⟩
  have := ok.graceDiv
  have : p.graceDiv = -22 := e
  omega

theorem safety_keeps : p.Keeps (.safety new) ↔ p.Proper (.safety new) := by
  have one := ok.grace
  refine (set_keeps ok).trans ⟨fun keeps => ⟨fun h => ?_, fun e => ?_⟩, fun proper taken => ?_⟩
  · by_contra above
    have off := ((keeps (by omega)).1.debug h).1
    have : new < 0 := off
    omega
  · by_cases refused : new ≥ 0 ∧ new < p.grace
    · exact .inr refused
    · exact .inl (congrArg safety ((keeps refused).2 e))
  · have safe : new < 0 ∨ p.grace ≤ new := by omega
    refine ⟨⟨ok.forced, fun h => ⟨?_, (ok.debug h).2⟩, safe, one, ok.graceDiv⟩, fun e => ?_⟩
    · have := proper.1 h
      show new < 0
      omega
    · rcases proper.2 e with rfl | refused
      · rfl
      · exact absurd refused taken

theorem limit_keeps : p.Keeps (.limit new) ↔ p.Proper (.limit new) := by
  constructor
  · intro ⟨kept, harmless⟩
    exact ⟨fun h => (kept.debug h).2, fun e => congrArg limit (harmless e)⟩
  · intro ⟨off, same⟩
    refine ⟨⟨ok.forced, fun h => ⟨(ok.debug h).1, off h⟩, ok.safe, ok.grace, ok.graceDiv⟩,
      fun e => ?_⟩
    rw [same e]
    rfl

/-- Only the four parameters of the constraints count. -/
theorem congr (grace : p'.grace = p.grace) (graceDiv : p'.graceDiv = p.graceDiv)
    (safety : p'.safety = p.safety) (policy : p'.policy = p.policy) (limit : p'.limit = p.limit) :
    p'.Consistent := by
  constructor
  · rw [policy, grace, graceDiv]
    exact ok.forced
  · rw [policy, safety, limit]
    exact ok.debug
  · unfold Safe
    rw [safety, grace]
    exact ok.safe
  · rw [grace]
    exact ok.grace
  · rw [graceDiv]
    exact ok.graceDiv

/-- A parameter that is in no constraint. -/
theorem free_keeps (ok' : p'.Consistent) (field : Params → Int) (is : field p' = new) :
    ((p.set (new < 0) (field p) p').1.Consistent ∧
      ((p.set (new < 0) (field p) p').2 = -EINVAL → (p.set (new < 0) (field p) p').1 = p)) ↔
    (field p = -EINVAL → new < 0) := by
  refine (set_keeps ok).trans ⟨fun keeps e => ?_, fun proper taken => ⟨ok', fun e => ?_⟩⟩
  · by_contra taken
    have same := congrArg field ((keeps taken).2 e)
    rw [is, e] at same
    exact taken (by rw [same]; decide)
  · exact absurd (proper e) taken

theorem slip_keeps : p.Keeps (.slip new) ↔ p.Proper (.slip new) := by
  have ok' : ({ p with slip := new } : Params).Consistent := ok.congr rfl rfl rfl rfl rfl
  exact ok.free_keeps ok' slip rfl

theorem stretch_keeps : p.Keeps (.stretch new) ↔ p.Proper (.stretch new) := by
  have ok' : ({ p with stretch := new } : Params).Consistent := ok.congr rfl rfl rfl rfl rfl
  exact ok.free_keeps ok' stretch rfl

/-- A policy that is taken. -/
theorem force (new : WdPolicy) : Consistent { p.force new with policy := new } := by
  refine ⟨fun low => force_low low, fun h => ?_, force_safe ok.safe ok.grace new, ?_, ?_⟩
  · obtain rfl : new = DEBUG := h
    exact ⟨by simp [force_debug], by simp [force_debug]⟩
  all_goals by_cases low : new ≤ STRETCH
  · exact (force_low low).1.ge
  · rw [force_high low]
    exact ok.grace
  · exact (force_low low).2.ge
  · rw [force_high low]
    exact ok.graceDiv

theorem policy_keeps {new : WdPolicy} : p.Keeps (.policy new) ↔ p.Proper (.policy new) := by
  refine (set_keeps ok).trans ⟨fun keeps e => ?_, fun proper taken => ⟨ok.force new, fun e => ?_⟩⟩
  · -- a policy that is `-EINVAL` is none that can be set
    by_contra low
    have taken : ¬(new < NOTHING ∨ new > KILL) := by
      rintro (below | high)
      · exact absurd below (by simp [NOTHING])
      · exact low high
    have same : new = p.policy := congrArg policy ((keeps taken).2 e)
    have invalid : p.policy = -22 := BitVec.eq_of_toInt_eq e
    rw [same, invalid] at taken
    exact taken (by decide)
  · exact absurd (.inr (proper e)) taken

theorem keeps (e : Call) : p.Keeps e ↔ p.Proper e := by
  cases e with
  | grace new => exact ok.grace_keeps
  | gracediv new => exact iff_of_true ok.gracediv_keeps trivial
  | safety new => exact ok.safety_keeps
  | policy new => exact ok.policy_keeps
  | slip new => exact ok.slip_keeps
  | stretch new => exact ok.stretch_keeps
  | limit new => exact ok.limit_keeps

end Consistent

/-- What `init_module` leaves if `Safety` is right and `Grace` and `GraceDiv` are positive. -/
theorem initModule_consistent (safe : p.initModule.Safe) (grace : 1 ≤ p.initModule.grace)
    (graceDiv : 1 ≤ p.initModule.graceDiv) : p.initModule.Consistent := by
  refine ⟨fun low => ?_, fun off => ?_, safe, grace, graceDiv⟩
  · rw [initModule, force_policy] at low
    exact force_low low
  · rw [initModule, force_policy] at off
    rw [initModule, off]
    exact ⟨by simp [force_debug], by simp [force_debug]⟩

end Params

/-- In the runs of proper calls the parameters fit together, and a call that returns `-EINVAL`
has changed none. -/
theorem parameters_consistent {m p : Params} {tr : List (Record Params Call)}
    (safe : m.initModule.Safe) (grace : 1 ≤ m.initModule.grace)
    (graceDiv : 1 ≤ m.initModule.graceDiv)
    (run : Run Params.step Params.Proper m.initModule tr p) :
    p.Consistent ∧ ∀ r ∈ tr, (r.pre.call r.event).2 = -EINVAL → r.post = r.pre := by
  have start := Params.initModule_consistent safe grace graceDiv
  have reached {tr : List (Record Params Call)} {p : Params}
      (run : Run Params.step Params.Proper m.initModule tr p) : p.Consistent := by
    refine run.invariant start fun ok proper stepped => ?_
    cases stepped
    exact ((ok.keeps _).mpr proper).1
  refine ⟨reached run, fun r mem invalid => ?_⟩
  obtain ⟨before, behind, here⟩ := List.append_of_mem mem
  obtain ⟨earlier, proper, stepped⟩ := run.before here
  have same := (((reached earlier).keeps _).mpr proper).2 invalid
  exact (Option.some.inj stepped).symm.trans same

theorem parameters_consistent_debug : ∃ tr p,
    Run Params.step Params.Proper ({} : Params).initModule tr p ∧ p.grace = 50 ∧ p.Consistent := by
  have ⟨tr, p, run, test⟩ := Run.of_execute Params.step Params.Proper ({} : Params).initModule
    [.grace 100, .safety 3, .policy DEBUG, .safety (-5), .limit (-3), .policy KILL, .grace 50]
    (fun p => p.grace == 50) (by decide)
  exact ⟨tr, p, run, beq_iff_eq.mp test,
    (parameters_consistent (by decide) (by decide) (by decide) run).1⟩

/-- `Grace` is set above `Safety`. -/
theorem not_consistent_grace : ({} : Params).initModule.Safe ∧
    ¬∀ tr p, Run Params.step (fun _ _ => True) ({} : Params).initModule tr p → p.Consistent := by
  refine ⟨by decide, fun consistent => ?_⟩
  have ⟨tr, p, run, test⟩ := Run.of_execute Params.step (fun _ _ => True) ({} : Params).initModule
    [.grace 200] (fun p => decide (¬p.Safe)) (by decide)
  exact of_decide_eq_true test (consistent tr p run).safe

end Rtai.Watchdog
