import Rtai.Irq.Marks
import Rtai.Lib.Run

/-!
# Interrupts pended for Linux

`pended_irqs` says that no interrupt is lost, made up or taken for another, in every run in
which there is room for each that comes.  Where an irq is counted a second time on an SMP
machine, `linux_sti` calls its isr once and leaves the rest behind, unmarked.
-/

namespace Rtai.Irq

open Function Rtai.Lib

variable {C I : Type}

/-- The vector whose isr the run is about to call. -/
def Frame.calling : Frame I → Option Vector
  | .sti (.doLinuxIrq _ _ vec) => some vec
  | _ => none

/-- Only the counter of a system request is set to one, and only the isr of an irq called. -/
def Frame.Proper (cfg : Config I) : Frame I → Prop
  | .pend x .count => (VECTRANS cfg.smp x).val < FIRST_EXT_VECTOR
  | .sti (.doLinuxIrq _ _ vec) | .isr vec => FIRST_EXT_VECTOR ≤ vec.val
  | _ => True

/-- The step is a call of the isr. -/
def Cpu.CallsIsr (k k' : Cpu I) (vector : Vector) : Prop :=
  k'.frames.head? = some (.isr vector) ∧ k'.frames.length = k.frames.length + 1

instance [DecidableEq I] (k k' : Cpu I) (vector : Vector) : Decidable (k.CallsIsr k' vector) :=
  inferInstanceAs (Decidable (_ ∧ _))

namespace Cpu

/-- The calls of an isr that are still to come. -/
def owed (cfg : Config I) (k : Cpu I) (vector : Vector) : Nat :=
  k.irqcnt (VECTRANS cfg.smp vector) + k.frames.countP (·.calling = some vector)

variable {cfg : Config I} {k k' : Cpu I} {rest fs : List (Frame I)} {v : Vector} {f : Frame I}
  {pc : Pc} {g g' : Global} {a : Action I} {irq : I}

def Proper (cfg : Config I) (k : Cpu I) : Prop := ∀ f ∈ k.frames, f.Proper cfg

theorem Proper.push (proper : k.Proper cfg) (frames : k'.frames = f :: k.frames)
    (new : f.Proper cfg) : k'.Proper cfg := by
  intro g mem
  rw [frames] at mem
  rcases List.mem_cons.mp mem with rfl | below
  · exact new
  · exact proper g below

theorem Proper.pop (proper : k.Proper cfg) (top : k.frames = f :: rest) : k.pop.Proper cfg := by
  intro g mem
  rw [pop_frames, top] at mem
  exact proper g (top ▸ List.mem_cons_of_mem _ mem)

theorem Proper.stiStep (g : Global) (proper : k.Proper cfg) (top : k.frames = .sti pc :: rest) :
    (stiStep cfg g k pc).2.Proper cfg := by
  have popped := proper.pop top
  cases pc with
  | leave => exact popped
  | testHvec =>
      rw [Irq.stiStep]
      split
      next => exact popped.push rfl trivial
      next => exact popped
  | dec h l vec =>
      refine popped.push rfl ?_
      split
      next => trivial
      next outside => exact Nat.le_of_not_lt outside
  | doLinuxIrq h l vec =>
      have external : FIRST_EXT_VECTOR ≤ vec.val :=
        proper (.sti (.doLinuxIrq h l vec)) (by rw [top]; simp)
      have back : (k.stiAt (.test h l vec)).Proper cfg := popped.push rfl trivial
      exact back.push rfl external
  | rtaiHandler h l srq =>
      have back : (k.stiAt (.clearActiv h l srq)).Proper cfg := popped.push rfl trivial
      rw [Irq.stiStep]
      split
      next => exact back.push rfl trivial
      next => exact back
  | readHvec =>
      refine popped.push rfl ?_
      cases ffnz k.hvec with
      | none => trivial
      | some h => trivial
  | readLvec h =>
      refine popped.push rfl ?_
      cases ffnz (k.lvec h) with
      | none => trivial
      | some l => trivial
  | _ =>
    simp only [Irq.stiStep]
    try split
    all_goals exact popped.push rfl trivial

theorem Proper.dispatched (proper : k.Proper cfg) : (dispatched k).Proper cfg := by
  rw [Irq.dispatched]
  split
  next => exact proper.push rfl trivial
  next => exact proper

theorem Proper.acts (proper : k.Proper cfg) (acts : Acts cfg g k a g' k') : k'.Proper cfg := by
  cases acts with
  | handler irq => exact proper.push rfl trivial
  | keyboard unset => exact proper.dispatched
  | arrived irq unset other => exact Proper.dispatched (k := k.mark _) proper
  | pendLinuxIrq irq => exact proper.push rfl trivial
  | pending srq => exact proper
  | pendLinuxSrq srq =>
      refine proper.push rfl ?_
      rw [Frame.Proper, vectrans_vectrans]
      exact srq.isLt
  | cli a which => exact proper
  | call a which => exact proper.push rfl trivial
  | isr retval vector rest top => exact proper.pop top
  | srq retval srq rest top => exact proper.pop top
  | handled retval irq rest top =>
      rw [handled]
      split
      next => exact proper.pop top
      next => exact (proper.pop top).dispatched
  | sti pc rest top => exact proper.stiStep g top
  | pend vector stage rest top =>
      have popped := proper.pop top
      cases stage with
      | count => exact popped.push rfl trivial
      | lvec => exact popped.push rfl trivial
      | hvec => exact popped
  | kbrd rest top =>
      have called : (k.goto [.sti .enter]).Proper cfg := (proper.pop top).push rfl trivial
      split
      next => exact called.push rfl (cfg.external cfg.kbrd)
      next => exact called

/-- The frames on top are changed for others that do not call the isr. -/
theorem owed_of_quiet {old : List (Frame I)} (top : k.frames = old ++ rest)
    (frames : k'.frames = fs ++ rest) (irqcnt : k'.irqcnt = k.irqcnt)
    (before : ∀ f ∈ old, f.calling ≠ some v) (after : ∀ g ∈ fs, g.calling ≠ some v) :
    k'.owed cfg v = k.owed cfg v := by
  have none : ∀ {gs : List (Frame I)}, (∀ g ∈ gs, g.calling ≠ some v) →
      gs.countP (·.calling = some v) = 0 := by
    intro gs quiet
    rw [List.countP_eq_zero]
    intro g mem
    simpa using quiet g mem
  rw [owed, owed, irqcnt, top, frames, List.countP_append, List.countP_append, none before,
    none after]

theorem not_calls_of_le (shorter : k'.frames.length ≤ k.frames.length) : ¬k.CallsIsr k' v := by
  intro calls
  have longer := calls.2
  omega

theorem not_calls_of_head (frames : k'.frames = f :: fs) (other : f ≠ .isr v) :
    ¬k.CallsIsr k' v := by
  intro calls
  have head := calls.1
  rw [frames] at head
  exact other (Option.some.inj head)

theorem Kept.dec_owed {h : Fin 8} {l : Fin 32} {vec : Vector}
    (kept : k.Kept cfg (VECTRANS cfg.smp v)) (top : k.frames = .sti (.dec h l vec) :: rest)
    (ext : FIRST_EXT_VECTOR ≤ v.val) (g : Global) :
    (stiStep cfg g k (.dec h l vec)).2.owed cfg v = k.owed cfg v := by
  have frames : (k.decrement vec).frames.tail = rest := by
    rw [Cpu.decrement, setCount, top, List.tail_cons]
  by_cases same : VECTRANS cfg.smp v = vec
  · subst same
    have outside : ¬v.val < FIRST_EXT_VECTOR := Nat.not_lt_of_ge ext
    obtain ⟨positive, less⟩ := kept.decrement top
    have after : (stiStep cfg g k (.dec h l (VECTRANS cfg.smp v))).2.owed cfg v =
        k.irqcnt (VECTRANS cfg.smp v) - 1 + (rest.countP (·.calling = some v) + 1) := by
      simp [stiStep, owed, outside, frames, Frame.calling, less]
    have now : k.owed cfg v =
        k.irqcnt (VECTRANS cfg.smp v) + rest.countP (·.calling = some v) := by
      simp [owed, top, Frame.calling]
    omega
  · have other : VECTRANS cfg.smp vec ≠ v := fun e => same (vectrans_eq_iff.mp e).symm
    have irqcnt : (k.decrement vec).irqcnt (VECTRANS cfg.smp v) =
        k.irqcnt (VECTRANS cfg.smp v) := update_of_ne same ..
    have now : k.owed cfg v =
        k.irqcnt (VECTRANS cfg.smp v) + rest.countP (·.calling = some v) := by
      simp [owed, top, Frame.calling]
    rw [now]
    simp only [stiStep]
    split
    next => simp [owed, frames, Frame.calling, irqcnt]
    next => simp [owed, frames, Frame.calling, irqcnt, other]

/-- With room for it an irq is owed once more. -/
theorem Room.owed (room : k.Room cfg irq)
    (irqcnt : k'.irqcnt = (k.increment (cfg.index irq)).irqcnt)
    (calling : k'.frames.countP (·.calling = some v) = k.frames.countP (·.calling = some v)) :
    k'.owed cfg v = k.owed cfg v + if cfg.globalVector irq = v then 1 else 0 := by
  rw [Cpu.owed, Cpu.owed, irqcnt, calling]
  by_cases same : cfg.globalVector irq = v
  · subst same
    rw [if_pos rfl, ← Config.index, room.counts.1]
    omega
  · have other : VECTRANS cfg.smp v ≠ cfg.index irq := by
      intro e
      rw [Config.index, vectrans_eq_iff, vectrans_vectrans] at e
      exact same e.symm
    rw [if_neg same, Nat.add_zero]
    congr 1
    exact update_of_ne other ..

variable [DecidableEq I]

theorem Kept.stiStep_owed (g : Global) (kept : k.Kept cfg (VECTRANS cfg.smp v))
    (top : k.frames = .sti pc :: rest) (ext : FIRST_EXT_VECTOR ≤ v.val) :
    (stiStep cfg g k pc).2.owed cfg v + (if k.CallsIsr (stiStep cfg g k pc).2 v then 1 else 0) =
      k.owed cfg v := by
  have tail : k.frames.tail = rest := by rw [top, List.tail_cons]
  have before : k.frames = [.sti pc] ++ rest := top
  cases pc with
  | dec h l vec =>
      have head : (stiStep cfg g k (.dec h l vec)).2.frames = .sti _ :: k.frames.tail := rfl
      rw [if_neg (not_calls_of_head head (by simp)), kept.dec_owed top ext g, Nat.add_zero]
  | doLinuxIrq h l vec =>
      have calls : k.CallsIsr (stiStep cfg g k (.doLinuxIrq h l vec)).2 v ↔ vec = v := by
        simp [stiStep, CallsIsr, goto, top]
      simp only [calls]
      simp [stiStep, owed, goto, top, Frame.calling, List.countP_cons, Nat.add_assoc]
  | readHvec =>
      cases e : ffnz k.hvec with
      | none => simp [stiStep, e, owed, CallsIsr, top, Frame.calling]
      | some h => simp [stiStep, e, owed, CallsIsr, top, Frame.calling]
  | readLvec h =>
      cases e : ffnz (k.lvec h) with
      | none => simp [stiStep, e, owed, CallsIsr, top, Frame.calling]
      | some l => simp [stiStep, e, owed, CallsIsr, top, Frame.calling]
  | testHvec =>
      rw [stiStep]
      split
      next => simp [owed, CallsIsr, top, Frame.calling]
      next =>
        have gone : k.pop.frames = [] ++ rest := tail
        rw [if_neg (not_calls_of_le (by simp)), Nat.add_zero]
        exact owed_of_quiet before gone rfl (by simp [Frame.calling]) (by simp)
  | leave =>
      have gone : (stiStep cfg g k .leave).2.frames = [] ++ rest := tail
      rw [if_neg (not_calls_of_le (by simp [stiStep])), Nat.add_zero]
      exact owed_of_quiet before gone rfl (by simp [Frame.calling]) (by simp)
  | _ =>
    -- No other step counts, or is about to call an isr.
    simp only [stiStep]
    try split
    all_goals simp [owed, CallsIsr, top, Frame.calling, goto, Cpu.setLvec, Cpu.setHvec]

theorem dispatched_owed (fewer : k'.frames.length ≤ k.frames.length) :
    (dispatched k').owed cfg v + (if k.CallsIsr (dispatched k') v then 1 else 0) =
      k'.owed cfg v := by
  rw [dispatched]
  split
  next =>
    have pushed : ({ k' with intrFlag := false }.push .kbrd).frames = .kbrd :: k'.frames := rfl
    rw [if_neg (not_calls_of_head pushed (by simp)), Nat.add_zero]
    simp [owed, push, Frame.calling]
  next => rw [if_neg (not_calls_of_le fewer), Nat.add_zero]

/-- What is owed grows with the irqs that come, and shrinks with the calls of the isr. -/
theorem Kept.acts_owed (kept : k.Kept cfg (VECTRANS cfg.smp v)) (proper : k.Proper cfg)
    (room : ∀ irq, a.forLinux cfg = some irq → k.Room cfg irq) (ext : FIRST_EXT_VECTOR ≤ v.val)
    (other : cfg.globalVector cfg.kbrd ≠ v) (acts : Acts cfg g k a g' k') :
    k'.owed cfg v + (if k.CallsIsr k' v then 1 else 0) =
      k.owed cfg v + if (a.forLinux cfg).map cfg.globalVector = some v then 1 else 0 := by
  cases acts with
  | handler irq set =>
      simp [owed, push, CallsIsr, Frame.calling, Action.forLinux, set]
  | keyboard unset =>
      simp [dispatched_owed, Action.forLinux]
  | arrived irq unset other =>
      have room := room irq (by simp [Action.forLinux, unset, other])
      have same : (k.mark (cfg.index irq)).frames.length ≤ k.frames.length := Nat.le_refl _
      have brings : (Action.arrive irq).forLinux cfg = some irq := by
        simp [Action.forLinux, unset, other]
      simp only [brings, Option.map_some, Option.some.injEq]
      exact (dispatched_owed same).trans (room.owed rfl rfl)
  | pendLinuxIrq irq =>
      have pushed : (Irq.rtPendLinuxIrq cfg k irq).frames = .pend (cfg.index irq) .lvec :: k.frames := rfl
      have brings : (Action.pendLinuxIrq irq).forLinux cfg = some irq := rfl
      simp only [brings, Option.map_some, Option.some.injEq]
      rw [if_neg (not_calls_of_head pushed (by simp)), Nat.add_zero]
      exact (room irq rfl).owed rfl (by simp [pushed, Frame.calling])
  | pending srq => simp [CallsIsr, Action.forLinux]
  | pendLinuxSrq srq => simp [owed, push, CallsIsr, Frame.calling, Action.forLinux]
  | cli a which =>
      rcases which with rfl | rfl
      · simp [owed, CallsIsr, Action.forLinux]
      · simp [owed, CallsIsr, Action.forLinux]
  | call a which =>
      rcases which with rfl | rfl
      · simp [owed, push, CallsIsr, Frame.calling, Action.forLinux]
      · simp [owed, push, CallsIsr, Frame.calling, Action.forLinux]
  | isr retval vector rest top =>
      rw [if_neg (not_calls_of_le (by simp))]
      simp [owed, pop, goto, top, Frame.calling, Action.forLinux]
  | srq retval srq rest top =>
      rw [if_neg (not_calls_of_le (by simp))]
      simp [owed, pop, goto, top, Frame.calling, Action.forLinux]
  | handled retval irq rest top =>
      have popped : k.pop.owed cfg v = k.owed cfg v := by
        simp [owed, pop, goto, top, Frame.calling]
      have fewer : k.pop.frames.length + 1 = k.frames.length := by simp [top]
      have brings : (Action.ret retval).forLinux cfg = none := rfl
      rw [handled]
      simp only [brings, Option.map_none, reduceCtorEq, if_false, Nat.add_zero]
      split
      next => rw [if_neg (not_calls_of_le (by omega)), popped, Nat.add_zero]
      next => rw [dispatched_owed (by omega), popped]
  | sti pc rest top => exact kept.stiStep_owed g top ext
  | pend vector stage rest top =>
      have before : k.frames = [.pend vector stage] ++ rest := top
      have tail : k.frames.tail = rest := by rw [top, List.tail_cons]
      have brings : Action.forLinux cfg Action.goOn = none := rfl
      simp only [brings, Option.map_none, reduceCtorEq, if_false, Nat.add_zero]
      cases stage with
      | count =>
          have low : (VECTRANS cfg.smp vector).val < FIRST_EXT_VECTOR :=
            proper (.pend vector .count) (by rw [top]; simp)
          have other : VECTRANS cfg.smp v ≠ vector := by
            intro e
            rw [← e, vectrans_vectrans] at low
            omega
          have irqcnt : (Irq.pendStep k vector .count).irqcnt (VECTRANS cfg.smp v) =
              k.irqcnt (VECTRANS cfg.smp v) := update_of_ne other ..
          have frames : (Irq.pendStep k vector .count).frames = .pend vector .lvec :: rest :=
            congrArg _ tail
          rw [if_neg (not_calls_of_head frames (by simp)), owed, irqcnt]
          simp [owed, frames, top, Frame.calling]
      | lvec =>
          have frames : (Irq.pendStep k vector .lvec).frames = [.pend vector .hvec] ++ rest :=
            congrArg _ tail
          rw [if_neg (not_calls_of_head frames (by simp)), Nat.add_zero]
          exact owed_of_quiet before frames rfl (by simp [Frame.calling]) (by simp [Frame.calling])
      | hvec =>
          have frames : (Irq.pendStep k vector .hvec).frames = [] ++ rest := tail
          have fewer : (Irq.pendStep k vector .hvec).frames.length ≤ k.frames.length := by
            simp [frames, top]
          rw [if_neg (not_calls_of_le fewer), Nat.add_zero]
          exact owed_of_quiet before frames rfl (by simp [Frame.calling]) (by simp)
  | kbrd rest top =>
      have before : k.frames = [.kbrd] ++ rest := top
      have brings : Action.forLinux cfg Action.goOn = none := rfl
      simp only [brings, Option.map_none, reduceCtorEq, if_false, Nat.add_zero]
      split
      next =>
        have frames : (k.goto [.isr (cfg.globalVector cfg.kbrd), .sti .enter]).frames =
            [.isr (cfg.globalVector cfg.kbrd), .sti .enter] ++ rest := by
          rw [goto, top, List.tail_cons]
        rw [if_neg (not_calls_of_head frames (by simpa using other)), Nat.add_zero]
        exact owed_of_quiet before frames rfl (by simp [Frame.calling]) (by simp [Frame.calling])
      next =>
        have frames : (k.goto [.sti .enter]).frames = [.sti .enter] ++ rest := by
          rw [goto, top, List.tail_cons]
        rw [if_neg (not_calls_of_head frames (by simp)), Nat.add_zero]
        exact owed_of_quiet before frames rfl (by simp [Frame.calling]) (by simp [Frame.calling])

omit [DecidableEq I]

/-- Only a run that finds nothing more returns, unless it is in another. -/
theorem hvec_of_returned (nested : k.Nested) (g : Global) (top : k.frames = .sti pc :: rest)
    (frames : (stiStep cfg g k pc).2.frames = rest) (outer : ∀ f ∈ rest, ∀ pc, f ≠ .sti pc) :
    ffnz (stiStep cfg g k pc).2.hvec = none := by
  cases pc with
  | leave =>
      have stacked := nested.stacked
      rw [top] at stacked
      obtain ⟨f, mem, holds⟩ := List.any_eq_true.mp (stacked.2.1 rfl)
      cases f with
      | sti pc => exact absurd rfl (outer _ mem pc)
      | _ => cases holds
  | testHvec =>
      rw [stiStep] at frames ⊢
      split
      next more =>
        rw [if_pos more, stiAt_frames, top] at frames
        exact absurd frames (List.cons_ne_self _ _)
      next none => exact Option.not_isSome_iff_eq_none.mp none
  | _ =>
    -- The run is still on the stack.
    have length := congrArg List.length frames
    simp only [stiStep] at length
    try split at length
    all_goals simp [goto, top, Cpu.setLvec, Cpu.setHvec, decrement, setCount, Nat.add_assoc] at length

theorem Acts.hvec_of_returned (acts : Acts cfg g k .goOn g' k') (nested : k.Nested)
    (top : k.frames = .sti pc :: k'.frames) (outer : ∀ f ∈ k'.frames, ∀ pc, f ≠ .sti pc) :
    ffnz k'.hvec = none := by
  cases acts with
  | cli a which => rcases which with e | e <;> cases e
  | call a which => rcases which with e | e <;> cases e
  | sti pc' rest here =>
      obtain ⟨same, below⟩ := List.cons.inj (here.symm.trans top)
      cases same
      exact Cpu.hvec_of_returned nested g here below.symm (below ▸ outer)
  | pend vector stage rest here => cases here.symm.trans top
  | kbrd rest here => cases here.symm.trans top

/-- Behind such a run no irq is owed. -/
theorem Kept.owed_nothing (kept : k.Kept cfg (cfg.index irq)) (none : ffnz k.hvec = none)
    (outer : ∀ f ∈ k.frames, ∀ pc, f ≠ .sti pc)
    (done : ∀ stage, .pend (cfg.index irq) stage ∉ k.frames) :
    k.owed cfg (cfg.globalVector irq) = 0 := by
  have unmarked : ¬k.bit (cfg.index irq) = true := by
    intro set
    rcases kept.marked set with word | ⟨f, mem, covers⟩
    · rw [ffnz_none none] at word
      cases word
    · cases f with
      | sti pc => exact outer _ mem pc rfl
      | pend vector stage =>
          cases stage with
          | hvec =>
              cases covers
              exact done _ mem
          | _ => cases covers
      | _ => cases covers
  have zero : k.irqcnt (cfg.index irq) = 0 := by
    by_contra positive
    rcases kept.counted (Nat.pos_of_ne_zero positive) with set | ⟨f, mem, sees⟩
    · exact unmarked set
    · cases f with
      | sti pc => exact outer _ mem pc rfl
      | pend vector stage =>
          cases stage with
          | lvec =>
              cases sees
              exact done _ mem
          | _ => cases sees
      | _ => cases sees
  have idle : k.frames.countP (·.calling = some (cfg.globalVector irq)) = 0 := by
    rw [List.countP_eq_zero]
    intro f mem calling
    cases f with
    | sti pc => exact outer _ mem pc rfl
    | _ => simp [Frame.calling] at calling
  rw [owed, ← Config.index, zero, idle]

end Cpu

/-! ## Runs -/

variable [DecidableEq C] [DecidableEq I] {cfg : Config I} {s s' : State C I}
  {tr : List (Record (State C I) (Event C I))}

/-- The step brings the irq to Linux on the CPU. -/
def Brings (cfg : Config I) (c : C) (irq : I) (r : Record (State C I) (Event C I)) : Prop :=
  r.event.cpu = c ∧ r.event.action.forLinux cfg = some irq

/-- The step is a call of the isr on the CPU. -/
def Calls (c : C) (vector : Vector) (r : Record (State C I) (Event C I)) : Prop :=
  (r.pre.cpu c).CallsIsr (r.post.cpu c) vector

/-- A run of `linux_sti` returns that is not in another one on the CPU. -/
def Returns (c : C) (r : Record (State C I) (Event C I)) : Prop :=
  r.event = ⟨c, .goOn⟩ ∧ ∃ pc, (r.pre.cpu c).frames = .sti pc :: (r.post.cpu c).frames ∧
    ∀ f ∈ (r.post.cpu c).frames, ∀ pc, f ≠ .sti pc

instance (c : C) (irq : I) (r : Record (State C I) (Event C I)) : Decidable (Brings cfg c irq r) :=
  inferInstanceAs (Decidable (_ ∧ _))

instance (c : C) (vector : Vector) (r : Record (State C I) (Event C I)) :
    Decidable (Calls c vector r) :=
  inferInstanceAs (Decidable (Cpu.CallsIsr _ _ _))

/-- The arrivals and pends of an irq. -/
def arrivals (cfg : Config I) (c : C) (irq : I) (tr : List (Record (State C I) (Event C I))) :
    Nat :=
  tr.countP (Brings cfg c irq ·)

def calls (c : C) (vector : Vector) (tr : List (Record (State C I) (Event C I))) : Nat :=
  tr.countP (Calls c vector ·)

/-- No interrupt is lost, made up or taken for another. -/
structure Conserved (cfg : Config I) (tr : List (Record (State C I) (Event C I))) : Prop where
  notMore : ∀ c irq, irq ≠ cfg.kbrd → calls c (cfg.globalVector irq) tr ≤ arrivals cfg c irq tr
  arrived : ∀ c vector, vector ≠ cfg.globalVector cfg.kbrd → 0 < calls c vector tr →
    ∃ irq, cfg.globalVector irq = vector ∧ 0 < arrivals cfg c irq tr
  /-- Where no `rt_pend_linux_irq` for the irq is in progress. -/
  returned : ∀ c before r, tr = before ++ [r] → Returns c r → ∀ irq, irq ≠ cfg.kbrd →
    (∀ stage, .pend (cfg.index irq) stage ∉ (r.post.cpu c).frames) →
      calls c (cfg.globalVector irq) tr = arrivals cfg c irq tr

/-- There is room for what the action brings. -/
def Roomy (cfg : Config I) (s : State C I) (e : Event C I) : Prop :=
  ∀ irq ∈ e.action.forLinux cfg, (s.cpu e.cpu).Room cfg irq

/-- The irqs that have come are called for or owed. -/
structure Accounted (cfg : Config I) (tr : List (Record (State C I) (Event C I)))
    (s : State C I) : Prop where
  kept : ∀ c x, (s.cpu c).Kept cfg x
  proper : ∀ c, (s.cpu c).Proper cfg
  ledger : ∀ c vector, FIRST_EXT_VECTOR ≤ vector.val → cfg.globalVector cfg.kbrd ≠ vector →
    calls c vector tr + (s.cpu c).owed cfg vector = tr.countP fun r =>
      r.event.cpu = c ∧ (r.event.action.forLinux cfg).map cfg.globalVector = some vector
  external : ∀ c vector, 0 < calls c vector tr → FIRST_EXT_VECTOR ≤ vector.val

omit [DecidableEq C] in
theorem calls_snoc (c : C) (vector : Vector) (r : Record (State C I) (Event C I)) :
    calls c vector (tr ++ [r]) = calls c vector tr + if Calls c vector r then 1 else 0 := by
  simp [calls, List.countP_append, List.countP_singleton]

theorem Accounted.start : Accounted cfg [] ({} : State C I) where
  kept := fun c x => {
    nested := ⟨trivial, rfl⟩
    small := Nat.two_pow_pos 32
    counted := fun positive => absurd positive (Nat.lt_irrefl 0)
    marked := fun set => by cases set
    taken := fun f mem => absurd mem List.not_mem_nil
    single := fun _ twice => absurd twice (Nat.not_lt_zero 1) }
  proper := fun c f mem => absurd mem List.not_mem_nil
  ledger := fun c vector _ _ => rfl
  external := fun c vector positive => absurd positive (Nat.lt_irrefl 0)

theorem Accounted.step {e : Event C I} (acc : Accounted cfg tr s) (roomy : Roomy cfg s e)
    (stepped : s.step cfg e = some s') : Accounted cfg (tr ++ [⟨s, e, s'⟩]) s' := by
  obtain ⟨g, k, acts, rfl⟩ := State.step_acts stepped
  have kept := fun x => (acc.kept e.cpu x).acts (fun irq brings _ => roomy irq brings) acts
  have proper := (acc.proper e.cpu).acts acts
  have quiet : ∀ c vector, c ≠ e.cpu → ¬Calls c vector
      ⟨s, e, { cpu := update s.cpu e.cpu k, global := g }⟩ := by
    intro c vector other calls
    refine Cpu.not_calls_of_le (Nat.le_of_eq ?_) calls
    rw [State.elsewhere other]
  constructor
  · intro c x
    by_cases same : c = e.cpu
    · rw [same, State.here]
      exact kept x
    · rw [State.elsewhere same]
      exact acc.kept c x
  · intro c
    by_cases same : c = e.cpu
    · rw [same, State.here]
      exact proper
    · rw [State.elsewhere same]
      exact acc.proper c
  · intro c vector ext other
    have before := acc.ledger c vector ext other
    rw [calls_snoc, List.countP_append, List.countP_singleton, ← before]
    by_cases same : c = e.cpu
    · subst same
      have now := (acc.kept e.cpu _).acts_owed (acc.proper e.cpu) roomy ext other acts
      simp only [Calls, update_self, true_and, decide_eq_true_eq]
      omega
    · rw [if_neg (quiet c vector same), State.elsewhere same, if_neg]
      · rfl
      · simp [Ne.symm same]
  · intro c vector positive
    rw [calls_snoc] at positive
    split at positive
    next calls =>
      by_cases same : c = e.cpu
      · subst same
        rw [Calls, State.here] at calls
        exact proper (.isr vector) (List.mem_of_mem_head? calls.1)
      · exact absurd calls (quiet c vector same)
    next => exact acc.external c vector positive

theorem Accounted.of_run (run : Run (State.step cfg) (Roomy cfg) ({} : State C I) tr s) :
    Accounted cfg tr s :=
  run.history .start fun acc roomy stepped => acc.step roomy stepped

/-- Runs in which there is room for what comes conserve the interrupts. -/
theorem pended_irqs (run : Run (State.step cfg) (Roomy cfg) ({} : State C I) tr s) :
    Conserved cfg tr := by
  have acc := Accounted.of_run run
  have ledger : ∀ c irq, irq ≠ cfg.kbrd →
      calls c (cfg.globalVector irq) tr + (s.cpu c).owed cfg (cfg.globalVector irq) =
        arrivals cfg c irq tr := by
    intro c irq other
    rw [acc.ledger c _ (cfg.external irq) fun same => other (cfg.injective same).symm]
    refine List.countP_congr fun r _ => ?_
    rw [decide_eq_true_eq, decide_eq_true_eq, Brings]
    simp [cfg.injective.eq_iff]
  constructor
  · intro c irq other
    have balance := ledger c irq other
    omega
  · intro c vector other positive
    have balance := acc.ledger c vector (acc.external c vector positive) (Ne.symm other)
    obtain ⟨r, mem, brings⟩ := List.countP_pos_iff.mp (by omega : 0 < tr.countP fun r =>
      r.event.cpu = c ∧ (r.event.action.forLinux cfg).map cfg.globalVector = some vector)
    obtain ⟨here, which⟩ := of_decide_eq_true brings
    obtain ⟨irq, comes, named⟩ := Option.map_eq_some_iff.mp which
    exact ⟨irq, named, List.countP_pos_iff.mpr ⟨r, mem, decide_eq_true ⟨here, comes⟩⟩⟩
  · intro c before r last returns irq other done
    have balance := ledger c irq other
    have kept := acc.kept c (cfg.index irq)
    have nothing : (s.cpu c).owed cfg (cfg.globalVector irq) = 0 := by
      cases run with
      | nil => exact absurd last.symm (List.append_ne_nil_of_right_ne_nil _ (List.cons_ne_nil _ _))
      | snoc rest roomy stepped =>
          obtain ⟨rfl, e⟩ := List.append_inj' last rfl
          cases e
          obtain ⟨here, pc, top, outer⟩ := returns
          have earlier := Accounted.of_run rest
          obtain ⟨g, k, acts, rfl⟩ := State.step_acts stepped
          subst here
          rw [State.here] at top outer done kept ⊢
          have none := acts.hvec_of_returned (earlier.kept c (cfg.index irq)).nested top outer
          exact kept.owed_nothing none outer done
    omega

instance (k : Cpu I) (irq : I) : Decidable (k.Room cfg irq) :=
  inferInstanceAs (Decidable (_ ∧ (_ ∨ _ ∨ _ ∧ _)))

instance (s : State C I) (e : Event C I) : Decidable (Roomy cfg s e) :=
  inferInstanceAs (Decidable (∀ irq ∈ e.action.forLinux cfg, (s.cpu e.cpu).Room cfg irq))

/-- The irqs 0 and 1 of a machine. -/
def machine (smp : Bool) : Config (Fin 2) where
  smp := smp
  kbrd := Fin.last 1
  globalVector := fun irq => ⟨FIRST_EXT_VECTOR + irq, by unfold FIRST_EXT_VECTOR; omega⟩
  external := fun irq => Nat.le_add_right _ _
  injective := fun _ _ e => Fin.ext (Nat.add_left_cancel (congrArg Fin.val e))
  rtHandler := fun _ => false
  ext := fun _ => false
  rtaiHandler := fun _ => true

/-- A run of `linux_sti` on the only CPU that calls one isr. -/
def oneCall : List (Event Unit (Fin 2)) :=
  List.replicate 8 ⟨(), .goOn⟩ ++ ⟨(), .ret false⟩ :: List.replicate 8 ⟨(), .goOn⟩

/-- The last step is the return of a run of `linux_sti`. -/
def returned (tr : List (Record (State Unit (Fin 2)) (Event Unit (Fin 2)))) : Bool :=
  tr.getLast?.any fun r => r.event = ⟨(), .goOn⟩ ∧
    (r.pre.cpu ()).frames = [.sti .testHvec] ∧ (r.post.cpu ()).frames = []

theorem returns_of_returned {tr : List (Record (State Unit (Fin 2)) (Event Unit (Fin 2)))}
    (test : returned tr = true) :
    ∃ before r, tr = before ++ [r] ∧ Returns () r ∧ (r.post.cpu ()).frames = [] := by
  obtain ⟨r, last, here⟩ := (Option.any_eq_true _ _).mp test
  obtain ⟨goes, top, below⟩ := of_decide_eq_true here
  refine ⟨tr.dropLast, r, (List.dropLast_append_getLast? r last).symm, ⟨goes, .testHvec, ?_, ?_⟩,
    below⟩
  · rw [top, below]
  · rw [below]
    intro f mem
    cases mem

/-- An irq comes a second time while its counter is taken from, and both are called for. -/
theorem pended_irqs_twice :
    ∃ tr s, Run (State.step (machine true)) (Roomy (machine true))
      ({} : State Unit (Fin 2)) tr s ∧ returned tr = true ∧
      calls () ((machine true).globalVector 0) tr = 2 ∧ Conserved (machine true) tr := by
  have ⟨tr, s, run, test⟩ := Run.of_records (State.step (machine true)) (Roomy (machine true))
    ({} : State Unit (Fin 2))
    ([⟨(), .linuxCli⟩, ⟨(), .arrive 0⟩, ⟨(), .linuxSti⟩] ++ List.replicate 5 ⟨(), .goOn⟩ ++
      ⟨(), .pendLinuxIrq 0⟩ :: List.replicate 5 ⟨(), .goOn⟩ ++
      ⟨(), .ret false⟩ :: List.replicate 7 ⟨(), .goOn⟩ ++
      ⟨(), .ret false⟩ :: List.replicate 12 ⟨(), .goOn⟩)
    (fun tr _ => returned tr ∧ calls () ((machine true).globalVector 0) tr = 2) (by decide +kernel)
  obtain ⟨last, twice⟩ := of_decide_eq_true test
  exact ⟨tr, s, run, last, twice, pended_irqs run⟩

/-- An irq comes twice with interrupts disabled: its isr is called once. -/
theorem irq_left_behind :
    ¬∀ tr s, Run (State.step (machine true)) (fun _ _ => True) ({} : State Unit (Fin 2)) tr s →
      Conserved (machine true) tr := by
  intro conserved
  have ⟨tr, s, run, test⟩ := Run.of_records (State.step (machine true)) (fun _ _ => True)
    ({} : State Unit (Fin 2))
    ([⟨(), .linuxCli⟩, ⟨(), .arrive 0⟩, ⟨(), .arrive 0⟩, ⟨(), .linuxSti⟩] ++ oneCall)
    (fun tr _ => returned tr ∧ arrivals (machine true) () 0 tr = 2 ∧
      calls () ((machine true).globalVector 0) tr = 1) (by decide +kernel)
  obtain ⟨last, twice, once⟩ := of_decide_eq_true test
  obtain ⟨before, r, last, returns, below⟩ := returns_of_returned last
  have equal := (conserved tr s run).returned () before r last returns 0 (by decide) (by simp [below])
  rw [once, twice] at equal
  cases equal

end Rtai.Irq
