import Rtai.Irq.Sti

/-!
# Runs of `linux_sti` inside each other

On the stack of a CPU at most one run of `linux_sti` holds the bit of `cpu_in_sti`.  A run
that finds it set is above that one, and the handler of a system request is right above the
run that called it.
-/

namespace Rtai.Irq

open Function

variable {I : Type} {f : Frame I} {fs : List (Frame I)}

/-- The run of `linux_sti` holds the bit of `cpu_in_sti`. -/
def Pc.holds : Pc → Bool
  | .enter | .testHvec | .leave => false
  | _ => true

def Frame.holds : Frame I → Bool
  | .sti pc => pc.holds
  | _ => false

/-- The run holds the bit, or has just released it. -/
def Frame.took : Frame I → Bool
  | .sti pc => pc.holds || pc = .testHvec
  | _ => false

/-- A run holds the bit. -/
def held (fs : List (Frame I)) : Bool := fs.any Frame.holds

@[simp] theorem held_nil : held ([] : List (Frame I)) = false := rfl

@[simp] theorem held_cons (f : Frame I) (fs : List (Frame I)) :
    held (f :: fs) = (f.holds || held fs) := rfl

/-- What may be above what. -/
def Stacked : List (Frame I) → Prop
  | [] => True
  | f :: fs =>
      (f.took = true → held fs = false) ∧ (f = .sti .leave → held fs = true) ∧
      (∀ srq, f = .srq srq → ∃ h l, fs.head? = some (.sti (.clearActiv h l srq))) ∧ Stacked fs

structure Cpu.Nested (k : Cpu I) : Prop where
  stacked : Stacked k.frames
  inSti : k.inSti = held k.frames

/-- Something other than `linux_sti` and the handlers of system requests. -/
def Frame.plain : Frame I → Bool
  | .sti _ | .srq _ => false
  | _ => true

theorem Frame.holds_of_plain (plain : f.plain = true) : f.holds = false := by
  cases f with
  | sti pc => cases plain
  | _ => rfl

theorem Stacked.push (plain : f.plain = true) (stacked : Stacked fs) : Stacked (f :: fs) := by
  cases f with
  | sti pc => cases plain
  | srq srq => cases plain
  | _ => exact ⟨nofun, nofun, nofun, stacked⟩

theorem Stacked.enter (stacked : Stacked fs) : Stacked (.sti .enter :: fs) :=
  ⟨nofun, nofun, nofun, stacked⟩

namespace Cpu

variable {k k' : Cpu I} {rest : List (Frame I)} {pc pc' : Pc}

section

variable (nested : k.Nested)
include nested

theorem Nested.same (frames : k'.frames = k.frames) (inSti : k'.inSti = k.inSti) : k'.Nested :=
  ⟨frames ▸ nested.stacked, by rw [inSti, frames, nested.inSti]⟩

theorem Nested.push (plain : f.plain = true) (frames : k'.frames = f :: k.frames)
    (inSti : k'.inSti = k.inSti) : k'.Nested := by
  refine ⟨?_, ?_⟩
  · rw [frames]
    exact nested.stacked.push plain
  · rw [frames, inSti, held_cons, Frame.holds_of_plain plain, nested.inSti, Bool.false_or]

theorem Nested.pushSti (frames : k'.frames = .sti .enter :: k.frames) (inSti : k'.inSti = k.inSti) :
    k'.Nested := by
  refine ⟨?_, ?_⟩
  · rw [frames]
    exact nested.stacked.enter
  · rw [frames, inSti, nested.inSti]
    rfl

/-- What does not hold the bit may go away. -/
theorem Nested.pop (top : k.frames = f :: rest) (free : f.holds = false) (frames : k'.frames = rest)
    (inSti : k'.inSti = k.inSti) : k'.Nested := by
  have stacked := nested.stacked
  have bit := nested.inSti
  rw [top] at stacked bit
  refine ⟨?_, ?_⟩
  · rw [frames]
    exact stacked.2.2.2
  · rw [frames, inSti, bit, held_cons, free, Bool.false_or]

/-- Below a run that holds the bit, or has just released it, none holds it. -/
theorem Nested.free_below {g : Frame I} (top : k.frames = f :: rest) (took : f.took = true)
    (below : g ∈ rest) : g.holds = false := by
  have stacked := nested.stacked
  rw [top] at stacked
  have free := stacked.1 took
  rw [held, List.any_eq_false] at free
  exact Bool.eq_false_of_not_eq_true (free g below)

/-- The run on top keeps the bit. -/
theorem Nested.stay (top : k.frames = .sti pc :: rest) (holds : pc.holds = true)
    (holds' : pc'.holds = true) (frames : k'.frames = .sti pc' :: rest)
    (inSti : k'.inSti = k.inSti) :
    k'.Nested := by
  have stacked := nested.stacked
  have bit := nested.inSti
  rw [top] at stacked bit
  have free : held rest = false := stacked.1 (by simp [Frame.took, holds])
  refine ⟨?_, ?_⟩
  · rw [frames]
    refine ⟨fun _ => free, fun e => ?_, nofun, stacked.2.2.2⟩
    cases e
    cases holds'
  · rw [frames, inSti, bit]
    simp [Frame.holds, holds, holds']

end

@[simp] theorem stiAt_frames (k : Cpu I) (pc : Pc) :
    (k.stiAt pc).frames = .sti pc :: k.frames.tail := rfl

@[simp] theorem pop_frames (k : Cpu I) : k.pop.frames = k.frames.tail := rfl

@[simp] theorem stiAt_irqcnt (k : Cpu I) (pc : Pc) : (k.stiAt pc).irqcnt = k.irqcnt := rfl

@[simp] theorem stiAt_inSti (k : Cpu I) (pc : Pc) : (k.stiAt pc).inSti = k.inSti := rfl

theorem Nested.enter (nested : k.Nested) (top : k.frames = .sti .enter :: rest) :
    (if k.inSti then k.stiAt .leave else { k with inSti := true }.stiAt .readHvec).Nested := by
  have stacked := nested.stacked
  have bit := nested.inSti
  rw [top] at stacked bit
  have below : held rest = k.inSti := by simpa [Frame.holds, Pc.holds] using bit.symm
  split
  next taken =>
    refine ⟨?_, ?_⟩
    · rw [stiAt_frames, top]
      exact ⟨by simp [Frame.took, Pc.holds], fun _ => below.trans taken, by simp, stacked.2.2.2⟩
    · rw [stiAt_frames, stiAt_inSti, top]
      simp [Frame.holds, Pc.holds, below]
  next free =>
    refine ⟨?_, ?_⟩
    · rw [stiAt_frames, top]
      refine ⟨fun _ => ?_, by simp, by simp, stacked.2.2.2⟩
      rw [List.tail_cons, below]
      exact Bool.eq_false_of_not_eq_true free
    · rfl

theorem Nested.release (nested : k.Nested) (top : k.frames = .sti .release :: rest) :
    ({ k with inSti := false }.stiAt .testHvec).Nested := by
  have stacked := nested.stacked
  rw [top] at stacked
  have free : held rest = false := stacked.1 rfl
  refine ⟨?_, ?_⟩
  · rw [stiAt_frames, top]
    exact ⟨fun _ => free, by simp, by simp, stacked.2.2.2⟩
  · rw [stiAt_frames, stiAt_inSti, top]
    simp [Frame.holds, Pc.holds, free]

/-- A run calls something and goes on behind the call. -/
theorem Nested.call (nested : k.Nested) (top : k.frames = .sti pc :: rest) (holds : pc.holds = true)
    (holds' : pc'.holds = true)
    (calls : f.plain = true ∨ ∃ h l srq, f = .srq srq ∧ pc' = .clearActiv h l srq) :
    (k.goto [f, .sti pc']).Nested := by
  have stay : (k.stiAt pc').Nested :=
    nested.stay top holds holds' (by rw [stiAt_frames, top, List.tail_cons]) rfl
  rcases calls with plain | ⟨h, l, srq, rfl, rfl⟩
  · exact stay.push plain rfl rfl
  · refine ⟨⟨by simp [Frame.took], by simp, fun i e => ?_, stay.stacked⟩, stay.inSti⟩
    cases e
    exact ⟨h, l, rfl⟩

theorem Nested.stiStep (cfg : Config I) (g : Global) (nested : k.Nested)
    (top : k.frames = .sti pc :: rest) : (stiStep cfg g k pc).2.Nested := by
  have tail : k.frames.tail = rest := by rw [top, List.tail_cons]
  cases pc with
  | enter => exact nested.enter top
  | release => exact nested.release top
  | leave => exact nested.pop top rfl tail rfl
  | testHvec =>
      rw [Irq.stiStep]
      split
      next =>
        have popped : k.pop.Nested := nested.pop top rfl tail rfl
        exact popped.pushSti rfl rfl
      next => exact nested.pop top rfl tail rfl
  | doLinuxIrq h l vec => exact nested.call top rfl rfl (.inl rfl)
  | rtaiHandler h l srq =>
      rw [Irq.stiStep]
      split
      next => exact nested.call top rfl rfl (.inr ⟨h, l, srq, rfl, rfl⟩)
      next => exact nested.stay top rfl rfl (congrArg _ tail) rfl
  | _ =>
      -- The run holds the bit before and after the step.
      simp only [Irq.stiStep]
      try split
      all_goals refine nested.stay top rfl ?_ (congrArg _ tail) rfl
      all_goals first | rfl | (cases ffnz _ <;> rfl)

theorem Nested.pendStep {vector : Vector} {stage : Marking} (nested : k.Nested)
    (top : k.frames = .pend vector stage :: rest) : (pendStep k vector stage).Nested := by
  have tail : k.frames.tail = rest := by rw [top, List.tail_cons]
  have popped : k.pop.Nested := nested.pop top rfl tail rfl
  cases stage with
  | count => exact popped.push rfl rfl rfl
  | lvec => exact popped.push rfl rfl rfl
  | hvec => exact popped.same rfl rfl

theorem Nested.dispatched (nested : k.Nested) : (dispatched k).Nested := by
  rw [Irq.dispatched]
  split
  next => exact nested.push rfl rfl rfl
  next => exact nested

/-- Every action keeps the stack in order. -/
theorem Nested.acts {cfg : Config I} {g g' : Global} {a : Action I} (nested : k.Nested)
    (acts : Acts cfg g k a g' k') : k'.Nested := by
  cases acts with
  | handler irq => exact nested.push rfl rfl rfl
  | keyboard => exact nested.dispatched
  | arrived irq =>
      apply Nested.dispatched
      exact nested.same rfl rfl
  | pendLinuxIrq irq => exact nested.push rfl rfl rfl
  | pending srq => exact nested
  | pendLinuxSrq srq => exact nested.push rfl rfl rfl
  | cli => exact nested.same rfl rfl
  | call => exact nested.pushSti rfl rfl
  | isr retval vector rest top => exact nested.pop top rfl (by rw [pop_frames, top]; rfl) rfl
  | srq retval srq rest top => exact nested.pop top rfl (by rw [pop_frames, top]; rfl) rfl
  | handled retval irq rest top =>
      have popped : k.pop.Nested := nested.pop top rfl (by rw [pop_frames, top]; rfl) rfl
      rw [Irq.handled]
      split
      next => exact popped
      next => exact popped.dispatched
  | sti pc rest top => exact nested.stiStep cfg g top
  | pend vector stage rest top => exact nested.pendStep top
  | kbrd rest top =>
      have popped : k.pop.Nested := nested.pop top rfl (by rw [pop_frames, top]; rfl) rfl
      have called : (k.goto [.sti .enter]).Nested := popped.pushSti rfl rfl
      split
      next => exact called.push rfl rfl rfl
      next => exact called

end Cpu
end Rtai.Irq
