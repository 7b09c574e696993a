import Rtai.Irq.Marks
import Rtai.Lib.Run
import Rtai.Lib.Token

/-!
# System requests

A CPU is responsible for a request while its counter is set, or about to be, and while a
run of `linux_sti` is in the loop that serves it.  `SrqActs` says what an action is to one
request; from it follow that its handler runs once at a time, and that somebody is
responsible as long as it is pending.

The loop tests `pending_srqs` before it sets the bit of `activ_srqs` and not again, so a
CPU that comes late runs the handler of a request that another one has served.
-/

namespace Rtai.Irq

open Function Rtai.Lib

variable {C I : Type} {p : Phase}

/-- Where a run is between the setting and the clearing of `activ_srqs`. -/
inductive Phase where
  | clear
  | start
  | done
deriving DecidableEq

namespace Frame

def phase (srq : Srq) : Frame I → Option Phase
  | .sti (.clearPending _ _ s) => if s = srq then some .clear else none
  | .sti (.rtaiHandler _ _ s) => if s = srq then some .start else none
  | .sti (.clearActiv _ _ s) => if s = srq then some .done else none
  | _ => none

/-- The run is in the loop that serves the request, or the counter is about to be set. -/
def Sees (cfg : Config I) (srq : Srq) : Frame I → Prop
  | .sti (.testPending _ _ s) | .sti (.setActiv _ _ s) | .sti (.clearPending _ _ s)
  | .sti (.rtaiHandler _ _ s) | .sti (.clearActiv _ _ s) => s = srq
  | .pend x .count => x = VECTRANS cfg.smp srq.vector
  | _ => False

theorem sees_of_phase (f : Frame I) {srq : Srq} (cfg : Config I) (here : f.phase srq = some p) :
    f.Sees cfg srq := by
  cases f with
  | sti pc =>
      cases pc with
      | clearPending h l s => exact (Option.ite_none_right_eq_some.mp here).1
      | rtaiHandler h l s => exact (Option.ite_none_right_eq_some.mp here).1
      | clearActiv h l s => exact (Option.ite_none_right_eq_some.mp here).1
      | _ => cases here
  | _ => cases here

end Frame

namespace Cpu

/-- A run is at the phase of serving the request. -/
def At (k : Cpu I) (srq : Srq) (p : Phase) : Prop := ∃ f ∈ k.frames, f.phase srq = some p

/-- The request will not be forgotten here. -/
def Responsible (cfg : Config I) (k : Cpu I) (srq : Srq) : Prop :=
  0 < k.irqcnt (VECTRANS cfg.smp srq.vector) ∨ ∃ f ∈ k.frames, f.Sees cfg srq

/-- The step starts the handler. -/
def Starts (k k' : Cpu I) (srq : Srq) : Prop :=
  k'.frames.head? = some (.srq srq) ∧ k'.frames.length = k.frames.length + 1

/-- What an action is to a request. -/
inductive SrqActs (cfg : Config I) (srq : Srq) (g : Global) (k : Cpu I) (a : Action I)
    (g' : Global) (k' : Cpu I) : Prop
  | quiet (pending : g'.pendingSrqs srq = g.pendingSrqs srq)
      (activ : g'.activSrqs srq = g.activSrqs srq) (phases : ∀ p, k'.At srq p ↔ k.At srq p)
      (responsible : k'.Responsible cfg srq ↔ k.Responsible cfg srq)
      (starts : ¬k.Starts k' srq) (asks : a = .pendLinuxSrq srq → g.pendingSrqs srq = true)
  | pend (asks : a = .pendLinuxSrq srq) (unset : g.pendingSrqs srq = false)
      (pending : g'.pendingSrqs srq = true) (activ : g'.activSrqs srq = g.activSrqs srq)
      (phases : ∀ p, k'.At srq p ↔ k.At srq p) (responsible : k'.Responsible cfg srq)
      (starts : ¬k.Starts k' srq)
  | drop (goes : a = .goOn) (why : g.pendingSrqs srq = false ∨ g.activSrqs srq = true)
      (same : g' = g) (phases : ∀ p, k'.At srq p ↔ k.At srq p)
      (responsible : k.Responsible cfg srq) (starts : ¬k.Starts k' srq)
  | take (goes : a = .goOn) (free : g.activSrqs srq = false) (h : Fin 8) (l : Fin 32)
      (top : k.frames.head? = some (.sti (.setActiv h l srq)))
      (activ : g'.activSrqs srq = true) (pending : g'.pendingSrqs srq = g.pendingSrqs srq)
      (phases : ∀ p, k'.At srq p ↔ p = .clear) (before : ∀ p, ¬k.At srq p)
      (responsible : k.Responsible cfg srq) (starts : ¬k.Starts k' srq)
  | clear (goes : a = .goOn) (here : k.At srq .clear) (pending : g'.pendingSrqs srq = false)
      (activ : g'.activSrqs srq = g.activSrqs srq) (phases : ∀ p, k'.At srq p ↔ p = .start)
      (starts : ¬k.Starts k' srq)
  | start (goes : a = .goOn) (here : k.At srq .start)
      (pending : g'.pendingSrqs srq = g.pendingSrqs srq)
      (activ : g'.activSrqs srq = g.activSrqs srq) (phases : ∀ p, k'.At srq p ↔ p = .done)
      (starts : k.Starts k' srq)
  | release (goes : a = .goOn) (here : k.At srq .done) (activ : g'.activSrqs srq = false)
      (pending : g'.pendingSrqs srq = g.pendingSrqs srq) (phases : ∀ p, ¬k'.At srq p)
      (responsible : k'.Responsible cfg srq) (starts : ¬k.Starts k' srq)

variable {cfg : Config I} {srq : Srq} {g g' : Global} {k k' : Cpu I} {a : Action I}
  {rest fs old : List (Frame I)} {f : Frame I} {pc : Pc} {vec : Vector}

theorem not_starts_of_le (shorter : k'.frames.length ≤ k.frames.length) : ¬k.Starts k' srq := by
  intro starts
  have longer := starts.2
  omega

theorem not_starts_of_head (frames : k'.frames = f :: fs) (other : f ≠ .srq srq) :
    ¬k.Starts k' srq := by
  intro starts
  have head := starts.1
  rw [frames] at head
  exact other (Option.some.inj head)

theorem exists_changed_iff {p : Frame I → Prop} {rest : List (Frame I)} (before : ∀ f ∈ old, ¬p f)
    (after : ∀ f ∈ fs, ¬p f) : (∃ f ∈ fs ++ rest, p f) ↔ ∃ f ∈ old ++ rest, p f := by
  constructor
  · intro sees
    exact exists_changed sees fun f here sees => absurd sees (after f here)
  · intro sees
    exact exists_changed sees fun f here sees => absurd sees (before f here)

/-- The top is changed, and has to do with other requests only. -/
theorem SrqActs.unseen (top : k.frames = old ++ rest) (frames : k'.frames = fs ++ rest)
    (before : ∀ f ∈ old, ¬f.Sees cfg srq) (after : ∀ f ∈ fs, ¬f.Sees cfg srq)
    (irqcnt : k'.irqcnt (VECTRANS cfg.smp srq.vector) = k.irqcnt (VECTRANS cfg.smp srq.vector))
    (pending : g'.pendingSrqs srq = g.pendingSrqs srq) (activ : g'.activSrqs srq = g.activSrqs srq)
    (starts : ¬k.Starts k' srq) (asks : a = .pendLinuxSrq srq → g.pendingSrqs srq = true) :
    SrqActs cfg srq g k a g' k' := by
  refine .quiet pending activ ?_ ?_ starts asks
  · intro p
    rw [At, At, top, frames]
    exact exists_changed_iff (fun f here at' => before f here (f.sees_of_phase cfg at'))
      fun f here at' => after f here (f.sees_of_phase cfg at')
  · rw [Responsible, Responsible, irqcnt, top, frames, exists_changed_iff before after]

/-- The run on top is the only one that can be in the loop. -/
theorem Nested.at_iff (nested : k.Nested) (top : k.frames = .sti pc :: rest)
    (holds : pc.holds = true) : k.At srq p ↔ (.sti pc : Frame I).phase srq = some p := by
  rw [At, top]
  constructor
  · intro ⟨f, mem, here⟩
    rcases List.mem_cons.mp mem with rfl | below
    · exact here
    · have free := nested.free_below top (by simp [Frame.took, holds]) below
      cases f with
      | sti pc =>
          cases pc with
          | clearPending h l s => cases free
          | rtaiHandler h l s => cases free
          | clearActiv h l s => cases free
          | _ => cases here
      | _ => cases here
  · intro here
    exact ⟨_, List.mem_cons_self, here⟩

/-- A run goes on that has to do with other requests only. -/
theorem SrqActs.other {pc' : Pc} (top : k.frames = .sti pc :: rest)
    (frames : k'.frames = .sti pc' :: rest) (before : ¬(.sti pc : Frame I).Sees cfg srq)
    (after : ¬(.sti pc' : Frame I).Sees cfg srq)
    (irqcnt : k'.irqcnt (VECTRANS cfg.smp srq.vector) = k.irqcnt (VECTRANS cfg.smp srq.vector))
    (pending : g'.pendingSrqs srq = g.pendingSrqs srq) (activ : g'.activSrqs srq = g.activSrqs srq) :
    SrqActs cfg srq g k .goOn g' k' := by
  have old : k.frames = [.sti pc] ++ rest := top
  have new : k'.frames = [.sti pc'] ++ rest := frames
  refine .unseen old new ?_ ?_ irqcnt pending activ (not_starts_of_head frames (by simp)) (by simp)
  · simpa using before
  · simpa using after

theorem stiStep_dec (h : Fin 8) (l : Fin 32) (same : VECTRANS cfg.smp vec = srq.vector) :
    stiStep cfg g k (.dec h l vec) = (g, (k.decrement vec).stiAt (.testPending h l srq)) := by
  have low : srq.vector.val < FIRST_EXT_VECTOR := srq.isLt
  rw [stiStep, same, dif_pos low]
  rfl

theorem Kept.srqDec {h : Fin 8} {l : Fin 32} (kept : k.Kept cfg (VECTRANS cfg.smp srq.vector))
    (top : k.frames = .sti (.dec h l vec) :: rest) :
    SrqActs cfg srq g k .goOn g (stiStep cfg g k (.dec h l vec)).2 := by
  have frames : ∀ pc, ((k.decrement vec).stiAt pc).frames = .sti pc :: rest := by
    intro pc
    rw [stiAt_frames, Cpu.decrement, setCount, top, List.tail_cons]
  by_cases same : VECTRANS cfg.smp vec = srq.vector
  · have vec : vec = VECTRANS cfg.smp srq.vector := vectrans_eq_iff.mp same
    subst vec
    have positive := (kept.decrement top).1
    have nested := kept.nested.stiStep cfg g top
    rw [stiStep_dec h l same] at nested ⊢
    refine .quiet rfl rfl ?_ ?_ (not_starts_of_head (frames _) (by simp)) (by simp)
    · intro p
      rw [nested.at_iff (frames _) rfl, kept.nested.at_iff top rfl]
      rfl
    · refine iff_of_true (.inr ⟨.sti (.testPending h l srq), ?_, rfl⟩) (.inl positive)
      rw [frames]
      exact List.mem_cons_self
  · have other : VECTRANS cfg.smp srq.vector ≠ vec := fun e => same (vectrans_eq_iff.mpr e.symm)
    have irqcnt : (k.decrement vec).irqcnt (VECTRANS cfg.smp srq.vector) =
      k.irqcnt (VECTRANS cfg.smp srq.vector) := update_of_ne other ..
    simp only [stiStep]
    split
    next low =>
      refine .other top (frames _) (by simp [Frame.Sees]) ?_ irqcnt rfl rfl
      intro sees
      have named : (⟨(VECTRANS cfg.smp vec).val, low⟩ : Srq) = srq := sees
      have value : (VECTRANS cfg.smp vec).val = srq.val := congrArg Fin.val named
      exact same (Fin.ext value)
    next => exact .other top (frames _) (by simp [Frame.Sees]) (by simp [Frame.Sees]) irqcnt rfl rfl

theorem Kept.srqSti (kept : k.Kept cfg (VECTRANS cfg.smp srq.vector))
    (handler : cfg.rtaiHandler srq = true) (top : k.frames = .sti pc :: rest) :
    SrqActs cfg srq g k .goOn (stiStep cfg g k pc).1 (stiStep cfg g k pc).2 := by
  have tail : k.frames.tail = rest := by rw [top, List.tail_cons]
  have nested := kept.nested.stiStep cfg g top
  have before : k.frames = [.sti pc] ++ rest := top
  have sees (sees : (.sti pc : Frame I).Sees cfg srq) : k.Responsible cfg srq :=
    .inr ⟨_, top ▸ List.mem_cons_self, sees⟩
  cases pc with
  | dec h l vec => exact kept.srqDec top
  | testPending h l s =>
      by_cases same : s = srq
      · subst same
        cases pending : g.pendingSrqs s with
        | true =>
            rw [stiStep, pending] at nested ⊢
            refine .quiet rfl rfl ?_ ?_ (not_starts_of_head rfl (by simp)) (by simp)
            · intro p
              rw [nested.at_iff (congrArg _ tail) rfl, kept.nested.at_iff top rfl]
              rfl
            · exact iff_of_true (.inr ⟨_, List.mem_cons_self, rfl⟩) (sees rfl)
        | false =>
            rw [stiStep, pending] at nested ⊢
            refine .drop rfl (.inl pending) rfl ?_ (sees rfl) (not_starts_of_head rfl (by simp))
            intro p
            rw [nested.at_iff (congrArg _ tail) rfl, kept.nested.at_iff top rfl]
            rfl
      · refine .other top (congrArg _ tail) same ?_ rfl rfl rfl
        split
        next => exact same
        next => simp [Frame.Sees]
  | setActiv h l s =>
      by_cases same : s = srq
      · subst same
        cases activ : g.activSrqs s with
        | true =>
            rw [stiStep, if_pos activ] at nested ⊢
            refine .drop rfl (.inr activ) rfl ?_ (sees rfl) (not_starts_of_head rfl (by simp))
            intro p
            rw [nested.at_iff (congrArg _ tail) rfl, kept.nested.at_iff top rfl]
            rfl
        | false =>
            have free : ¬g.activSrqs s = true := by simp [activ]
            rw [stiStep, if_neg free] at nested ⊢
            refine .take rfl activ h l (by rw [top]; rfl) (update_self ..) rfl ?_ ?_ (sees rfl)
              (not_starts_of_head rfl (by simp))
            · intro p
              rw [nested.at_iff (congrArg _ tail) rfl]
              simp [Frame.phase, eq_comm]
            · intro p
              rw [kept.nested.at_iff top rfl]
              simp [Frame.phase]
      · have other : update g.activSrqs s true srq = g.activSrqs srq :=
          update_of_ne (Ne.symm same) ..
        rw [stiStep]
        split
        next => exact .other top (congrArg _ tail) same (by simp [Frame.Sees]) rfl rfl rfl
        next => exact .other top (congrArg _ tail) same same rfl rfl other
  | clearPending h l s =>
      by_cases same : s = srq
      · subst same
        have here : (.sti (.clearPending h l s) : Frame I).phase s = some .clear := by
          simp [Frame.phase]
        refine .clear rfl ⟨_, top ▸ List.mem_cons_self, here⟩ (update_self ..) rfl ?_
          (not_starts_of_head rfl (by simp))
        intro p
        rw [nested.at_iff (congrArg _ tail) rfl]
        simp [Frame.phase, eq_comm]
      · exact .other top (congrArg _ tail) same same rfl (update_of_ne (Ne.symm same) ..) rfl
  | rtaiHandler h l s =>
      by_cases same : s = srq
      · subst same
        have here : (.sti (.rtaiHandler h l s) : Frame I).phase s = some .start := by
          simp [Frame.phase]
        rw [stiStep, if_pos handler] at nested ⊢
        refine .start rfl ⟨_, top ▸ List.mem_cons_self, here⟩ rfl rfl ?_ ⟨rfl, ?_⟩
        · intro p
          have back : (k.stiAt (.clearActiv h l s)).Nested :=
            kept.nested.stay top rfl rfl (congrArg _ tail) rfl
          have below : (k.goto [.srq s, .sti (.clearActiv h l s)]).At s p ↔
              (k.stiAt (.clearActiv h l s)).At s p := by
            simp [At, goto, show (.srq s : Frame I).phase s = none from rfl]
          rw [below, back.at_iff (congrArg _ tail) rfl]
          simp [Frame.phase, eq_comm]
        · simp [goto, top]
      · rw [stiStep]
        split
        next =>
          have frames : (k.goto [.srq s, .sti (.clearActiv h l s)]).frames =
              [.srq s, .sti (.clearActiv h l s)] ++ rest := by rw [goto, tail]
          exact .unseen before frames (by simp [Frame.Sees, same])
            (by simp [Frame.Sees, same]) rfl rfl rfl (not_starts_of_head frames (by simpa using same)) (by simp)
        next => exact .other top (congrArg _ tail) same same rfl rfl rfl
  | clearActiv h l s =>
      by_cases same : s = srq
      · subst same
        have here : (.sti (.clearActiv h l s) : Frame I).phase s = some .done := by
          simp [Frame.phase]
        refine .release rfl ⟨_, top ▸ List.mem_cons_self, here⟩ (update_self ..) rfl ?_
          (.inr ⟨_, List.mem_cons_self, rfl⟩) (not_starts_of_head rfl (by simp))
        intro p
        rw [nested.at_iff (congrArg _ tail) rfl]
        simp [Frame.phase]
      · exact .other top (congrArg _ tail) same same rfl rfl (update_of_ne (Ne.symm same) ..)
  | doLinuxIrq h l vec =>
      have frames : (stiStep cfg g k (.doLinuxIrq h l vec)).2.frames =
          [.isr vec, .sti (.test h l vec)] ++ rest := by
        rw [stiStep, goto, tail]
      exact .unseen before frames (by simp [Frame.Sees]) (by simp [Frame.Sees]) rfl rfl rfl
        (not_starts_of_head frames (by simp)) (by simp)
  | readHvec =>
      refine .other top (congrArg _ tail) (by simp [Frame.Sees]) ?_ rfl rfl rfl
      cases ffnz k.hvec with
      | none => simp [Frame.Sees]
      | some h => simp [Frame.Sees]
  | readLvec h =>
      refine .other top (congrArg _ tail) (by simp [Frame.Sees]) ?_ rfl rfl rfl
      cases ffnz (k.lvec h) with
      | none => simp [Frame.Sees]
      | some l => simp [Frame.Sees]
  | testHvec =>
      rw [stiStep]
      split
      next => exact .other top (congrArg _ tail) (by simp [Frame.Sees]) (by simp [Frame.Sees]) rfl rfl rfl
      next =>
        have frames : k.pop.frames = [] ++ rest := tail
        exact .unseen before frames (by simp [Frame.Sees]) (by simp) rfl rfl rfl
          (not_starts_of_le (by simp)) (by simp)
  | leave =>
      have frames : (stiStep cfg g k .leave).2.frames = [] ++ rest := tail
      exact .unseen before frames (by simp [Frame.Sees]) (by simp) rfl rfl rfl
        (not_starts_of_le (by simp [stiStep])) (by simp)
  | _ =>
    -- The run is not in the loop before or behind the step.
    simp only [stiStep]
    try split
    all_goals refine .other top (congrArg _ tail) (by simp [Frame.Sees]) ?_ rfl rfl rfl
    all_goals simp [Frame.Sees]

/-- Something is put on top that has nothing to do with the request. -/
theorem SrqActs.push (frames : k'.frames = f :: k.frames) (unseen : ¬f.Sees cfg srq)
    (other : f ≠ .srq srq)
    (irqcnt : k'.irqcnt (VECTRANS cfg.smp srq.vector) = k.irqcnt (VECTRANS cfg.smp srq.vector))
    (pending : g'.pendingSrqs = g.pendingSrqs) (activ : g'.activSrqs = g.activSrqs)
    (asks : a ≠ .pendLinuxSrq srq) : SrqActs cfg srq g k a g' k' := by
  have before : k.frames = [] ++ k.frames := rfl
  have after : k'.frames = [f] ++ k.frames := frames
  exact .unseen before after (by simp) (by simpa using unseen) irqcnt (by rw [pending])
    (by rw [activ]) (not_starts_of_head frames other) fun e => absurd e asks

/-- Such a thing goes away. -/
theorem SrqActs.pop (top : k.frames = f :: rest) (frames : k'.frames = rest)
    (unseen : ¬f.Sees cfg srq) (irqcnt : k'.irqcnt = k.irqcnt) (asks : a ≠ .pendLinuxSrq srq) :
    SrqActs cfg srq g k a g k' := by
  have before : k.frames = [f] ++ rest := top
  have after : k'.frames = [] ++ rest := frames
  exact .unseen before after (by simpa using unseen) (by simp) (by rw [irqcnt]) rfl rfl
    (not_starts_of_le (by simp [frames, top])) fun e => absurd e asks

theorem SrqActs.dispatched {k₁ : Cpu I} (top : k.frames = old ++ rest) (frames : k₁.frames = rest)
    (unseen : ∀ f ∈ old, ¬f.Sees cfg srq)
    (irqcnt : k₁.irqcnt (VECTRANS cfg.smp srq.vector) = k.irqcnt (VECTRANS cfg.smp srq.vector))
    (pending : g'.pendingSrqs = g.pendingSrqs) (activ : g'.activSrqs = g.activSrqs)
    (asks : a ≠ .pendLinuxSrq srq) : SrqActs cfg srq g k a g' (dispatched k₁) := by
  rw [Irq.dispatched]
  split
  next =>
    have after : ({ k₁ with intrFlag := false }.push .kbrd).frames = [.kbrd] ++ rest :=
      congrArg _ frames
    exact .unseen top after unseen (by simp [Frame.Sees]) irqcnt (by rw [pending]) (by rw [activ])
      (not_starts_of_head after (by simp)) fun e => absurd e asks
  next =>
    have after : k₁.frames = [] ++ rest := frames
    exact .unseen top after unseen (by simp) irqcnt (by rw [pending]) (by rw [activ])
      (not_starts_of_le (by simp [frames, top])) fun e => absurd e asks

/-- The counter of a request is not that of an irq. -/
theorem index_ne (irq : I) : VECTRANS cfg.smp srq.vector ≠ cfg.index irq := by
  intro e
  have same : srq.vector = cfg.globalVector irq := by
    rw [Config.index, vectrans_eq_iff, vectrans_vectrans] at e
    exact e
  have external := cfg.external irq
  rw [← same] at external
  exact absurd srq.isLt (Nat.not_lt_of_ge external)

theorem srqPend {vector : Vector} {stage : Marking}
    (top : k.frames = .pend vector stage :: rest) :
    SrqActs cfg srq g k .goOn g (pendStep k vector stage) := by
  have tail : k.frames.tail = rest := by rw [top, List.tail_cons]
  have before : k.frames = [.pend vector stage] ++ rest := top
  cases stage with
  | count =>
      have frames : (pendStep k vector .count).frames = [.pend vector .lvec] ++ rest :=
        congrArg _ tail
      by_cases same : vector = VECTRANS cfg.smp srq.vector
      · refine .quiet rfl rfl ?_ ?_ (not_starts_of_head frames (by simp)) (by simp)
        · intro p
          rw [At, At, before, frames]
          exact exists_changed_iff (by simp [Frame.phase]) (by simp [Frame.phase])
        · refine iff_of_true (.inl ?_) (.inr ⟨.pend vector .count, by rw [top]; simp, same⟩)
          rw [← same]
          have one : (pendStep k vector .count).irqcnt vector = 1 := update_self ..
          rw [one]
          decide
      · exact .unseen before frames (by simp [Frame.Sees, same]) (by simp [Frame.Sees])
          (update_of_ne (Ne.symm same) ..) rfl rfl (not_starts_of_head frames (by simp)) (by simp)
  | lvec =>
      have frames : (pendStep k vector .lvec).frames = [.pend vector .hvec] ++ rest :=
        congrArg _ tail
      exact .unseen before frames (by simp [Frame.Sees]) (by simp [Frame.Sees]) rfl rfl rfl
        (not_starts_of_head frames (by simp)) (by simp)
  | hvec =>
      exact .pop top tail (by simp [Frame.Sees]) rfl (by simp)

/-- What an action is to a request that has a handler. -/
theorem Kept.srqActs [DecidableEq I] (kept : k.Kept cfg (VECTRANS cfg.smp srq.vector))
    (handler : cfg.rtaiHandler srq = true) (acts : Acts cfg g k a g' k') :
    SrqActs cfg srq g k a g' k' := by
  have whole : k.frames = [] ++ k.frames := rfl
  cases acts with
  | handler irq set => exact .push rfl (by simp [Frame.Sees]) (by simp) rfl rfl rfl (by simp)
  | keyboard unset => exact .dispatched whole rfl (by simp) rfl rfl rfl (by simp)
  | arrived irq unset other =>
      exact .dispatched whole rfl (by simp) (update_of_ne (index_ne irq) ..) rfl rfl
        (by simp)
  | pendLinuxIrq irq =>
      exact .push rfl (by simp [Frame.Sees]) (by simp) (update_of_ne (index_ne irq) ..) rfl rfl
        (by simp)
  | pending s set =>
      refine .quiet rfl rfl (fun p => Iff.rfl) Iff.rfl (not_starts_of_le (Nat.le_refl _)) fun e => ?_
      cases e
      exact set
  | pendLinuxSrq s unset =>
      have pushed : (k.push (.pend (VECTRANS cfg.smp s.vector) .count)).frames =
          [.pend (VECTRANS cfg.smp s.vector) .count] ++ k.frames := rfl
      by_cases same : s = srq
      · subst same
        refine .pend rfl unset (update_self ..) rfl ?_ (.inr ⟨_, List.mem_cons_self, rfl⟩)
          (not_starts_of_head pushed (by simp))
        intro p
        rw [At, At, whole, pushed]
        exact exists_changed_iff (by simp) (by simp [Frame.phase])
      · have other : VECTRANS cfg.smp s.vector ≠ VECTRANS cfg.smp srq.vector := by
          intro e
          rw [vectrans_eq_iff, vectrans_vectrans] at e
          have value : s.vector.val = srq.vector.val := by rw [e]
          exact same (Fin.ext value)
        exact .unseen whole pushed (by simp) (by simpa [Frame.Sees] using other) rfl
          (update_of_ne (Ne.symm same) ..) rfl (not_starts_of_head pushed (by simp))
          (by simp [same])
  | cli a which =>
      refine .quiet rfl rfl (fun p => Iff.rfl) Iff.rfl (not_starts_of_le (Nat.le_refl _)) fun e => ?_
      rcases which with rfl | rfl
      · cases e
      · cases e
  | call a which =>
      refine .push rfl (by simp [Frame.Sees]) (by simp) rfl rfl rfl ?_
      rcases which with rfl | rfl
      · simp
      · simp
  | isr retval vector rest top =>
      exact .pop top (by rw [pop_frames, top]; rfl) (by simp [Frame.Sees]) rfl (by simp)
  | srq retval s rest top =>
      exact .pop top (by rw [pop_frames, top]; rfl) (by simp [Frame.Sees]) rfl (by simp)
  | handled retval irq rest top =>
      have tail : k.pop.frames = rest := by rw [pop_frames, top, List.tail_cons]
      have before : k.frames = [.handler irq] ++ rest := top
      rw [Irq.handled]
      split
      next => exact .pop top tail (by simp [Frame.Sees]) rfl (by simp)
      next => exact .dispatched before tail (by simp [Frame.Sees]) rfl rfl rfl (by simp)
  | sti pc rest top => exact kept.srqSti handler top
  | pend vector stage rest top => exact srqPend top
  | kbrd rest top =>
      have before : k.frames = [.kbrd] ++ rest := top
      split
      next =>
        have frames : (k.goto [.isr (cfg.globalVector cfg.kbrd), .sti .enter]).frames =
            [.isr (cfg.globalVector cfg.kbrd), .sti .enter] ++ rest := by
          rw [goto, top, List.tail_cons]
        exact .unseen before frames (by simp [Frame.Sees]) (by simp [Frame.Sees]) rfl rfl rfl
          (not_starts_of_head frames (by simp)) (by simp)
      next =>
        have frames : (k.goto [.sti .enter]).frames = [.sti .enter] ++ rest := by
          rw [goto, top, List.tail_cons]
        exact .unseen before frames (by simp [Frame.Sees]) (by simp [Frame.Sees]) rfl rfl rfl
          (not_starts_of_head frames (by simp)) (by simp)

end Cpu
end Rtai.Irq
