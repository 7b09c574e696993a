import Rtai.Irq.Nesting

/-!
# Counters and their marks

What is counted for Linux is marked by a bit of `lvec`, and the bit by one of `hvec`, unless
the run of `linux_sti` that has cleared them, or the call that is to set them, is on the
stack.  This takes that no irq is counted a second time on an SMP machine: there the
innermost loop of `linux_sti` goes on with the counter of the translated vector.
-/

namespace Rtai.Irq

open Function

variable {I : Type} {old fs : List (Frame I)}

/-! ## What is on its way -/

/-- The word of `lvec` that the run empties. -/
def Pc.word : Pc → Option (Fin 8)
  | .readLvec h | .clearLvec h _ | .test h _ _ | .dec h _ _ | .doLinuxIrq h _ _
  | .testPending h _ _ | .setActiv h _ _ | .clearPending h _ _ | .rtaiHandler h _ _
  | .clearActiv h _ _ | .testAgain h _ _ | .setLvec h _ | .testLvec h | .setHvec h => some h
  | _ => none

/-- The counter that the run will test next. -/
def Pc.counter : Pc → Option Vector
  | .test _ _ vec | .dec _ _ vec | .doLinuxIrq _ _ vec => some vec
  | .testPending _ _ srq | .setActiv _ _ srq | .clearPending _ _ srq | .rtaiHandler _ _ srq
  | .clearActiv _ _ srq => some srq.vector
  | _ => none

/-- The counter that the run will take one from. -/
def Pc.taking : Pc → Option Vector
  | .test _ _ vec | .dec _ _ vec => some vec
  | _ => none

namespace Frame

/-- Something that sees to a counter that is not marked. -/
def counter : Frame I → Option Vector
  | .sti pc => pc.counter
  | .pend vector .lvec => some vector
  | _ => none

/-- Something that sees to a bit whose word is not marked. -/
def Covers (x : Vector) : Frame I → Prop
  | .sti pc => pc.word = some (shifted x)
  | .pend vector .hvec => vector = x
  | _ => False

def taking : Frame I → Option Vector
  | .sti pc => pc.taking
  | _ => none

/-- The run has found the counter positive. -/
def Decs (x : Vector) : Frame I → Prop
  | .sti (.dec _ _ vec) => vec = x
  | _ => False

/-- It sees to nothing. -/
def Idle (f : Frame I) : Prop := f.counter = none ∧ ∀ x, ¬f.Covers x

theorem counter_of_taking (f : Frame I) {x : Vector} (takes : f.taking = some x) :
    f.counter = some x := by
  cases f with
  | sti pc =>
      cases pc with
      | test h l vec => exact takes
      | dec h l vec => exact takes
      | _ => cases takes
  | _ => cases takes

theorem eq_of_decs (f : Frame I) {x : Vector} (decs : f.Decs x) : ∃ h l, f = .sti (.dec h l x) := by
  cases f with
  | sti pc =>
      cases pc with
      | dec h l vec =>
          cases decs
          exact ⟨h, l, rfl⟩
      | _ => cases decs
  | _ => cases decs

theorem taking_of_decs (f : Frame I) {x : Vector} (decs : f.Decs x) : f.taking = some x := by
  obtain ⟨h, l, rfl⟩ := f.eq_of_decs decs
  rfl

end Frame

/-- The irq that the action leaves to Linux, but for the keyboard. -/
def Action.forLinux [DecidableEq I] (cfg : Config I) : Action I → Option I
  | .arrive irq => if cfg.rtHandler irq ∨ irq = cfg.kbrd then none else some irq
  | .pendLinuxIrq irq => some irq
  | _ => none

theorem exists_changed {p : Frame I → Prop} {rest : List (Frame I)} (sees : ∃ f ∈ old ++ rest, p f)
    (each : ∀ f ∈ old, p f → ∃ g ∈ fs, p g) : ∃ g ∈ fs ++ rest, p g := by
  obtain ⟨f, mem, sees⟩ := sees
  rcases List.mem_append.mp mem with here | below
  · obtain ⟨g, mem, sees⟩ := each f here sees
    exact ⟨g, List.mem_append_left _ mem, sees⟩
  · exact ⟨f, List.mem_append_right _ below, sees⟩

/-- The counter of an irq. -/
def Config.index (cfg : Config I) (irq : I) : Vector := VECTRANS cfg.smp (cfg.globalVector irq)

namespace Cpu

/-- The irq may be counted: it is not counted yet, or being taken; an index is identical with
its translation on one CPU. -/
def Room (cfg : Config I) (k : Cpu I) (irq : I) : Prop :=
  k.irqcnt (cfg.index irq) + 1 < ULONG_SIZE ∧
    (cfg.smp = false ∨ k.irqcnt (cfg.index irq) = 0 ∨
      k.irqcnt (cfg.index irq) = 1 ∧ ∃ f ∈ k.frames, f.taking = some (cfg.index irq))

/-- Nothing that is counted is lost. -/
structure Kept (cfg : Config I) (x : Vector) (k : Cpu I) : Prop where
  nested : k.Nested
  small : k.irqcnt x < ULONG_SIZE
  counted : 0 < k.irqcnt x → k.bit x = true ∨ ∃ f ∈ k.frames, f.counter = some x
  marked : k.bit x = true → k.hvec (shifted x) = true ∨ ∃ f ∈ k.frames, f.Covers x
  taken : ∀ f ∈ k.frames, f.Decs x → 0 < k.irqcnt x
  single : cfg.smp = true → 1 < k.irqcnt x →
    k.irqcnt x = 2 ∧ (k.bit x = true ∨ .pend x .lvec ∈ k.frames) ∧
      ∃ f ∈ k.frames, f.taking = some x

variable {cfg : Config I} {x : Vector} {k k' : Cpu I} {rest : List (Frame I)} {pc pc' : Pc}
  {f : Frame I} {irq : I}

@[simp] theorem bit_setLvec (h : Fin 8) (l : Fin 32) (v : Bool) (x : Vector) :
    (k.setLvec h l v).bit x = if x = joined h l then v else k.bit x := by
  have parts : shifted x = h ∧ masked x = l ↔ x = joined h l := by
    rw [← parts_eq_iff, shifted_joined, masked_joined]
  simp only [bit, setLvec, update_apply]
  split
  next high =>
    rw [update_apply, ← high]
    simp only [← parts, high, true_and]
  next other =>
    rw [if_neg fun e => other (parts.mpr e).1]

section

variable (kept : k.Kept cfg x) (nested : k'.Nested) (top : k.frames = old ++ rest)
  (frames : k'.frames = fs ++ rest) (irqcnt : k'.irqcnt = k.irqcnt) (lvec : k'.lvec = k.lvec)
  (hvec : k'.hvec = k.hvec)
include kept nested top frames irqcnt lvec hvec

/-- The top is changed, and neither counters nor bits. -/
theorem Kept.goes
    (counter : ∀ f ∈ old, f.counter = some x → 0 < k.irqcnt x → ∃ g ∈ fs, g.counter = some x)
    (covers : ∀ f ∈ old, f.Covers x → k.bit x = true → ∃ g ∈ fs, g.Covers x)
    (decs : ∀ g ∈ fs, g.Decs x → 0 < k.irqcnt x) (pends : .pend x .lvec ∈ old → .pend x .lvec ∈ fs)
    (taking : ∀ f ∈ old, f.taking = some x → 1 < k.irqcnt x → ∃ g ∈ fs, g.taking = some x) :
    k'.Kept cfg x := by
  have bit : k'.bit x = k.bit x := congrFun (congrFun lvec _) _
  constructor
  · exact nested
  · rw [irqcnt]
    exact kept.small
  · intro positive
    rw [irqcnt] at positive
    rw [bit, frames]
    exact (kept.counted positive).imp_right fun sees =>
      exists_changed (top ▸ sees) fun f here sees => counter f here sees positive
  · intro set
    rw [bit] at set
    rw [hvec, frames]
    exact (kept.marked set).imp_right fun sees =>
      exists_changed (top ▸ sees) fun f here sees => covers f here sees set
  · intro g mem positive
    rw [frames] at mem
    rw [irqcnt]
    rcases List.mem_append.mp mem with here | below
    · exact decs g here positive
    · exact kept.taken g (top ▸ List.mem_append_right _ below) positive
  · intro smp twice
    rw [irqcnt] at twice
    obtain ⟨two, here, takes⟩ := kept.single smp twice
    rw [bit, irqcnt, frames]
    refine ⟨two, here.imp_right fun mem => ?_, ?_⟩
    · rw [top] at mem
      rcases List.mem_append.mp mem with here | below
      · exact List.mem_append_left _ (pends here)
      · exact List.mem_append_right _ below
    · exact exists_changed (top ▸ takes) fun f here takes => taking f here takes twice

/-- What sees to nothing may be taken off. -/
theorem Kept.idle (idle : ∀ f ∈ old, f.Idle) (decs : ∀ g ∈ fs, ¬g.Decs x) : k'.Kept cfg x := by
  refine kept.goes nested top frames irqcnt lvec hvec ?_ ?_ ?_ ?_ ?_
  · intro f here sees
    rw [(idle f here).1] at sees
    cases sees
  · intro f here sees
    exact absurd sees ((idle f here).2 x)
  · intro g here positive
    exact absurd positive (decs g here)
  · intro here
    cases (idle _ here).1
  · intro f here takes
    have sees := f.counter_of_taking takes
    rw [(idle f here).1] at sees
    cases sees

end

/-- A run may go on from `pc` at `pc'` without a change. -/
structure Follows (k : Cpu I) (pc pc' : Pc) : Prop where
  word : ∀ x, pc.word = some (shifted x) → k.bit x = true → pc'.word = some (shifted x)
  counter : ∀ x, pc.counter = some x → 0 < k.irqcnt x → pc'.counter = some x
  decs : ∀ h l x, pc' = .dec h l x → 0 < k.irqcnt x
  taking : ∀ x, pc.taking = some x → 1 < k.irqcnt x → pc'.taking = some x

theorem Follows.of_same (word : pc'.word = pc.word) (counter : pc'.counter = pc.counter)
    (taking : pc.taking = none) (decs : ∀ h l x, pc' ≠ .dec h l x) : k.Follows pc pc' := by
  constructor
  · intro x here _
    exact word.trans here
  · intro x here _
    exact counter.trans here
  · intro h l x e
    exact absurd e (decs h l x)
  · intro x here
    rw [taking] at here
    cases here

section

variable (kept : k.Kept cfg x)
include kept

theorem Kept.moves (nested : k'.Nested) (top : k.frames = .sti pc :: rest)
    (frames : k'.frames = .sti pc' :: rest) (irqcnt : k'.irqcnt = k.irqcnt)
    (lvec : k'.lvec = k.lvec) (hvec : k'.hvec = k.hvec) (follows : k.Follows pc pc') :
    k'.Kept cfg x := by
  have before : k.frames = [.sti pc] ++ rest := top
  have after : k'.frames = [.sti pc'] ++ rest := frames
  refine kept.goes nested before after irqcnt lvec hvec ?_ ?_ ?_ ?_ ?_
  · intro f here sees positive
    cases List.mem_singleton.mp here
    exact ⟨_, List.mem_singleton_self _, follows.counter x sees positive⟩
  · intro f here sees set
    cases List.mem_singleton.mp here
    exact ⟨_, List.mem_singleton_self _, follows.word x sees set⟩
  · intro g here positive
    cases List.mem_singleton.mp here
    obtain ⟨h, l, e⟩ := Frame.eq_of_decs _ positive
    cases e
    exact follows.decs h l x rfl
  · intro here
    cases List.mem_singleton.mp here
  · intro f here takes twice
    cases List.mem_singleton.mp here
    exact ⟨_, List.mem_singleton_self _, follows.taking x takes twice⟩

/-- What sees to nothing is put on top. -/
theorem Kept.pushed (nested : k'.Nested) (frames : k'.frames = f :: k.frames)
    (irqcnt : k'.irqcnt = k.irqcnt) (lvec : k'.lvec = k.lvec) (hvec : k'.hvec = k.hvec)
    (decs : ¬f.Decs x) : k'.Kept cfg x := by
  have after : k'.frames = [f] ++ k.frames := frames
  have before : k.frames = [] ++ k.frames := rfl
  exact kept.idle nested before after irqcnt lvec hvec (by simp) (by simpa using decs)

/-- What sees to nothing goes away. -/
theorem Kept.popped (nested : k'.Nested) (top : k.frames = f :: rest) (frames : k'.frames = rest)
    (irqcnt : k'.irqcnt = k.irqcnt) (lvec : k'.lvec = k.lvec) (hvec : k'.hvec = k.hvec)
    (idle : f.Idle) : k'.Kept cfg x := by
  have before : k.frames = [f] ++ rest := top
  have after : k'.frames = [] ++ rest := frames
  exact kept.idle nested before after irqcnt lvec hvec (by simpa using idle) (by simp)

/-! ## The steps of `linux_sti` -/

/-- A counter that is not marked, and not seen to by the top, is seen to below. -/
theorem Kept.counter_below (top : k.frames = f :: rest) (other : f.counter ≠ some x)
    (positive : 0 < k.irqcnt x) : k.bit x = true ∨ ∃ g ∈ rest, g.counter = some x := by
  refine (kept.counted positive).imp_right fun ⟨g, mem, sees⟩ => ?_
  rw [top] at mem
  rcases List.mem_cons.mp mem with rfl | below
  · exact absurd sees other
  · exact ⟨g, below, sees⟩

theorem Kept.cover_below (top : k.frames = f :: rest) (other : ¬f.Covers x) (set : k.bit x = true) :
    k.hvec (shifted x) = true ∨ ∃ g ∈ rest, g.Covers x := by
  refine (kept.marked set).imp_right fun ⟨g, mem, sees⟩ => ?_
  rw [top] at mem
  rcases List.mem_cons.mp mem with rfl | below
  · exact absurd sees other
  · exact ⟨g, below, sees⟩

end

/-- Below a run that holds the bit no counter is being taken from. -/
theorem Nested.not_taking (nested : k.Nested) (top : k.frames = .sti pc :: rest)
    (holds : pc.holds = true) (below : f ∈ rest) : f.taking = none := by
  have free := nested.free_below top (by simp [Frame.took, holds]) below
  cases f with
  | sti pc =>
      cases pc with
      | test h l vec => cases free
      | dec h l vec => cases free
      | _ => rfl
  | _ => rfl

section

variable {h : Fin 8} {l : Fin 32} {v : Bool} (kept : k.Kept cfg x)
include kept

/-- What a run that holds the bit has to see to itself. -/
theorem Kept.change (nested : k'.Nested) (top : k.frames = .sti pc :: rest)
    (holds : pc.holds = true) (frames : k'.frames = .sti pc' :: rest)
    (fewer : k'.irqcnt x ≤ k.irqcnt x)
    (counted : 0 < k'.irqcnt x → pc'.counter = some x ∨
      (k'.bit x = true ∨ .pend x .lvec ∈ rest) ∨ pc.counter ≠ some x ∧ k'.bit x = k.bit x)
    (marked : k'.bit x = true → pc'.word = some (shifted x) ∨ k'.hvec (shifted x) = true ∨
      pc.word ≠ some (shifted x) ∧ k.bit x = true ∧ k'.hvec (shifted x) = k.hvec (shifted x))
    (decs : ∀ h l x, pc' ≠ .dec h l x)
    (single : cfg.smp = true → pc.taking = some x → 1 < k.irqcnt x → k'.irqcnt x = 1) :
    k'.Kept cfg x := by
  constructor
  · exact nested
  · exact Nat.lt_of_le_of_lt fewer kept.small
  · intro positive
    rw [frames]
    rcases counted positive with here | (set | below) | ⟨other, same⟩
    · exact .inr ⟨_, List.mem_cons_self, here⟩
    · exact .inl set
    · exact .inr ⟨_, List.mem_cons_of_mem _ below, rfl⟩
    · have before : 0 < k.irqcnt x := Nat.lt_of_lt_of_le positive fewer
      rw [same]
      exact (kept.counter_below top other before).imp_right
        fun ⟨g, below, sees⟩ => ⟨g, List.mem_cons_of_mem _ below, sees⟩
  · intro set
    rw [frames]
    rcases marked set with here | word | ⟨other, before, same⟩
    · exact .inr ⟨_, List.mem_cons_self, here⟩
    · exact .inl word
    · rw [same]
      exact (kept.cover_below top other before).imp_right
        fun ⟨g, below, sees⟩ => ⟨g, List.mem_cons_of_mem _ below, sees⟩
  · intro g mem here
    rw [frames] at mem
    rcases List.mem_cons.mp mem with rfl | below
    · obtain ⟨h, l, e⟩ := Frame.eq_of_decs _ here
      cases e
      exact absurd rfl (decs h l x)
    · have takes := g.taking_of_decs here
      rw [kept.nested.not_taking top holds below] at takes
      cases takes
  · intro smp twice
    have before : 1 < k.irqcnt x := Nat.lt_of_lt_of_le twice fewer
    obtain ⟨-, -, g, mem, takes⟩ := kept.single smp before
    rw [top] at mem
    rcases List.mem_cons.mp mem with rfl | below
    · rw [single smp takes before] at twice
      exact absurd twice (Nat.lt_irrefl 1)
    · rw [kept.nested.not_taking top holds below] at takes
      cases takes

/-- A word is marked, or its mark is cleared by a run that then reads the word. -/
theorem Kept.putHvec (top : k.frames = .sti pc :: rest) (nested : k'.Nested)
    (result : k' = (k.setHvec h v).stiAt pc') (holds : pc.holds = true)
    (counter : pc.counter = none) (taking : pc.taking = none) (decs : ∀ h l x, pc' ≠ .dec h l x)
    (word : ∀ w, pc.word = some w → h = w) (sees : v = true ∨ pc'.word = some h) :
    k'.Kept cfg x := by
  have frames : k'.frames = .sti pc' :: rest := by
    rw [result, stiAt_frames, Cpu.setHvec, top, List.tail_cons]
  have irqcnt : k'.irqcnt = k.irqcnt := by rw [result]; rfl
  have bit : k'.bit = k.bit := by rw [result]; rfl
  have hvec : k'.hvec = update k.hvec h v := by rw [result]; rfl
  refine kept.change nested top holds frames (by rw [irqcnt]) ?_ ?_ decs (by simp [taking])
  · intro _
    exact .inr (.inr ⟨by simp [counter], congrFun bit x⟩)
  · intro set
    rw [bit] at set
    by_cases here : shifted x = h
    · rw [here, hvec, update_self]
      exact sees.symm.imp_right .inl
    · refine .inr (.inr ⟨fun e => here (word _ e).symm, set, ?_⟩)
      rw [hvec, update_of_ne here]

/-- A bit is set, or it is cleared by a run that then tests its counter. -/
theorem Kept.putLvec (top : k.frames = .sti pc :: rest) (nested : k'.Nested)
    (result : k' = (k.setLvec h l v).stiAt pc') (holds : pc.holds = true)
    (counter : pc.counter = none) (taking : pc.taking = none) (decs : ∀ h l x, pc' ≠ .dec h l x)
    (word : pc.word = some h ∧ pc'.word = some h)
    (sees : v = true ∨ pc'.counter = some (joined h l)) : k'.Kept cfg x := by
  have frames : k'.frames = .sti pc' :: rest := by
    rw [result, stiAt_frames, Cpu.setLvec, top, List.tail_cons]
  have irqcnt : k'.irqcnt = k.irqcnt := by rw [result]; rfl
  have hvec : k'.hvec = k.hvec := by rw [result]; rfl
  have bit : ∀ x, k'.bit x = if x = joined h l then v else k.bit x := by
    rw [result]
    exact bit_setLvec h l v
  refine kept.change nested top holds frames (by rw [irqcnt]) ?_ ?_ decs (by simp [taking])
  · intro _
    by_cases same : x = joined h l
    · rw [bit, if_pos same, same]
      exact sees.symm.imp_right fun set => .inl (.inl set)
    · exact .inr (.inr ⟨by simp [counter], by rw [bit, if_neg same]⟩)
  · intro set
    by_cases here : h = shifted x
    · exact .inl (word.2.trans (congrArg some here))
    · have other : x ≠ joined h l := by
        intro same
        rw [same, shifted_joined] at here
        exact here rfl
      rw [bit, if_neg other] at set
      exact .inr (.inr ⟨fun e => here (Option.some.inj (word.1.symm.trans e)), set, congrFun hvec _⟩)

/-- What is taken from is positive. -/
theorem Kept.decrement (top : k.frames = .sti (.dec h l x) :: rest) :
    0 < k.irqcnt x ∧ (k.decrement x).irqcnt x = k.irqcnt x - 1 := by
  have positive : 0 < k.irqcnt x := kept.taken (.sti (.dec h l x)) (by rw [top]; simp) rfl
  have small := kept.small
  have one : (k.irqcnt x + (ULONG_SIZE - 1)) % ULONG_SIZE = k.irqcnt x - 1 := by
    unfold ULONG_SIZE at small ⊢
    omega
  refine ⟨positive, ?_⟩
  rw [← one]
  exact update_self ..

theorem Kept.dec {vec : Vector} (top : k.frames = .sti (.dec h l vec) :: rest) (nested : k'.Nested)
    (result : k' = (k.decrement vec).stiAt pc) (word : pc.word = some h)
    (counter : pc.counter = some (VECTRANS cfg.smp vec)) (taking : pc.taking = none) :
    k'.Kept cfg x := by
  have frames : k'.frames = .sti pc :: rest := by
    rw [result, stiAt_frames, Cpu.decrement, setCount, top, List.tail_cons]
  have hvec : k'.hvec = k.hvec := by rw [result]; rfl
  have bit : k'.bit = k.bit := by rw [result]; rfl
  have elsewhere : x ≠ vec → k'.irqcnt x = k.irqcnt x := by
    intro other
    rw [result]
    exact update_of_ne other ..
  have here : x = vec → k'.irqcnt x = k.irqcnt x - 1 := by
    intro same
    subst same
    rw [result]
    exact (kept.decrement top).2
  refine kept.change nested top rfl frames ?_ ?_ ?_ ?_ ?_
  · by_cases same : x = vec
    · rw [here same]
      exact Nat.sub_le _ _
    · rw [elsewhere same]
  · intro left
    by_cases same : x = vec
    · rw [here same] at left
      subst same
      cases smp : cfg.smp with
      | false =>
          rw [smp] at counter
          exact .inl counter
      | true =>
          obtain ⟨-, here, -⟩ := kept.single smp (by omega)
          rw [top] at here
          rw [bit]
          exact .inr (.inl (here.imp_right fun mem => List.mem_of_ne_of_mem (by simp) mem))
    · exact .inr (.inr ⟨fun e => same (Option.some.inj e).symm, congrFun bit x⟩)
  · intro set
    rw [bit] at set
    by_cases here : h = shifted x
    · exact .inl (by rw [word, here])
    · exact .inr (.inr ⟨fun e => here (Option.some.inj e), set, congrFun hvec _⟩)
  · intro h l x e
    rw [e] at taking
    cases taking
  · intro smp takes twice
    cases takes
    obtain ⟨two, -, -⟩ := kept.single smp twice
    rw [here rfl, two]

end

theorem Kept.run (g : Global) (kept : k.Kept cfg x) (top : k.frames = .sti pc :: rest) :
    (stiStep cfg g k pc).2.Kept cfg x := by
  have tail : k.frames.tail = rest := by rw [top, List.tail_cons]
  have nested := kept.nested.stiStep cfg g top
  have moves {pc'} (nested : (k.stiAt pc').Nested) (follows : k.Follows pc pc') :
      (k.stiAt pc').Kept cfg x := kept.moves nested top (congrArg _ tail) rfl rfl rfl follows
  cases pc with
  | enter =>
      rw [stiStep] at nested ⊢
      split
      next taken =>
        rw [if_pos taken] at nested
        exact moves nested (.of_same rfl rfl rfl (by simp))
      next free =>
        rw [if_neg free] at nested
        exact kept.moves nested top (congrArg _ tail) rfl rfl rfl (.of_same rfl rfl rfl (by simp))
  | readHvec =>
      refine moves nested ?_
      cases ffnz k.hvec with
      | none => exact .of_same rfl rfl rfl (by simp)
      | some h => exact .of_same rfl rfl rfl (by simp)
  | clearHvec h => exact kept.putHvec top nested rfl rfl rfl rfl (by simp) (by simp [Pc.word]) (.inr rfl)
  | readLvec h =>
      refine moves nested ?_
      cases ffnz (k.lvec h) with
      | none => exact .of_same rfl rfl rfl (by simp)
      | some l => exact .of_same rfl rfl rfl (by simp)
  | clearLvec h l => exact kept.putLvec top nested rfl rfl rfl rfl (by simp) ⟨rfl, rfl⟩ (.inr rfl)
  | test h l vec =>
      refine moves nested ?_
      split
      next positive =>
        constructor
        · exact fun x here _ => here
        · exact fun x here _ => here
        · intro _ _ x e
          cases e
          exact positive
        · exact fun x here _ => here
      next zero =>
        constructor
        · exact fun x here _ => here
        · intro x e positive
          cases e
          exact absurd positive zero
        · simp
        · intro x e twice
          cases e
          exact absurd (Nat.lt_of_succ_lt twice) zero
  | dec h l vec =>
      refine kept.dec top nested rfl ?_ ?_ ?_
      · split <;> rfl
      · split <;> rfl
      · split <;> rfl
  | doLinuxIrq h l vec =>
      have back : (k.stiAt (.test h l vec)).Kept cfg x :=
        moves (kept.nested.stay top rfl rfl (congrArg _ tail) rfl) (.of_same rfl rfl rfl (by simp))
      exact back.pushed nested rfl rfl rfl rfl (by simp [Frame.Decs])
  | testPending h l srq =>
      refine moves nested ?_
      split
      next => exact .of_same rfl rfl rfl (by simp)
      next => exact .of_same rfl rfl rfl (by simp)
  | setActiv h l srq =>
      rw [stiStep] at nested ⊢
      split
      next taken =>
        rw [if_pos taken] at nested
        exact moves nested (.of_same rfl rfl rfl (by simp))
      next free =>
        rw [if_neg free] at nested
        exact moves nested (.of_same rfl rfl rfl (by simp))
  | clearPending h l srq => exact moves nested (.of_same rfl rfl rfl (by simp))
  | rtaiHandler h l srq =>
      have back : (k.stiAt (.clearActiv h l srq)).Kept cfg x :=
        moves (kept.nested.stay top rfl rfl (congrArg _ tail) rfl) (.of_same rfl rfl rfl (by simp))
      rw [stiStep] at nested ⊢
      split
      next calls =>
        rw [if_pos calls] at nested
        exact back.pushed nested rfl rfl rfl rfl (by simp [Frame.Decs])
      next => exact back
  | clearActiv h l srq => exact moves nested (.of_same rfl rfl rfl (by simp))
  | testAgain h l vec =>
      refine moves nested ?_
      split
      next => exact .of_same rfl rfl rfl (by simp)
      next => exact .of_same rfl rfl rfl (by simp)
  | setLvec h l => exact kept.putLvec top nested rfl rfl rfl rfl (by simp) ⟨rfl, rfl⟩ (.inl rfl)
  | testLvec h =>
      refine moves nested ?_
      split
      next => exact .of_same rfl rfl rfl (by simp)
      next empty =>
        constructor
        · intro x here set
          cases here
          have none : ffnz (k.lvec (shifted x)) = none := by simpa using empty
          rw [bit, ffnz_none none] at set
          cases set
        · simp [Pc.counter]
        · simp
        · simp [Pc.taking]
  | setHvec h => exact kept.putHvec top nested rfl rfl rfl rfl (by simp) (by simp [Pc.word]) (.inl rfl)
  | enable =>
      exact kept.moves nested top (congrArg _ tail) rfl rfl rfl (.of_same rfl rfl rfl (by simp))
  | release =>
      exact kept.moves nested top (congrArg _ tail) rfl rfl rfl (.of_same rfl rfl rfl (by simp))
  | testHvec =>
      rw [stiStep] at nested ⊢
      split
      next more =>
        rw [if_pos more] at nested
        exact moves nested (.of_same rfl rfl rfl (by simp))
      next none =>
        rw [if_neg none] at nested
        exact kept.popped nested top tail rfl rfl rfl ⟨rfl, by simp [Frame.Covers, Pc.word]⟩
  | leave => exact kept.popped nested top tail rfl rfl rfl ⟨rfl, by simp [Frame.Covers, Pc.word]⟩

/-! ## The other actions -/

section

variable (kept : k.Kept cfg x) (nested : k'.Nested) (top : k.frames = old ++ rest)
  (frames : k'.frames = fs ++ rest)
include kept nested top frames

/-- A vector is counted or marked, by calls that are at it. -/
theorem Kept.seen (before : ∀ f ∈ old, ∃ stage, f = .pend x stage)
    (after : ∀ g ∈ fs, ∃ stage, g = .pend x stage) (hvec : ∀ h, k.hvec h = true → k'.hvec h = true)
    (small : k'.irqcnt x < ULONG_SIZE) (positive : 0 < k.irqcnt x → 0 < k'.irqcnt x)
    (counted : 0 < k'.irqcnt x → k'.bit x = true ∨ .pend x .lvec ∈ fs ∨
      0 < k.irqcnt x ∧ k'.bit x = k.bit x ∧ .pend x .lvec ∉ old)
    (marked : k'.bit x = true → k'.hvec (shifted x) = true ∨ .pend x .hvec ∈ fs ∨
      k.bit x = true ∧ .pend x .hvec ∉ old)
    (single : cfg.smp = true → 1 < k'.irqcnt x →
      k'.irqcnt x = 2 ∧ (k'.bit x = true ∨ .pend x .lvec ∈ fs ++ rest) ∧
        ∃ f ∈ rest, f.taking = some x) : k'.Kept cfg x := by
  constructor
  · exact nested
  · exact small
  · intro left
    rw [frames]
    rcases counted left with set | here | ⟨left, same, other⟩
    · exact .inl set
    · exact .inr ⟨_, List.mem_append_left _ here, rfl⟩
    · rw [same]
      refine (kept.counted left).imp_right fun sees => exists_changed (top ▸ sees) ?_
      intro f here sees
      obtain ⟨stage, rfl⟩ := before f here
      cases stage with
      | lvec => exact absurd here other
      | _ => cases sees
  · intro set
    rw [frames]
    rcases marked set with word | here | ⟨set, other⟩
    · exact .inl word
    · exact .inr ⟨_, List.mem_append_left _ here, rfl⟩
    · refine (kept.marked set).imp (hvec _) fun sees => exists_changed (top ▸ sees) ?_
      intro f here sees
      obtain ⟨stage, rfl⟩ := before f here
      cases stage with
      | hvec => exact absurd here other
      | _ => cases sees
  · intro f mem decs
    rw [frames] at mem
    rcases List.mem_append.mp mem with here | below
    · obtain ⟨stage, rfl⟩ := after f here
      cases decs
    · exact positive (kept.taken f (top ▸ List.mem_append_right _ below) decs)
  · intro smp twice
    rw [frames]
    obtain ⟨two, here, f, below, takes⟩ := single smp twice
    exact ⟨two, here, f, List.mem_append_right _ below, takes⟩

/-- Another vector is counted or marked. -/
theorem Kept.unseen {v : Vector} (before : ∀ f ∈ old, ∃ stage, f = .pend v stage)
    (after : ∀ g ∈ fs, ∃ stage, g = .pend v stage) (other : v ≠ x)
    (irqcnt : k'.irqcnt x = k.irqcnt x) (bit : k'.bit x = k.bit x)
    (hvec : ∀ h, k.hvec h = true → k'.hvec h = true) : k'.Kept cfg x := by
  have counter : ∀ f ∈ old, f.counter ≠ some x := by
    intro f here sees
    obtain ⟨stage, rfl⟩ := before f here
    cases stage with
    | lvec => exact other (Option.some.inj sees)
    | _ => cases sees
  have covers : ∀ f ∈ old, ¬f.Covers x := by
    intro f here sees
    obtain ⟨stage, rfl⟩ := before f here
    cases stage with
    | hvec => exact other sees
    | _ => cases sees
  constructor
  · exact nested
  · rw [irqcnt]
    exact kept.small
  · intro left
    rw [irqcnt] at left
    rw [bit, frames]
    exact (kept.counted left).imp_right fun sees =>
      exists_changed (top ▸ sees) fun f here sees => absurd sees (counter f here)
  · intro set
    rw [bit] at set
    rw [frames]
    exact (kept.marked set).imp (hvec _) fun sees =>
      exists_changed (top ▸ sees) fun f here sees => absurd sees (covers f here)
  · intro f mem decs
    rw [frames] at mem
    rw [irqcnt]
    rcases List.mem_append.mp mem with here | below
    · obtain ⟨stage, rfl⟩ := after f here
      cases decs
    · exact kept.taken f (top ▸ List.mem_append_right _ below) decs
  · intro smp twice
    rw [irqcnt] at twice ⊢
    rw [bit, frames]
    obtain ⟨two, here, takes⟩ := kept.single smp twice
    refine ⟨two, here.imp_right fun mem => ?_, exists_changed (top ▸ takes) ?_⟩
    · rw [top] at mem
      rcases List.mem_append.mp mem with here | below
      · exact absurd rfl (counter _ here)
      · exact List.mem_append_right _ below
    · intro f here takes
      exact absurd (f.counter_of_taking takes) (counter f here)

end

theorem Kept.pendStep {vector : Vector} {stage : Marking} (kept : k.Kept cfg x)
    (top : k.frames = .pend vector stage :: rest) : (pendStep k vector stage).Kept cfg x := by
  have tail : k.frames.tail = rest := by rw [top, List.tail_cons]
  have nested := kept.nested.pendStep top
  have before : k.frames = [.pend vector stage] ++ rest := top
  cases stage with
  | count =>
      have frames : (Irq.pendStep k vector .count).frames = [.pend vector .lvec] ++ rest :=
        congrArg _ tail
      by_cases same : vector = x
      · subst same
        have one : (Irq.pendStep k vector .count).irqcnt vector = 1 := update_self ..
        refine kept.seen nested before frames (by simp) (by simp) ?_ ?_ ?_ ?_ ?_ ?_
        · intro h set
          exact set
        · rw [one]
          decide
        · intro _
          rw [one]
          decide
        · intro _
          exact .inr (.inl (by simp))
        · intro set
          exact .inr (.inr ⟨set, by simp⟩)
        · intro _ twice
          rw [one] at twice
          exact absurd twice (Nat.lt_irrefl 1)
      · exact kept.unseen nested before frames (by simp) (by simp) same
          (update_of_ne (Ne.symm same) ..) rfl fun h set => set
  | lvec =>
      have frames : (Irq.pendStep k vector .lvec).frames = [.pend vector .hvec] ++ rest :=
        congrArg _ tail
      have bit : (Irq.pendStep k vector .lvec).bit x =
          if x = joined (shifted vector) (masked vector) then true else k.bit x :=
        bit_setLvec _ _ _ _
      rw [joined_parts] at bit
      by_cases same : vector = x
      · subst same
        rw [if_pos rfl] at bit
        refine kept.seen nested before frames (by simp) (by simp) ?_ kept.small ?_ ?_ ?_ ?_
        · intro h set
          exact set
        · intro positive
          exact positive
        · intro _
          exact .inl bit
        · intro _
          exact .inr (.inl (by simp))
        · intro smp twice
          obtain ⟨two, -, f, mem, takes⟩ := kept.single smp twice
          refine ⟨two, .inl bit, f, ?_, takes⟩
          rw [top] at mem
          rcases List.mem_cons.mp mem with rfl | below
          · cases takes
          · exact below
      · rw [if_neg (Ne.symm same)] at bit
        exact kept.unseen nested before frames (by simp) (by simp) same rfl bit fun h set => set
  | hvec =>
      have frames : (Irq.pendStep k vector .hvec).frames = [] ++ rest := tail
      have hvec : (Irq.pendStep k vector .hvec).hvec = update k.hvec (shifted vector) true := rfl
      have more : ∀ h, k.hvec h = true → (Irq.pendStep k vector .hvec).hvec h = true := by
        intro h set
        rw [hvec, update_apply]
        split
        next => rfl
        next => exact set
      by_cases same : vector = x
      · subst same
        refine kept.seen nested before frames (by simp) (by simp) more kept.small ?_ ?_ ?_ ?_
        · intro positive
          exact positive
        · intro positive
          exact .inr (.inr ⟨positive, rfl, by simp⟩)
        · intro _
          exact .inl (by rw [hvec, update_self])
        · intro smp twice
          obtain ⟨two, here, f, mem, takes⟩ := kept.single smp twice
          rw [top] at here mem
          refine ⟨two, here.imp_right fun mem => ?_, f, ?_, takes⟩
          · simpa using mem
          · rcases List.mem_cons.mp mem with rfl | below
            · cases takes
            · exact below
      · exact kept.unseen nested before frames (by simp) (by simp) same rfl rfl more

/-- With room for it an irq is counted. -/
theorem Room.counts (room : k.Room cfg irq) :
    (k.increment (cfg.index irq)).irqcnt (cfg.index irq) = k.irqcnt (cfg.index irq) + 1 ∧
    (cfg.smp = true → 1 < k.irqcnt (cfg.index irq) + 1 →
      k.irqcnt (cfg.index irq) + 1 = 2 ∧ ∃ f ∈ k.frames, f.taking = some (cfg.index irq)) := by
  refine ⟨?_, fun smp twice => ?_⟩
  · rw [← Nat.mod_eq_of_lt room.1]
    exact update_self ..
  · rcases room.2 with up | zero | ⟨one, takes⟩
    · rw [up] at smp
      cases smp
    · omega
    · exact ⟨by omega, takes⟩

variable (kept : k.Kept cfg x)
include kept

theorem Kept.mark (room : cfg.index irq = x → k.Room cfg irq) :
    (k.mark (cfg.index irq)).Kept cfg x := by
  have nested : (k.mark (cfg.index irq)).Nested := kept.nested.same rfl rfl
  have before : k.frames = [] ++ k.frames := rfl
  have after : (k.mark (cfg.index irq)).frames = [] ++ k.frames := rfl
  have bit : (k.mark (cfg.index irq)).bit x =
      if x = joined (shifted (cfg.index irq)) (masked (cfg.index irq)) then true else k.bit x :=
    bit_setLvec _ _ _ _
  rw [joined_parts] at bit
  have hvec : (k.mark (cfg.index irq)).hvec = update k.hvec (shifted (cfg.index irq)) true := rfl
  have more : ∀ h, k.hvec h = true → (k.mark (cfg.index irq)).hvec h = true := by
    intro h set
    rw [hvec, update_apply]
    split
    next => rfl
    next => exact set
  by_cases same : cfg.index irq = x
  · subst same
    have room := room rfl
    rw [if_pos rfl] at bit
    obtain ⟨once, twice⟩ := room.counts
    have count : (k.mark (cfg.index irq)).irqcnt (cfg.index irq) = k.irqcnt (cfg.index irq) + 1 :=
      once
    refine kept.seen nested before after (by simp) (by simp) more ?_ ?_ ?_ ?_ ?_
    · rw [count]
      exact room.1
    · intro _
      rw [count]
      exact Nat.succ_pos _
    · intro _
      exact .inl bit
    · intro _
      exact .inl (by rw [hvec, update_self])
    · intro smp more
      rw [count] at more ⊢
      obtain ⟨two, takes⟩ := twice smp more
      exact ⟨two, .inl bit, takes⟩
  · rw [if_neg (Ne.symm same)] at bit
    exact kept.unseen nested before after (by simp) (by simp) same
      (update_of_ne (Ne.symm same) ..) bit more

theorem Kept.rtPendLinuxIrq (room : cfg.index irq = x → k.Room cfg irq) :
    (rtPendLinuxIrq cfg k irq).Kept cfg x := by
  have before : k.frames = [] ++ k.frames := rfl
  have after : (Irq.rtPendLinuxIrq cfg k irq).frames =
      [.pend (cfg.index irq) .lvec] ++ k.frames := rfl
  have nested : (Irq.rtPendLinuxIrq cfg k irq).Nested := kept.nested.push rfl after rfl
  by_cases same : cfg.index irq = x
  · subst same
    have room := room rfl
    obtain ⟨once, twice⟩ := room.counts
    have count : (Irq.rtPendLinuxIrq cfg k irq).irqcnt (cfg.index irq) =
        k.irqcnt (cfg.index irq) + 1 := once
    refine kept.seen nested before after (by simp) (by simp) ?_ ?_ ?_ ?_ ?_ ?_
    · intro h set
      exact set
    · rw [count]
      exact room.1
    · intro _
      rw [count]
      exact Nat.succ_pos _
    · intro _
      exact .inr (.inl (by simp))
    · intro set
      exact .inr (.inr ⟨set, by simp⟩)
    · intro smp more
      rw [count] at more ⊢
      obtain ⟨two, takes⟩ := twice smp more
      exact ⟨two, .inr (by simp), takes⟩
  · exact kept.unseen nested before after (by simp) (by simp) same
      (update_of_ne (Ne.symm same) ..) rfl fun h set => set

theorem Kept.dispatched : (dispatched k).Kept cfg x := by
  have nested := kept.nested.dispatched
  rw [Irq.dispatched] at nested ⊢
  split
  next enabled =>
    rw [if_pos enabled] at nested
    exact kept.pushed nested rfl rfl rfl rfl (by simp [Frame.Decs])
  next => exact kept

/-- An action with room for the irq of the counter, if it brings it, keeps what is counted. -/
theorem Kept.acts [DecidableEq I] {g g' : Global} {a : Action I}
    (room : ∀ irq, a.forLinux cfg = some irq → cfg.index irq = x → k.Room cfg irq)
    (acts : Acts cfg g k a g' k') : k'.Kept cfg x := by
  have nested := kept.nested.acts acts
  cases acts with
  | handler irq => exact kept.pushed nested rfl rfl rfl rfl (by simp [Frame.Decs])
  | keyboard => exact kept.dispatched
  | arrived irq unset other =>
      apply Kept.dispatched
      exact kept.mark (room irq (by simp [Action.forLinux, unset, other]))
  | pendLinuxIrq irq => exact kept.rtPendLinuxIrq (room irq rfl)
  | pending srq => exact kept
  | pendLinuxSrq srq => exact kept.pushed nested rfl rfl rfl rfl (by simp [Frame.Decs])
  | cli => exact { kept with nested := nested }
  | call => exact kept.pushed nested rfl rfl rfl rfl (by simp [Frame.Decs])
  | isr retval vector rest top =>
      exact kept.popped nested top (by rw [pop_frames, top]; rfl) rfl rfl rfl ⟨rfl, by simp [Frame.Covers]⟩
  | srq retval srq rest top =>
      exact kept.popped nested top (by rw [pop_frames, top]; rfl) rfl rfl rfl ⟨rfl, by simp [Frame.Covers]⟩
  | handled retval irq rest top =>
      have tail : k.pop.frames = rest := by rw [pop_frames, top, List.tail_cons]
      have popped : k.pop.Kept cfg x := kept.popped (kept.nested.pop top rfl tail rfl) top tail rfl
        rfl rfl ⟨rfl, by simp [Frame.Covers]⟩
      rw [Irq.handled]
      split
      next => exact popped
      next => exact popped.dispatched
  | sti pc rest top => exact kept.run g top
  | pend vector stage rest top => exact kept.pendStep top
  | kbrd rest top =>
      have tail : k.pop.frames = rest := by rw [pop_frames, top, List.tail_cons]
      have unstacked : k.pop.Nested := kept.nested.pop top rfl tail rfl
      have popped : k.pop.Kept cfg x := kept.popped unstacked top tail rfl rfl rfl
        ⟨rfl, by simp [Frame.Covers]⟩
      have entered : (k.goto [.sti .enter]).Nested := unstacked.pushSti rfl rfl
      have called : (k.goto [.sti .enter]).Kept cfg x :=
        popped.pushed entered rfl rfl rfl rfl (by simp [Frame.Decs])
      split
      next set =>
        rw [if_pos set] at nested
        exact called.pushed nested rfl rfl rfl rfl (by simp [Frame.Decs])
      next => exact called

end Cpu

end Rtai.Irq
