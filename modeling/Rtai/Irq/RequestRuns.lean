import Rtai.Irq.Pended
import Rtai.Irq.Requests

/-!
# Requests and their handler

`requests_served` says that the handler of a request never runs twice at once, is started
at most once for each pend, and at least once behind a pend by the time every CPU has
completed a run of `linux_sti`.  It is about runs in which no CPU comes into the loop for a
request that another one has served, and none is emptied while it is being marked.
-/

namespace Rtai.Irq

open Function Rtai.Lib

variable {C I : Type} {f : Frame I}

/-! ## CPUs that are being marked -/

/-- A call that is to mark the vector. -/
def Frame.pends (x : Vector) : Frame I → Bool
  | .pend vector _ => vector = x
  | _ => false

/-- The handler of the request. -/
def Frame.handles (srq : Srq) : Frame I → Bool
  | .srq s => s = srq
  | _ => false

theorem Frame.eq_of_handles {srq : Srq} (handles : f.handles srq = true) : f = .srq srq := by
  cases f with
  | srq s => exact congrArg _ (of_decide_eq_true handles)
  | _ => cases handles

theorem Frame.took_of_holds (holds : f.holds = true) : f.took = true := by
  cases f with
  | sti pc => exact Bool.or_eq_true_iff.mpr (.inl holds)
  | _ => cases holds

/-- No run of `linux_sti` has begun to empty the CPU inside a call that is to mark the vector. -/
def Unmarked (x : Vector) : List (Frame I) → Prop
  | [] => True
  | f :: fs => (f.took = true → fs.any (·.pends x) = false) ∧ Unmarked x fs

namespace Cpu

/-- The CPU is about to set the bit of `cpu_in_sti`. -/
def entering (k : Cpu I) : Bool :=
  match k.frames with
  | .sti .enter :: _ => !k.inSti
  | _ => false

/-- The CPU is about to test and set the bit of `activ_srqs`. -/
def taking (k : Cpu I) (srq : Srq) : Bool :=
  match k.frames with
  | .sti (.setActiv _ _ s) :: _ => s = srq
  | _ => false

variable {cfg : Config I} {srq : Srq} {g g' : Global} {k k' : Cpu I} {a : Action I}
  {rest fs : List (Frame I)} {x : Vector} {pc : Pc} {p : Phase}

theorem unmarked_push (unmarked : Unmarked x fs) (free : f.took = false) :
    Unmarked x (f :: fs) := by
  refine ⟨fun took => ?_, unmarked⟩
  rw [free] at took
  cases took

theorem unmarked_dispatched (unmarked : Unmarked x k.frames) :
    Unmarked x (dispatched k).frames := by
  rw [dispatched]
  split
  next => exact unmarked_push unmarked rfl
  next => exact unmarked

theorem unmarked_sti (g : Global) (unmarked : Unmarked x k.frames)
    (top : k.frames = .sti pc :: rest)
    (enters : k.entering = true → k.frames.any (·.pends x) = false) :
    Unmarked x (stiStep cfg g k pc).2.frames := by
  have tail : k.frames.tail = rest := by rw [top, List.tail_cons]
  rw [top] at unmarked
  obtain ⟨above, below⟩ := unmarked
  have stays {pc'} (took : (.sti pc : Frame I).took = true) : Unmarked x (.sti pc' :: rest) :=
    ⟨fun _ => above took, below⟩
  cases pc with
  | enter =>
      rw [stiStep]
      split
      next =>
        rw [stiAt_frames, tail]
        exact unmarked_push below rfl
      next free =>
        have enters := enters (by rw [entering, top]; simpa using free)
        rw [top, List.any_cons, Bool.or_eq_false_iff] at enters
        rw [stiAt_frames]
        exact tail ▸ ⟨fun _ => enters.2, below⟩
  | testHvec =>
      rw [stiStep]
      split
      next =>
        rw [stiAt_frames, tail]
        exact unmarked_push below rfl
      next => rwa [pop_frames, tail]
  | leave =>
      rw [stiStep]
      simpa [top] using below
  | doLinuxIrq h l vec =>
      rw [stiStep, goto, tail]
      exact unmarked_push (stays rfl) rfl
  | rtaiHandler h l s =>
      rw [stiStep]
      split
      next =>
        rw [goto, tail]
        exact unmarked_push (stays rfl) rfl
      next =>
        rw [stiAt_frames, tail]
        exact stays rfl
  | _ =>
    -- The run holds the bit and goes on.
    simp only [stiStep]
    try split
    all_goals exact (congrArg (List.cons _) tail ▸ stays rfl :)

/-- The CPU stays unmarked as long as no run begins to empty it inside a call. -/
theorem unmarked_acts (unmarked : Unmarked x k.frames) (acts : Acts cfg g k a g' k')
    (enters : a = .goOn → k.entering = true → k.frames.any (·.pends x) = false) :
    Unmarked x k'.frames := by
  cases acts with
  | handler irq => exact unmarked_push unmarked rfl
  | keyboard => exact unmarked_dispatched (k := k) unmarked
  | arrived irq => exact unmarked_dispatched (k := k.mark _) unmarked
  | pendLinuxIrq irq => exact unmarked_push unmarked rfl
  | pending s => exact unmarked
  | pendLinuxSrq s => exact unmarked_push unmarked rfl
  | cli => exact unmarked
  | call => exact unmarked_push unmarked rfl
  | isr retval vector rest top =>
      rw [top] at unmarked
      rw [pop_frames, top]
      exact unmarked.2
  | srq retval s rest top =>
      rw [top] at unmarked
      rw [pop_frames, top]
      exact unmarked.2
  | handled retval irq rest top =>
      have popped : Unmarked x k.pop.frames := by
        rw [top] at unmarked
        rw [pop_frames, top]
        exact unmarked.2
      rw [Irq.handled]
      split
      next => exact popped
      next => exact unmarked_dispatched popped
  | sti pc rest top => exact unmarked_sti g unmarked top (enters rfl)
  | pend vector stage rest top =>
      have below : Unmarked x k.frames.tail := by
        rw [top] at unmarked ⊢
        exact unmarked.2
      cases stage with
      | count => exact unmarked_push below rfl
      | lvec => exact unmarked_push below rfl
      | hvec => exact below
  | kbrd rest top =>
      have below : Unmarked x k.frames.tail := by
        rw [top] at unmarked ⊢
        exact unmarked.2
      have called : Unmarked x (.sti .enter :: k.frames.tail) := unmarked_push below rfl
      split
      next => exact unmarked_push called rfl
      next => exact called

/-! ## What a run leaves behind -/

theorem holds_of_counter (sees : pc.counter = some x) : pc.holds = true := by
  cases pc with
  | enter => cases sees
  | testHvec => cases sees
  | leave => cases sees
  | _ => rfl

theorem holds_of_word {h : Fin 8} (sees : pc.word = some h) : pc.holds = true := by
  cases pc with
  | enter => cases sees
  | testHvec => cases sees
  | leave => cases sees
  | _ => rfl

/-- What sees to a counter is a run that holds the bit, or a call that marks it. -/
theorem holds_or_pends (f : Frame I)
    (sees : f.counter = some x ∨ f.Covers x ∨ x = VECTRANS cfg.smp srq.vector ∧ f.Sees cfg srq) :
    f.holds = true ∨ f.pends x = true := by
  rcases sees with counts | covers | ⟨rfl, serves⟩
  · cases f with
    | sti pc => exact .inl (holds_of_counter counts)
    | pend vector stage =>
        cases stage with
        | lvec => exact .inr (by simpa [Frame.pends] using Option.some.inj counts)
        | _ => cases counts
    | _ => cases counts
  · cases f with
    | sti pc => exact .inl (holds_of_word covers)
    | pend vector stage =>
        cases stage with
        | hvec => exact .inr (decide_eq_true covers)
        | _ => cases covers
    | _ => cases covers
  · cases f with
    | sti pc =>
        cases pc with
        | enter => cases serves
        | testHvec => cases serves
        | leave => cases serves
        | _ => exact .inl rfl
    | pend vector stage =>
        cases stage with
        | count => exact .inr (decide_eq_true serves)
        | _ => cases serves
    | _ => cases serves

/-- A CPU whose run of `linux_sti` has returned is not responsible any more. -/
theorem Kept.not_responsible (kept : k'.Kept cfg (VECTRANS cfg.smp srq.vector)) (nested : k.Nested)
    (unmarked : Unmarked (VECTRANS cfg.smp srq.vector) k.frames)
    (top : k.frames = .sti .testHvec :: k'.frames) (none : ffnz k'.hvec = none) :
    ¬k'.Responsible cfg srq := by
  have quiet : ∀ f ∈ k'.frames, ¬(f.counter = some (VECTRANS cfg.smp srq.vector) ∨
      f.Covers (VECTRANS cfg.smp srq.vector) ∨
        VECTRANS cfg.smp srq.vector = VECTRANS cfg.smp srq.vector ∧ f.Sees cfg srq) := by
    intro f mem sees
    rw [top] at unmarked
    have unpended := unmarked.1 rfl
    rw [List.any_eq_false] at unpended
    rcases holds_or_pends f sees with holds | pends
    · rw [nested.free_below top rfl mem] at holds
      cases holds
    · exact unpended f mem pends
  intro responsible
  rcases responsible with positive | ⟨f, mem, sees⟩
  · rcases kept.counted positive with set | ⟨f, mem, counts⟩
    · rcases kept.marked set with word | ⟨f, mem, covers⟩
      · rw [ffnz_none none] at word
        cases word
      · exact quiet f mem (.inr (.inl covers))
    · exact quiet f mem (.inl counts)
  · exact quiet f mem (.inr (.inr ⟨rfl, sees⟩))

theorem Acts.hvec_of_completed (acts : Acts cfg g k .goOn g' k')
    (top : k.frames = .sti .testHvec :: k'.frames) : ffnz k'.hvec = none := by
  cases acts with
  | cli a which => rcases which with e | e <;> cases e
  | call a which => rcases which with e | e <;> cases e
  | sti pc rest here =>
      cases here.symm.trans top
      rw [stiStep] at top ⊢
      split
      next more =>
        rw [if_pos more, stiAt_frames] at top
        have length := congrArg List.length top
        simp [here] at length
      next none => exact Option.not_isSome_iff_eq_none.mp none
  | pend vector stage rest here => cases here.symm.trans top
  | kbrd rest here => cases here.symm.trans top

/-! ## What is on the stack -/

theorem holds_of_phase (here : f.phase srq = some p) : f.holds = true := by
  cases f with
  | sti pc =>
      cases pc with
      | clearPending h l s => rfl
      | rtaiHandler h l s => rfl
      | clearActiv h l s => rfl
      | _ => cases here
  | _ => cases here

/-- Only one run holds the bit. -/
theorem eq_of_holds (stacked : Stacked fs) {f' : Frame I} (mem : f ∈ fs) (mem' : f' ∈ fs)
    (holds : f.holds = true) (holds' : f'.holds = true) : f = f' := by
  induction fs with
  | nil => cases mem
  | cons top fs ih =>
      have alone (holds : top.holds = true) {f : Frame I} (mem : f ∈ fs)
          (holds' : f.holds = true) : False := by
        have free := stacked.1 (Frame.took_of_holds holds)
        rw [held, List.any_eq_false] at free
        exact free f mem holds'
      rcases List.mem_cons.mp mem with rfl | below
      · rcases List.mem_cons.mp mem' with rfl | below'
        · rfl
        · exact absurd holds' fun holds' => alone holds below' holds'
      · rcases List.mem_cons.mp mem' with rfl | below'
        · exact absurd holds fun holds => alone holds' below holds
        · exact ih stacked.2.2.2 below below'

theorem Nested.phase_unique {q : Phase} (nested : k.Nested) (here : k.At srq p) (there : k.At srq q) :
    p = q := by
  obtain ⟨f, mem, phase⟩ := here
  obtain ⟨f', mem', phase'⟩ := there
  have same := eq_of_holds nested.stacked mem mem' (holds_of_phase phase) (holds_of_phase phase')
  subst same
  exact Option.some.inj (phase.symm.trans phase')

theorem done_of_handles (stacked : Stacked fs) (handles : fs.any (·.handles srq) = true) :
    ∃ f ∈ fs, f.phase srq = some .done := by
  induction fs with
  | nil => cases handles
  | cons top fs ih =>
      rw [List.any_cons, Bool.or_eq_true] at handles
      rcases handles with here | below
      · obtain ⟨h, l, head⟩ := stacked.2.2.1 srq (Frame.eq_of_handles here)
        refine ⟨_, List.mem_cons_of_mem _ (List.mem_of_mem_head? head), ?_⟩
        simp [Frame.phase]
      · obtain ⟨f, mem, done⟩ := ih stacked.2.2.2 below
        exact ⟨f, List.mem_cons_of_mem _ mem, done⟩

/-- The handler of a request is on the stack once at most. -/
theorem countP_handles_le (stacked : Stacked fs) : fs.countP (·.handles srq) ≤ 1 := by
  induction fs with
  | nil => exact Nat.zero_le 1
  | cons top fs ih =>
      cases here : top.handles srq with
      | false =>
          rw [List.countP_cons_of_neg (by simp [here])]
          exact ih stacked.2.2.2
      | true =>
          -- It is above the run that called it, below which none holds the bit.
          obtain ⟨h, l, head⟩ := stacked.2.2.1 srq (Frame.eq_of_handles here)
          obtain ⟨below, rfl⟩ := List.head?_eq_some_iff.mp head
          have under := stacked.2.2.2
          have free : held below = false := under.1 rfl
          have none : below.countP (·.handles srq) = 0 := by
            rw [List.countP_eq_zero]
            intro f mem handles
            obtain ⟨run, mem, done⟩ :=
              done_of_handles under.2.2.2 (List.any_eq_true.mpr ⟨f, mem, handles⟩)
            rw [held, List.any_eq_false] at free
            exact free run mem (holds_of_phase done)
          rw [List.countP_cons_of_pos here, List.countP_cons_of_neg (by simp [Frame.handles]), none]

theorem At.responsible (here : k.At srq p) : k.Responsible cfg srq := by
  obtain ⟨f, mem, phase⟩ := here
  exact .inr ⟨f, mem, f.sees_of_phase cfg phase⟩

end Cpu

/-! ## Runs -/

/-- The step is a pend of the request. -/
def Asks (srq : Srq) (r : Record (State C I) (Event C I)) : Prop :=
  r.event.action = .pendLinuxSrq srq

/-- The step starts the handler. -/
def StartsHandler (srq : Srq) (r : Record (State C I) (Event C I)) : Prop :=
  (r.pre.cpu r.event.cpu).Starts (r.post.cpu r.event.cpu) srq

/-- A run of `linux_sti` returns on the CPU that had the bit of `cpu_in_sti`. -/
def Completes (c : C) (r : Record (State C I) (Event C I)) : Prop :=
  r.event = ⟨c, .goOn⟩ ∧ (r.pre.cpu c).frames = .sti .testHvec :: (r.post.cpu c).frames

def Completed (c : C) (tr : List (Record (State C I) (Event C I))) : Prop :=
  ∃ r ∈ tr, Completes c r

instance decidableAsks [DecidableEq I] (srq : Srq) (r : Record (State C I) (Event C I)) :
    Decidable (Asks srq r) :=
  inferInstanceAs (Decidable (_ = _))

instance decidableStartsHandler [DecidableEq I] (srq : Srq)
    (r : Record (State C I) (Event C I)) : Decidable (StartsHandler srq r) :=
  inferInstanceAs (Decidable (_ ∧ _))

instance decidableCompletes [DecidableEq C] [DecidableEq I] (c : C)
    (r : Record (State C I) (Event C I)) : Decidable (Completes c r) :=
  inferInstanceAs (Decidable (_ ∧ _))

def pends [DecidableEq I] (srq : Srq) (tr : List (Record (State C I) (Event C I))) : Nat :=
  tr.countP (Asks srq ·)

def starts [DecidableEq I] (srq : Srq) (tr : List (Record (State C I) (Event C I))) : Nat :=
  tr.countP (StartsHandler srq ·)

/-- No CPU goes on to serve a request that another one has served since it was tested, and none
begins to empty a CPU inside a call that is to mark the request on it. -/
def Timely (cfg : Config I) (srq : Srq) (s : State C I) (e : Event C I) : Prop :=
  e.action = .goOn →
    ((s.cpu e.cpu).taking srq = true → s.global.activSrqs srq = false →
      s.global.pendingSrqs srq = true) ∧
    ((s.cpu e.cpu).entering = true →
      (s.cpu e.cpu).frames.any (·.pends (VECTRANS cfg.smp srq.vector)) = false)

/-- The handler of the request is run as it should be. -/
structure Attended [DecidableEq I] (srq : Srq) (tr : List (Record (State C I) (Event C I)))
    (s : State C I) : Prop where
  alone : ∀ c d, (s.cpu c).frames.any (·.handles srq) = true →
    (s.cpu d).frames.any (·.handles srq) = true → c = d
  notReentered : ∀ c, (s.cpu c).frames.countP (·.handles srq) ≤ 1
  asked : starts srq tr ≤ pends srq tr
  served : ∀ before r after, tr = before ++ r :: after → Asks srq r →
    (∀ c, Completed c after) → 0 < starts srq after

/-- A run on the CPU is in the loop, with the bit of `activ_srqs`. -/
def State.Serving (s : State C I) (srq : Srq) (c : C) : Prop := ∃ p, (s.cpu c).At srq p

/-- What is left to be done for a pend, with `after` behind it. -/
def State.Awaited [DecidableEq I] (cfg : Config I) (srq : Srq)
    (after : List (Record (State C I) (Event C I))) (s : State C I) : Prop :=
  0 < starts srq after ∨ (∃ c, (s.cpu c).At srq .start ∧ ¬Completed c after) ∨
    s.global.pendingSrqs srq = true ∧ ∀ c, Completed c after → ¬(s.cpu c).Responsible cfg srq

/-- A step, as it is to a request. -/
structure Moves (cfg : Config I) (srq : Srq) (s s' : State C I) (e : Event C I) : Prop where
  acts : Cpu.SrqActs cfg srq s.global (s.cpu e.cpu) e.action s'.global (s'.cpu e.cpu)
  elsewhere : ∀ c, c ≠ e.cpu → s'.cpu c = s.cpu c

variable {cfg : Config I} {srq : Srq} {s s' : State C I} {e : Event C I}
  {tr after : List (Record (State C I) (Event C I))}

namespace Moves

variable {c : C}

section

variable (moves : Moves cfg srq s s' e)
include moves

/-- A CPU at the part, when the step does not get there, was there before. -/
theorem at_before {p : Phase} (here : (s'.cpu c).At srq p) (out : ¬(s'.cpu e.cpu).At srq p) :
    c ≠ e.cpu ∧ (s.cpu c).At srq p := by
  have other : c ≠ e.cpu := by
    rintro rfl
    exact out here
  rw [moves.elsewhere c other] at here
  exact ⟨other, here⟩

theorem at_same {p : Phase} (here : (s'.cpu c).At srq p)
    (same : ∀ p, (s'.cpu e.cpu).At srq p ↔ (s.cpu e.cpu).At srq p) : (s.cpu c).At srq p := by
  by_cases mine : c = e.cpu
  · subst mine
    exact (same p).mp here
  · rwa [moves.elsewhere c mine] at here

theorem serving_iff (here : s'.Serving srq e.cpu ↔ s.Serving srq e.cpu) (c : C) :
    s'.Serving srq c ↔ s.Serving srq c := by
  by_cases same : c = e.cpu
  · rw [same]
    exact here
  · rw [State.Serving, State.Serving, moves.elsewhere c same]

theorem token (token : Token (s.global.activSrqs srq = false) (s.Serving srq)) :
    Token (s'.global.activSrqs srq = false) (s'.Serving srq) := by
  cases moves.acts with
  | quiet pending activ phases =>
      exact token.congr (by rw [activ]) (moves.serving_iff (exists_congr phases))
  | pend asks unset pending activ phases =>
      exact token.congr (by rw [activ]) (moves.serving_iff (exists_congr phases))
  | drop goes why same phases =>
      exact token.congr (by rw [same]) (moves.serving_iff (exists_congr phases))
  | take goes free h l top activ pending phases before =>
      apply token.take (p := e.cpu) free (by simp [activ])
      intro c
      by_cases same : c = e.cpu
      · subst same
        exact iff_of_true ⟨_, (phases .clear).mpr rfl⟩ (.inr rfl)
      · rw [State.Serving, moves.elsewhere c same]
        simp [State.Serving, same]
  | clear goes here pending activ phases =>
      have both : s'.Serving srq e.cpu ↔ s.Serving srq e.cpu :=
        iff_of_true ⟨_, (phases .start).mpr rfl⟩ ⟨_, here⟩
      exact token.congr (by rw [activ]) (moves.serving_iff both)
  | start goes here pending activ phases =>
      have both : s'.Serving srq e.cpu ↔ s.Serving srq e.cpu :=
        iff_of_true ⟨_, (phases .done).mpr rfl⟩ ⟨_, here⟩
      exact token.congr (by rw [activ]) (moves.serving_iff both)
  | release goes here activ pending phases =>
      apply token.release (p := e.cpu) ⟨_, here⟩ activ
      intro c
      by_cases same : c = e.cpu
      · subst same
        exact iff_of_false (fun ⟨p, at'⟩ => phases p at') fun both => both.2 rfl
      · rw [State.Serving, moves.elsewhere c same]
        simp [State.Serving, same]

/-- Somebody stays responsible for a pending request. -/
theorem responsible (token : Token (s.global.activSrqs srq = false) (s.Serving srq))
    (responsible : s.global.pendingSrqs srq = true → ∃ c, (s.cpu c).Responsible cfg srq)
    (pending : s'.global.pendingSrqs srq = true) : ∃ c, (s'.cpu c).Responsible cfg srq := by
  cases moves.acts with
  | quiet same activ phases here =>
      rw [same] at pending
      obtain ⟨c, resp⟩ := responsible pending
      by_cases same : c = e.cpu
      · subst same
        exact ⟨e.cpu, here.mpr resp⟩
      · exact ⟨c, by rwa [moves.elsewhere c same]⟩
  | pend asks unset set activ phases here => exact ⟨e.cpu, here⟩
  | drop goes why same phases =>
      rw [same] at pending
      have activ := why.resolve_left (by simp [pending])
      -- The one who serves it tests the bit again.
      obtain ⟨c, p, serving⟩ := token.exists_of_not_free (by simp [activ])
      by_cases same : c = e.cpu
      · subst same
        exact ⟨e.cpu, Cpu.At.responsible ((phases p).mpr serving)⟩
      · exact ⟨c, by rw [moves.elsewhere c same]; exact serving.responsible⟩
  | take goes free h l top activ same phases =>
      exact ⟨e.cpu, Cpu.At.responsible ((phases .clear).mpr rfl)⟩
  | clear goes here unset =>
      rw [unset] at pending
      cases pending
  | start goes here same activ phases =>
      exact ⟨e.cpu, Cpu.At.responsible ((phases .done).mpr rfl)⟩
  | release goes here activ same phases resp => exact ⟨e.cpu, resp⟩

theorem clearing (timely : Timely cfg srq s e)
    (token : Token (s.global.activSrqs srq = false) (s.Serving srq))
    (clearing : ∀ c, (s.cpu c).At srq .clear → s.global.pendingSrqs srq = true) (c : C)
    (here : (s'.cpu c).At srq .clear) : s'.global.pendingSrqs srq = true := by
  cases moves.acts with
  | quiet same activ phases => exact same.trans (clearing c (moves.at_same here phases))
  | pend asks unset set => exact set
  | drop goes why same phases => rw [same, clearing c (moves.at_same here phases)]
  | take goes free h l top activ same =>
      have takes : (s.cpu e.cpu).taking srq = true := by
        obtain ⟨rest, top⟩ := List.head?_eq_some_iff.mp top
        simp [Cpu.taking, top]
      exact same.trans ((timely goes).1 takes free)
  | clear goes mine unset activ phases =>
      obtain ⟨other, here⟩ := moves.at_before here fun now => nomatch (phases .clear).mp now
      exact absurd (token.unique ⟨_, here⟩ ⟨_, mine⟩) other
  | start goes mine same activ phases =>
      have before := moves.at_before here fun now => nomatch (phases .clear).mp now
      exact same.trans (clearing c before.2)
  | release goes mine activ same phases =>
      exact same.trans (clearing c (moves.at_before here (phases .clear)).2)

end

variable [DecidableEq I]

theorem starts_eq (none : ¬(s.cpu e.cpu).Starts (s'.cpu e.cpu) srq) :
    starts srq (tr ++ [⟨s, e, s'⟩]) = starts srq tr := by
  have quiet : ¬StartsHandler srq ⟨s, e, s'⟩ := none
  simp [starts, List.countP_append, quiet]

theorem starts_succ (here : (s.cpu e.cpu).Starts (s'.cpu e.cpu) srq) :
    starts srq (tr ++ [⟨s, e, s'⟩]) = starts srq tr + 1 := by
  have now : StartsHandler srq ⟨s, e, s'⟩ := here
  simp [starts, List.countP_append, now]

theorem starts_le (r : Record (State C I) (Event C I)) :
    starts srq tr ≤ starts srq (tr ++ [r]) := by
  simp [starts, List.countP_append]

theorem pends_le (r : Record (State C I) (Event C I)) :
    pends srq tr ≤ pends srq (tr ++ [r]) := by
  simp [pends, List.countP_append]

theorem pends_succ (asks : e.action = .pendLinuxSrq srq) :
    pends srq (tr ++ [⟨s, e, s'⟩]) = pends srq tr + 1 := by
  have now : Asks srq ⟨s, e, s'⟩ := asks
  simp [pends, List.countP_append, now]

/-- A pend is what has been started, or is pending. -/
theorem once (moves : Moves cfg srq s s' e)
    (clearing : ∀ c, (s.cpu c).At srq .clear → s.global.pendingSrqs srq = true)
    (once : starts srq tr + (s.global.pendingSrqs srq).toNat ≤ pends srq tr)
    (started : ∀ c, (s.cpu c).At srq .start →
      starts srq tr + (s.global.pendingSrqs srq).toNat < pends srq tr) :
    starts srq (tr ++ [⟨s, e, s'⟩]) + (s'.global.pendingSrqs srq).toNat ≤
      pends srq (tr ++ [⟨s, e, s'⟩]) := by
  have quiet (none : ¬(s.cpu e.cpu).Starts (s'.cpu e.cpu) srq)
      (same : s'.global.pendingSrqs srq = s.global.pendingSrqs srq) :
      starts srq (tr ++ [⟨s, e, s'⟩]) + (s'.global.pendingSrqs srq).toNat ≤
        pends srq (tr ++ [⟨s, e, s'⟩]) := by
    rw [starts_eq none, same]
    exact once.trans (pends_le _)
  cases moves.acts with
  | quiet same activ phases resp none => exact quiet none same
  | pend asks unset set activ phases resp none =>
      rw [starts_eq none, pends_succ asks, set]
      rw [unset] at once
      exact Nat.succ_le_succ once
  | drop goes why same phases resp none => exact quiet none (by rw [same])
  | take goes free h l top activ same phases before resp none => exact quiet none same
  | clear goes here unset activ phases none =>
      rw [starts_eq none, unset]
      rw [clearing e.cpu here] at once
      exact (Nat.le_of_succ_le once).trans (pends_le _)
  | start goes here same activ phases starts =>
      have less := started e.cpu here
      rw [starts_succ starts, same, Nat.add_right_comm]
      exact less.trans_le (pends_le _)
  | release goes here activ same phases resp none => exact quiet none same

/-- The one that is about to be started has been asked for. -/
theorem started (moves : Moves cfg srq s s' e)
    (token : Token (s.global.activSrqs srq = false) (s.Serving srq))
    (clearing : ∀ c, (s.cpu c).At srq .clear → s.global.pendingSrqs srq = true)
    (once : starts srq tr + (s.global.pendingSrqs srq).toNat ≤ pends srq tr)
    (started : ∀ c, (s.cpu c).At srq .start →
      starts srq tr + (s.global.pendingSrqs srq).toNat < pends srq tr) (c : C)
    (here : (s'.cpu c).At srq .start) :
    starts srq (tr ++ [⟨s, e, s'⟩]) + (s'.global.pendingSrqs srq).toNat <
      pends srq (tr ++ [⟨s, e, s'⟩]) := by
  have quiet (none : ¬(s.cpu e.cpu).Starts (s'.cpu e.cpu) srq)
      (same : s'.global.pendingSrqs srq = s.global.pendingSrqs srq)
      (here : (s.cpu c).At srq .start) :
      starts srq (tr ++ [⟨s, e, s'⟩]) + (s'.global.pendingSrqs srq).toNat <
        pends srq (tr ++ [⟨s, e, s'⟩]) := by
    have less := started c here
    rw [starts_eq none, same]
    exact less.trans_le (pends_le _)
  cases moves.acts with
  | quiet same activ phases resp none => exact quiet none same (moves.at_same here phases)
  | pend asks unset set activ phases resp none =>
      have less := started c (moves.at_same here phases)
      rw [starts_eq none, pends_succ asks, set]
      rw [unset] at less
      exact Nat.succ_lt_succ less
  | drop goes why same phases resp none => exact quiet none (by rw [same]) (moves.at_same here phases)
  | take goes free h l top activ same phases none resp quiet' =>
      have before := moves.at_before here fun now => nomatch (phases .start).mp now
      exact quiet quiet' same before.2
  | clear goes mine unset activ phases none =>
      rw [starts_eq none, unset]
      rw [clearing e.cpu mine] at once
      exact Nat.lt_of_lt_of_le once (pends_le _)
  | start goes mine same activ phases starts =>
      obtain ⟨other, here⟩ := moves.at_before here fun now => nomatch (phases .start).mp now
      exact absurd (token.unique ⟨_, here⟩ ⟨_, mine⟩) other
  | release goes mine activ same phases resp none =>
      exact quiet none same (moves.at_before here (phases .start)).2

/-- A pend leaves the request pending. -/
theorem awaited_now (moves : Moves cfg srq s s' e) (asks : e.action = .pendLinuxSrq srq) :
    s'.Awaited cfg srq [] := by
  have pending : s'.global.pendingSrqs srq = true := by
    cases moves.acts with
    | quiet same activ phases resp starts set => exact same.trans (set asks)
    | pend asks' unset set => exact set
    | drop goes => cases asks.symm.trans goes
    | take goes => cases asks.symm.trans goes
    | clear goes => cases asks.symm.trans goes
    | start goes => cases asks.symm.trans goes
    | release goes => cases asks.symm.trans goes
  refine .inr (.inr ⟨pending, fun c completed => ?_⟩)
  obtain ⟨r, mem, -⟩ := completed
  cases mem

omit [DecidableEq I] in
theorem completed_snoc (completed : Completed c (after ++ [⟨s, e, s'⟩])) :
    Completed c after ∨ c = e.cpu ∧ Completes e.cpu ⟨s, e, s'⟩ := by
  obtain ⟨r, mem, completes⟩ := completed
  rcases List.mem_append.mp mem with earlier | now
  · exact .inl ⟨r, earlier, completes⟩
  · rw [List.mem_singleton] at now
    subst now
    have here : e.cpu = c := congrArg Event.cpu completes.1
    subst here
    exact .inr ⟨rfl, completes⟩

/-- A step leaves it to be done, or starts the handler. -/
theorem awaited (moves : Moves cfg srq s s' e)
    (unique : ∀ p q, (s.cpu e.cpu).At srq p → (s.cpu e.cpu).At srq q → p = q)
    (leaves : Completes e.cpu ⟨s, e, s'⟩ → ¬(s'.cpu e.cpu).Responsible cfg srq)
    (awaited : s.Awaited cfg srq after) : s'.Awaited cfg srq (after ++ [⟨s, e, s'⟩]) := by
  have started (starts : (s.cpu e.cpu).Starts (s'.cpu e.cpu) srq) :
      s'.Awaited cfg srq (after ++ [⟨s, e, s'⟩]) := by
    left
    rw [starts_succ starts]
    exact Nat.succ_pos _
  rcases awaited with done | ⟨c, here, yet⟩ | ⟨pending, left⟩
  · left
    exact done.trans_le (starts_le _)
  · -- The CPU that is about to start the handler does not get to the end of its run.
    have stays (mine : (s'.cpu e.cpu).At srq .start ∨ c ≠ e.cpu) :
        s'.Awaited cfg srq (after ++ [⟨s, e, s'⟩]) := by
      by_cases same : c = e.cpu
      · subst same
        have here := mine.resolve_right fun other => other rfl
        refine .inr (.inl ⟨e.cpu, here, fun completed => ?_⟩)
        rcases completed_snoc completed with earlier | ⟨-, now⟩
        · exact yet earlier
        · exact leaves now here.responsible
      · refine .inr (.inl ⟨c, by rwa [moves.elsewhere c same], fun completed => ?_⟩)
        rcases completed_snoc completed with earlier | ⟨mine, -⟩
        · exact yet earlier
        · exact same mine
    by_cases same : c = e.cpu
    · subst same
      cases moves.acts with
      | quiet same activ phases => exact stays (.inl ((phases .start).mpr here))
      | pend asks unset set activ phases => exact stays (.inl ((phases .start).mpr here))
      | drop goes why same phases => exact stays (.inl ((phases .start).mpr here))
      | take goes free h l top activ same phases before => exact absurd here (before .start)
      | clear goes there => cases unique _ _ here there
      | start goes there same activ phases starts => exact started starts
      | release goes there => cases unique _ _ here there
    · exact stays (.inr same)
  · have stays (set : s'.global.pendingSrqs srq = true)
        (resp : (s'.cpu e.cpu).Responsible cfg srq → (s.cpu e.cpu).Responsible cfg srq) :
        s'.Awaited cfg srq (after ++ [⟨s, e, s'⟩]) := by
      refine .inr (.inr ⟨set, fun c completed => ?_⟩)
      rcases completed_snoc completed with earlier | ⟨rfl, now⟩
      · by_cases same : c = e.cpu
        · subst same
          exact fun again => left e.cpu earlier (resp again)
        · rw [moves.elsewhere c same]
          exact left c earlier
      · exact leaves now
    cases moves.acts with
    | quiet same activ phases resp => exact stays (same.trans pending) resp.mp
    | pend asks unset =>
        rw [pending] at unset
        cases unset
    | drop goes why same phases resp => exact stays (same ▸ pending) fun _ => resp
    | take goes free h l top activ same phases before resp =>
        exact stays (same.trans pending) fun _ => resp
    | clear goes here unset activ phases =>
        have next : (s'.cpu e.cpu).At srq .start := (phases .start).mpr rfl
        refine .inr (.inl ⟨e.cpu, next, fun completed => ?_⟩)
        rcases completed_snoc completed with earlier | ⟨-, now⟩
        · exact left e.cpu earlier here.responsible
        · exact leaves now next.responsible
    | start goes here same activ phases starts => exact started starts
    | release goes here activ same => exact stays (same.trans pending) fun _ => here.responsible

end Moves

variable [DecidableEq I]

/-- What every timely run keeps. -/
structure Served (cfg : Config I) (srq : Srq) (tr : List (Record (State C I) (Event C I)))
    (s : State C I) : Prop where
  kept : ∀ c, (s.cpu c).Kept cfg (VECTRANS cfg.smp srq.vector)
  unmarked : ∀ c, Unmarked (VECTRANS cfg.smp srq.vector) (s.cpu c).frames
  token : Token (s.global.activSrqs srq = false) (s.Serving srq)
  responsible : s.global.pendingSrqs srq = true → ∃ c, (s.cpu c).Responsible cfg srq
  clearing : ∀ c, (s.cpu c).At srq .clear → s.global.pendingSrqs srq = true
  once : starts srq tr + (s.global.pendingSrqs srq).toNat ≤ pends srq tr
  started : ∀ c, (s.cpu c).At srq .start →
    starts srq tr + (s.global.pendingSrqs srq).toNat < pends srq tr
  awaited : ∀ before r after, tr = before ++ r :: after → Asks srq r → s.Awaited cfg srq after

theorem Served.init : Served cfg srq [] ({} : State C I) where
  kept := fun c => {
    nested := ⟨trivial, rfl⟩
    small := Nat.two_pow_pos 32
    counted := fun positive => absurd positive (Nat.lt_irrefl 0)
    marked := fun set => by cases set
    taken := fun f mem => absurd mem List.not_mem_nil
    single := fun _ twice => absurd twice (Nat.not_lt_zero 1) }
  unmarked := fun c => trivial
  token := .inl ⟨rfl, fun c ⟨p, f, mem, _⟩ => absurd mem List.not_mem_nil⟩
  responsible := fun pending => by cases pending
  clearing := fun c ⟨f, mem, _⟩ => absurd mem List.not_mem_nil
  once := Nat.le_refl 0
  started := fun c ⟨f, mem, _⟩ => absurd mem List.not_mem_nil
  awaited := fun before r after split => by
    exact absurd split.symm (List.append_ne_nil_of_right_ne_nil _ (List.cons_ne_nil _ _))

variable [DecidableEq C]

theorem Served.step (handler : cfg.rtaiHandler srq = true) (served : Served cfg srq tr s)
    (timely : Timely cfg srq s e) (stepped : s.step cfg e = some s') :
    Served cfg srq (tr ++ [⟨s, e, s'⟩]) s' := by
  obtain ⟨g, k, acts, rfl⟩ := State.step_acts stepped
  have kept := served.kept e.cpu
  -- Nothing that arrives has the counter of the request.
  have kept' := kept.acts (fun irq _ same => absurd same.symm (Cpu.index_ne irq)) acts
  have unmarked := Cpu.unmarked_acts (served.unmarked e.cpu) acts fun goes => (timely goes).2
  have moves : Moves cfg srq s { cpu := update s.cpu e.cpu k, global := g } e := {
    acts := by
      rw [State.here]
      exact kept.srqActs handler acts
    elsewhere := fun c other => State.elsewhere other }
  have leaves : Completes e.cpu ⟨s, e, { cpu := update s.cpu e.cpu k, global := g }⟩ →
      ¬(({ cpu := update s.cpu e.cpu k, global := g } : State C I).cpu e.cpu).Responsible cfg srq := by
    intro ⟨goes, top⟩
    rw [State.here] at top ⊢
    have goes : e.action = .goOn := congrArg Event.action goes
    rw [goes] at acts
    exact kept'.not_responsible kept.nested (served.unmarked e.cpu) top (acts.hvec_of_completed top)
  constructor
  · intro c
    by_cases same : c = e.cpu
    · rw [same, State.here]
      exact kept'
    · rw [State.elsewhere same]
      exact served.kept c
  · intro c
    by_cases same : c = e.cpu
    · rw [same, State.here]
      exact unmarked
    · rw [State.elsewhere same]
      exact served.unmarked c
  · exact moves.token served.token
  · exact moves.responsible served.token served.responsible
  · exact moves.clearing timely served.token served.clearing
  · exact moves.once served.clearing served.once served.started
  · exact moves.started served.token served.clearing served.once served.started
  · intro before r after split asks
    rcases List.eq_nil_or_concat after with rfl | ⟨after, last, rfl⟩
    · obtain ⟨rfl, same⟩ := List.append_inj' split rfl
      cases same
      exact moves.awaited_now asks
    · rw [List.concat_eq_append, ← List.cons_append, ← List.append_assoc] at split
      obtain ⟨rfl, same⟩ := List.append_inj' split rfl
      cases same
      rw [List.concat_eq_append]
      exact moves.awaited (fun p q => kept.nested.phase_unique) leaves
        (served.awaited before r after rfl asks)

/-- In a timely run the handler of a request is run as it should be. -/
theorem requests_served (handler : cfg.rtaiHandler srq = true)
    (run : Run (State.step cfg) (Timely cfg srq) ({} : State C I) tr s) :
    Attended srq tr s := by
  have served : Served cfg srq tr s :=
    run.history .init fun served timely stepped => served.step handler timely stepped
  have stacked := fun c => (served.kept c).nested.stacked
  constructor
  · intro c d here there
    exact served.token.unique ⟨.done, Cpu.done_of_handles (stacked c) here⟩
      ⟨.done, Cpu.done_of_handles (stacked d) there⟩
  · intro c
    exact Cpu.countP_handles_le (stacked c)
  · have once := served.once
    omega
  · intro before r after split asks completed
    rcases served.awaited before r after split asks with done | ⟨c, -, yet⟩ | ⟨pending, left⟩
    · exact done
    · exact absurd (completed c) yet
    · obtain ⟨c, responsible⟩ := served.responsible pending
      exact absurd responsible (left c (completed c))

instance decidableTimely (s : State C I) (e : Event C I) : Decidable (Timely cfg srq s e) :=
  inferInstanceAs (Decidable (_ → _ ∧ _))

/-- The events of the pend of a request on a CPU. -/
def pendOn {I : Type} (c : C) (srq : Srq) : List (Event C I) :=
  ⟨c, .pendLinuxSrq srq⟩ :: List.replicate 3 ⟨c, .goOn⟩

/-- A request is pended again inside its handler, which is started again. -/
theorem requests_served_again :
    ∃ tr s, Run (State.step (machine true)) (Timely (machine true) 2)
      ({} : State Bool (Fin 2)) tr s ∧ pends 2 tr = 2 ∧ starts 2 tr = 2 ∧ Attended 2 tr s := by
  have ⟨tr, s, run, test⟩ := Run.of_records (State.step (machine true)) (Timely (machine true) 2)
    ({} : State Bool (Fin 2))
    (pendOn false 2 ++ ⟨false, .linuxSti⟩ :: List.replicate 11 ⟨false, .goOn⟩ ++
      pendOn false 2 ++ ⟨false, .ret false⟩ :: List.replicate 5 ⟨false, .goOn⟩ ++
      ⟨false, .ret false⟩ :: List.replicate 20 ⟨false, .goOn⟩)
    (fun tr _ => pends 2 tr = 2 ∧ starts 2 tr = 2) (by decide +kernel)
  obtain ⟨twice, started⟩ := of_decide_eq_true test
  exact ⟨tr, s, run, twice, started, requests_served rfl run⟩

/-- A CPU finds the request pending and stops; until it goes on another CPU serves the request.
The handler is started a third time for two pends. -/
theorem request_served_twice :
    ¬∀ tr s, Run (State.step (machine true)) (fun _ _ => True) ({} : State Bool (Fin 2)) tr s →
      Attended 2 tr s := by
  intro attended
  have ⟨tr, s, run, test⟩ := Run.of_records (State.step (machine true)) (fun _ _ => True)
    ({} : State Bool (Fin 2))
    (pendOn true 2 ++ ⟨true, .linuxSti⟩ :: List.replicate 11 ⟨true, .goOn⟩ ++
      pendOn false 2 ++ ⟨false, .linuxSti⟩ :: List.replicate 8 ⟨false, .goOn⟩ ++
      ⟨true, .ret false⟩ :: List.replicate 5 ⟨true, .goOn⟩ ++
      ⟨true, .ret false⟩ :: ⟨true, .goOn⟩ :: List.replicate 3 ⟨false, .goOn⟩)
    (fun tr _ => pends 2 tr = 2 ∧ starts 2 tr = 3) (by decide +kernel)
  obtain ⟨twice, thrice⟩ := of_decide_eq_true test
  have asked := (attended tr s run).asked
  rw [twice, thrice] at asked
  exact absurd asked (by decide)

end Rtai.Irq
