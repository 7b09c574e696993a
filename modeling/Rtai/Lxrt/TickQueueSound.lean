import Rtai.Lxrt.TickQueueRuns

/-!
# The tick queue is sound

Every call keeps the queue in order, the executions and the log, so whatever the calls are
and wherever they are made, blocks are executed when they are due, in their order and once.
-/

namespace Rtai.Lxrt.TickQueue

open Function Rtai.Lib

variable {α : Type} [DecidableEq α] {s s' : State α} {b cur : α} {e : Event α}

theorem ne_of_expired (head : s.hook.head? = some b) (due : s.expired = true) :
    s.wait ≠ some b := by
  intro wait
  rw [State.expired, head, wait] at due
  simp at due

structure Inv (s : State α) : Prop where
  queue : Queue s
  runs : Runs s
  logged : Logged s

namespace Inv

variable (h : Inv s)
include h

theorem free (out : s.place b = .none) : b ∉ s.hook ∧ b ∉ s.exec := by
  rw [← h.queue.tick b, ← h.runs.place b, out]
  decide

theorem touched : Queue (s.touch cur) :=
  h.queue.others _ _ _ _ _ fun _ => Iff.rfl

/-- A block is dequeued, and its executions know. -/
theorem dequeue : Inv ((s.touch cur).blkDequeue cur) := by
  have queue : Queue ((s.touch cur).blkDequeue cur) := h.touched.blkDequeue
  obtain ⟨blkTic, wait, same⟩ :=
    @blkDequeue_eq α _ (s.touch cur) cur ⟨h.queue.tick, h.runs.place⟩
  rw [same] at queue ⊢
  refine ⟨queue, h.runs.drop rfl rfl rfl rfl, ?_⟩
  by_cases mem : cur ∈ s.hook
  · exact h.logged.drop mem rfl rfl (fun _ => rfl) rfl (if_pos mem)
  · exact h.logged.others rfl (List.erase_of_not_mem mem) (fun _ => rfl) rfl (if_neg mem)

/-- A block that enters the queue is in no execution. -/
theorem entered {rpt : Int} (out : s.place cur = .none) (exec : s'.exec = s.exec)
    (frames : s'.frames = s.frames) (place : s'.place = update s.place cur .tick)
    (blkRpt : s'.blkRpt = update s.blkRpt cur rpt) : Runs s' := by
  refine h.runs.others exec frames (fun b => ?_) fun b mem => ?_
  · rw [place]
    by_cases same : b = cur
    · simp [same, out]
    · rw [update_of_ne same]
  · rw [blkRpt]
    refine update_of_ne ?_ _ _
    rintro rfl
    exact (h.free out).2 mem

theorem insert (out : s.place cur = .none) (d : Int) (rpt : Bool) : Inv (s.tqinsert cur d rpt) := by
  have notHook := (h.free out).1
  have ⟨queue, perm⟩ := h.queue.tqinsert notHook d rpt
  refine ⟨queue, h.entered out rfl rfl rfl rfl, h.logged.put notHook rfl perm ?_ ?_ rfl rfl⟩
  · exact fun b other => key_record_of_ne other
  · exact update_self ..

/-- A block goes to the head of the queue. -/
theorem soon : Inv ((s.touch cur).blkSoon cur) := by
  have dequeued : Inv ((s.touch cur).blkDequeue cur) := h.dequeue
  have out : ((s.touch cur).blkDequeue cur).place cur = .none := blkDequeue_place
  rw [State.blkSoon]
  generalize (s.touch cur).blkDequeue cur = s₁ at *
  have notHook := (dequeued.free out).1
  refine ⟨dequeued.queue.soon notHook _, dequeued.entered out rfl rfl rfl rfl,
    dequeued.logged.put notHook rfl (.refl _) ?_ ?_ rfl rfl⟩
  · exact fun b other => key_record_of_ne other
  · exact update_self ..

theorem adjust : Inv s.tqadjust :=
  ⟨h.queue.tqadjust, h.runs.others rfl rfl (fun _ => Iff.rfl) fun _ _ => rfl,
    h.logged.others rfl rfl (fun _ => rfl) rfl rfl⟩

/-- The head of the queue is executed when `TQ->wait` is behind it. -/
theorem complete (head : s.hook.head? = some b) (other : s.wait ≠ some b) :
    Inv (s.tqcomplete b) := by
  obtain ⟨gone, pend, split⟩ := h.queue.split
  have mem := split.head head other
  obtain ⟨rest, hook⟩ := List.head?_eq_some_iff.mp head
  have first : b ∈ s.hook := by
    rw [hook]
    exact .head _
  have tick := (h.queue.tick b).mpr first
  have notExec : b ∉ s.exec := by
    rw [← h.runs.place b, tick]
    decide
  have queue := h.queue.tqcomplete split mem
  rw [tqcomplete_eq tick] at queue ⊢
  refine ⟨queue, h.runs.push notExec rfl rfl rfl rfl, ?_⟩
  refine h.logged.complete h.queue hook (split.due b mem) ?_ rfl (fun _ => rfl) rfl rfl
  change s.hook.erase b = rest
  rw [hook, List.erase_cons_head]

/-- Functions that are running start or end. -/
theorem framed {frames : List (Frame α)} (runs : Runs { s with frames }) : Inv { s with frames } :=
  ⟨h.queue.others _ _ _ _ _ fun _ => Iff.rfl, runs, h.logged.others rfl rfl (fun _ => rfl) rfl rfl⟩

theorem turn {rest : List (Frame α)} (frames : s.frames = .syncing :: rest) :
    Inv (s.turn rest) := by
  have left : Inv { s.tqadjust with frames := rest } := by
    exact h.adjust.framed (h.adjust.runs.pop frames rfl)
  have popped : Inv { s with frames := rest } := h.framed (h.runs.pop frames rfl)
  rw [State.turn]
  cases head : s.hook.head? with
  | none => exact popped
  | some b =>
      by_cases due : s.wait ≠ some b
      · simp only [if_pos due]
        exact h.complete head due
      · simp only [if_neg due]
        split
        · exact h.adjust
        · exact left

theorem qStep : Inv s.qStep := by
  rw [State.qStep]
  cases head : s.hook.head? with
  | none => exact h
  | some b =>
      by_cases due : s.expired
      · simp only [if_pos due]
        exact h.complete head (ne_of_expired head due)
      · simp only [if_neg due]
        by_cases come : s.tqadjust.expired
        · simp only [if_pos come]
          exact h.adjust.complete head (ne_of_expired head come)
        · simp only [if_neg come]
          exact h.adjust

end Inv

section

variable {f : Running α} {rest : List (Frame α)}

/-- A block that has not been touched is put in again, with the same delay. -/
theorem tqcompleted_own (h : Runs s) (frames : s.frames = .executing f :: rest)
    (repeating : f.rpt ≠ 0) (own : f.touched = false) :
    ({ s with frames := rest }.tqcompleted f) = { s with
      frames := rest
      exec := s.exec.erase f.block
      place := update s.place f.block .none }.tqinsert f.block f.rpt true := by
  have repeats := repeats_executing repeating own
  have mem : Frame.executing f ∈ s.frames := by
    rw [frames]
    exact .head _
  have place := (h.place f.block).mpr (h.mem mem repeats)
  have head := (h.head frames).mpr repeats
  have rpt := h.rpt f mem repeating own
  rw [State.tqcompleted, if_pos head]
  simp only [State.unhook, place, rpt]

theorem tqcompleted_lost (h : Runs s) (frames : s.frames = .executing f :: rest)
    (lost : ¬(f.rpt ≠ 0 ∧ f.touched = false)) :
    ({ s with frames := rest }.tqcompleted f) = { s with frames := rest } :=
  if_neg fun head => lost (Option.ite_none_right_eq_some.mp ((h.head frames).mp head)).1

variable (h : Inv s) (frames : s.frames = .executing f :: rest)
include h frames

/-- The block of an execution that ends leaves `TQ->exec`. -/
theorem Inv.ended (repeats : (Frame.executing f).repeats = some f.block) : Inv { s with
      frames := rest
      exec := s.exec.erase f.block
      place := update s.place f.block .none } := by
  have exec := h.runs.exec
  have apart := h.runs.apart
  rw [frames] at exec apart
  rw [List.filterMap_cons_some repeats] at exec
  have place : s.place f.block = .exec := by
    rw [h.runs.place, exec]
    exact .head _
  have out : s.place f.block ≠ .tick := by simp [place]
  refine ⟨h.queue.others _ _ _ _ _ ?_, ⟨?_, ?_, ?_, (List.pairwise_cons.mp apart).2⟩,
    h.logged.others rfl rfl (fun _ => rfl) rfl rfl⟩
  · intro b
    by_cases same : b = f.block
    · simp [same, out]
    · rw [update_of_ne same]
  · change s.exec.erase f.block = _
    rw [exec, List.erase_cons_head]
  · intro b
    change update s.place f.block .none b = .exec ↔ b ∈ s.exec.erase f.block
    rw [h.runs.unique.mem_erase_iff]
    by_cases same : b = f.block
    · simp [same]
    · rw [update_of_ne same, h.runs.place b]
      simp [same]
  · intro g mem
    exact h.runs.rpt g (by rw [frames]; exact .tail _ mem)

/-- A block that is put in again was not in the queue. -/
theorem Inv.again (live : f.rpt ≠ 0 ∧ f.touched = false) : f.block ∉ s.hook ∧
      ({ s with frames := rest }.tqcompleted f).hook.Perm (f.block :: s.hook) := by
  have ended := h.ended frames (if_pos live)
  have out : f.block ∉ s.hook := (ended.free (b := f.block) (update_self ..)).1
  rw [tqcompleted_own h.runs frames live.1 live.2]
  exact ⟨out, (ended.queue.tqinsert out f.rpt true).2⟩

theorem Inv.completed : Inv ({ s with frames := rest }.tqcompleted f) := by
  by_cases live : f.rpt ≠ 0 ∧ f.touched = false
  · rw [tqcompleted_own h.runs frames live.1 live.2]
    exact (h.ended frames (if_pos live)).insert (update_self ..) f.rpt true
  · rw [tqcompleted_lost h.runs frames live]
    exact h.framed (h.runs.pop frames (if_neg live))

end

/-! ## What a step does to the blocks -/

/-- What is put into the queue: a block, with its delay, and whether it repeats. -/
def State.puts (s : State α) : Event α → Option (α × Int × Bool)
  | .blkWait b tic | .blkSchedule b tic => some (b, tic, false)
  | .blkRepeat b tic => some (b, tic, true)
  | .blkSoon b => some (b, 0, false)
  | .ret =>
      match s.frames with
      | .executing f :: _ =>
          if f.rpt ≠ 0 ∧ f.touched = false then some (f.block, f.rpt, true) else none
      | _ => none
  | _ => none

/-- The block that a call takes from where it is. -/
def Event.takes : Event α → Option α
  | .blkWait b _ | .blkRepeat b _ | .blkSoon b | .blkDequeue b | .blkCancel b | .blkSchedule b _ =>
      some b
  | _ => none

structure Moved (e : Event α) (s s' : State α) : Prop where
  /-- The block is in the queue, due when its delay has gone by, as one more insertion. -/
  put : ∀ b d rpt, s.puts e = some (b, d, rpt) → s'.hook.Perm (b :: s.hook.erase b) ∧
    s'.due b = s.now + d ∧ s'.blkRpt b = (if rpt then d else 0) ∧ s'.stamp b = s.count ∧
      s'.count = s.count + 1
  others : ∀ b, (∀ d rpt, s.puts e ≠ some (b, d, rpt)) → (b ∈ s'.hook → b ∈ s.hook) ∧
    s'.due b = s.due b ∧ s'.blkRpt b = s.blkRpt b ∧ s'.stamp b = s.stamp b
  /-- A block leaves the queue when a call takes it or when it is executed. -/
  left : ∀ b ∈ s.hook, b ∉ s'.hook → e.takes = some b ∨ s'.log = s.log ++ [s.entry b]
  logged : s'.log = s.log ∨ ∃ b ∈ s.hook, b ∉ s'.hook ∧ s'.log = s.log ++ [s.entry b]
  removed : s'.removed = s.removed ∨
    ∃ b ∈ s.hook, e.takes = some b ∧ s'.removed = s.stamp b :: s.removed

/-- The blocks stay. -/
theorem Moved.still (puts : s.puts e = none) (hook : s'.hook = s.hook) (due : s'.due = s.due)
    (blkRpt : s'.blkRpt = s.blkRpt) (stamp : s'.stamp = s.stamp) (log : s'.log = s.log)
    (removed : s'.removed = s.removed) : Moved e s s' where
  put b d rpt some := absurd (puts.symm.trans some) nofun
  others b _ := by
    rw [hook, due, blkRpt, stamp]
    exact ⟨id, rfl, rfl, rfl⟩
  left b mem out := absurd (hook ▸ mem) out
  logged := .inl log
  removed := .inl removed

/-- A block is taken, and put in again or not. -/
theorem Moved.taken {put : Option (α × Int × Bool)} (puts : s.puts e = put)
    (takes : e.takes = some cur ∨ cur ∉ s.hook) (log : s'.log = s.log)
    (gone : s'.removed = if cur ∈ s.hook then s.stamp cur :: s.removed else s.removed)
    (does : match put with
      | some (b, d, rpt) => b = cur ∧ s'.hook.Perm (cur :: s.hook.erase cur) ∧
          s'.due = update s.due cur (s.now + d) ∧
          s'.blkRpt = update s.blkRpt cur (if rpt then d else 0) ∧
          s'.stamp = update s.stamp cur s.count ∧ s'.count = s.count + 1
      | none => s'.hook = s.hook.erase cur ∧ s'.due = s.due ∧ s'.blkRpt = s.blkRpt ∧
          s'.stamp = s.stamp) : Moved e s s' := by
  have removed : s'.removed = s.removed ∨
      ∃ b ∈ s.hook, e.takes = some b ∧ s'.removed = s.stamp b :: s.removed := by
    by_cases mem : cur ∈ s.hook
    · rw [if_pos mem] at gone
      exact .inr ⟨cur, mem, takes.resolve_right (not_not.mpr mem), gone⟩
    · rw [if_neg mem] at gone
      exact .inl gone
  cases put with
  | none =>
      obtain ⟨hook, due, blkRpt, stamp⟩ := does
      refine ⟨fun b d rpt some => absurd (puts.symm.trans some) nofun, fun b _ => ?_, ?_,
        .inl log, removed⟩
      · rw [hook, due, blkRpt, stamp]
        exact ⟨List.mem_of_mem_erase, rfl, rfl, rfl⟩
      · intro b mem out
        rw [hook] at out
        obtain rfl : b = cur := by
          by_contra other
          exact out ((List.mem_erase_of_ne other).mpr mem)
        exact .inl (takes.resolve_right (not_not.mpr mem))
  | some p =>
      obtain ⟨b, d, rpt⟩ := p
      obtain ⟨rfl, hook, due, blkRpt, stamp, count⟩ := does
      refine ⟨fun c d' rpt' some => ?_, fun c other => ?_, ?_, .inl log, removed⟩
      · cases puts.symm.trans some
        rw [due, blkRpt, stamp]
        exact ⟨hook, update_self .., update_self .., update_self .., count⟩
      · have ne : c ≠ b := by
          rintro rfl
          exact other d rpt puts
        rw [due, blkRpt, stamp, update_of_ne ne, update_of_ne ne, update_of_ne ne]
        refine ⟨fun mem => ?_, rfl, rfl, rfl⟩
        rcases List.mem_cons.mp (hook.mem_iff.mp mem) with same | mem
        · exact absurd same ne
        · exact List.mem_of_mem_erase mem
      · intro c mem out
        refine absurd (hook.mem_iff.mpr ?_) out
        by_cases same : c = b
        · exact same ▸ List.mem_cons_self
        · exact List.mem_cons_of_mem _ ((List.mem_erase_of_ne same).mpr mem)

namespace Inv

variable (h : Inv s)
include h

theorem executed (puts : s.puts e = none) (mem : b ∈ s.hook) : Moved e s (s.tqcomplete b) := by
  have out : b ∉ s.hook.erase b := h.queue.unique.not_mem_erase
  rw [tqcomplete_eq ((h.queue.tick b).mpr mem)]
  refine ⟨fun c d rpt some => absurd (puts.symm.trans some) nofun,
    fun c _ => ⟨List.mem_of_mem_erase, rfl, rfl, rfl⟩, fun c here gone => .inr ?_,
    .inr ⟨b, mem, out, rfl⟩, .inl rfl⟩
  obtain rfl : c = b := by
    by_contra other
    exact gone ((List.mem_erase_of_ne other).mpr here)
  rfl

/-- A block is taken from where it is and put in. -/
theorem inserted (d : Int) (rpt : Bool) (puts : s.puts e = some (cur, d, rpt))
    (takes : e.takes = some cur) :
    Moved e s (((s.touch cur).blkDequeue cur).tqinsert cur d rpt) := by
  have free := h.dequeue.free (b := cur) (blkDequeue_place (s := s.touch cur))
  have perm := (h.dequeue.queue.tqinsert free.1 d rpt).2
  obtain ⟨blkTic, wait, same⟩ :=
    @blkDequeue_eq α _ (s.touch cur) cur ⟨h.queue.tick, h.runs.place⟩
  rw [same] at perm ⊢
  exact .taken puts (.inl takes) rfl rfl ⟨rfl, perm, rfl, rfl, rfl, rfl⟩

/-- A block is taken from where it is. -/
theorem dequeued (puts : s.puts e = none) (takes : e.takes = some cur) :
    Moved e s ((s.touch cur).blkDequeue cur) := by
  obtain ⟨blkTic, wait, same⟩ :=
    @blkDequeue_eq α _ (s.touch cur) cur ⟨h.queue.tick, h.runs.place⟩
  rw [same]
  exact .taken puts (.inl takes) rfl rfl ⟨rfl, rfl, rfl, rfl⟩

/-- The function of a block returns. -/
theorem returned {f : Running α} {rest : List (Frame α)}
    (frames : s.frames = .executing f :: rest) :
    Moved .ret s ({ s with frames := rest }.tqcompleted f) := by
  by_cases live : f.rpt ≠ 0 ∧ f.touched = false
  · have puts : s.puts .ret = some (f.block, f.rpt, true) := by
      simp only [State.puts, frames, if_pos live]
    obtain ⟨out, perm⟩ := h.again frames live
    rw [tqcompleted_own h.runs frames live.1 live.2] at perm ⊢
    refine .taken puts (.inr out) rfl (if_neg out).symm ⟨rfl, ?_, rfl, rfl, rfl, rfl⟩
    rwa [List.erase_of_not_mem out]
  · have puts : s.puts .ret = none := by
      simp only [State.puts, frames, if_neg live]
    rw [tqcompleted_lost h.runs frames live]
    exact .still puts rfl rfl rfl rfl rfl rfl

/-- A step keeps the invariant, and moves the blocks that it says. -/
theorem goes (stepped : step e s = some s') : Inv s' ∧ Moved e s s' := by
  cases e with
  | time t =>
      obtain ⟨passes, ⟨⟩⟩ := Option.ite_none_right_eq_some.mp stepped
      exact ⟨⟨h.queue.time passes, h.runs.others rfl rfl (fun _ => Iff.rfl) fun _ _ => rfl,
        h.logged.others rfl rfl (fun _ => rfl) rfl rfl⟩, .still rfl rfl rfl rfl rfl rfl rfl⟩
  | hookAt b hook =>
      obtain ⟨⟨_, tick, exec⟩, ⟨⟩⟩ := Option.ite_none_right_eq_some.mp stepped
      refine ⟨⟨h.queue.others _ _ _ _ _ ?_, h.runs.others rfl rfl ?_ fun _ _ => rfl,
        h.logged.others rfl rfl (fun _ => rfl) rfl rfl⟩, .still rfl rfl rfl rfl rfl rfl rfl⟩
      · intro c
        by_cases same : c = b
        · simp [same, tick]
        · rw [update_of_ne same]
      · intro c
        change update s.place b (.other hook) c = .exec ↔ _
        by_cases same : c = b
        · simp [same, exec]
        · rw [update_of_ne same]
  | blkWait b d =>
      obtain ⟨_, ⟨⟩⟩ := Option.ite_none_right_eq_some.mp stepped
      exact ⟨h.dequeue.insert blkDequeue_place d false, h.inserted d false rfl rfl⟩
  | blkRepeat b d =>
      obtain ⟨_, ⟨⟩⟩ := Option.ite_none_right_eq_some.mp stepped
      exact ⟨h.dequeue.insert blkDequeue_place d true, h.inserted d true rfl rfl⟩
  | blkSoon b =>
      obtain ⟨_, ⟨⟩⟩ := Option.ite_none_right_eq_some.mp stepped
      refine ⟨h.soon, ?_⟩
      obtain ⟨blkTic, wait, same⟩ :=
        @blkDequeue_eq α _ (s.touch b) b ⟨h.queue.tick, h.runs.place⟩
      rw [State.blkSoon, same]
      exact .taken rfl (.inl rfl) rfl rfl ⟨rfl, .refl _, rfl, rfl, rfl, rfl⟩
  | blkDequeue b =>
      obtain ⟨_, ⟨⟩⟩ := Option.ite_none_right_eq_some.mp stepped
      exact ⟨h.dequeue, h.dequeued rfl rfl⟩
  | blkCancel b =>
      obtain ⟨_, ⟨⟩⟩ := Option.ite_none_right_eq_some.mp stepped
      rw [blkCancel_eq]
      exact ⟨h.dequeue, h.dequeued rfl rfl⟩
  | blkSchedule b d =>
      obtain ⟨⟨_, out⟩, ⟨⟩⟩ := Option.ite_none_right_eq_some.mp stepped
      have same : (s.touch b).unhook b = (s.touch b).blkDequeue b := unhook_eq out
      rw [same]
      exact ⟨h.dequeue.insert blkDequeue_place d false, h.inserted d false rfl rfl⟩
  | qSync =>
      obtain ⟨_, ⟨⟩⟩ := Option.ite_none_right_eq_some.mp stepped
      refine ⟨h.framed ⟨h.runs.exec, h.runs.place, ?_, List.pairwise_cons.mpr ⟨?_, h.runs.apart⟩⟩,
        .still rfl rfl rfl rfl rfl rfl rfl⟩
      · intro f mem
        cases mem with
        | tail _ mem => exact h.runs.rpt f mem
      · intro g _ b _ same
        cases same
  | qStep =>
      obtain ⟨_, ⟨⟩⟩ := Option.ite_none_right_eq_some.mp stepped
      refine ⟨h.qStep, ?_⟩
      rw [State.qStep]
      cases head : s.hook.head? with
      | none => exact .still rfl rfl rfl rfl rfl rfl rfl
      | some b =>
          have mem := List.mem_of_mem_head? head
          dsimp only
          split
          · exact h.executed rfl mem
          · split
            · have moved : Moved .qStep s.tqadjust (s.tqadjust.tqcomplete b) := by
                exact h.adjust.executed rfl mem
              exact ⟨moved.put, moved.others, moved.left, moved.logged, moved.removed⟩
            · exact .still rfl rfl rfl rfl rfl rfl rfl
  | turn =>
      cases frames : s.frames with
      | nil => simp [step, frames] at stepped
      | cons f rest =>
          cases f with
          | executing f => simp [step, frames] at stepped
          | syncing =>
              simp only [step, frames, Option.some.injEq] at stepped
              rw [← stepped]
              refine ⟨h.turn frames, ?_⟩
              rw [State.turn]
              cases head : s.hook.head? with
              | none => exact .still rfl rfl rfl rfl rfl rfl rfl
              | some b =>
                  dsimp only
                  split
                  · exact h.executed rfl (List.mem_of_mem_head? head)
                  · split
                    · exact .still rfl rfl rfl rfl rfl rfl rfl
                    · exact .still rfl rfl rfl rfl rfl rfl rfl
  | ret =>
      cases frames : s.frames with
      | nil => simp [step, frames] at stepped
      | cons f rest =>
          cases f with
          | syncing => simp [step, frames] at stepped
          | executing f =>
              simp only [step, frames, Option.some.injEq] at stepped
              rw [← stepped]
              exact ⟨h.completed frames, h.returned frames⟩

end Inv

/-! ## Soundness -/

structure Sound (s : State α) : Prop where
  sums : ∀ before b after, s.pending = before ++ b :: after →
    ((before ++ [b]).map s.blkTic).sum = s.due b - s.tic
  due : ∃ gone, s.hook = gone ++ s.pending ∧ ∀ b ∈ gone, s.due b ≤ s.now
  early : ∀ e ∈ s.log, e.due ≤ e.time
  /-- Of two blocks that are in the queue together the one that comes first in its order is
  executed first. -/
  ordered : s.log.Pairwise fun e e' => e'.key.stamp < e.count → e.key.Before e'.key
  /-- Each insertion is executed, in the queue or removed, and only once. -/
  once : (s.log.map (·.key.stamp) ++ s.hook.map s.stamp ++ s.removed).Perm (List.range s.count)
  moves : ∀ e s', step e s = some s' → Moved e s s'
  /-- While the dates are less than `n` in size each `TIC` is less than `2 * n`. -/
  fits : ∀ n, s.tic.natAbs < n → (∀ b ∈ s.hook, (s.due b).natAbs < n) →
    ∀ b ∈ s.hook, (s.blkTic b).natAbs < 2 * n
  /-- `rt_qSync` executes blocks until none is due. -/
  turned : ∀ rest s', s.frames = .syncing :: rest → step .turn s = some s' →
    (s'.frames = rest ∧ ∀ b ∈ s'.hook, s'.now < s'.due b) ∨
    (∃ e, s'.log = s.log ++ [e]) ∨ (s' = s.tqadjust ∧ s'.hook.head? ≠ s'.wait)
  /-- `rt_qStep` executes a block when one is due. -/
  stepped : ∀ s', step .qStep s = some s' → (∃ b ∈ s.hook, s.due b ≤ s.now) →
    ∃ e, s'.log = s.log ++ [e]
  /-- A repeating block is put in again when its function returns. -/
  repeated : ∀ f rest s', s.frames = .executing f :: rest → step .ret s = some s' →
    if f.rpt ≠ 0 ∧ f.touched = false then
      s'.hook.Perm (f.block :: s.hook) ∧ s'.due f.block = s.now + f.rpt ∧
        s'.blkRpt f.block = f.rpt
    else s'.hook = s.hook

namespace Inv

section

variable (h : Inv s)
include h

theorem sums {before after : List α} (parts : s.pending = before ++ b :: after) :
    ((before ++ [b]).map s.blkTic).sum = s.due b - s.tic := by
  obtain ⟨gone, pend, split⟩ := h.queue.split
  have deltas := split.deltas
  rw [← split.pending h.queue.unique, parts] at deltas
  exact deltas.sum

theorem fits {n : ℕ} (tic : s.tic.natAbs < n) (due : ∀ b ∈ s.hook, (s.due b).natAbs < n) :
    ∀ b ∈ s.hook, (s.blkTic b).natAbs < 2 * n := by
  obtain ⟨gone, pend, split⟩ := h.queue.split
  have hook := split.hook
  intro b mem
  rw [hook] at mem due
  cases List.mem_append.mp mem with
  | inl mem =>
      rw [split.zero b mem]
      omega
  | inr mem =>
      exact split.deltas.bounded tic (fun c pend => due c (List.mem_append_right _ pend)) b mem

/-- When nothing has expired no block is due. -/
theorem waiting (none : s.tqadjust.expired ≠ true) : ∀ b ∈ s.hook, s.now < s.due b := by
  obtain ⟨gone, pend, adjusted⟩ := h.queue.adjusted
  have hook : s.hook = gone ++ pend := adjusted.hook
  have wait := adjusted.wait
  intro b mem
  rw [hook] at mem
  cases gone with
  | nil => exact (adjusted.later b mem).1
  | cons w gone =>
      have head : s.tqadjust.hook.head? = some w := by
        change s.hook.head? = some w
        rw [hook]
        rfl
      have other : s.tqadjust.wait ≠ some w := by
        rw [wait]
        intro same
        exact adjusted.apart h.queue.unique (.head _) (List.mem_of_mem_head? same)
      exact absurd (by simpa [State.expired, head] using other.symm) none

theorem tqcomplete_log (head : s.hook.head? = some b) :
    ∃ e, (s.tqcomplete b).log = s.log ++ [e] := by
  rw [tqcomplete_eq ((h.queue.tick b).mpr (List.mem_of_mem_head? head))]
  exact ⟨_, rfl⟩

theorem turned {rest : List (Frame α)} (frames : s.frames = .syncing :: rest)
    (stepped : step .turn s = some s') :
    (s'.frames = rest ∧ ∀ b ∈ s'.hook, s'.now < s'.due b) ∨
    (∃ e, s'.log = s.log ++ [e]) ∨ (s' = s.tqadjust ∧ s'.hook.head? ≠ s'.wait) := by
  simp only [step, frames, Option.some.injEq] at stepped
  rw [← stepped, State.turn]
  cases head : s.hook.head? with
  | none =>
      have empty := List.head?_eq_none_iff.mp head
      refine .inl ⟨rfl, fun b mem => ?_⟩
      rw [empty] at mem
      cases mem
  | some b =>
      by_cases due : s.wait ≠ some b
      · simp only [if_pos due]
        exact .inr (.inl (h.tqcomplete_log head))
      · simp only [if_neg due]
        by_cases come : s.tqadjust.expired
        · rw [if_pos come]
          exact .inr (.inr ⟨rfl, by simpa [State.expired] using come⟩)
        · rw [if_neg come]
          exact .inl ⟨rfl, h.waiting come⟩

theorem stepped (stepped : step .qStep s = some s') (due : ∃ b ∈ s.hook, s.due b ≤ s.now) :
    ∃ e, s'.log = s.log ++ [e] := by
  obtain ⟨_, ⟨⟩⟩ := Option.ite_none_right_eq_some.mp stepped
  obtain ⟨c, mem, late⟩ := due
  rw [State.qStep]
  cases head : s.hook.head? with
  | none =>
      rw [List.head?_eq_none_iff.mp head] at mem
      cases mem
  | some b =>
      by_cases expired : s.expired
      · simp only [if_pos expired]
        exact h.tqcomplete_log head
      · by_cases come : s.tqadjust.expired
        · simp only [if_neg expired, if_pos come]
          exact h.adjust.tqcomplete_log head
        · exact absurd late (not_le.mpr (h.waiting come c mem))

theorem repeated {f : Running α} {rest : List (Frame α)} (frames : s.frames = .executing f :: rest)
    (stepped : step .ret s = some s') :
    if f.rpt ≠ 0 ∧ f.touched = false then
      s'.hook.Perm (f.block :: s.hook) ∧ s'.due f.block = s.now + f.rpt ∧
        s'.blkRpt f.block = f.rpt
    else s'.hook = s.hook := by
  simp only [step, frames, Option.some.injEq] at stepped
  rw [← stepped]
  split
  next live =>
    refine ⟨(h.again frames live).2, ?_⟩
    rw [tqcompleted_own h.runs frames live.1 live.2]
    exact ⟨update_self .., update_self ..⟩
  next dead => rw [tqcompleted_lost h.runs frames dead]

theorem sound : Sound s where
  sums _ _ _ parts := h.sums parts
  due := by
    obtain ⟨gone, pend, split⟩ := h.queue.split
    rw [split.pending h.queue.unique]
    exact ⟨gone, split.hook, split.due⟩
  early := h.logged.early
  ordered := h.logged.ordered
  once := h.logged.once
  moves _ _ stepped := (h.goes stepped).2
  fits _ := h.fits
  turned _ _ := h.turned
  stepped _ := h.stepped
  repeated _ _ _ := h.repeated

end

theorem empty : Inv ({} : State α) where
  queue := ⟨.nil, ⟨[], [], rfl, rfl, trivial, by simp, by simp, by simp⟩, .nil, by simp, by simp,
    le_refl _, by simp⟩
  runs := ⟨rfl, by simp, by simp, .nil⟩
  logged := ⟨by simp, by simp, by simp, .nil, .refl _⟩

end Inv

end Rtai.Lxrt.TickQueue
