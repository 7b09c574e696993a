import Mathlib.Data.List.Range
import Rtai.Lxrt.TickQueueOrder

/-!
# Runs of the tick queue

A repeating block that is executed waits in `TQ->exec`, above those whose executions it is
inside of, until its function returns or it is dequeued or rescheduled.  The log is in the
order of the queue, and each insertion ends once, in an execution or a removal.
-/

namespace Rtai.Lxrt.TickQueue

open Function Rtai.Lib

variable {α : Type} [DecidableEq α] {s s' : State α} {b cur : α} {gone pend : List α} {f : Frame α}
  {rest : List (Frame α)}

/-! ## What the calls change -/

/-- The queue and the blocks agree on which blocks are in it. -/
structure Placed (s : State α) : Prop where
  tick : ∀ b, s.place b = .tick ↔ b ∈ s.hook
  exec : ∀ b, s.place b = .exec ↔ b ∈ s.exec

theorem blkDequeue_eq (h : Placed s) : ∃ blkTic wait, s.blkDequeue cur = { s with
    hook := s.hook.erase cur
    exec := s.exec.erase cur
    place := update s.place cur .none
    removed := if cur ∈ s.hook then s.stamp cur :: s.removed else s.removed
    blkTic, wait } := by
  have hook := h.tick cur
  have exec := h.exec cur
  cases place : s.place cur with
  | none =>
      have notHook : cur ∉ s.hook := by simp [← hook, place]
      have notExec : cur ∉ s.exec := by simp [← exec, place]
      have same : update s.place cur .none = s.place := by
        rw [← place, update_eq_self]
      rw [List.erase_of_not_mem notHook, List.erase_of_not_mem notExec, if_neg notHook, same]
      simp only [State.blkDequeue, place]
      exact ⟨_, _, rfl⟩
  | tick =>
      have notExec : cur ∉ s.exec := by simp [← exec, place]
      rw [List.erase_of_not_mem notExec, if_pos (hook.mp place)]
      simp only [State.blkDequeue, place, State.unhook, State.tqcancel]
      exact ⟨_, _, rfl⟩
  | exec =>
      have notHook : cur ∉ s.hook := by simp [← hook, place]
      rw [List.erase_of_not_mem notHook, if_neg notHook]
      simp only [State.blkDequeue, place, State.unhook]
      exact ⟨_, _, rfl⟩
  | other other =>
      have notHook : cur ∉ s.hook := by simp [← hook, place]
      have notExec : cur ∉ s.exec := by simp [← exec, place]
      rw [List.erase_of_not_mem notHook, List.erase_of_not_mem notExec, if_neg notHook]
      simp only [State.blkDequeue, place, State.unhook]
      exact ⟨_, _, rfl⟩

theorem blkCancel_eq : s.blkCancel cur = s.blkDequeue cur := by
  have free : ¬(s.blkDequeue cur).place cur ≠ .none := by simp [blkDequeue_place]
  rw [State.blkCancel, State.blkRelease, if_neg free]

/-- A block that is not in the tick queue has nothing to cancel. -/
theorem unhook_eq (out : s.place cur ≠ .tick) : s.unhook cur = s.blkDequeue cur := by
  cases place : s.place cur with
  | none =>
      simp only [State.unhook, State.blkDequeue, place]
      rw [← place, update_eq_self]
  | tick => exact absurd place out
  | exec | other hook => simp only [State.blkDequeue, place]

/-! ## The executions -/

/-- The block of a repeating execution that has been neither dequeued nor rescheduled. -/
def Frame.repeats : Frame α → Option α
  | .executing f => if f.rpt ≠ 0 ∧ f.touched = false then some f.block else none
  | .syncing => none

def Frame.block : Frame α → Option α
  | .executing f => some f.block
  | .syncing => none

structure Runs (s : State α) : Prop where
  exec : s.exec = s.frames.filterMap Frame.repeats
  place : ∀ b, s.place b = .exec ↔ b ∈ s.exec
  rpt : ∀ f, .executing f ∈ s.frames → f.rpt ≠ 0 → f.touched = false → s.blkRpt f.block = f.rpt
  /-- A block is executed inside of its own execution only when that has lost it. -/
  apart : s.frames.Pairwise fun f g => ∀ b, g.repeats = some b → f.block ≠ some b

theorem Frame.block_of_repeats (h : f.repeats = some b) : f.block = some b := by
  cases f with
  | syncing => cases h
  | executing f =>
      obtain ⟨_, ⟨⟩⟩ := Option.ite_none_right_eq_some.mp h
      rfl

theorem Runs.unique (h : Runs s) : s.exec.Nodup := by
  rw [h.exec]
  refine h.apart.filterMap _ fun f g apart a own b other same => ?_
  subst same
  exact apart _ other (Frame.block_of_repeats own)

def Frame.touch (cur : α) : Frame α → Frame α
  | .executing f => .executing { f with touched := f.touched || f.block == cur }
  | .syncing => .syncing

theorem touch_frames : (s.touch cur).frames = s.frames.map (Frame.touch cur) := by
  rw [State.touch]
  congr 1

theorem Frame.touch_block : (f.touch cur).block = f.block := by
  cases f <;> rfl

theorem Frame.touch_repeats : (f.touch cur).repeats = f.repeats.filter (· ≠ cur) := by
  cases f with
  | syncing => rfl
  | executing f =>
      by_cases live : f.rpt ≠ 0 ∧ f.touched = false
      · by_cases same : f.block = cur
        · simp [Frame.touch, Frame.repeats, live, same, Option.filter_some]
        · simp [Frame.touch, Frame.repeats, live, same, Option.filter_some]
      · have dead : ¬(f.rpt ≠ 0 ∧ (f.touched || f.block == cur) = false) := by
          intro h
          exact live ⟨h.1, (Bool.or_eq_false_iff.mp h.2).1⟩
        simp only [Frame.touch, Frame.repeats, if_neg live, if_neg dead, Option.filter_none]

theorem touch_repeats : ((s.touch cur).frames.filterMap Frame.repeats) =
    (s.frames.filterMap Frame.repeats).filter (· ≠ cur) := by
  rw [touch_frames, List.filterMap_map, List.filter_filterMap]
  exact List.filterMap_congr fun f _ => Frame.touch_repeats

theorem Runs.mem (h : Runs s) (mem : f ∈ s.frames) (own : f.repeats = some b) : b ∈ s.exec := by
  rw [h.exec]
  exact List.mem_filterMap.mpr ⟨f, mem, own⟩

/-- A repeating execution knows its block as long as that is in `TQ->exec`. -/
theorem repeats_executing {f : Running α} (repeating : f.rpt ≠ 0) (own : f.touched = false) :
    (Frame.executing f).repeats = some f.block := if_pos ⟨repeating, own⟩

/-- What the executions do not read may change. -/
theorem Runs.others (h : Runs s) (exec : s'.exec = s.exec) (frames : s'.frames = s.frames)
    (place : ∀ b, s'.place b = .exec ↔ s.place b = .exec)
    (blkRpt : ∀ b ∈ s.exec, s'.blkRpt b = s.blkRpt b) : Runs s' where
  exec := by
    rw [exec, frames]
    exact h.exec
  place b := by
    rw [exec, place]
    exact h.place b
  rpt f mem repeating own := by
    rw [frames] at mem
    rw [blkRpt _ (h.mem mem (repeats_executing repeating own))]
    exact h.rpt f mem repeating own
  apart := by
    rw [frames]
    exact h.apart

/-- A block is dequeued, and its executions have lost it. -/
theorem Runs.drop (h : Runs s) (exec : s'.exec = s.exec.erase cur)
    (frames : s'.frames = (s.touch cur).frames) (place : s'.place = update s.place cur .none)
    (blkRpt : s'.blkRpt = s.blkRpt) : Runs s' where
  exec := by
    rw [exec, frames, touch_repeats, ← h.exec, h.unique.erase_eq_filter]
    exact List.filter_congr fun b _ => (Bool.eq_iff_iff.mpr (by simp))
  place b := by
    rw [exec, place, h.unique.mem_erase_iff]
    by_cases same : b = cur
    · simp [same]
    · rw [update_of_ne same, h.place b]
      simp [same]
  rpt f mem repeating own := by
    rw [frames, touch_frames] at mem
    obtain ⟨g, found, touched⟩ := List.mem_map.mp mem
    cases g with
    | syncing => cases touched
    | executing g =>
        cases touched
        rw [blkRpt]
        exact h.rpt g found repeating (Bool.or_eq_false_iff.mp own).1
  apart := by
    rw [frames, touch_frames]
    refine h.apart.map _ fun f g apart b other => ?_
    rw [Frame.touch_repeats] at other
    rw [Frame.touch_block]
    exact apart b (Option.filter_eq_some_iff.mp other).1

/-- A block of the tick queue is executed. -/
theorem Runs.push (h : Runs s) (out : cur ∉ s.exec)
    (exec : s'.exec = if s.blkRpt cur = 0 then s.exec else cur :: s.exec)
    (place : s'.place = update s.place cur (if s.blkRpt cur = 0 then .none else .exec))
    (frames : s'.frames = .executing { block := cur, rpt := s.blkRpt cur } :: s.frames)
    (blkRpt : s'.blkRpt = s.blkRpt) : Runs s' where
  exec := by
    rw [exec, frames, List.filterMap_cons, ← h.exec]
    by_cases oneShot : s.blkRpt cur = 0
    · simp [Frame.repeats, oneShot]
    · simp [Frame.repeats, oneShot]
  place b := by
    rw [exec, place]
    by_cases same : b = cur
    · by_cases oneShot : s.blkRpt cur = 0
      · simp [same, oneShot, out]
      · simp [same, oneShot]
    · rw [update_of_ne same, h.place b]
      by_cases oneShot : s.blkRpt cur = 0
      · simp [oneShot]
      · simp [same, oneShot]
  rpt f mem repeating own := by
    rw [frames] at mem
    rw [blkRpt]
    cases mem with
    | head => rfl
    | tail _ mem => exact h.rpt f mem repeating own
  apart := by
    rw [frames]
    refine List.pairwise_cons.mpr ⟨fun g mem b own same => ?_, h.apart⟩
    cases same
    exact out (h.mem mem own)

/-- The functions of the executions that have ended or the loops of a `rt_qSync`. -/
theorem Runs.pop (h : Runs s) (frames : s.frames = f :: rest) (lost : f.repeats = none) :
    Runs { s with frames := rest } where
  exec := by
    have exec := h.exec
    rw [frames, List.filterMap_cons_none lost] at exec
    exact exec
  place := h.place
  rpt g mem := h.rpt g (by rw [frames]; exact .tail _ mem)
  apart := by
    have apart := h.apart
    rw [frames] at apart
    exact (List.pairwise_cons.mp apart).2

theorem Runs.head (h : Runs s) {f : Running α} (frames : s.frames = .executing f :: rest) :
    s.exec.head? = some f.block ↔ (Frame.executing f).repeats = some f.block := by
  have exec := h.exec
  have apart := h.apart
  rw [frames] at exec apart
  cases own : (Frame.executing f).repeats with
  | some b =>
      cases Frame.block_of_repeats own
      rw [exec, List.filterMap_cons_some own]
      simp
  | none =>
      rw [List.filterMap_cons_none own] at exec
      constructor
      · intro head
        rw [exec] at head
        obtain ⟨g, mem, other⟩ := List.mem_filterMap.mp (List.mem_of_mem_head? head)
        exact absurd rfl ((List.pairwise_cons.mp apart).1 g mem _ other)
      · rintro ⟨⟩

/-! ## The log -/

structure Logged (s : State α) : Prop where
  early : ∀ e ∈ s.log, e.due ≤ e.time
  counted : ∀ e ∈ s.log, e.count ≤ s.count
  /-- A block that has been in the queue longer than since an execution comes behind it. -/
  ahead : ∀ e ∈ s.log, ∀ b ∈ s.hook, s.stamp b < e.count → e.key.Before (s.key b)
  ordered : s.log.Pairwise fun e e' => e'.key.stamp < e.count → e.key.Before e'.key
  /-- Each insertion is executed, in the queue or removed, and only once. -/
  once : (s.log.map (·.key.stamp) ++ s.hook.map s.stamp ++ s.removed).Perm (List.range s.count)

theorem Logged.others (h : Logged s) (log : s'.log = s.log) (hook : s'.hook = s.hook)
    (key : ∀ b, s'.key b = s.key b) (count : s'.count = s.count) (removed : s'.removed = s.removed) :
    Logged s' := by
  have stamp : s'.stamp = s.stamp := funext fun b => congrArg Key.stamp (key b)
  refine ⟨?_, ?_, ?_, ?_, ?_⟩
  · rw [log]
    exact h.early
  · rw [log, count]
    exact h.counted
  · simp only [log, hook, stamp, key]
    exact h.ahead
  · rw [log]
    exact h.ordered
  · rw [log, hook, stamp, removed, count]
    exact h.once

theorem Logged.put (h : Logged s) (new : cur ∉ s.hook) (log : s'.log = s.log)
    (hook : s'.hook.Perm (cur :: s.hook)) (key : ∀ b, b ≠ cur → s'.key b = s.key b)
    (last : s'.stamp cur = s.count) (count : s'.count = s.count + 1)
    (removed : s'.removed = s.removed) : Logged s' := by
  have other {b : α} (mem : b ∈ s.hook) : b ≠ cur := by
    rintro rfl
    exact new mem
  refine ⟨?_, ?_, ?_, ?_, ?_⟩
  · rw [log]
    exact h.early
  · rw [log, count]
    exact fun e mem => (h.counted e mem).trans (Nat.le_succ _)
  · intro e logged b mem older
    rw [log] at logged
    rw [hook.mem_iff] at mem
    cases mem with
    | head =>
        have := h.counted e logged
        omega
    | tail _ mem =>
        have same := key b (other mem)
        rw [same]
        have stamp : s'.stamp b = s.stamp b := congrArg Key.stamp same
        exact h.ahead e logged b mem (stamp ▸ older)
  · rw [log]
    exact h.ordered
  · have stamps : (s'.hook.map s'.stamp).Perm (s.count :: s.hook.map s.stamp) := by
      refine (hook.map s'.stamp).trans ?_
      rw [List.map_cons, last]
      refine (List.Perm.of_eq (List.map_congr_left fun b mem => ?_)).cons _
      exact congrArg Key.stamp (key b (other mem))
    rw [log, removed, count, List.range_succ]
    have front : (s.log.map (·.key.stamp) ++ s'.hook.map s'.stamp ++ s.removed).Perm
        (s.count :: (s.log.map (·.key.stamp) ++ s.hook.map s.stamp ++ s.removed)) :=
      ((stamps.append_left _).trans List.perm_middle).append_right _
    exact front.trans ((h.once.cons _).trans (List.perm_append_singleton ..).symm)

theorem Logged.drop (h : Logged s) (mem : cur ∈ s.hook) (log : s'.log = s.log)
    (hook : s'.hook = s.hook.erase cur) (key : ∀ b, s'.key b = s.key b) (count : s'.count = s.count)
    (removed : s'.removed = s.stamp cur :: s.removed) : Logged s' := by
  have stamp : s'.stamp = s.stamp := funext fun b => congrArg Key.stamp (key b)
  refine ⟨?_, ?_, ?_, ?_, ?_⟩
  · rw [log]
    exact h.early
  · rw [log, count]
    exact h.counted
  · intro e logged b mem older
    rw [log] at logged
    rw [hook] at mem
    rw [stamp] at older
    rw [key]
    exact h.ahead e logged b (List.mem_of_mem_erase mem) older
  · rw [log]
    exact h.ordered
  · rw [log, hook, stamp, removed, count]
    have whole : (s.log.map (·.key.stamp) ++ s.hook.map s.stamp).Perm
        (s.stamp cur :: (s.log.map (·.key.stamp) ++ (s.hook.erase cur).map s.stamp)) :=
      (((List.perm_cons_erase mem).map s.stamp).append_left _).trans List.perm_middle
    exact List.perm_middle.trans ((whole.append_right _).symm.trans h.once)

theorem Logged.complete (h : Logged s) (queue : Queue s) {rest : List α}
    (head : s.hook = cur :: rest) (due : s.due cur ≤ s.now) (hook : s'.hook = rest)
    (log : s'.log = s.log ++ [s.entry cur]) (key : ∀ b, s'.key b = s.key b)
    (count : s'.count = s.count) (removed : s'.removed = s.removed) : Logged s' := by
  have stamp : s'.stamp = s.stamp := funext fun b => congrArg Key.stamp (key b)
  have first : cur ∈ s.hook := by
    rw [head]
    exact .head _
  refine ⟨?_, ?_, ?_, ?_, ?_⟩
  · intro e mem
    rw [log] at mem
    cases List.mem_append.mp mem with
    | inl mem => exact h.early e mem
    | inr mem =>
        rw [List.mem_singleton.mp mem]
        exact due
  · intro e mem
    rw [log] at mem
    rw [count]
    cases List.mem_append.mp mem with
    | inl mem => exact h.counted e mem
    | inr mem =>
        rw [List.mem_singleton.mp mem]
        exact le_refl s.count
  · intro e logged b mem older
    rw [log] at logged
    rw [hook] at mem
    rw [stamp] at older
    rw [key]
    cases List.mem_append.mp logged with
    | inl logged =>
        refine h.ahead e logged b ?_ older
        rw [head]
        exact .tail _ mem
    | inr logged =>
        have order := queue.order
        rw [head] at order
        rw [List.mem_singleton.mp logged]
        exact (List.pairwise_cons.mp order).1 b mem
  · rw [log]
    refine List.pairwise_append.mpr ⟨h.ordered, List.pairwise_singleton .., ?_⟩
    intro e logged e' single older
    rw [List.mem_singleton.mp single] at older ⊢
    exact h.ahead e logged cur first older
  · rw [log, hook, stamp, removed, count]
    have once := h.once
    rw [head] at once
    simpa [State.entry, State.key] using once

end Rtai.Lxrt.TickQueue
