import Rtai.Up.Machine
import Mathlib.Data.Fintype.Card
import Mathlib.Data.List.Basic

/-!
# Insertion into the ready list

`enq_ready_task` leaves the loop at a task of lower priority, or at one whose priority is
negative.  The list has no end: it is Linux that has the lowest priority, or a negative one as
long as it has locked the scheduler.

`rt_task_init` refuses negative priorities and no others, so a task may have the priority of
Linux.  The loop then meets the whole list without a task to stop at, over and over.
-/

namespace Rtai.Up

open Function Rtai.Lib

namespace Dispatcher

variable {n : Nat}

/-- By priority, with Linux last: it is below the tasks or has locked the scheduler. -/
structure Ordered (d : Dispatcher n) (l : List (Task n)) : Prop where
  sorted : l.Pairwise fun t u => d.priority t ≤ d.priority u
  linux : d.priority rtLinuxTask < 0 ∨ ∀ t ∈ l, d.priority t ≤ d.priority rtLinuxTask

/-- The task is behind those that are at least as urgent and before the others and Linux. -/
structure Inserted (d : Dispatcher n) (l : List (Task n)) (t : Task n) (d' : Dispatcher n)
    (l₁ l₂ : List (Task n)) : Prop where
  split : l = l₁ ++ l₂
  others : d' = { d with ready := d'.ready }
  before : ∀ u ∈ l₁, d.priority u ≤ d.priority t
  behind : ∀ u ∈ l₂, d.priority t < d.priority u
  ring : Ring d'.ready rtLinuxTask (l₁ ++ t :: l₂)
  ordered : Ordered d' (l₁ ++ t :: l₂)

def Inserts (d : Dispatcher n) (l : List (Task n)) (t : Task n) : Prop :=
  ∃ d' l₁ l₂, d.enqReadyTask t = some d' ∧ Inserted d l t d' l₁ l₂

/-- Linux stops the loop, and no task does that is not less urgent: all but the first are
compared with 0 too. -/
structure Stops (d : Dispatcher n) (l : List (Task n)) (t : Task n) : Prop where
  linux : d.priority rtLinuxTask < 0 ∨ d.priority t < d.priority rtLinuxTask
  tail : ∀ u ∈ l.tail, 0 ≤ d.priority u

/-- The condition of the loop behind the first task. -/
def stop (d : Dispatcher n) (prio : Int) (u : Task n) : Bool :=
  d.priority u < 0 || prio < d.priority u

variable {d d' : Dispatcher n} {l l₁ l₂ : List (Task n)} {t u : Task n} {prio : Int}

theorem stop_iff : d.stop prio u = true ↔ d.priority u < 0 ∨ prio < d.priority u := by
  simp [stop]

theorem readyPosition_stop : d.readyPosition prio =
    if prio < d.priority (d.ready.next rtLinuxTask) then some (d.ready.next rtLinuxTask)
    else seek d.ready.next (d.stop prio) (fuel n) (d.ready.next (d.ready.next rtLinuxTask)) := rfl

/-- The links behind the task in front of which the loop stops. -/
theorem linked_at (ring : Ring d.ready rtLinuxTask (l₁ ++ l₂)) (apart : t ∉ rtLinuxTask :: (l₁ ++ l₂))
    (at' : d.readyPosition (d.priority t) = some (l₂.headD rtLinuxTask)) :
    ∃ d', d.enqReadyTask t = some d' ∧ d' = { d with ready := d'.ready } ∧
      Ring d'.ready rtLinuxTask (l₁ ++ t :: l₂) := by
  refine ⟨d.linkReady t (l₂.headD rtLinuxTask), ?_, rfl, ring.insertBefore apart rfl⟩
  rw [enqReadyTask, at']
  rfl

/-- A list of tasks and Linux is not longer than the fuel. -/
theorem tail_lt_fuel {h : Task n} (ring : Ring d.ready rtLinuxTask (h :: l)) :
    l.length < fuel n := by
  have few := ring.nodup.length_le_card
  rw [Fintype.card_fin, List.length_cons, List.length_cons] at few
  unfold fuel
  omega

/-- Where the loop stops if nothing stops it too early. -/
theorem Stops.position (stops : Stops d l t) (ring : Ring d.ready rtLinuxTask l)
    (ordered : Ordered d l) : ∃ l₁ l₂, l = l₁ ++ l₂ ∧
      d.readyPosition (d.priority t) = some (l₂.headD rtLinuxTask) ∧
      (∀ u ∈ l₁, d.priority u ≤ d.priority t) ∧ ∀ u ∈ l₂, d.priority t < d.priority u := by
  have stopped : d.stop (d.priority t) rtLinuxTask = true := stop_iff.mpr stops.linux
  rw [readyPosition_stop, ring.next_head]
  cases l with
  | nil =>
      refine ⟨[], [], rfl, ?_, by simp, by simp⟩
      rw [List.headD_nil, ring.next_head, List.headD_nil, fuel, seek, if_pos stopped]
      split_ifs <;> rfl
  | cons h l =>
      obtain ⟨first, sorted⟩ := List.pairwise_cons.mp ordered.sorted
      rw [List.headD_cons]
      split_ifs with less
      · refine ⟨[], h :: l, rfl, rfl, by simp, fun u mem => ?_⟩
        rcases List.mem_cons.mp mem with rfl | mem
        · exact less
        · exact less.trans_le (first u mem)
      · have ring' : Ring d.ready rtLinuxTask ([h] ++ l) := ring
        rw [Ring.next_headD (show Ring d.ready rtLinuxTask ([] ++ h :: l) from ring)]
        obtain ⟨y, found⟩ := ring'.seek_total stopped (tail_lt_fuel ring)
        obtain ⟨m₁, m₂, rfl, passed, rfl⟩ := ring'.seek_split stopped found
        have end' := stop_iff.mp (seek_stop found)
        refine ⟨h :: m₁, m₂, rfl, found, fun u mem => ?_, fun u mem => ?_⟩
        · rcases List.mem_cons.mp mem with rfl | mem
          · exact Int.not_lt.mp less
          · have goesOn := mt stop_iff.mpr (Bool.eq_false_iff.mp (passed u mem))
            omega
        · cases m₂ with
          | nil => cases mem
          | cons y m₂ =>
              have nonneg := stops.tail y (by simp)
              have above := end'.resolve_left (Int.not_lt.mpr nonneg)
              rcases List.mem_cons.mp mem with rfl | mem
              · exact above
              · have later := (List.pairwise_append.mp sorted).2.1
                exact above.trans_le ((List.pairwise_cons.mp later).1 u mem)

theorem Ordered.insert (ordered : Ordered d (l₁ ++ l₂))
    (linux : d.priority rtLinuxTask < 0 ∨ d.priority t < d.priority rtLinuxTask)
    (before : ∀ u ∈ l₁, d.priority u ≤ d.priority t)
    (behind : ∀ u ∈ l₂, d.priority t < d.priority u) : Ordered d (l₁ ++ t :: l₂) := by
  obtain ⟨sorted₁, sorted₂, across⟩ := List.pairwise_append.mp ordered.sorted
  constructor
  · refine List.pairwise_append.mpr ⟨sorted₁, List.pairwise_cons.mpr ⟨fun u mem =>
      (behind u mem).le, sorted₂⟩, fun u mem v mem' => ?_⟩
    rcases List.mem_cons.mp mem' with rfl | mem'
    · exact before u mem
    · exact across u mem v mem'
  · refine or_iff_not_imp_left.mpr fun unlocked u mem => ?_
    have below := ordered.linux.resolve_left unlocked
    rcases List.mem_append.mp mem with mem | mem
    · exact below u (List.mem_append_left _ mem)
    · rcases List.mem_cons.mp mem with rfl | mem
      · exact (linux.resolve_left unlocked).le
      · exact below u (List.mem_append_right _ mem)

theorem Stops.inserts (stops : Stops d l t) (ring : Ring d.ready rtLinuxTask l)
    (ordered : Ordered d l) (apart : t ∉ rtLinuxTask :: l) : Inserts d l t := by
  obtain ⟨l₁, l₂, rfl, found, before, behind⟩ := stops.position ring ordered
  obtain ⟨d', linked, others, ring'⟩ := linked_at ring apart found
  refine ⟨d', l₁, l₂, linked, rfl, others, before, behind, ring', ?_⟩
  rw [others]
  obtain ⟨sorted, linux⟩ := ordered.insert stops.linux before behind
  exact ⟨sorted, linux⟩

/-- The place of the task is one only. -/
theorem Inserts.behind {m₁ m₂ : List (Task n)} (inserts : Inserts d (m₁ ++ m₂) t)
    (ring : Ring d.ready rtLinuxTask (m₁ ++ m₂)) (apart : t ∉ rtLinuxTask :: (m₁ ++ m₂))
    (found : d.readyPosition (d.priority t) = some (m₂.headD rtLinuxTask)) :
    ∀ u ∈ m₂, d.priority t < d.priority u := by
  obtain ⟨d', l₁, l₂, linked, inserted⟩ := inserts
  obtain ⟨d'', linked', -, ring'⟩ := linked_at ring apart found
  obtain rfl := Option.some.inj (linked.symm.trans linked')
  have same := inserted.ring.unique ring'
  have notBefore : t ∉ m₁ := fun mem => apart (List.mem_cons_of_mem _ (List.mem_append_left _ mem))
  have notBehind : t ∉ m₂ := fun mem => apart (List.mem_cons_of_mem _ (List.mem_append_right _ mem))
  obtain ⟨-, -, rfl⟩ := (List.append_cons_inj_of_notMem notBefore notBehind).mp same.symm
  exact inserted.behind

theorem Inserts.stops (inserts : Inserts d l t) (ring : Ring d.ready rtLinuxTask l)
    (ordered : Ordered d l) (apart : t ∉ rtLinuxTask :: l) (accepted : 0 ≤ d.priority t) :
    Stops d l t := by
  have tail : ∀ u ∈ l.tail, 0 ≤ d.priority u := by
    -- The second task would be met first, and it is more urgent.
    cases l with
    | nil => nofun
    | cons h l =>
        cases l with
        | nil => nofun
        | cons v l =>
            obtain ⟨first, sorted⟩ := List.pairwise_cons.mp ordered.sorted
            have second := (List.pairwise_cons.mp sorted).1
            by_contra negative
            have below : d.priority v < 0 := by
              obtain ⟨u, mem, less⟩ : ∃ u ∈ v :: l, d.priority u < 0 := by
                by_contra none
                exact negative fun u mem => Int.not_lt.mp fun less => none ⟨u, mem, less⟩
              rcases List.mem_cons.mp mem with rfl | mem
              · exact less
              · exact (second u mem).trans_lt less
            have found : d.readyPosition (d.priority t) = some v := by
              have head := first v List.mem_cons_self
              rw [readyPosition_stop, ring.next_head, List.headD_cons, if_neg (by omega),
                Ring.next_headD (show Ring d.ready rtLinuxTask ([] ++ h :: v :: l) from ring), List.headD_cons, fuel, seek,
                if_pos (stop_iff.mpr (Or.inl below))]
            have whole : Inserts d ([h] ++ v :: l) t := inserts
            have later := whole.behind ring apart found v List.mem_cons_self
            omega
  refine ⟨?_, tail⟩
  by_contra not
  obtain ⟨unlocked, notLess⟩ := not_or.mp not
  have urgent := Int.not_lt.mp notLess
  have below := ordered.linux.resolve_left unlocked
  have urgentAll : ∀ u ∈ rtLinuxTask :: l, d.priority u ≤ d.priority t := by
    intro u mem
    rcases List.mem_cons.mp mem with rfl | mem
    · exact urgent
    · exact (below u mem).trans urgent
  have first := ring.next_mem List.mem_cons_self
  obtain ⟨d', l₁, l₂, linked, -⟩ := id inserts
  obtain ⟨x, found, -⟩ := Option.bind_eq_some_iff.mp linked
  have position := found
  rw [readyPosition_stop, if_neg (Int.not_lt.mpr (urgentAll _ first))] at found
  have there := ring.seek_mem (ring.next_mem first) found
  have negative := (stop_iff.mp (seek_stop found)).resolve_right (Int.not_lt.mpr (urgentAll x there))
  -- Only the first task may have stopped the loop, and the new one would be put before it.
  cases l with
  | nil =>
      obtain rfl := List.mem_singleton.mp there
      omega
  | cons h l =>
      rcases List.mem_cons.mp there with rfl | there
      · omega
      · rcases List.mem_cons.mp there with rfl | there
        · have whole : Inserts d ([] ++ x :: l) t := inserts
          have behind := whole.behind ring apart position x List.mem_cons_self
          omega
        · exact absurd (tail x there) (Int.not_le.mpr negative)

/-- A task is put where it belongs exactly when nothing stops the loop before it is there and
Linux does at the end. -/
theorem ready_insertion (ring : Ring d.ready rtLinuxTask l) (ordered : Ordered d l)
    (apart : t ∉ rtLinuxTask :: l) (accepted : 0 ≤ d.priority t) :
    Inserts d l t ↔ Stops d l t :=
  ⟨fun inserts => inserts.stops ring ordered apart accepted,
    fun stops => stops.inserts ring ordered apart⟩

/-- The dispatcher of a system with a task that is not yet on the list. -/
def oneTask (priority : Int) : Dispatcher 1 :=
  ((boot 1 {}).initTask ⟨1, Nat.one_lt_two⟩ priority).disp

theorem oneTask_ring (priority : Int) : Ring (oneTask priority).ready rtLinuxTask [] :=
  ⟨by simp, rfl, rfl⟩

theorem ready_insertion_first : Inserts (oneTask 5) [] 1 :=
  (ready_insertion (oneTask_ring 5) ⟨.nil, Or.inr nofun⟩ (by decide) (by decide)).mpr
    ⟨Or.inr (by decide), nofun⟩

/-- The loop of a task with the priority of Linux does not end. -/
theorem not_always_inserts : ¬∀ (n : Nat) (d : Dispatcher n) (l : List (Task n)) (t : Task n),
    Ring d.ready rtLinuxTask l → Ordered d l → t ∉ rtLinuxTask :: l → 0 ≤ d.priority t →
      Inserts d l t := by
  intro inserts
  obtain ⟨d', l₁, l₂, linked, -⟩ := inserts 1 (oneTask RT_LINUX_PRIORITY) [] 1 (oneTask_ring _)
    ⟨.nil, Or.inr nofun⟩ (by decide) (by decide)
  have endless : (oneTask RT_LINUX_PRIORITY).enqReadyTask 1 = none := rfl
  exact absurd (linked.symm.trans endless) nofun

end Dispatcher

end Rtai.Up
