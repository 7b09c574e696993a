import Rtai.Up.Lists

/-!
# The ready list in the order of deadlines

`EdfIs` says that the ready list holds the EDF tasks, in the order of their deadlines, before
the ordinary ones.  An EDF task is one whose `policy` is negative, and its deadline is its
`period`.  `wake_up_timed_tasks` puts an EDF task at the place of its deadline, and everything
else puts it behind the tasks that are at least as urgent as its `priority`, which
`rt_task_set_resume_end_times` has set to 0.  That is its place when it `Belongs` there.
-/

namespace Rtai.Up

open Function Rtai.Lib

variable {n : Nat}

/-- EDF tasks come first, and the earliest deadline first among them. -/
def Sooner (policy : Task n → Int) (deadline : Task n → RTIME) (a b : Task n) : Prop :=
  policy b < 0 → policy a < 0 ∧ deadline a ≤ deadline b

/-- The ready list holds Linux and the tasks with `P`, in the order of their deadlines. -/
def EdfIs (L : Links (Task n)) (policy : Task n → Int) (deadline : Task n → RTIME)
    (P : Task n → Prop) : Prop :=
  ∃ l, Ring L rtLinuxTask l ∧ (∀ t, t ∈ rtLinuxTask :: l ↔ P t) ∧
    l.Pairwise (Sooner policy deadline)

variable {L : Links (Task n)} {policy policy' : Task n → Int} {deadline deadline' : Task n → RTIME}
  {P Q : Task n → Prop} {t u : Task n} {before after : List (Task n)}

namespace EdfIs

theorem congr (h : EdfIs L policy deadline P) (e : ∀ t, P t ↔ Q t)
    (same : ∀ t, t ≠ rtLinuxTask → P t → policy' t = policy t ∧ deadline' t = deadline t) :
    EdfIs L policy' deadline' Q := by
  obtain ⟨l, ring, mem, sorted⟩ := h
  refine ⟨l, ring, fun t => (mem t).trans (e t), sorted.imp_of_mem ?_⟩
  intro a b left right sooner
  have real {t : Task n} (inside : t ∈ l) : t ≠ rtLinuxTask := by
    rintro rfl
    exact ring.head_notMem inside
  have ⟨policyA, deadlineA⟩ := same a (real left) ((mem a).mp (.tail _ left))
  have ⟨policyB, deadlineB⟩ := same b (real right) ((mem b).mp (.tail _ right))
  rw [Sooner, policyA, policyB, deadlineA, deadlineB]
  exact sooner

theorem unlink (h : EdfIs L policy deadline P) (ready : P t) (real : t ≠ rtLinuxTask) :
    EdfIs (L.unlink t) policy deadline fun u => P u ∧ u ≠ t := by
  obtain ⟨l, ring, mem, sorted⟩ := h
  have inside : t ∈ l := by simpa [real] using (mem t).mpr ready
  refine ⟨l.erase t, ring.erase inside, fun u => ?_, sorted.sublist List.erase_sublist⟩
  change u ∈ rtLinuxTask :: l.erase t ↔ P u ∧ u ≠ t
  rw [← mem u, List.mem_cons, List.mem_cons, (List.nodup_cons.mp ring.nodup).2.mem_erase_iff]
  constructor
  · rintro (rfl | ⟨other, inside⟩)
    · exact ⟨.inl rfl, real.symm⟩
    · exact ⟨.inr inside, other⟩
  · rintro ⟨rfl | inside, other⟩
    · exact .inl rfl
    · exact .inr ⟨other, inside⟩

theorem reset (h : EdfIs L policy deadline P) (idle : ¬P t) :
    EdfIs (L.reset t) policy deadline P := by
  obtain ⟨l, ring, mem, sorted⟩ := h
  exact ⟨l, ring.reset_frame (mt (mem t).mp idle), mem, sorted⟩

/-- A task is put between those that are sooner and those that are later. -/
theorem insert (ring : Ring L rtLinuxTask (before ++ after))
    (mem : ∀ t, t ∈ rtLinuxTask :: (before ++ after) ↔ P t)
    (sorted : (before ++ after).Pairwise (Sooner policy deadline)) (idle : ¬P t)
    (sooner : ∀ a ∈ before, Sooner policy deadline a t)
    (later : ∀ b ∈ after, Sooner policy deadline t b) :
    EdfIs (L.insertBefore t (after.headD rtLinuxTask)) policy deadline fun u => u = t ∨ P u := by
  refine ⟨before ++ t :: after, ring.insertBefore (mt (mem t).mp idle) rfl, fun u => ?_, ?_⟩
  · have perm : (rtLinuxTask :: (before ++ t :: after)).Perm
        (t :: rtLinuxTask :: (before ++ after)) :=
      (List.perm_middle.cons _).trans (.swap ..)
    rw [perm.mem_iff, List.mem_cons, mem u]
  · have ⟨front, back, across⟩ := List.pairwise_append.mp sorted
    refine List.pairwise_append.mpr ⟨front, List.pairwise_cons.mpr ⟨later, back⟩, ?_⟩
    intro a left b right
    cases right with
    | head => exact sooner a left
    | tail _ right => exact across a left b right

/-- The first of the last ones ends no later than any EDF task of them. -/
theorem sooner_head (sorted : (before ++ after).Pairwise (Sooner policy deadline))
    (inside : t ∈ after) (edf : policy t < 0) :
    ∃ x ∈ after.head?, policy x < 0 ∧ deadline x ≤ deadline t := by
  have back := (List.pairwise_append.mp sorted).2.1
  cases after with
  | nil => cases inside
  | cons x after =>
      refine ⟨x, rfl, ?_⟩
      cases inside with
      | head => exact ⟨edf, Int64.le_refl _⟩
      | tail _ inside => exact (List.pairwise_cons.mp back).1 t inside edf

end EdfIs

namespace Dispatcher

variable {d d' : Dispatcher n} {mask : TaskState} {prio : Int}

/-- The ready list is in the order of deadlines, and EDF tasks are of the highest priority. -/
structure Edf (d : Dispatcher n) : Prop where
  ready : EdfIs d.ready d.policy d.period fun t => d.state t = READY
  urgent : ∀ t, d.policy t < 0 → d.priority t = 0
  nonneg : ∀ t, 0 ≤ d.priority t
  /-- No task is scheduled round robin. -/
  plain : ∀ t, d.policy t ≤ 0
  linuxPolicy : d.policy rtLinuxTask = 0
  linuxPriority : d.priority rtLinuxTask = RT_LINUX_PRIORITY

/-- The place behind the tasks that are at least as urgent is the one of its deadline. -/
def Belongs (prio : Task n → Int) (t : Task n) (d : Dispatcher n) : Prop :=
  d.policy t < 0 → ∀ u, d.state u = READY → prio u = 0 →
    d.policy u < 0 ∧ d.period u ≤ d.period t

instance {prio : Task n → Int} : Decidable (d.Belongs prio t) :=
  inferInstanceAs (Decidable (_ → ∀ _, _ → _ → _ ∧ _))

/-! ## The ready list -/

/-- Without negative priorities the first task is like the others. -/
theorem readyPosition_eq (nonneg : ∀ t, 0 ≤ d.priority t) :
    d.readyPosition prio = seek d.ready.next (fun u => prio < d.priority u) (fuel n + 1)
      (d.ready.next rtLinuxTask) := by
  have same : (fun u => decide (d.priority u < 0) || decide (prio < d.priority u)) =
      fun u => decide (prio < d.priority u) := by
    funext u
    have := not_lt.mpr (nonneg u)
    simp [this]
  rw [readyPosition, same, seek]
  simp only [decide_eq_true_eq]

variable (urgent : ∀ t, d.policy t < 0 → d.priority t = 0) (nonneg : ∀ t, 0 ≤ d.priority t)
  (linuxPolicy : d.policy rtLinuxTask = 0)
  (linuxPriority : d.priority rtLinuxTask = RT_LINUX_PRIORITY)

include urgent nonneg

/-- An ordinary task goes before the first task that is less urgent, which is no EDF task. -/
theorem enqOrdinary (h : EdfIs d.ready d.policy d.period P) (idle : ¬P t)
    (ordinary : ¬d.policy t < 0) :
    Ensures (d.enqReadyTask t) fun d' => ∃ L, d' = { d with ready := L } ∧
      EdfIs L d.policy d.period fun u => u = t ∨ P u := by
  obtain ⟨l, ring, mem, sorted⟩ := h
  refine .bind (P := fun x => x ∈ rtLinuxTask :: l ∧ ¬d.policy x < 0) ?_ ?_
  · rw [readyPosition_eq nonneg]
    intro x found
    refine ⟨ring.seek_mem (ring.next_mem (.head _)) found, fun edf => ?_⟩
    have less : d.priority t < d.priority x := by simpa using seek_stop found
    have := nonneg t
    rw [urgent x edf] at less
    omega
  · rintro x ⟨place, notEdf⟩
    obtain ⟨before, after, rfl, rfl⟩ := Ring.exists_split place
    refine .some ⟨_, rfl, EdfIs.insert ring mem sorted idle (fun a _ edf => absurd edf ordinary) ?_⟩
    intro b inside edf
    -- no EDF task is behind an ordinary one
    obtain ⟨x, head, edfX, -⟩ := EdfIs.sooner_head sorted inside edf
    rw [List.headD_eq_head?_getD, head] at notEdf
    exact absurd edfX notEdf

include linuxPriority

/-- An EDF task goes behind all tasks of the highest priority. -/
theorem enqBelonging (h : EdfIs d.ready d.policy d.period P) (idle : ¬P t)
    (edf : d.policy t < 0)
    (belongs : ∀ u, P u → d.priority u = 0 → d.policy u < 0 ∧ d.period u ≤ d.period t) :
    Ensures (d.enqReadyTask t) fun d' => ∃ L, d' = { d with ready := L } ∧
      EdfIs L d.policy d.period fun u => u = t ∨ P u := by
  obtain ⟨l, ring, mem, sorted⟩ := h
  refine .bind (P := fun x => ∃ before after, l = before ++ after ∧ x = after.headD rtLinuxTask ∧
    (∀ a ∈ before, d.priority a = 0) ∧ ∀ b ∈ after.head?, 0 < d.priority b) ?_ ?_
  · rw [readyPosition_eq nonneg, ring.next_head, urgent t edf]
    intro x found
    have stop : decide (0 < d.priority rtLinuxTask) = true := by
      rw [linuxPriority]
      decide
    obtain ⟨before, after, parts, passed, rfl⟩ :=
      Ring.seek_split (show Ring d.ready rtLinuxTask ([] ++ l) from ring) stop found
    refine ⟨before, after, parts, rfl, ?_, ?_⟩
    · intro a inside
      have := of_decide_eq_false (passed a inside)
      have := nonneg a
      omega
    · intro b head
      have less := seek_stop found
      rw [List.headD_eq_head?_getD, head] at less
      exact of_decide_eq_true less
  · rintro _ ⟨before, after, rfl, rfl, zero, less⟩
    refine .some ⟨_, rfl, EdfIs.insert ring mem sorted idle ?_ ?_⟩
    · intro a inside _
      have ready := (mem a).mp (.tail _ (List.mem_append_left _ inside))
      exact belongs a ready (zero a inside)
    · intro b inside edfB
      obtain ⟨x, head, edfX, -⟩ := EdfIs.sooner_head sorted inside edfB
      have := less x head
      rw [urgent x edfX] at this
      exact absurd this (lt_irrefl 0)

theorem enqReadyTask_edf (h : EdfIs d.ready d.policy d.period P) (idle : ¬P t)
    (belongs : d.policy t < 0 →
      ∀ u, P u → d.priority u = 0 → d.policy u < 0 ∧ d.period u ≤ d.period t) :
    Ensures (d.enqReadyTask t) fun d' => ∃ L, d' = { d with ready := L } ∧
      EdfIs L d.policy d.period fun u => u = t ∨ P u := by
  by_cases edf : d.policy t < 0
  · exact enqBelonging urgent nonneg linuxPriority h idle edf (belongs edf)
  · exact enqOrdinary urgent nonneg h idle edf

omit urgent nonneg linuxPriority

include linuxPolicy

/-- An EDF task whose time has come goes behind those that end no later. -/
theorem enqReadyEdfTask_edf (h : EdfIs d.ready d.policy d.period P) (idle : ¬P t)
    (edf : d.policy t < 0) :
    Ensures (d.enqReadyEdfTask t) fun d' => ∃ L, d' = { d with ready := L } ∧
      EdfIs L d.policy d.period fun u => u = t ∨ P u := by
  obtain ⟨l, ring, mem, sorted⟩ := h
  refine .bind (P := fun x => ∃ before after, l = before ++ after ∧ x = after.headD rtLinuxTask ∧
    (∀ a ∈ before, d.policy a < 0 ∧ d.period a ≤ d.period t) ∧
    ∀ b ∈ after.head?, ¬(d.policy b < 0 ∧ d.period b ≤ d.period t)) ?_ ?_
  · rw [ring.next_head]
    intro x found
    have stop : (!(decide (d.policy rtLinuxTask < 0) &&
        decide (d.period rtLinuxTask ≤ d.period t))) = true := by simp [linuxPolicy]
    obtain ⟨before, after, parts, passed, rfl⟩ :=
      Ring.seek_split (show Ring d.ready rtLinuxTask ([] ++ l) from ring) stop found
    refine ⟨before, after, parts, rfl, ?_, ?_⟩
    · intro a inside
      simpa using passed a inside
    · intro b head
      have less := seek_stop found
      rw [List.headD_eq_head?_getD, head] at less
      intro both
      simp [both] at less
  · rintro _ ⟨before, after, rfl, rfl, earlier, first⟩
    refine .some ⟨_, rfl, EdfIs.insert ring mem sorted idle (fun a inside _ => earlier a inside) ?_⟩
    intro b inside edfB
    obtain ⟨x, head, edfX, order⟩ := EdfIs.sooner_head sorted inside edfB
    refine ⟨edf, (Int64.le_total _ _).resolve_right fun late => first x head ⟨edfX, ?_⟩⟩
    exact Int64.le_trans order late

omit linuxPolicy

/-! ## One task becomes ready or leaves the list -/

theorem remReadyTask_ready (d : Dispatcher n) (t : Task n) : (d.remReadyTask t).ready =
    if d.state t = READY then d.ready.unlink t else d.ready := by
  rw [remReadyTask]
  split <;> rfl

namespace Edf

variable {st : TaskState}

/-- A task whose state changes joins the list or stays away. -/
theorem setState {L : Links (Task n)} (h : Edf d) (idle : d.state t ≠ READY)
    (ready : if st = READY then EdfIs L d.policy d.period fun u => u = t ∨ d.state u = READY
      else L = d.ready) : Edf { d with ready := L, state := update d.state t st } := by
  refine { h with ready := ?_ }
  by_cases joins : st = READY
  · rw [if_pos joins] at ready
    refine ready.congr (fun u => ?_) fun _ _ _ => ⟨rfl, rfl⟩
    by_cases same : u = t
    · simp [same, joins]
    · simp [same]
  · rw [if_neg joins] at ready
    rw [ready]
    refine h.ready.congr (fun u => ?_) fun _ _ _ => ⟨rfl, rfl⟩
    by_cases same : u = t
    · simp [same, joins, idle]
    · simp [same]

section

variable (h : Edf d)
  (belongs : d.state t ≠ READY → (d.state t).clear mask = READY → d.Belongs d.priority t)
include h belongs

theorem makeReady : Ensures (d.makeReady t mask) fun p => Edf p.1 := by
  refine .ite (fun _ => .some h) fun idle => .ite (fun ready => ?_) fun waits => .some ?_
  · have joins : (d.state t).clear mask = READY := by simpa [Dispatcher.setState] using ready
    refine .bind (enqReadyTask_edf (d := d.setState t _) h.urgent h.nonneg h.linuxPriority h.ready idle
      fun edf => belongs idle joins edf) ?_
    rintro _ ⟨L, rfl, list⟩
    exact .some (h.setState idle (by rwa [if_pos joins]))
  · have stays : (d.state t).clear mask ≠ READY := by simpa [Dispatcher.setState] using waits
    exact h.setState idle (by rw [if_neg stays])

theorem release : Ensures (d.release t mask) fun p => Edf p.1 := by
  rw [Dispatcher.release, remTimedTask_eq]
  exact makeReady (d := { d with timed := _ }) { h with } belongs

end

/-- A task whose state is no longer `READY` leaves the list. -/
theorem park (h : Edf d) (real : t ≠ rtLinuxTask) (stops : st ≠ READY) :
    Edf ((d.remReadyTask t).setState t st) := by
  rw [remReadyTask]
  split
  next ready =>
    refine { h with ready := (h.ready.unlink ready real).congr (fun u => ?_) fun _ _ _ => ⟨rfl, rfl⟩ }
    by_cases same : u = t
    · simp [Dispatcher.setState, same, stops]
    · simp [Dispatcher.setState, unlinkReady, same]
  next idle => exact h.setState idle (by rw [if_neg stops])

theorem blockCurrent (h : Edf d) (mask : TaskState) (ready : d.state d.current = READY)
    (real : d.current ≠ rtLinuxTask) (stops : READY.set mask ≠ READY) :
    Edf (d.blockCurrent mask) := by
  have same : d.blockCurrent mask =
      (d.remReadyTask d.current).setState d.current (READY.set mask) := by
    simp only [Dispatcher.blockCurrent, remReadyCurrent, remReadyTask, ready, if_true]
    rfl
  rw [same]
  exact h.park real stops

/-- A suspended task is put on the list. -/
theorem setReady (h : Edf d) (idle : d.state t ≠ READY) (belongs : d.Belongs d.priority t) :
    Ensures ((d.setState t READY).enqReadyTask t) Edf := by
  refine (enqReadyTask_edf (d := d.setState t READY) h.urgent h.nonneg h.linuxPriority h.ready idle
    belongs).mono ?_
  rintro _ ⟨L, rfl, list⟩
  exact h.setState idle (by rwa [if_pos rfl])

/-- A task that is not on the list may be given another policy. -/
theorem reassign (pol prio : Int) (finish : RTIME) (h : Edf d) (idle : d.state t ≠ READY)
    (real : t ≠ rtLinuxTask) (plain : pol ≤ 0) (nonneg : 0 ≤ prio) (urgent : pol < 0 → prio = 0) :
    Edf { d with
      policy := update d.policy t pol
      priority := update d.priority t prio
      period := update d.period t finish } := by
  refine ⟨h.ready.congr (fun _ => Iff.rfl) fun u _ ready => ?_, fun u edf => ?_, fun u => ?_,
    fun u => ?_, (update_of_ne real.symm _ _).trans h.linuxPolicy,
    (update_of_ne real.symm _ _).trans h.linuxPriority⟩
  · have other : u ≠ t := by
      rintro rfl
      exact idle ready
    exact ⟨update_of_ne other _ _, update_of_ne other _ _⟩
  · change update d.policy t pol u < 0 at edf
    change update d.priority t prio u = 0
    by_cases same : u = t
    · rw [same, update_self] at edf ⊢
      exact urgent edf
    · rw [update_of_ne same] at edf ⊢
      exact h.urgent u edf
  · change 0 ≤ update d.priority t prio u
    by_cases same : u = t
    · rw [same, update_self]
      exact nonneg
    · rw [update_of_ne same]
      exact h.nonneg u
  · change update d.policy t pol u ≤ 0
    by_cases same : u = t
    · rw [same, update_self]
      exact plain
    · rw [update_of_ne same]
      exact h.plain u

variable (h : Edf d)
include h

theorem setPriority (real : t ≠ rtLinuxTask) (ordinary : ¬d.policy t < 0) (nonneg : 0 ≤ prio) :
    Edf (d.setPriority t prio) := by
  refine ⟨h.ready, fun u edf => ?_, fun u => ?_, h.plain, h.linuxPolicy,
    (update_of_ne real.symm _ _).trans h.linuxPriority⟩
  · have other : u ≠ t := by
      rintro rfl
      exact ordinary edf
    exact (update_of_ne other _ _).trans (h.urgent u edf)
  · change 0 ≤ update d.priority t prio u
    by_cases same : u = t
    · rw [same, update_self]
      exact nonneg
    · rw [update_of_ne same]
      exact h.nonneg u

/-- An ordinary task moves on the list. -/
theorem requeue (ready : d.state t = READY) (real : t ≠ rtLinuxTask) (ordinary : ¬d.policy t < 0) :
    Ensures ((d.unlinkReady t).enqReadyTask t) Edf := by
  refine (enqOrdinary (d := d.unlinkReady t) h.urgent h.nonneg (h.ready.unlink ready real)
    (fun again => again.2 rfl) ordinary).mono ?_
  rintro _ ⟨L, rfl, list⟩
  refine { h with ready := list.congr (fun u => ?_) fun _ _ _ => ⟨rfl, rfl⟩ }
  constructor
  · rintro (rfl | both)
    · exact ready
    · exact both.1
  · intro readyU
    by_cases same : u = t
    · exact .inl same
    · exact .inr ⟨readyU, same⟩

/-- An EDF task keeps the highest priority, and Linux its own. -/
theorem renqReadyTask (ready : d.state t = READY) (nonneg : 0 ≤ prio)
    (linux : t = rtLinuxTask → prio = RT_LINUX_PRIORITY) (urgent : d.policy t < 0 → prio = 0) :
    Ensures (d.renqReadyTask t prio) fun p => Edf p.1 := by
  refine .ite (fun _ => .some h) fun changes => ?_
  have real : t ≠ rtLinuxTask := by
    rintro rfl
    exact changes (h.linuxPriority.trans (linux rfl).symm)
  have ordinary : ¬d.policy t < 0 := fun edf =>
    changes ((h.urgent t edf).trans (urgent edf).symm)
  refine .bind ((h.setPriority real ordinary nonneg).requeue ready real ordinary) ?_
  exact fun _ edf => .some edf

/-! ## Time -/

theorem wakeUpTask (idle : d.state t ≠ READY) :
    Ensures (d.wakeUpTask t) fun d' => Edf d' ∧ ∃ L,
      d' = { d with ready := L, state := update d.state t ((d.state t).clear TIMED_OUT) } := by
  refine .ite (fun ready => ?_) fun waits => .some ⟨?_, d.ready, rfl⟩
  · have joins : (d.state t).clear TIMED_OUT = READY := by
      simpa [Dispatcher.setState] using ready
    refine .ite (fun edf => ?_) fun ordinary => ?_
    · refine (enqReadyEdfTask_edf (d := d.setState t _) h.linuxPolicy h.ready idle edf).mono ?_
      rintro _ ⟨L, rfl, list⟩
      exact ⟨h.setState idle (by rwa [if_pos joins]), L, rfl⟩
    · refine (enqOrdinary (d := d.setState t _) h.urgent h.nonneg h.ready idle ordinary).mono ?_
      rintro _ ⟨L, rfl, list⟩
      exact ⟨h.setState idle (by rwa [if_pos joins]), L, rfl⟩
  · have stays : (d.state t).clear TIMED_OUT ≠ READY := by
      simpa [Dispatcher.setState] using waits
    exact h.setState idle (by rw [if_neg stays])

/-- The loop runs along the timed list, whose tasks are not ready. -/
theorem wakeUpLoop {k : Nat} (ring : Ring d.timed rtLinuxTask (before ++ after))
    (waiting : ∀ u ∈ after, d.state u ≠ READY) (late : ¬d.resumeTime rtLinuxTask ≤ d.timeH) :
    Ensures (wakeUpLoop k (after.headD rtLinuxTask) d) fun p => Edf p.1 := by
  induction k generalizing before after d with
  | zero => exact .none
  | succ k ih =>
      refine .ite (fun due => ?_) fun _ => .some h
      cases after with
      | nil => exact absurd due late
      | cons x after =>
          refine .bind (h.wakeUpTask (waiting x (.head _))) ?_
          rintro _ ⟨edf, L, rfl⟩
          have unique := (List.nodup_append.mp (List.nodup_cons.mp ring.nodup).2).2.1
          have next : d.timed.next x = after.headD rtLinuxTask := ring.next_headD
          have ring : Ring d.timed rtLinuxTask ((before ++ [x]) ++ after) := by simpa using ring
          change Ensures (Dispatcher.wakeUpLoop k (d.timed.next x) _) _
          rw [next]
          refine ih edf ring ?_ late
          intro u inside
          have other : u ≠ x := by
            rintro rfl
            exact (List.nodup_cons.mp unique).1 inside
          change update d.state x _ u ≠ READY
          rw [update_of_ne other]
          exact waiting u (.tail _ inside)

variable {ordered : Prop} {off : Option (Task n)}

theorem wakeUpTimedTasks (linked : d.Linked ordered none) : Ensures d.wakeUpTimedTasks Edf := by
  obtain ⟨l, ring, mem, -⟩ := linked.timed
  have waiting : ∀ u ∈ l, d.state u ≠ READY := by
    intro u inside ready
    have delayed := ((mem u).mp inside).1
    rw [ready] at delayed
    exact Bool.false_ne_true delayed
  intro d' e
  obtain ⟨⟨d₁, x⟩, looped, cut⟩ := Option.bind_eq_some_iff.mp e
  have late : ¬d.resumeTime rtLinuxTask ≤ d.timeH := by
    intro due
    rw [linked.linuxTime] at due
    exact wakeUpLoop_late _ looped (Int64.le_trans (le_RT_TIME_END _) due)
  rw [ring.next_head] at looped
  have edf : Edf d₁ :=
    h.wakeUpLoop (show Ring d.timed rtLinuxTask ([] ++ l) from ring) waiting late _ looped
  obtain rfl := Option.some.inj cut
  exact { edf with }

theorem rrYield : Ensures d.rrYield (· = d) :=
  .ite (fun robin => absurd robin (not_lt.mpr (h.plain _))) fun _ => .some rfl

theorem rtSchedule (linked : d.Linked ordered none) (c : Clock) : Ensures (d.rtSchedule c) Edf := by
  have start : Edf { d with schedRqsted := 1 } := { h with }
  refine .bind start.rrYield ?_
  rintro _ rfl
  refine .ite (fun _ => ?_) fun _ => .some ?_
  · have linked : Dispatcher.Linked ordered none
        { d with schedRqsted := 1, timeH := c.sched + d.timer.halfTick } := { linked with }
    refine .bind (wakeUpTimedTasks (d := { d with schedRqsted := 1, timeH := _ }) { h with }
      linked) ?_
    intro d₁ edf
    refine .bind (scheduleShot_spec c.shot d₁.taskToSchedule d₁) ?_
    rintro _ ⟨Y, T, rfl⟩
    exact .some { edf with }
  · obtain ⟨Y, e⟩ := rrSetyt_eq (d.ready.next rtLinuxTask) { d with schedRqsted := 1 }
    simp only [taskToSchedule, e]
    exact { h with }

theorem rtTimerHandler (linked : d.Linked ordered none) (c : Clock) :
    Ensures (d.rtTimerHandler c) Edf := by
  have woken : ∀ i T H, Ensures
      { d with schedRqsted := i, timer := T, timeH := H }.wakeUpTimedTasks Edf := by
    intro i T H
    have linked : Dispatcher.Linked ordered none
        { d with schedRqsted := i, timer := T, timeH := H } := { linked with }
    exact wakeUpTimedTasks (d := { d with schedRqsted := i, timer := T, timeH := H }) { h with }
      linked
  refine .bind (woken _ _ _) ?_
  intro d₂ edf
  refine .bind edf.rrYield ?_
  rintro d₁ rfl
  refine .bind (handlerShot_spec c.shot d₁.taskToSchedule d₁) ?_
  rintro _ ⟨Y, T, rfl⟩
  exact .some { edf with }

theorem enqTimedTask : Ensures (d.enqTimedTask t) Edf :=
  .bind (P := fun _ => True) (fun _ _ => trivial) fun _ _ => .some { h with }

end Edf

end Dispatcher

end Rtai.Up
