import Rtai.Up.Dispatcher

/-!
# The ready list and the timed list

`ReadyIs L P` says that the links `L` run through Linux and exactly the tasks
with `P`; `TimedIs o L time P` says the same of the timed list, of which Linux
is the head, and when `o` holds also that the resume times do not decrease
along it.  `Linked` puts the two together with the state words: the ready list
holds the tasks whose state is `READY`, the timed list those whose `DELAYED`
bit is set.  Inside a service one task may have the bit without being on the
list; it is the second argument of `Linked`.

For every function of the dispatcher there is one theorem about what it changes
and what it keeps.  A function that only relinks is described by an equation
`d' = { d with … }`, `rt_schedule` and `rt_timer_handler` by `Woken`.
-/

namespace Rtai.Up

open Function Rtai.Lib

theorem le_RT_TIME_END (x : RTIME) : x ≤ RT_TIME_END := Int64.le_maxValue x

/-- The order of the timed list. -/
def NotLater {n : Nat} (time : Task n → RTIME) (a b : Task n) : Prop := time a ≤ time b

namespace NotLater

variable {n : Nat} {time : Task n → RTIME}

instance : DecidableRel (NotLater time) :=
  fun a b => inferInstanceAs (Decidable (time a ≤ time b))

instance : Std.Total (NotLater time) := ⟨fun a b => Int64.le_total (time a) (time b)⟩

instance : IsTrans (Task n) (NotLater time) := ⟨fun _ _ _ h h' => Int64.le_trans h h'⟩

end NotLater

variable {k : Nat}

section Lists

variable {n : Nat}

/-- The ready list holds Linux and the tasks with `P`. -/
def ReadyIs (L : Links (Task n)) (P : Task n → Prop) : Prop :=
  ∃ l, Ring L rtLinuxTask l ∧ ∀ t, t ∈ rtLinuxTask :: l ↔ P t

/-- The timed list holds the tasks with `P`, when `ordered` in the order of their
times. -/
def TimedIs (ordered : Prop) (L : Links (Task n)) (time : Task n → RTIME)
    (P : Task n → Prop) : Prop :=
  ∃ l, Ring L rtLinuxTask l ∧ (∀ t, t ∈ l ↔ P t) ∧ (ordered → l.Pairwise (NotLater time))

variable {L : Links (Task n)} {time time' : Task n → RTIME} {P Q : Task n → Prop} {ordered : Prop}
  {t x : Task n}

section

variable (h : ReadyIs L P)
include h

theorem ReadyIs.congr (e : ∀ t, P t ↔ Q t) : ReadyIs L Q := by
  obtain ⟨l, r, mem⟩ := h
  exact ⟨l, r, fun t => (mem t).trans (e t)⟩

theorem ReadyIs.linux : P rtLinuxTask := by
  obtain ⟨l, _, mem⟩ := h
  exact (mem rtLinuxTask).mp (by simp)

theorem ReadyIs.next (ht : P t) : P (L.next t) := by
  obtain ⟨l, r, mem⟩ := h
  exact (mem _).mp (r.next_mem ((mem t).mpr ht))

theorem ReadyIs.seek {stop : Task n → Bool} {y : Task n} (hx : P x)
    (e : seek L.next stop k x = some y) : P y := by
  obtain ⟨l, r, mem⟩ := h
  exact (mem y).mp (r.seek_mem ((mem x).mpr hx) e)

theorem ReadyIs.unlink (ht : P t) (hne : t ≠ rtLinuxTask) :
    ReadyIs (L.unlink t) fun u => P u ∧ u ≠ t := by
  obtain ⟨l, r, mem⟩ := h
  have ht : t ∈ l := by simpa [hne] using (mem t).mpr ht
  refine ⟨l.erase t, r.erase ht, fun u => ?_⟩
  show u ∈ rtLinuxTask :: l.erase t ↔ P u ∧ u ≠ t
  rw [← mem u, List.mem_cons, List.mem_cons, ((List.nodup_cons.mp r.nodup).2).mem_erase_iff]
  constructor
  · rintro (rfl | ⟨hu, hm⟩)
    · exact ⟨Or.inl rfl, hne.symm⟩
    · exact ⟨Or.inr hm, hu⟩
  · rintro ⟨rfl | hm, hu⟩
    · exact Or.inl rfl
    · exact Or.inr ⟨hu, hm⟩

/-- A task that is not on the ready list is put before one that is. -/
theorem ReadyIs.insert (ht : ¬P t) (hx : P x) :
    ReadyIs (L.insertBefore t x) fun u => u = t ∨ P u := by
  obtain ⟨l, r, mem⟩ := h
  obtain ⟨l', r', p⟩ := r.insert_perm (mt (mem t).mp ht) ((mem x).mpr hx)
  refine ⟨l', r', fun u => ?_⟩
  show u ∈ rtLinuxTask :: l' ↔ u = t ∨ P u
  rw [List.mem_cons, p.mem_iff, List.mem_cons, ← mem u, List.mem_cons]
  exact or_left_comm

theorem ReadyIs.reset (ht : ¬P t) : ReadyIs (L.reset t) P := by
  obtain ⟨l, r, mem⟩ := h
  exact ⟨l, r.reset_frame (mt (mem t).mp ht), mem⟩

end

variable (h : TimedIs ordered L time P)
include h

theorem TimedIs.congr (e : ∀ t, P t ↔ Q t) (same : ∀ t, P t → time' t = time t) :
    TimedIs ordered L time' Q := by
  obtain ⟨l, r, mem, sorted⟩ := h
  refine ⟨l, r, fun t => (mem t).trans (e t), fun ho => (sorted ho).imp_of_mem ?_⟩
  intro a b ha hb
  rw [NotLater, NotLater, same a ((mem a).mp ha), same b ((mem b).mp hb)]
  exact id

theorem TimedIs.unlink (ht : P t) : TimedIs ordered (L.unlink t) time fun u => P u ∧ u ≠ t := by
  obtain ⟨l, r, mem, sorted⟩ := h
  have ht : t ∈ l := (mem t).mpr ht
  refine ⟨l.erase t, r.erase ht, fun u => ?_, fun ho => (sorted ho).sublist List.erase_sublist⟩
  show u ∈ l.erase t ↔ P u ∧ u ≠ t
  rw [← mem u, ((List.nodup_cons.mp r.nodup).2).mem_erase_iff]
  exact and_comm

theorem TimedIs.reset (ht : ¬P t) (hne : t ≠ rtLinuxTask) : TimedIs ordered (L.reset t) time P := by
  obtain ⟨l, r, mem, sorted⟩ := h
  refine ⟨l, r.reset_frame ?_, mem, sorted⟩
  rw [List.mem_cons, mem t]
  exact fun h => h.elim hne ht

/-- Inserting before the first task whose time is not earlier. -/
theorem TimedIs.insert (ht : ¬P t) (hne : t ≠ rtLinuxTask) (hl : time rtLinuxTask = RT_TIME_END)
    (e : seek L.next (fun u => !(time t > time u)) k (L.next rtLinuxTask) = some x) :
    TimedIs ordered (L.insertBefore t x) time fun u => u = t ∨ P u := by
  obtain ⟨l, r, mem, sorted⟩ := h
  rw [r.next_head] at e
  have stop : (!decide (time t > time rtLinuxTask)) = true := by
    rw [hl]
    simpa using le_RT_TIME_END (time t)
  obtain ⟨m₁, m₂, rfl, before, rfl⟩ := Ring.seek_split (show Ring L rtLinuxTask ([] ++ l) from r) stop e
  have after : ∀ z, m₂.head? = some z → NotLater time t z := by
    intro z hz
    have hz' : m₂.headD rtLinuxTask = z := by rw [List.headD_eq_head?_getD, hz]; rfl
    have := seek_stop e
    rw [hz'] at this
    simpa [NotLater] using this
  have split := orderedInsert_split (R := NotLater time) (a := t)
    (fun z hz => by simpa [NotLater] using before z hz) after
  have ht : t ∉ rtLinuxTask :: (m₁ ++ m₂) := by
    rw [List.mem_cons, mem t]
    exact fun h => h.elim hne ht
  refine ⟨(m₁ ++ m₂).orderedInsert (NotLater time) t, ?_, fun u => ?_, fun ho => ?_⟩
  · rw [split]
    exact r.insertBefore ht rfl
  · rw [List.mem_orderedInsert, mem u]
  · exact (sorted ho).orderedInsert t _

/-- The new time of a task on the timed list lies between its neighbours'. -/
def Fits (L : Links (Task n)) (time : Task n → RTIME) (t : Task n) (x : RTIME) : Prop :=
  (L.prev t = rtLinuxTask ∨ time (L.prev t) ≤ x) ∧ x ≤ time (L.next t)

instance {x : RTIME} : Decidable (Fits L time t x) := inferInstanceAs (Decidable (_ ∧ _))

/-- A new time that fits leaves the list in order where it is. -/
theorem TimedIs.retime {x : RTIME} (fits : ordered → P t → Fits L time t x) :
    TimedIs ordered L (update time t x) P := by
  obtain ⟨l, r, mem, sorted⟩ := h
  refine ⟨l, r, mem, fun ho => ?_⟩
  by_cases ht : t ∈ l
  swap
  · refine (sorted ho).imp_of_mem ?_
    intro a b ha hb
    have ha : a ≠ t := by rintro rfl; exact ht ha
    have hb : b ≠ t := by rintro rfl; exact ht hb
    rw [NotLater, NotLater, update_of_ne ha, update_of_ne hb]
    exact id
  obtain ⟨before, after⟩ := fits ho ((mem t).mp ht)
  obtain ⟨l₁, l₂, rfl⟩ := List.append_of_mem ht
  have nd := List.nodup_append.mp (List.nodup_cons.mp r.nodup).2
  have ht₁ : t ∉ l₁ := fun hm => nd.2.2 t hm t (by simp) rfl
  have ht₂ : t ∉ l₂ := (List.nodup_cons.mp nd.2.1).1
  obtain ⟨s₁, s₂, s₁₂⟩ := List.pairwise_append.mp (sorted ho)
  obtain ⟨_, s₂⟩ := List.pairwise_cons.mp s₂
  have old : ∀ {a : Task n}, a ≠ t → update time t x a = time a := fun ha => update_of_ne ha _ _
  have earlier : ∀ a ∈ l₁, time a ≤ x := by
    intro a ha
    rcases List.eq_nil_or_concat l₁ with rfl | ⟨m, p, rfl⟩
    · simp at ha
    rw [List.concat_eq_append] at *
    have hp : L.prev t = p := by
      have := (segment_append.mp (segment_append.mp r.segment).1).2
      exact this.2
    have hpx : time p ≤ x := by
      rw [hp] at before
      refine before.resolve_left ?_
      rintro rfl
      exact (List.nodup_cons.mp r.nodup).1 (by simp)
    rcases List.mem_append.mp ha with ha | ha
    · exact Int64.le_trans ((List.pairwise_append.mp s₁).2.2 a ha p (by simp)) hpx
    · rw [List.mem_singleton.mp ha]
      exact hpx
  have later : ∀ b ∈ l₂, x ≤ time b := by
    intro b hb
    cases l₂ with
    | nil => simp at hb
    | cons q l₂ =>
        rw [r.next_headD] at after
        rcases List.mem_cons.mp hb with rfl | hb
        · exact after
        · exact Int64.le_trans after ((List.pairwise_cons.mp s₂).1 b hb)
  have kept : ∀ {m : List (Task n)}, t ∉ m → m.Pairwise (NotLater time) →
      m.Pairwise (NotLater (update time t x)) := by
    intro m hm
    refine List.Pairwise.imp_of_mem ?_
    intro a b ha hb
    rw [NotLater, NotLater, old fun e => hm (e ▸ ha), old fun e => hm (e ▸ hb)]
    exact id
  refine List.pairwise_append.mpr ⟨kept ht₁ s₁, List.pairwise_cons.mpr ⟨?_, kept ht₂ s₂⟩, ?_⟩
  · intro b hb
    rw [NotLater, update_self, old fun e => ht₂ (e ▸ hb)]
    exact later b hb
  · intro a ha b hb
    rw [NotLater, old fun e => ht₁ (e ▸ ha)]
    rcases List.mem_cons.mp hb with rfl | hb'
    · rw [update_self]
      exact earlier a ha
    · rw [old fun e => ht₂ (e ▸ hb')]
      exact s₁₂ a ha b hb

end Lists

/-! ## The invariant -/

namespace Dispatcher

variable {n : Nat}

/-- The lists agree with the state words, the bit of `off` apart, and Linux and
the deleted tasks are on no list but the ones they belong to. -/
structure Linked (ordered : Prop) (off : Option (Task n)) (d : Dispatcher n) : Prop where
  ready : ReadyIs d.ready fun t => d.state t = READY
  timed : TimedIs ordered d.timed d.resumeTime fun t => (d.state t).delayed ∧ some t ≠ off
  dead : ∀ t, t ≠ rtLinuxTask → d.magic t = false → d.state t = DEAD
  linuxMagic : d.magic rtLinuxTask = false
  linuxTime : d.resumeTime rtLinuxTask = RT_TIME_END
  linuxPolicy : d.policy rtLinuxTask ≤ 0

variable {d d' : Dispatcher n} {t : Task n} {st mask : TaskState} {ordered : Prop}
  {off off' : Option (Task n)} {P : Task n → Prop} {L : Links (Task n)}

theorem Linked.linuxState (h : Linked ordered off d) : d.state rtLinuxTask = READY :=
  h.ready.linux

theorem Linked.magic (h : Linked ordered off d) (hne : t ≠ rtLinuxTask) (hd : d.state t ≠ DEAD) :
    d.magic t = true := by
  by_contra hm
  exact hd (h.dead t hne (by simpa using hm))

theorem Linked.realTime (h : Linked ordered off d) (hm : d.magic t = true) : t ≠ rtLinuxTask := by
  rintro rfl
  exact Bool.false_ne_true (h.linuxMagic.symm.trans hm)

/-- The bit that stands apart is one that is not set. -/
theorem Linked.settle (h : Linked ordered (some t) d) (hd : (d.state t).delayed = false) :
    Linked ordered none d := by
  refine { h with timed := h.timed.congr (fun u => ?_) fun _ _ => rfl }
  constructor
  · exact fun hu => ⟨hu.1, nofun⟩
  · rintro ⟨hu, -⟩
    refine ⟨hu, fun e => ?_⟩
    rw [Option.some.inj e, hd] at hu
    exact Bool.false_ne_true hu

theorem Linked.unsettle (h : Linked ordered none d) (hd : (d.state t).delayed = false) :
    Linked ordered (some t) d := by
  refine { h with timed := h.timed.congr (fun u => ?_) fun _ _ => rfl }
  constructor
  · rintro ⟨hu, -⟩
    refine ⟨hu, fun e => ?_⟩
    rw [Option.some.inj e, hd] at hu
    exact Bool.false_ne_true hu
  · exact fun hu => ⟨hu.1, nofun⟩

theorem Linked.setPriority (h : Linked ordered off d) (t : Task n) (prio : Int) :
    Linked ordered off (d.setPriority t prio) := { h with }

/-- The time of a task that is not on the timed list. -/
theorem Linked.setResumeTime {time : RTIME} (h : Linked ordered off d) (hne : t ≠ rtLinuxTask)
    (ht : (d.state t).delayed = true → some t = off) :
    Linked ordered off (d.setResumeTime t time) := by
  refine { h with timed := h.timed.congr (fun _ => Iff.rfl) fun u hu => ?_, linuxTime := ?_ }
  · have : u ≠ t := by rintro rfl; exact hu.2 (ht hu.1)
    exact update_of_ne this _ _
  · exact (update_of_ne hne.symm _ _).trans h.linuxTime

/-! ## The ready list -/

theorem enqReadyTask_spec (h : ReadyIs d.ready P) (ht : ¬P t) :
    Ensures (d.enqReadyTask t) fun d' =>
      ∃ L, d' = { d with ready := L } ∧ ReadyIs L fun u => u = t ∨ P u := by
  have first : P (d.ready.next rtLinuxTask) := h.next h.linux
  refine .bind (P := P) ?_ fun x hx => .some ⟨_, rfl, h.insert ht hx⟩
  exact .ite (fun _ => .some first) fun _ x e => h.seek (h.next first) e

theorem enqReadyEdfTask_spec (h : ReadyIs d.ready P) (ht : ¬P t) :
    Ensures (d.enqReadyEdfTask t) fun d' =>
      ∃ L, d' = { d with ready := L } ∧ ReadyIs L fun u => u = t ∨ P u :=
  .bind (P := P) (fun _ e => h.seek (h.next h.linux) e) fun _ hx => .some ⟨_, rfl, h.insert ht hx⟩

/-- A task taken out and put back. -/
theorem requeue_spec (h : ReadyIs d.ready P) (ht : P t) (hne : t ≠ rtLinuxTask) :
    Ensures ((d.unlinkReady t).enqReadyTask t) fun d' =>
      ∃ L, d' = { d with ready := L } ∧ ReadyIs L P := by
  refine (enqReadyTask_spec (h.unlink ht hne) (fun hu => hu.2 rfl)).mono ?_
  rintro _ ⟨L, rfl, hL⟩
  refine ⟨L, rfl, hL.congr fun u => ?_⟩
  constructor
  · rintro (rfl | hu)
    · exact ht
    · exact hu.1
  · intro hu
    by_cases e : u = t
    · exact Or.inl e
    · exact Or.inr ⟨hu, e⟩

theorem moveBehindEquals_spec (h : ReadyIs d.ready P) (ht : P d.current)
    (hne : d.current ≠ rtLinuxTask) :
    Ensures d.moveBehindEquals fun p =>
      ∃ L, p.1 = { d with ready := L } ∧ ReadyIs L P := by
  refine .bind (P := fun x => P x ∧ x ≠ d.current) ?_ fun x hx => .ite ?_ fun _ => ?_
  · refine .and (fun _ e => h.seek (h.next ht) e) ?_
    rintro _ e rfl
    simpa using seek_stop e
  · exact fun _ => .some ⟨d.ready, rfl, h⟩
  · refine .some ⟨_, rfl, ?_⟩
    refine ((h.unlink ht hne).insert (fun hu => hu.2 rfl) hx).congr fun u => ?_
    constructor
    · rintro (rfl | hu)
      · exact ht
      · exact hu.1
    · intro hu
      by_cases e : u = d.current
      · exact Or.inl e
      · exact Or.inr ⟨hu, e⟩

theorem Linked.requeue (h : Linked ordered off d) (ht : d.state t = READY)
    (hne : t ≠ rtLinuxTask) :
    Ensures ((d.unlinkReady t).enqReadyTask t) fun d' =>
      Linked ordered off d' ∧ ∃ L, d' = { d with ready := L } := by
  refine (requeue_spec h.ready ht hne).mono ?_
  rintro _ ⟨L, rfl, hL⟩
  exact ⟨{ h with ready := hL }, L, rfl⟩

theorem Linked.moveBehindEquals (h : Linked ordered off d) (ht : d.state d.current = READY)
    (hne : d.current ≠ rtLinuxTask) :
    Ensures d.moveBehindEquals fun p =>
      Linked ordered off p.1 ∧ ∃ L, p.1 = { d with ready := L } := by
  refine (moveBehindEquals_spec h.ready ht hne).mono ?_
  rintro ⟨_, b⟩ ⟨L, rfl, hL⟩
  exact ⟨{ h with ready := hL }, L, rfl⟩

/-- `renq_ready_task` does nothing to a task that has the priority already. -/
theorem Linked.renqReadyTask {prio : Int} (h : Linked ordered off d) (ht : d.state t = READY)
    (hne : t = rtLinuxTask → d.priority t = prio) :
    Ensures (d.renqReadyTask t prio) fun p =>
      Linked ordered off p.1 ∧
        ∃ L, p.1 = { d with ready := L, priority := update d.priority t prio } := by
  refine .ite (fun e => .some ⟨h, d.ready, ?_⟩) fun e => ?_
  · rw [← e, update_eq_self]
  · refine .bind ((h.setPriority t prio).requeue ht fun hl => e (hne hl)) ?_
    rintro _ ⟨h', L, rfl⟩
    exact .some ⟨h', L, rfl⟩

theorem remReadyTask_eq (d : Dispatcher n) (t : Task n) :
    d.remReadyTask t = { d with ready := (d.remReadyTask t).ready } := by
  rw [remReadyTask]
  split <;> rfl

/-- Leaving the ready list with a state that is not `READY`. -/
theorem Linked.park (h : Linked ordered off d) (hne : t ≠ rtLinuxTask) (hst : st ≠ READY)
    (hdead : d.magic t = false → st = DEAD)
    (htimed : ∀ u, ((update d.state t st u).delayed ∧ some u ≠ off') ↔
      (d.state u).delayed ∧ some u ≠ off) :
    Linked ordered off' ((d.remReadyTask t).setState t st) := by
  have ready : ReadyIs ((d.remReadyTask t).ready) fun u => update d.state t st u = READY := by
    rw [remReadyTask]
    split
    next hr =>
      refine (h.ready.unlink hr hne).congr fun u => ?_
      by_cases e : u = t
      · subst e; simp [hst]
      · simp [e]
    next hr =>
      refine h.ready.congr fun u => ?_
      by_cases e : u = t
      · subst e; simp [hst, hr]
      · simp [e]
  rw [remReadyTask_eq]
  refine { h with
    ready := ready
    timed := h.timed.congr (fun u => (htimed u).symm) fun _ _ => rfl
    dead := fun u hu hm => ?_ }
  by_cases e : u = t
  · subst e; simpa [Dispatcher.setState] using hdead hm
  · simpa [Dispatcher.setState, e] using h.dead u hu hm

theorem Linked.suspend (h : Linked ordered none d) (hne : t ≠ rtLinuxTask)
    (hm : d.magic t = true) :
    Linked ordered none ((d.remReadyTask t).setState t ((d.state t).set SUSPENDED)) := by
  refine h.park hne (by simp [TaskState.set, READY, SUSPENDED]) (fun hd => ?_) fun u => ?_
  · exact absurd (hd.symm.trans hm) Bool.false_ne_true
  · by_cases e : u = t
    · subst e; simp [TaskState.set, SUSPENDED]
    · simp [e]

/-- How `rt_task_make_periodic` puts a task to sleep. -/
theorem Linked.delay (h : Linked ordered none d) (hne : t ≠ rtLinuxTask)
    (hm : d.magic t = true) (awake : (d.state t).delayed = false) :
    Linked ordered (some t)
      ((d.remReadyTask t).setState t (((d.state t).clear SUSPENDED).set DELAYED)) := by
  refine h.park hne (by simp [TaskState.set, READY, DELAYED]) (fun hd => ?_) fun u => ?_
  · exact absurd (hd.symm.trans hm) Bool.false_ne_true
  · by_cases e : u = t
    · subst e; simp [awake]
    · simp [e]

/-- `rt_current->state |= mask; rem_ready_current()`. -/
theorem Linked.blockCurrent (h : Linked ordered none d) (hr : d.state d.current = READY)
    (hne : d.current ≠ rtLinuxTask) (hm : READY.set mask ≠ READY) :
    Linked ordered (some d.current) (d.blockCurrent mask) ∧
      ∃ L, d.blockCurrent mask =
        { d with ready := L, state := update d.state d.current (READY.set mask) } := by
  have same : d.blockCurrent mask =
      (d.remReadyTask d.current).setState d.current (READY.set mask) := by
    simp only [Dispatcher.blockCurrent, remReadyCurrent, remReadyTask, hr, if_true]
    rfl
  have eq : (d.remReadyTask d.current).setState d.current (READY.set mask) =
      { d with
        ready := d.ready.unlink d.current
        state := update d.state d.current (READY.set mask) } := by
    simp only [remReadyTask, hr, if_true]
    rfl
  refine ⟨?_, d.ready.unlink d.current, same.trans eq⟩
  rw [same]
  refine h.park hne hm (fun hd => ?_) fun u => ?_
  · rw [h.magic hne (by rw [hr]; decide)] at hd
    exact absurd hd (by decide)
  · by_cases e : u = d.current
    · subst e; simp [hr, READY]
    · simp [e]

/-! ## The timed list -/

theorem remTimedTask_eq (d : Dispatcher n) (t : Task n) :
    d.remTimedTask t = { d with timed := (d.remTimedTask t).timed } := by
  rw [remTimedTask]
  split <;> rfl

theorem Linked.remTimedTask (h : Linked ordered none d) (t : Task n) :
    Linked ordered (some t) (d.remTimedTask t) := by
  have timed : TimedIs ordered (d.remTimedTask t).timed d.resumeTime
      fun u => (d.state u).delayed ∧ some u ≠ some t := by
    rw [Dispatcher.remTimedTask]
    split
    next hd =>
      refine (h.timed.unlink ⟨hd, nofun⟩).congr (fun u => ?_) fun _ _ => rfl
      simp
    next hd =>
      refine h.timed.congr (fun u => ?_) fun _ _ => rfl
      constructor
      · rintro ⟨hu, -⟩
        exact ⟨hu, fun e => hd (Option.some.inj e ▸ hu)⟩
      · exact fun hu => ⟨hu.1, nofun⟩
  rw [remTimedTask_eq]
  exact { h with timed := timed }

/-- `rt_set_resume_time` sets the time before it takes the task off the list. -/
theorem Linked.retimeOff {x : RTIME} (h : Linked ordered none d) (hne : t ≠ rtLinuxTask) :
    Linked ordered (some t) ((d.setResumeTime t x).remTimedTask t) := by
  have same : (d.setResumeTime t x).remTimedTask t = (d.remTimedTask t).setResumeTime t x := by
    cases hd : (d.state t).delayed <;>
      simp [Dispatcher.remTimedTask, Dispatcher.setResumeTime, unlinkTimed, hd]
  rw [same]
  exact (h.remTimedTask t).setResumeTime hne fun _ => rfl

section

variable (h : Linked ordered (some t) d)
include h

theorem Linked.enqTimedTask (hd : (d.state t).delayed = true) (hne : t ≠ rtLinuxTask) :
    Ensures (d.enqTimedTask t) fun d' =>
      Linked ordered none d' ∧ ∃ L, d' = { d with timed := L } := by
  intro d' e
  obtain ⟨x, ex, ed⟩ := Option.bind_eq_some_iff.mp e
  obtain rfl := Option.some.inj ed
  have timed := h.timed.insert (t := t) (fun hu => hu.2 rfl) hne h.linuxTime ex
  refine ⟨{ h with timed := timed.congr (fun u => ?_) fun _ _ => rfl }, _, rfl⟩
  constructor
  · rintro (rfl | hu)
    · exact ⟨hd, nofun⟩
    · exact ⟨hu.1, nofun⟩
  · rintro ⟨hu, -⟩
    by_cases e : u = t
    · exact Or.inl e
    · exact Or.inr ⟨hu, fun e' => e (Option.some.inj e')⟩

/-- Another state word, of a task that is on no list. -/
theorem Linked.setState (ht : d.state t ≠ READY) (hst : st ≠ READY) (hd : st.delayed = false)
    (hdead : d.magic t = false → st = DEAD) : Linked ordered none (d.setState t st) := by
  refine { h with
    ready := h.ready.congr fun u => ?_
    timed := h.timed.congr (fun u => ?_) fun _ _ => rfl
    dead := fun u hu hm => ?_ }
  · by_cases e : u = t
    · subst e; simp [Dispatcher.setState, hst, ht]
    · simp [Dispatcher.setState, e]
  · by_cases e : u = t
    · subst e; simp [Dispatcher.setState, hd]
    · simp [Dispatcher.setState, e]
  · by_cases e : u = t
    · subst e; simpa [Dispatcher.setState] using hdead hm
    · simpa [Dispatcher.setState, e] using h.dead u hu hm

/-- A task that becomes `READY` is put on the ready list. -/
theorem Linked.setReady (ht : d.state t ≠ READY) (hm : d.magic t = true) :
    Ensures ((d.setState t READY).enqReadyTask t) fun d' => Linked ordered none d' ∧
      ∃ L, d' = { d with ready := L, state := update d.state t READY } := by
  refine (enqReadyTask_spec (d := d.setState t READY) h.ready ht).mono ?_
  rintro _ ⟨L, rfl, hL⟩
  refine ⟨{ h with
    ready := hL.congr fun u => ?_
    timed := h.timed.congr (fun u => ?_) fun _ _ => rfl
    dead := fun u hu hd => ?_ }, L, rfl⟩
  · by_cases e : u = t
    · subst e; simp [Dispatcher.setState]
    · simp [Dispatcher.setState, e]
  · by_cases e : u = t
    · subst e; simp [Dispatcher.setState, READY]
    · simp [Dispatcher.setState, e]
  · have e : u ≠ t := by
      rintro rfl
      exact Bool.false_ne_true (hd.symm.trans hm)
    exact (update_of_ne e _ _).trans (h.dead u hu hd)

/-- The test by which every service makes a task ready, once the task is off
the timed list. -/
theorem Linked.makeReady (hd : (d.state t).delayed → mask.delayed) :
    Ensures (d.makeReady t mask) fun p =>
      Linked ordered none p.1 ∧ ∃ L, p.1 =
        { d with
          ready := L
          state := update d.state t
            (if d.state t = READY then READY else (d.state t).clear mask) } := by
  refine .ite (fun hr => .some ⟨?_, d.ready, ?_⟩) fun hr => ?_
  · exact h.settle (by rw [hr]; rfl)
  · rw [if_pos hr, ← hr, update_eq_self]
  rw [if_neg hr]
  have alive : d.state t ≠ DEAD → d.magic t = true :=
    h.magic fun e => hr (e ▸ h.linuxState)
  refine .ite (fun hr' => ?_) fun hr' => .some ⟨h.setState hr ?_ ?_ fun hm => ?_, d.ready, rfl⟩
  · have hst : (d.state t).clear mask = READY := by simpa [Dispatcher.setState] using hr'
    rw [hst]
    refine .bind (h.setReady hr (alive fun e => ?_)) ?_
    · rw [e] at hst
      exact absurd hst (by simp [TaskState.clear, DEAD, READY])
    · rintro _ ⟨h', L, rfl⟩
      exact .some ⟨h', L, rfl⟩
  · simpa [Dispatcher.setState] using hr'
  · cases ht : (d.state t).delayed
    · simp [TaskState.clear, ht]
    · simp [TaskState.clear, hd ht]
  · by_contra hst
    have hdead : d.state t = DEAD := by
      by_contra hne
      exact Bool.false_ne_true (hm.symm.trans (alive hne))
    rw [hdead] at hst
    exact hst rfl

/-- `makeReady` of a task that waits. -/
theorem Linked.makeReadyWaiting (hd : (d.state t).delayed → mask.delayed) (ht : d.state t ≠ READY) :
    Ensures (d.makeReady t mask) fun p =>
      Linked ordered none p.1 ∧ ∃ L, p.1 =
        { d with
          ready := L
          state := update d.state t ((d.state t).clear mask) } := by
  refine (h.makeReady hd).mono ?_
  rintro ⟨_, b⟩ ⟨h', L, rfl⟩
  exact ⟨h', L, by rw [if_neg ht]⟩

end

/-- The release of a task, whichever bit of another one stands apart. -/
theorem Linked.releaseOff (h : Linked ordered off d) (hne : some t ≠ off) (hd : mask.delayed = true) :
    Ensures (d.release t mask) fun p =>
      Linked ordered off p.1 ∧ ∃ L T, p.1 =
        { d with
          ready := L
          timed := T
          state := update d.state t
            (if d.state t = READY then READY else (d.state t).clear mask) } := by
  have timed : TimedIs ordered (d.remTimedTask t).timed d.resumeTime
      fun u => ((d.state u).delayed ∧ some u ≠ off) ∧ u ≠ t := by
    unfold Dispatcher.remTimedTask
    split
    next ht => exact h.timed.unlink ⟨ht, hne⟩
    next ht =>
      refine h.timed.congr (fun u => ⟨fun hu => ⟨hu, ?_⟩, fun hu => hu.1⟩) fun _ _ => rfl
      rintro rfl
      exact ht hu.1
  generalize new : (if d.state t = READY then READY else (d.state t).clear mask) = st
  have awake : st.delayed = false := by
    rw [← new]
    split
    · rfl
    · simp [TaskState.clear, hd]
  have done : ∀ L, ReadyIs L (fun u => update d.state t st u = READY) →
      Linked ordered off
        { d with ready := L, timed := (d.remTimedTask t).timed, state := update d.state t st } := by
    refine fun L ready => { h with
      ready := ready
      timed := timed.congr (fun u => ?_) fun _ _ => rfl
      dead := fun u hu hm => ?_ }
    · by_cases e : u = t
      · subst e; simp [awake]
      · simp [e]
    · by_cases e : u = t
      · subst e
        have dead : d.state u = DEAD := h.dead u hu hm
        refine (update_self _ _ _).trans ?_
        rw [← new, dead]
        rfl
      · exact (update_of_ne e _ _).trans (h.dead u hu hm)
  unfold Dispatcher.release
  rw [remTimedTask_eq]
  refine .ite (fun ready => .some ?_) fun waits => ?_
  · have ready : d.state t = READY := ready
    rw [if_pos ready] at new
    have same : update d.state t st = d.state := by rw [← new, ← ready, update_eq_self]
    refine ⟨?_, d.ready, _, by rw [same]⟩
    have now := done d.ready (by rw [same]; exact h.ready)
    rwa [same] at now
  have waits : d.state t ≠ READY := waits
  rw [if_neg waits] at new
  refine .ite (fun now => ?_) fun still => .some ⟨?_, d.ready, _, by rw [← new]; rfl⟩
  · have set : st = READY := by simpa [Dispatcher.setState, new] using now
    refine .bind (enqReadyTask_spec (P := fun u => d.state u = READY) h.ready waits) ?_
    rintro _ ⟨L, rfl, ready⟩
    refine .some ⟨?_, L, _, by rw [← new]; rfl⟩
    rw [show (d.state t).clear mask = st from new]
    refine done L (ready.congr fun u => ?_)
    by_cases e : u = t
    · subst e; simp [set]
    · simp [e]
  · have other : st ≠ READY := by simpa [Dispatcher.setState, new] using still
    rw [show (d.state t).clear mask = st from new]
    refine done d.ready (h.ready.congr fun u => ?_)
    by_cases e : u = t
    · subst e; simp [other, waits]
    · simp [e]

theorem Linked.release (h : Linked ordered none d) (hd : mask.delayed = true) :
    Ensures (d.release t mask) fun p =>
      Linked ordered none p.1 ∧ ∃ L T, p.1 =
        { d with
          ready := L
          timed := T
          state := update d.state t
            (if d.state t = READY then READY else (d.state t).clear mask) } :=
  h.releaseOff (by simp) hd

/-! ## Dispatching -/

/-- The time up to which `rt_schedule` wakes tasks, if it does. -/
def scheduleTime (c : Clock) (d : Dispatcher n) : RTIME := c.sched + d.timer.halfTick

/-- The time up to which `rt_timer_handler` wakes tasks. -/
def handlerTime (c : Clock) (d : Dispatcher n) : RTIME :=
  (if d.timer.oneshotTimer then c.sched else d.timer.intrTime) + d.timer.halfTick

/-- What `rt_schedule` and `rt_timer_handler` do to the tasks: delayed ones whose
time has come by `now` time out. -/
structure Woken (now : RTIME) (d d' : Dispatcher n) : Prop where
  magic : d'.magic = d.magic
  priority : d'.priority = d.priority
  resumeTime : d'.resumeTime = d.resumeTime
  state : ∀ t, d'.state t = d.state t ∨
    (d.state t).delayed = true ∧ d.resumeTime t ≤ now ∧ d'.state t = (d.state t).clear TIMED_OUT

theorem wakeUpTask_spec (h : ReadyIs d.ready fun u => d.state u = READY)
    (ht : d.state t ≠ READY) :
    Ensures (d.wakeUpTask t) fun d' => ∃ L,
      d' = { d with ready := L, state := update d.state t ((d.state t).clear TIMED_OUT) } ∧
        ReadyIs L fun u => d'.state u = READY := by
  refine .ite (fun hr => ?_) fun hr => .some ⟨d.ready, rfl, h.congr fun u => ?_⟩
  · have hr' : (d.state t).clear TIMED_OUT = READY := by
      simpa [Dispatcher.setState] using hr
    have key : ∀ {L : Links (Task n)}, ReadyIs L (fun u => u = t ∨ d.state u = READY) →
        ReadyIs L fun u => update d.state t ((d.state t).clear TIMED_OUT) u = READY := by
      refine fun hL => hL.congr fun u => ?_
      by_cases e : u = t
      · subst e; simpa using hr'
      · simp [e]
    refine .ite (fun _ => ?_) fun _ => ?_
    · refine (enqReadyEdfTask_spec (d := d.setState t _) h ht).mono ?_
      rintro _ ⟨L, rfl, hL⟩
      exact ⟨L, rfl, key hL⟩
    · refine (enqReadyTask_spec (d := d.setState t _) h ht).mono ?_
      rintro _ ⟨L, rfl, hL⟩
      exact ⟨L, rfl, key hL⟩
  · show d.state u = READY ↔ update d.state t ((d.state t).clear TIMED_OUT) u = READY
    by_cases e : u = t
    · subst e
      simpa [Dispatcher.setState, ht] using hr
    · simp [e]

/-- The loop only ends before a task whose time has not come. -/
theorem wakeUpLoop_late : ∀ {k : Nat} {x : Task n} {d : Dispatcher n},
    Ensures (wakeUpLoop k x d) fun p => ¬d.resumeTime p.2 ≤ d.timeH
  | 0, _, _ => .none
  | k + 1, x, d => by
      refine .ite (fun _ => ?_) fun hx => .some hx
      refine .bind (P := fun d' => d'.resumeTime = d.resumeTime ∧ d'.timeH = d.timeH) ?_ ?_
      · refine .ite (fun _ => .ite (fun _ => ?_) fun _ => ?_) fun _ => .some ⟨rfl, rfl⟩
        · exact .bind (P := fun _ => True) (fun _ _ => trivial) fun _ _ => .some ⟨rfl, rfl⟩
        · exact .bind (P := fun _ => True) (fun _ _ => trivial) fun _ _ => .some ⟨rfl, rfl⟩
      · rintro d' ⟨hr, ht⟩
        have := wakeUpLoop_late (k := k) (x := d'.timed.next x) (d := d')
        rw [hr, ht] at this
        exact this

/-- Along the timed list the loop wakes a first part of it. -/
theorem wakeUpLoop_spec {l₁ l₂ : List (Task n)} (r : Ring d.timed rtLinuxTask (l₁ ++ l₂))
    (h : ReadyIs d.ready fun u => d.state u = READY) (waiting : ∀ u ∈ l₂, d.state u ≠ READY)
    (late : ¬d.resumeTime rtLinuxTask ≤ d.timeH) :
    Ensures (wakeUpLoop k (l₂.headD rtLinuxTask) d) fun p => ∃ m₁ m₂ L,
      l₂ = m₁ ++ m₂ ∧ p.2 = m₂.headD rtLinuxTask ∧ (∀ u ∈ m₁, d.resumeTime u ≤ d.timeH) ∧
        p.1 = { d with
          ready := L
          state := fun u => if u ∈ m₁ then (d.state u).clear TIMED_OUT else d.state u } ∧
        ReadyIs L fun u => p.1.state u = READY := by
  induction k generalizing l₁ l₂ d with
  | zero => exact .none
  | succ k ih =>
      refine .ite (fun hx => ?_) fun _ => .some ⟨[], l₂, d.ready, rfl, rfl, by simp, by simp, h⟩
      cases l₂ with
      | nil => exact absurd hx late
      | cons x l₂ =>
          refine .bind (wakeUpTask_spec h (waiting x (by simp))) ?_
          rintro _ ⟨L, rfl, hL⟩
          have nd := (List.nodup_cons.mp r.nodup).2
          have hx₂ : x ∉ l₂ := (List.nodup_cons.mp (List.nodup_append.mp nd).2.1).1
          have next : d.timed.next x = l₂.headD rtLinuxTask := r.next_headD
          have r' : Ring d.timed rtLinuxTask ((l₁ ++ [x]) ++ l₂) := by simpa using r
          have waiting' : ∀ u ∈ l₂,
              update d.state x ((d.state x).clear TIMED_OUT) u ≠ READY := by
            intro u hu
            have : u ≠ x := by rintro rfl; exact hx₂ hu
            rw [update_of_ne this]
            exact waiting u (by simp [hu])
          show Ensures (wakeUpLoop k (d.timed.next x) _) _
          rw [next]
          refine (ih (d := { d with
            ready := L
            state := update d.state x ((d.state x).clear TIMED_OUT) }) r' hL waiting' late).mono ?_
          rintro ⟨_, _⟩ ⟨m₁, m₂, L', rfl, rfl, due, rfl, hL'⟩
          have same : (fun u => if u ∈ m₁
                then (update d.state x ((d.state x).clear TIMED_OUT) u).clear TIMED_OUT
                else update d.state x ((d.state x).clear TIMED_OUT) u) =
              fun u => if u ∈ x :: m₁ then (d.state u).clear TIMED_OUT else d.state u := by
            funext u
            by_cases e : u = x
            · subst e
              have : u ∉ m₁ := fun hm => hx₂ (by simp [hm])
              simp [this]
            · simp [e]
          refine ⟨x :: m₁, m₂, L', rfl, rfl, fun u hu => ?_, ?_, hL'⟩
          · rcases List.mem_cons.mp hu with rfl | hu
            · exact hx
            · exact due u hu
          · simp only [same]

/-- The tasks whose time has come leave the timed list. -/
theorem Linked.wakeUpTimedTasks (h : Linked ordered none d) :
    Ensures d.wakeUpTimedTasks fun d' =>
      Linked ordered none d' ∧ Woken d.timeH d d' ∧
        ∃ L T S, d' = { d with ready := L, timed := T, state := S } := by
  obtain ⟨l, r, mem, sorted⟩ := h.timed
  have waiting : ∀ u ∈ l, d.state u ≠ READY := by
    intro u hu hr
    have := ((mem u).mp hu).1
    rw [hr] at this
    exact Bool.false_ne_true this
  intro d' e
  obtain ⟨⟨d₁, x⟩, e₁, e₂⟩ := Option.bind_eq_some_iff.mp e
  have late : ¬d.resumeTime rtLinuxTask ≤ d.timeH := by
    intro hl
    rw [h.linuxTime] at hl
    exact wakeUpLoop_late _ e₁ (Int64.le_trans (le_RT_TIME_END _) hl)
  rw [r.next_head] at e₁
  obtain ⟨m₁, m₂, L, rfl, rfl, due, rfl, hL⟩ :=
    wakeUpLoop_spec (show Ring d.timed rtLinuxTask ([] ++ l) from r) h.ready waiting late _ e₁
  obtain rfl := Option.some.inj e₂
  have nd := List.nodup_append.mp (List.nodup_cons.mp r.nodup).2
  have cleared : ∀ u, u ∈ m₁ → (d.state u).delayed = true := fun u hu =>
    ((mem u).mp (by simp [hu])).1
  refine ⟨{
    ready := hL
    timed := ⟨m₂, r.cut rfl, fun u => ?_, fun ho => (List.pairwise_append.mp (sorted ho)).2.1⟩
    dead := fun u hu hm => ?_
    linuxMagic := h.linuxMagic
    linuxTime := h.linuxTime
    linuxPolicy := h.linuxPolicy }, ⟨rfl, rfl, rfl, fun u => ?_⟩, _, _, _, rfl⟩
  · by_cases hu : u ∈ m₁
    · have : u ∉ m₂ := fun hm => nd.2.2 u hu u hm rfl
      simp [hu, this, TaskState.clear, TIMED_OUT]
    · rw [← show u ∈ m₁ ++ m₂ ↔ u ∈ m₂ by simp [hu], mem u]
      simp [hu]
  · have : d.state u = DEAD := h.dead u hu hm
    by_cases hu : u ∈ m₁
    · simp [hu, this, TaskState.clear, DEAD]
    · simp [hu, this]
  · by_cases hu : u ∈ m₁
    · exact Or.inr ⟨cleared u hu, due u hu, by simp [hu]⟩
    · exact Or.inl (by simp [hu])

theorem Linked.rrYield (h : Linked ordered off d) :
    Ensures d.rrYield fun d' =>
      Linked ordered off d' ∧ ∃ L R, d' = { d with ready := L, rrRemaining := R } := by
  refine .ite (fun hp => .ite (fun _ => .ite (fun hr => ?_) fun _ => ?_) fun _ => ?_) fun _ => ?_
  · have hne : d.current ≠ rtLinuxTask := by
      intro e
      rw [e] at hp
      exact absurd hp (not_lt.mpr h.linuxPolicy)
    refine .bind (Linked.moveBehindEquals (d := { d with rrRemaining := _ }) { h with } hr hne) ?_
    rintro ⟨_, b⟩ ⟨h', L, rfl⟩
    exact .some ⟨h', L, _, rfl⟩
  · exact .some ⟨{ h with }, d.ready, _, rfl⟩
  · exact .some ⟨{ h with }, d.ready, _, rfl⟩
  · exact .some ⟨h, d.ready, d.rrRemaining, rfl⟩

theorem rrSetyt_eq (t : Task n) (d : Dispatcher n) :
    ∃ Y, d.rrSetyt t = { d with yieldTime := Y } := by
  rw [rrSetyt]
  split
  · exact ⟨_, rfl⟩
  · exact ⟨d.yieldTime, rfl⟩

theorem scheduleShot_spec (now : RTIME) (t : Task n) (d : Dispatcher n) :
    Ensures ((d.rrSetyt t).scheduleShot now t) fun d' =>
      ∃ Y T, d' = { d with yieldTime := Y, timer := T } := by
  obtain ⟨Y, e⟩ := rrSetyt_eq t d
  rw [e]
  refine .bind (P := fun _ => True) (fun _ _ => trivial) fun next _ => .ite (fun _ => ?_) fun _ => ?_
  · exact .some ⟨Y, _, rfl⟩
  · exact .some ⟨Y, d.timer, rfl⟩

theorem handlerShot_spec (now : RTIME) (t : Task n) (d : Dispatcher n) :
    Ensures ((d.rrSetyt t).handlerShot now t) fun d' =>
      ∃ Y T, d' = { d with yieldTime := Y, timer := T } := by
  obtain ⟨Y, e⟩ := rrSetyt_eq t d
  rw [e]
  refine .ite (fun _ => ?_) fun _ => .some ⟨Y, _, rfl⟩
  exact .bind (P := fun _ => True) (fun _ _ => trivial) fun next _ => .some ⟨Y, _, rfl⟩

/-- `RT_SCHEDULE` picks a task whose state is `READY`. -/
theorem Linked.rtSchedule (c : Clock) (h : Linked ordered none d) :
    Ensures (d.rtSchedule c) fun d' =>
      Linked ordered none d' ∧ Woken (d.scheduleTime c) d d' ∧ d'.state d'.current = READY := by
  have h₀ : Linked ordered none { d with schedRqsted := 1 } := { h with }
  refine .bind h₀.rrYield ?_
  rintro _ ⟨h₁, L, R, rfl⟩
  refine .ite (fun _ => ?_) fun _ => ?_
  · have h₂ : Linked ordered none
        { d with
          schedRqsted := 1, ready := L, rrRemaining := R
          timeH := c.sched + d.timer.halfTick } := { h₁ with }
    refine .bind h₂.wakeUpTimedTasks ?_
    rintro d₃ ⟨h₃, w, -⟩
    refine .bind (scheduleShot_spec c.shot d₃.taskToSchedule d₃) ?_
    rintro _ ⟨Y, T, rfl⟩
    exact .some ⟨{ h₃ with }, { w with }, h₃.ready.next h₃.ready.linux⟩
  · refine .some ?_
    obtain ⟨Y, e⟩ := rrSetyt_eq (L.next rtLinuxTask)
      { d with schedRqsted := 1, ready := L, rrRemaining := R }
    simp only [taskToSchedule, e]
    exact ⟨{ h₁ with }, ⟨rfl, rfl, rfl, fun _ => Or.inl rfl⟩, h₁.ready.next h₁.ready.linux⟩

theorem Linked.rtTimerHandler (c : Clock) (h : Linked ordered none d) :
    Ensures (d.rtTimerHandler c) fun d' =>
      Linked ordered none d' ∧ Woken (d.handlerTime c) d d' ∧ d'.state d'.current = READY := by
  refine .bind (P := fun d' => Linked ordered none d' ∧ Woken (d.handlerTime c) d d') ?_ ?_
  · have h₀ : ∀ i T H, Linked ordered none { d with schedRqsted := i, timer := T, timeH := H } :=
      fun _ _ _ => { h with }
    refine (h₀ _ _ _).wakeUpTimedTasks.mono ?_
    rintro d' ⟨h', w, -⟩
    exact ⟨h', { w with }⟩
  rintro d₁ ⟨h₁, w⟩
  refine .bind h₁.rrYield ?_
  rintro _ ⟨h₂, L, R, rfl⟩
  refine .bind (handlerShot_spec c.shot (L.next rtLinuxTask) _) ?_
  rintro _ ⟨Y, T, rfl⟩
  exact .some ⟨{ h₂ with }, { w with }, h₂.ready.next h₂.ready.linux⟩

end Dispatcher

end Rtai.Up
