import Rtai.Up.Lists
import Rtai.Up.Machine
import Rtai.Lib.Listed
import Rtai.Lib.Priority

/-!
# Rate monotonic priorities

`rt_spv_RMS` runs along `task->next`, which lists the tasks behind
`rt_linux_task` and ends in `NULL`.  Each round picks the task of the shortest
period among those that were not picked before, which are the ones whose
`priority` is not negative, and the last loop gives the picked tasks their
`base_priority`.

`rmsOrder` is the order they are picked in: the chosen tasks of the list,
arranged by their periods, and `rtSpvRMS_eq` says that nothing happens but that
each gets its place in this order.  So the assignment is the rate monotonic one
as soon as no chosen task has a negative period, which the test `task->period`
lets pass.  The ready list stays as it was: `rt_change_prio` requeues a `READY`
task whose priority changes, `rt_spv_RMS` does not (`ready_order_lost`).
-/

namespace Rtai.Up

open Function Rtai.Lib

variable {n : Nat}

/-! ## The function -/

namespace System

/-- The body of the inner loop, on `htask` and `period`. -/
def shorterPeriod (s : System n) (best : Option (Task n) × RTIME) (task : Task n) :
    Option (Task n) × RTIME :=
  if s.priority task ≥ 0 ∧ s.disp.policy task ≥ 0 ∧ s.disp.period task ≠ 0 ∧
      s.disp.period task < best.2 then
    (some task, s.disp.period task)
  else best

/-- `htask` behind the inner loop. -/
def shortestPeriod (next : Task n → Option (Task n)) (s : System n) :
    Option (Option (Task n)) := do
  let (htask, _) ← follow next s.shorterPeriod (fuel n) rtLinuxTask (none, RT_TIME_END)
  return htask

/-- `htask->priority = -1; htask->base_priority = prio`. -/
def pick (htask : Task n) (prio : Int) (s : System n) : System n :=
  { s with
    disp := s.disp.setPriority htask (-1)
    basePriority := update s.basePriority htask prio }

/-- The outer loop. -/
def rmsLoop (next : Task n → Option (Task n)) :
    Nat → Task n → Int → System n → Option (System n)
  | 0, _, _, _ => none
  | k + 1, task, prio, s =>
      match next task with
      | none => some s
      | some task => do
          match ← s.shortestPeriod next with
          | some htask => rmsLoop next k task (prio + 1) (s.pick htask prio)
          | none => return s

/-- The body of the loop behind `ret`. -/
def restorePriority (s : System n) (task : Task n) : System n :=
  if s.priority task < 0 then
    { s with disp := s.disp.setPriority task (s.basePriority task) }
  else s

def rtSpvRMS (next : Task n → Option (Task n)) (s : System n) : Option (System n) := do
  let s ← rmsLoop next (fuel n) rtLinuxTask 0 s
  follow next restorePriority (fuel n) rtLinuxTask s

end System

/-! ## The order of the rounds -/

namespace RateMonotonic

/-- What a round asks of a task besides its priority. -/
def Chosen (s : System n) (t : Task n) : Prop :=
  0 ≤ s.disp.policy t ∧ s.disp.period t ≠ 0 ∧ s.disp.period t < RT_TIME_END

instance (s : System n) : DecidablePred (Chosen s) :=
  fun _ => inferInstanceAs (Decidable (_ ∧ _))

/-- The chosen tasks of the list in the order of their periods, those of equal
periods in the order of the list. -/
def rmsOrder (s : System n) (l : List (Task n)) : List (Task n) :=
  arrange (NotLater s.disp.period) (l.filter (Chosen s))

/-- The place of a task in the order. -/
def place (s : System n) (l : List (Task n)) (t : Task n) : Int :=
  ((rmsOrder s l).idxOf t : Nat)

/-- What is left to pick in a round. -/
def Candidate (s : System n) (t : Task n) : Prop := 0 ≤ s.priority t ∧ Chosen s t

instance (s : System n) : DecidablePred (Candidate s) :=
  fun _ => inferInstanceAs (Decidable (_ ∧ _))

variable {next : Task n → Option (Task n)} {l r : List (Task n)} {s s' : System n} {t u : Task n}
  {prio : Int}

theorem notLater_total (a b : Task n) :
    NotLater s.disp.period a b ∨ NotLater s.disp.period b a := Int64.le_total _ _

theorem notLater_trans {a b c : Task n} (h : NotLater s.disp.period a b)
    (h' : NotLater s.disp.period b c) : NotLater s.disp.period a c := Int64.le_trans h h'

theorem mem_rmsOrder : t ∈ rmsOrder s l ↔ t ∈ l ∧ Chosen s t := by
  rw [rmsOrder, arrange_perm.mem_iff, List.mem_filter, decide_eq_true_iff]

theorem rmsOrder_nodup (h : l.Nodup) : (rmsOrder s l).Nodup :=
  arrange_perm.nodup_iff.mpr (h.filter _)

/-- The inner loop holds the first of the candidates it has met, in the order of
their periods. -/
theorem shorterPeriod_foldl (s : System n) (l : List (Task n)) :
    let first := (arrange (NotLater s.disp.period) (l.filter (Candidate s))).head?
    l.foldl s.shorterPeriod (none, RT_TIME_END) =
      (first, first.elim RT_TIME_END s.disp.period) := by
  induction l using List.reverseRecOn with
  | nil => rfl
  | append_singleton l x ih =>
      simp only [List.foldl_append, List.foldl_cons, List.foldl_nil, ih, System.shorterPeriod,
        List.filter_append]
      by_cases h : Candidate s x
      · rw [List.filter_cons_of_pos (by simpa using h), List.filter_nil, arrange_snoc]
        obtain ⟨hp, hpol, hne, hend⟩ := h
        cases arrange (NotLater s.disp.period) (l.filter (Candidate s)) with
        | nil => simp [hp, hpol, hne, hend]
        | cons y ys =>
            by_cases ahead : NotLater s.disp.period y x
            · have later : ¬s.disp.period x < s.disp.period y := Int64.not_lt.mpr ahead
              rw [enqueue_behind ahead]
              simp [later]
            · have sooner : s.disp.period x < s.disp.period y := Int64.not_le.mp ahead
              rw [enqueue_before ahead]
              simp [hp, hpol, hne, sooner]
      · rw [List.filter_cons_of_neg (by simpa using h), List.filter_nil, List.append_nil]
        refine if_neg fun ⟨hp, hpol, hne, hlt⟩ => h ⟨hp, hpol, hne, ?_⟩
        exact Int64.lt_of_lt_of_le hlt (le_RT_TIME_END _)

theorem length_lt_fuel (h : Listed next t l) : l.length < fuel n := by
  have bound := h.length_lt
  rw [Fintype.card_fin] at bound
  exact bound.trans (Nat.lt_succ_self _)

theorem shortestPeriod_eq (listed : Listed next rtLinuxTask l) :
    s.shortestPeriod next =
      some (arrange (NotLater s.disp.period) (l.filter (Candidate s))).head? := by
  rw [System.shortestPeriod, listed.follow (length_lt_fuel listed), shorterPeriod_foldl]
  rfl

/-- The state with other base priorities and priorities. -/
def setPriorities (base prio : Task n → Int) (s : System n) : System n :=
  { s with basePriority := base, disp := { s.disp with priority := prio } }

/-- A task that was picked is no candidate any more. -/
theorem candidates_pick (nodup : l.Nodup)
    (first : arrange (NotLater s.disp.period) (l.filter (Candidate s)) = t :: r) :
    arrange (NotLater s.disp.period) (l.filter (Candidate (s.pick t prio))) = r := by
  obtain ⟨older, newer, split, -, -, rest⟩ := arrange_cons notLater_total notLater_trans first
  have once : (older ++ t :: newer).Nodup := split ▸ nodup.filter _
  have others : ∀ u ∈ older ++ newer, u ≠ t := by
    rintro u hu rfl
    exact (List.nodup_middle.mp once).notMem hu
  have candidate : ∀ u, Candidate (s.pick t prio) u ↔ u ≠ t ∧ Candidate s u := by
    intro u
    by_cases h : u = t
    · subst h
      simp [Candidate, System.pick, Dispatcher.setPriority, System.priority]
    · simp [Candidate, Chosen, System.pick, Dispatcher.setPriority, System.priority, h]
  have left : l.filter (Candidate (s.pick t prio)) = older ++ newer := by
    have same : ∀ u ∈ l, decide (Candidate (s.pick t prio) u) =
        (decide (u ≠ t) && decide (Candidate s u)) := fun u _ => by
      rw [decide_eq_decide.mpr (candidate u), Bool.decide_and]
    rw [List.filter_congr same, ← List.filter_filter, split,
      List.filter_append, List.filter_cons_of_neg (by simp), ← List.filter_append]
    exact List.filter_eq_self.mpr fun u hu => by simpa using others u hu
  rw [left, rest]

/-- The rounds mark the candidates in their order, and number them on from `prio`.
A round passes one task of the outer list `m`, so that the list is long enough for all
of them. -/
theorem rmsLoop_eq (listed : Listed next rtLinuxTask l) {order m : List (Task n)} {k : Nat}
    (outer : Listed next t m) (hk : m.length < k) (enough : order.length ≤ m.length)
    (is : arrange (NotLater s.disp.period) (l.filter (Candidate s)) = order) :
    s.rmsLoop next k t prio = some (setPriorities
      (fun u => if u ∈ order then prio + (order.idxOf u : Nat) else s.basePriority u)
      (fun u => if u ∈ order then -1 else s.priority u) s) := by
  induction order generalizing m k t prio s with
  | nil =>
      have unchanged : setPriorities
          (fun u => if u ∈ [] then prio + (List.idxOf u [] : Nat) else s.basePriority u)
          (fun u => if u ∈ [] then -1 else s.priority u) s = s := by
        simp only [List.not_mem_nil, if_false]
        rfl
      rw [unchanged]
      cases k with
      | zero => exact absurd hk (Nat.not_lt_zero _)
      | succ k =>
          cases m with
          | nil =>
              have e : next t = none := outer
              simp only [System.rmsLoop, e]
          | cons x m =>
              simp [System.rmsLoop, outer.1, shortestPeriod_eq listed, is]
  | cons h order ih =>
      cases m with
      | nil => exact absurd enough (Nat.not_succ_le_zero _)
      | cons x m =>
          cases k with
          | zero => exact absurd hk (Nat.not_lt_zero _)
          | succ k =>
              have round : s.rmsLoop next (k + 1) t prio =
                  (s.pick h prio).rmsLoop next k x (prio + 1) := by
                simp [System.rmsLoop, outer.1, shortestPeriod_eq listed, is]
              have once : (h :: order).Nodup :=
                is ▸ arrange_perm.nodup_iff.mpr (listed.nodup.of_cons.filter _)
              have hn : h ∉ order := (List.nodup_cons.mp once).1
              rw [round, ih outer.2 (Nat.lt_of_succ_lt_succ hk) (Nat.le_of_succ_le_succ enough)
                (candidates_pick listed.nodup.of_cons is)]
              have base : (fun u => if u ∈ order then prio + 1 + (order.idxOf u : Nat)
                    else (s.pick h prio).basePriority u) =
                  fun u => if u ∈ h :: order then prio + ((h :: order).idxOf u : Nat)
                    else s.basePriority u := by
                funext u
                by_cases e : u = h
                · subst e
                  simp [System.pick, hn]
                · rw [List.idxOf_cons_ne order (Ne.symm e)]
                  simp only [System.pick, update_of_ne e, List.mem_cons, e, false_or]
                  push_cast
                  split <;> omega
              have marks : (fun u => if u ∈ order then -1 else (s.pick h prio).priority u) =
                  fun u => if u ∈ h :: order then -1 else s.priority u := by
                funext u
                by_cases e : u = h
                · subst e
                  simp [System.pick, System.priority, Dispatcher.setPriority]
                · simp [System.pick, System.priority, Dispatcher.setPriority, e]
              rw [base, marks]
              rfl

theorem restorePriority_eq (s : System n) (t : Task n) :
    s.restorePriority t = setPriorities s.basePriority
      (update s.priority t (if s.priority t < 0 then s.basePriority t else s.priority t)) s := by
  by_cases neg : s.priority t < 0
  · rw [System.restorePriority, if_pos neg, if_pos neg]
    rfl
  · rw [System.restorePriority, if_neg neg, if_neg neg, update_eq_self]
    rfl

/-- The last loop undoes the marks. -/
theorem restorePriority_foldl (s : System n) (l : List (Task n)) :
    l.foldl System.restorePriority s = setPriorities s.basePriority
      (fun u => if u ∈ l ∧ s.priority u < 0 then s.basePriority u else s.priority u) s := by
  induction l generalizing s with
  | nil => simp [setPriorities]
  | cons x l ih =>
      rw [List.foldl_cons, restorePriority_eq, ih]
      refine congrArg (fun prio => setPriorities s.basePriority prio s) (funext fun u => ?_)
      simp only [setPriorities, System.priority, List.mem_cons]
      by_cases e : u = x
      · subst e
        by_cases neg : s.disp.priority u < 0
        · simp [neg]
        · simp [neg]
      · simp [e]

/-- Each chosen task gets its place in the order, and nothing else happens. -/
theorem rtSpvRMS_eq (listed : Listed next rtLinuxTask l) (prio : ∀ t ∈ l, 0 ≤ s.priority t) :
    s.rtSpvRMS next = some (setPriorities
      (fun t => if t ∈ rmsOrder s l then place s l t else s.basePriority t)
      (fun t => if t ∈ rmsOrder s l then place s l t else s.priority t) s) := by
  have candidates : l.filter (Candidate s) = l.filter (Chosen s) :=
    List.filter_congr fun t ht => by simp [Candidate, prio t ht]
  have is : arrange (NotLater s.disp.period) (l.filter (Candidate s)) = rmsOrder s l := by
    rw [candidates, rmsOrder]
  have enough : (rmsOrder s l).length ≤ l.length := by
    rw [rmsOrder, arrange_perm.length_eq]
    exact List.length_filter_le _ l
  have marked : s.rmsLoop next (fuel n) rtLinuxTask 0 = some _ :=
    rmsLoop_eq listed listed (length_lt_fuel listed) enough is
  rw [System.rtSpvRMS, marked]
  dsimp only [Option.bind_eq_bind, Option.bind_some]
  rw [listed.follow (length_lt_fuel listed), restorePriority_foldl]
  refine congrArg some (congrArg₂ (fun base prio => setPriorities base prio s) ?_ ?_)
  · funext t
    simp [setPriorities, place]
  · funext t
    by_cases ht : t ∈ rmsOrder s l
    · have hl : t ∈ l := (mem_rmsOrder.mp ht).1
      simp [setPriorities, System.priority, place, ht, hl]
    · have kept : ¬(t ∈ l ∧ s.disp.priority t < 0) := fun h =>
        Int.not_lt.mpr (prio t h.1) h.2
      simp [setPriorities, System.priority, ht, kept]

/-! ## The assignment -/

/-- The tasks that are to get a priority. -/
def Periodic (s : System n) (t : Task n) : Prop :=
  0 ≤ s.disp.policy t ∧ 0 < s.disp.period t ∧ s.disp.period t < RT_TIME_END

instance (s : System n) : DecidablePred (Periodic s) :=
  fun _ => inferInstanceAs (Decidable (_ ∧ _))

/-- The periodic tasks of the list `l` have the base priorities from 0 on, one each, in
the order of their periods, and the other tasks are as they were. -/
structure Assigned (l : List (Task n)) (s s' : System n) : Prop where
  numbers : ((l.filter (Periodic s)).map s'.basePriority).Perm
    ((List.range (l.filter (Periodic s)).length).map Nat.cast)
  shorter : ∀ t ∈ l, ∀ u ∈ l, Periodic s t → Periodic s u →
    s.disp.period t < s.disp.period u → s'.basePriority t < s'.basePriority u
  ties : l.Pairwise fun t u => Periodic s t → Periodic s u →
    s.disp.period t = s.disp.period u → s'.basePriority t < s'.basePriority u
  own : ∀ t ∈ l, Periodic s t → s'.priority t = s'.basePriority t
  /-- The ready list is left to be put in order. -/
  fields : ∃ base prio ready,
    s' = { s with
      basePriority := base
      disp := { s.disp with priority := prio, ready := ready } } ∧
    ∀ t, ¬(t ∈ l ∧ Periodic s t) → base t = s.basePriority t ∧ prio t = s.priority t

/-- The ready list holds the tasks of `r` in the order of their priorities. -/
def ReadyInOrder (r : List (Task n)) (s : System n) : Prop :=
  ∃ r', Ring s.disp.ready rtLinuxTask r' ∧ r'.Perm r ∧
    r'.Pairwise fun t u => s.priority t ≤ s.priority u

/-- What is asked of `rt_spv_RMS` with the tasks of `l` listed and those of `r` ready. -/
def Meets (next : Task n → Option (Task n)) (l r : List (Task n)) (s : System n) : Prop :=
  ∃ s', s.rtSpvRMS next = some s' ∧ Assigned l s s' ∧ ReadyInOrder r s'

/-- A task of a negative period is chosen as well, before all others. -/
def NegativesInPlace (l : List (Task n)) (s : System n) : Prop :=
  ∀ t ∈ l, 0 ≤ s.disp.policy t → s.disp.period t < 0 →
    (∀ u ∈ l, ¬Periodic s u) ∧ s.basePriority t = place s l t ∧ s.priority t = place s l t

/-- The priority the task will have. -/
def newPriority (l : List (Task n)) (s : System n) (t : Task n) : Int :=
  if t ∈ rmsOrder s l then place s l t else s.priority t

theorem Periodic.chosen (h : Periodic s t) : Chosen s t := by
  refine ⟨h.1, fun e => ?_, h.2.2⟩
  have pos : 0 < s.disp.period t := h.2.1
  rw [e] at pos
  exact absurd pos (by decide)

theorem chosen_of_negative (h : 0 ≤ s.disp.policy t) (hn : s.disp.period t < 0) :
    Chosen s t := by
  refine ⟨h, fun e => ?_, Int64.lt_of_lt_of_le hn (by decide)⟩
  rw [e] at hn
  exact absurd hn (by decide)

theorem Chosen.periodic (h : Chosen s t) (hn : ¬s.disp.period t < 0) : Periodic s t := by
  refine ⟨h.1, ?_, h.2.2⟩
  rcases Int64.le_iff_lt_or_eq.mp (Int64.not_lt.mp hn) with lt | e
  · exact lt
  · exact absurd e.symm h.2.1

/-- The places are in the order of the list. -/
theorem place_pairwise (nodup : l.Nodup) :
    (rmsOrder s l).Pairwise fun t u => place s l t < place s l u := by
  rw [List.pairwise_iff_getElem]
  intro i j hi hj lt
  rw [place, place, (rmsOrder_nodup nodup).idxOf_getElem i hi,
    (rmsOrder_nodup nodup).idxOf_getElem j hj]
  exact Int.ofNat_lt.mpr lt

theorem place_shorter (nodup : l.Nodup) (ht : t ∈ rmsOrder s l) (hu : u ∈ rmsOrder s l)
    (lt : s.disp.period t < s.disp.period u) : place s l t < place s l u := by
  have sorted : (rmsOrder s l).Pairwise (NotLater s.disp.period) :=
    arrange_inOrder notLater_total notLater_trans
  obtain ⟨i, hi, rfl⟩ := List.getElem_of_mem ht
  obtain ⟨j, hj, rfl⟩ := List.getElem_of_mem hu
  rcases Nat.lt_trichotomy i j with before | rfl | behind
  · exact List.pairwise_iff_getElem.mp (place_pairwise nodup) i j hi hj before
  · exact absurd lt (Int64.not_lt.mpr (Int64.le_refl _))
  · exact absurd lt (Int64.not_lt.mpr (List.pairwise_iff_getElem.mp sorted j i hj hi behind))

theorem place_ties (nodup : l.Nodup) :
    l.Pairwise fun t u => Chosen s t → Chosen s u → s.disp.period t = s.disp.period u →
      place s l t < place s l u := by
  rw [List.pairwise_iff_forall_sublist]
  intro t u listed ht hu same
  have arrived : [t, u].Sublist (l.filter (Chosen s)) := by
    have kept := listed.filter (Chosen s)
    rwa [List.filter_cons_of_pos (by simpa using ht), List.filter_cons_of_pos (by simpa using hu),
      List.filter_nil] at kept
  have ahead : NotLater s.disp.period t u := Int64.le_of_eq same
  have before := arrange_stable notLater_total notLater_trans arrived ahead
  exact List.pairwise_iff_forall_sublist.mp (place_pairwise nodup) before

theorem map_place (nodup : l.Nodup) :
    (rmsOrder s l).map (place s l) = (List.range (rmsOrder s l).length).map Nat.cast := by
  refine List.ext_getElem (by simp) fun i hi _ => ?_
  rw [List.length_map] at hi
  simp [place, (rmsOrder_nodup nodup).idxOf_getElem i hi]

/-- With no negative period the chosen tasks are the periodic ones. -/
theorem filter_chosen (h : ∀ t ∈ l, 0 ≤ s.disp.policy t → ¬s.disp.period t < 0) :
    l.filter (Chosen s) = l.filter (Periodic s) :=
  List.filter_congr fun t ht => decide_eq_decide.mpr
    ⟨fun c => c.periodic (h t ht c.1), fun c => c.chosen⟩

/-- A task of a negative period takes the first number from the periodic tasks. -/
theorem place_pos_of_negative (nodup : l.Nodup) (ht : t ∈ l) (policy : 0 ≤ s.disp.policy t)
    (negative : s.disp.period t < 0) (hu : u ∈ l) (pu : Periodic s u) : 0 < place s l u := by
  have ct : t ∈ rmsOrder s l := mem_rmsOrder.mpr ⟨ht, chosen_of_negative policy negative⟩
  have cu : u ∈ rmsOrder s l := mem_rmsOrder.mpr ⟨hu, pu.chosen⟩
  have lt : place s l t < place s l u :=
    place_shorter nodup ct cu (Int64.lt_trans negative pu.2.1)
  exact Int.lt_of_le_of_lt (Int.natCast_nonneg _) lt

/-- The places are the numbers of the periodic tasks, if no negative period has one. -/
theorem places_perm (nodup : l.Nodup) (h : NegativesInPlace l s) :
    ((l.filter (Periodic s)).map (place s l)).Perm
      ((List.range (l.filter (Periodic s)).length).map Nat.cast) := by
  by_cases negative : ∃ t ∈ l, 0 ≤ s.disp.policy t ∧ s.disp.period t < 0
  · obtain ⟨t, ht, policy, neg⟩ := negative
    have nobody : l.filter (Periodic s) = [] :=
      List.filter_eq_nil_iff.mpr fun u hu => by simpa using (h t ht policy neg).1 u hu
    rw [nobody]
    exact .nil
  · have same : l.filter (Chosen s) = l.filter (Periodic s) :=
      filter_chosen fun t ht policy neg => negative ⟨t, ht, policy, neg⟩
    have perm : (rmsOrder s l).Perm (l.filter (Chosen s)) := arrange_perm
    rw [← same, ← perm.length_eq, ← map_place nodup]
    exact (perm.map _).symm

/-- What `rtSpvRMS_eq` computes is the assignment unless a negative period is in the way. -/
theorem assigned_iff (nodup : l.Nodup)
    (base : ∀ t, s'.basePriority t = if t ∈ rmsOrder s l then place s l t else s.basePriority t)
    (prio : ∀ t, s'.priority t = newPriority l s t)
    (fields : s' = setPriorities s'.basePriority s'.priority s) :
    Assigned l s s' ↔ NegativesInPlace l s := by
  have chosen : ∀ {t}, t ∈ l → Chosen s t → s'.basePriority t = place s l t ∧
      s'.priority t = place s l t := fun {t} hl ht => by
    have mem : t ∈ rmsOrder s l := mem_rmsOrder.mpr ⟨hl, ht⟩
    exact ⟨(base t).trans (if_pos mem), (prio t).trans (if_pos mem)⟩
  have rest : ∀ {t}, ¬(t ∈ l ∧ Chosen s t) → s'.basePriority t = s.basePriority t ∧
      s'.priority t = s.priority t := fun {t} ht => by
    have mem : t ∉ rmsOrder s l := mt mem_rmsOrder.mp ht
    exact ⟨(base t).trans (if_neg mem), (prio t).trans (if_neg mem)⟩
  constructor
  · intro h t ht policy negative
    have ct : Chosen s t := chosen_of_negative policy negative
    have np : ¬Periodic s t := fun p =>
      Int64.lt_irrefl (Int64.lt_trans p.2.1 negative)
    refine ⟨fun u hu pu => ?_, ?_⟩
    · -- number 0 is a periodic task's, and `t` has taken it
      have zero : (0 : Int) ∈ (l.filter (Periodic s)).map s'.basePriority := by
        refine h.numbers.mem_iff.mpr (List.mem_map.mpr ⟨0, List.mem_range.mpr ?_, rfl⟩)
        exact List.length_pos_of_mem (List.mem_filter.mpr ⟨hu, by simpa using pu⟩)
      obtain ⟨v, hv, first⟩ := List.mem_map.mp zero
      obtain ⟨hv, pv⟩ : v ∈ l ∧ Periodic s v := by simpa using hv
      have pos : 0 < place s l v := place_pos_of_negative nodup ht policy negative hv pv
      rw [← (chosen hv pv.chosen).1, first] at pos
      exact absurd pos (Int.lt_irrefl 0)
    · obtain ⟨base', prio', ready, e, kept⟩ := h.fields
      have hb : s'.basePriority = base' := congrArg System.basePriority e
      have hp : s'.disp.priority = prio' := congrArg (fun s => s.disp.priority) e
      obtain ⟨kb, kp⟩ := kept t fun h => np h.2
      rw [← hb, (chosen ht ct).1] at kb
      rw [← hp] at kp
      exact ⟨kb.symm, kp.symm.trans (chosen ht ct).2⟩
  · intro h
    have places : (l.filter (Periodic s)).map s'.basePriority =
        (l.filter (Periodic s)).map (place s l) := List.map_congr_left fun t ht => by
      obtain ⟨hl, pt⟩ : t ∈ l ∧ Periodic s t := by simpa using ht
      exact (chosen hl pt.chosen).1
    refine ⟨places ▸ places_perm nodup h, ?_, ?_, ?_, ?_⟩
    · intro t ht u hu pt pu lt
      rw [(chosen ht pt.chosen).1, (chosen hu pu.chosen).1]
      exact place_shorter nodup (mem_rmsOrder.mpr ⟨ht, pt.chosen⟩)
        (mem_rmsOrder.mpr ⟨hu, pu.chosen⟩) lt
    · refine (place_ties (s := s) nodup).imp_of_mem fun {t u} ht hu ties pt pu same => ?_
      rw [(chosen ht pt.chosen).1, (chosen hu pu.chosen).1]
      exact ties pt.chosen pu.chosen same
    · intro t ht pt
      rw [(chosen ht pt.chosen).1, (chosen ht pt.chosen).2]
    · refine ⟨s'.basePriority, s'.priority, s.disp.ready, fields, fun t ht => ?_⟩
      by_cases ct : t ∈ l ∧ Chosen s t
      · obtain ⟨hl, ct⟩ := ct
        have neg : s.disp.period t < 0 :=
          Int64.not_le.mp fun pos => ht ⟨hl, ct.periodic (Int64.not_lt.mpr pos)⟩
        obtain ⟨-, kb, kp⟩ := h t hl ct.1 neg
        rw [(chosen hl ct).1, (chosen hl ct).2]
        exact ⟨kb.symm, kp.symm⟩
      · exact rest ct

/-- `rt_spv_RMS` makes the rate monotonic assignment, and leaves the ready list in the
order of the new priorities, if and only if no task it considers has a negative period,
but for tasks that stand at their places already, and the ready list was in that order. -/
theorem rate_monotonic (listed : Listed next rtLinuxTask l)
    (ready : Ring s.disp.ready rtLinuxTask r) (prio : ∀ t ∈ l, 0 ≤ s.priority t) :
    Meets next l r s ↔ NegativesInPlace l s ∧
      r.Pairwise fun t u => newPriority l s t ≤ newPriority l s u := by
  have result := rtSpvRMS_eq listed prio
  have nodup : l.Nodup := listed.nodup.of_cons
  constructor
  · rintro ⟨s', e, assigned, r', ring, -, sorted⟩
    obtain rfl := Option.some.inj (result.symm.trans e)
    obtain rfl : r' = r := ring.unique ready
    exact ⟨(assigned_iff nodup (fun _ => rfl) (fun _ => rfl) rfl).mp assigned, sorted⟩
  · rintro ⟨inPlace, sorted⟩
    exact ⟨_, result, (assigned_iff nodup (fun _ => rfl) (fun _ => rfl) rfl).mpr inPlace,
      r, ready, .refl r, sorted⟩

/-- Tasks 1 and 2, in this order. -/
def nextOfTwo (t : Task 2) : Option (Task 2) :=
  if t = 0 then some 1 else if t = 1 then some 2 else none

theorem listed_two : Listed nextOfTwo rtLinuxTask [1, 2] := ⟨rfl, rfl, rfl⟩

/-- Tasks 1 and 2 are ready, in this order. -/
def readyTwo (s : System 2) : Bool :=
  s.disp.ready.next 0 = 1 ∧ s.disp.ready.prev 1 = 0 ∧ s.disp.ready.next 1 = 2 ∧
    s.disp.ready.prev 2 = 1 ∧ s.disp.ready.next 2 = 0 ∧ s.disp.ready.prev 0 = 2

theorem ring_two {s : System 2} (h : readyTwo s = true) :
    Ring s.disp.ready rtLinuxTask [1, 2] := by
  refine ⟨by decide, ?_⟩
  simpa [readyTwo, Segment, rtLinuxTask] using h

/-- Two tasks are made periodic and become ready, the one of the shorter period is the
more urgent one. -/
theorem rate_monotonic_two : ∃ tr s,
    Run System.step (fun _ _ => True) (boot 2 { oneshotTimer := true, oneshotRunning := true })
      tr s ∧ Meets nextOfTwo [1, 2] [1, 2] s := by
  let c : Clock := {}
  obtain ⟨tr, s, r, test⟩ := Run.of_execute System.step (fun _ _ => True)
    (boot 2 { oneshotTimer := true, oneshotRunning := true })
    [.call (.taskInit 1 1 true) c, .call (.taskInit 2 2 true) c,
      .call (.taskMakePeriodic 1 5 10) c, .call (.taskMakePeriodic 2 5 20) c,
      .timer { sched := 7 }]
    (fun s => readyTwo s ∧ 0 ≤ s.priority 1 ∧ 0 ≤ s.priority 2 ∧ 0 < s.disp.period 1 ∧
      0 < s.disp.period 2 ∧ newPriority [1, 2] s 1 ≤ newPriority [1, 2] s 2)
    (by decide +kernel)
  simp only [decide_eq_true_eq] at test
  obtain ⟨ready, p1, p2, pos1, pos2, le⟩ := test
  refine ⟨tr, s, r, (rate_monotonic listed_two (ring_two ready) ?_).mpr ⟨?_, ?_⟩⟩
  · simp [p1, p2]
  · intro t ht _ neg
    rcases List.mem_cons.mp ht with rfl | ht
    · exact (Int64.lt_irrefl (Int64.lt_trans pos1 neg)).elim
    · obtain rfl := List.mem_singleton.mp ht
      exact (Int64.lt_irrefl (Int64.lt_trans pos2 neg)).elim
  · simpa using le

/-- The task of the longer period is the first on the ready list when the priorities are
assigned, and stays the first. -/
theorem ready_order_lost :
    ¬∀ (n : Nat) (next : Task n → Option (Task n)) (l r : List (Task n)) (s : System n),
      Listed next rtLinuxTask l → Ring s.disp.ready rtLinuxTask r →
      (∀ t ∈ l, 0 ≤ s.priority t) → Meets next l r s := by
  intro h
  let c : Clock := {}
  obtain ⟨-, s, -, test⟩ := Run.of_execute System.step (fun _ _ => True)
    (boot 2 { oneshotTimer := true, oneshotRunning := true })
    [.call (.taskInit 1 1 true) c, .call (.taskInit 2 2 true) c,
      .call (.taskMakePeriodic 1 5 20) c, .call (.taskMakePeriodic 2 5 10) c,
      .timer { sched := 7 }]
    (fun s => readyTwo s ∧ 0 ≤ s.priority 1 ∧ 0 ≤ s.priority 2 ∧
      (s.rtSpvRMS nextOfTwo).all fun s' => readyTwo s' ∧ s'.priority 2 < s'.priority 1)
    (by decide +kernel)
  simp only [decide_eq_true_eq] at test
  obtain ⟨ready, p1, p2, after⟩ := test
  obtain ⟨s', e, -, r', ring, -, sorted⟩ :=
    h 2 nextOfTwo [1, 2] [1, 2] s listed_two (ring_two ready) (by simp [p1, p2])
  simp only [e, Option.all_some, decide_eq_true_eq] at after
  obtain rfl : r' = [1, 2] := ring.unique (ring_two after.1)
  have le : s'.priority 1 ≤ s'.priority 2 := by simpa using sorted
  exact absurd after.2 (Int.not_lt.mpr le)

end RateMonotonic

end Rtai.Up
