import Rtai.NetRpc.Stubs

/-!
# Searches in the table of stubs

A removal empties a slot that may be on the path of another owner, or of a search that has
passed it.  In runs where it is on neither, no owner is in two slots and the searches find the
owners that are stored.
-/

namespace Rtai.NetRpc.Stubs

open Function Rtai.Lib

variable {n : Nat} {server : Owner}

abbrev Trace (n : Nat) := List (Record (State n) (Event n))

/-- What the step of the task's call returns, with the call. -/
def State.returned (s : State n) (task : Fin n) : Option (Call × Index) :=
  (s.calls task).bind fun c => match (c.run (s.owner c.k)).2 with
    | .returns v => some (c, v)
    | .goes _ => none

structure Sound (tr : Trace n) (s : State n) : Prop where
  /-- Every loop ends within as many turns as there are slots. -/
  ends : ∀ task c, s.calls task = some c → c.reads < LAST_STUB + 1
  once : ∀ k m, s.owner k = s.owner m → s.owner k ≠ 0 → k = m
  /-- An owner that is found is stored, and one that is not was not at some time. -/
  finds : ∀ r ∈ tr, ∀ task c v, r.event = .run task → r.pre.returned task = some (c, v) →
    c.fn = .hashFind →
    (0 < v → r.pre.stored c.owner = true) ∧ (v = 0 → r.pre.wasAbsent task = true)
  full : ∀ r ∈ tr, ∀ task c, r.event = .run task → r.pre.returned task = some (c, 0) →
    c.fn = .hashFindIfNotIns → r.pre.stored c.owner = false ∧ ∀ k, r.pre.owner k ≠ 0

/-! ## Removals off all paths -/

/-- The slot is neither on the path of another owner nor passed by a call that inserts. -/
def State.OffPaths (s : State n) (k : Index) : Prop :=
  (∀ m, m ≠ 0 → s.owner m ≠ 0 → ¬Before (hashFun (s.owner m)) k m) ∧
  ∀ task, ∀ c ∈ s.calls task, c.inserts = true → ¬Before (hashFun c.owner) k c.k

instance (s : State n) (k : Index) : Decidable (s.OffPaths k) :=
  inferInstanceAs (Decidable ((∀ _, _ → _ → _) ∧ ∀ _, ∀ _ ∈ _, _ → _))

/-- A write that removes an owner is off all paths, and `hash_ins` puts an absent one. -/
def State.Harmless (s : State n) (fn : Fn) (owner : Owner) : Write → Prop
  | .none => True
  | .put _ => fn = .hashIns → ∀ m, s.owner m ≠ owner
  | .clear k => s.OffPaths k

instance (s : State n) (fn : Fn) (owner : Owner) : (w : Write) → Decidable (s.Harmless fn owner w)
  | .none => inferInstanceAs (Decidable True)
  | .put _ => inferInstanceAs (Decidable (_ → ∀ m, s.owner m ≠ owner))
  | .clear k => inferInstanceAs (Decidable (s.OffPaths k))

def Careful (s : State n) : Event n → Prop
  | .call _ _ owner => owner ≠ s.owner 0
  | .run task => ∀ c ∈ s.calls task, s.Harmless c.fn c.owner (c.run (s.owner c.k)).1
  | .release op owner => s.Harmless .hashRem owner (s.releaseWrite op owner)

instance (s : State n) : (e : Event n) → Decidable (Careful s e)
  | .call _ _ _ => inferInstanceAs (Decidable (_ ≠ _))
  | .run task => inferInstanceAs (Decidable (∀ c ∈ s.calls task, _))
  | .release _ owner => inferInstanceAs (Decidable (s.Harmless .hashRem owner _))

/-! ## The invariant -/

/-- What a call has met on its way. -/
structure CallOk (s : State n) (task : Fin n) (c : Call) : Prop where
  ne : c.owner ≠ 0
  other : c.owner ≠ s.owner 0
  unlocked : c.fn = .hashFind → c.locked = false
  reads : c.reads = Lib.reads (hashFun c.owner) c.k
  passed : c.inserts = true → ∀ x, Before (hashFun c.owner) x c.k →
    s.owner x ≠ 0 ∧ (c.fn = .hashFindIfNotIns → s.owner x ≠ c.owner)
  /-- An owner that the search can no longer meet was absent after it had passed. -/
  missed : c.fn = .hashFind → (∀ m, s.owner m = c.owner → Before (hashFun c.owner) m c.k) →
    s.wasAbsent task = true ∨ s.stored c.owner = false

structure State.Ok (s : State n) : Prop where
  probed : Probed 0 hashFun 0 s.owner
  stored : ∀ o, o ≠ 0 → o ≠ s.owner 0 → (s.stored o = true ↔ ∃ k, s.owner k = o)
  calls : ∀ {task c}, s.calls task = some c → CallOk s task c

/-- A call has been told of every absence. -/
def State.Observed (s : State n) : Prop :=
  ∀ task c, s.calls task = some c → s.stored c.owner = false → s.wasAbsent task = true

section

variable {s s' : State n} {task : Fin n} {c : Call} {k v : Index} {o : Owner} {result : Next}
  {e : Event n}

theorem State.Ok.absent_of_not_stored (h : s.Ok) (ne : o ≠ 0) (other : o ≠ s.owner 0)
    (absent : ∀ m, s.owner m ≠ o) : s.stored o = false := by
  apply Bool.eq_false_of_not_eq_true
  intro stored
  obtain ⟨m, found⟩ := (h.stored o ne other).mp stored
  exact absent m found

/-! ## The loops -/

theorem CallOk.start {fn : Fn} (h : s.Ok) (ne : o ≠ 0) (other : o ≠ s.owner 0) :
    CallOk s task (Call.start fn o) where
  ne := ne
  other := other
  unlocked _ := rfl
  reads := by
    change 0 = Lib.reads (hashFun o) (hashFun o)
    rw [Lib.reads, sub_self]
    rfl
  passed := by
    intro _ x before
    exact absurd before not_before_start
  missed := by
    intro _ all
    refine .inr (h.absent_of_not_stored ne other ?_)
    intro m found
    exact not_before_start (all m found)

theorem CallOk.further (h : CallOk s task c) (more : c.k + 1 ≠ hashFun c.owner)
    (full : c.inserts = true → s.owner c.k ≠ 0)
    (unmet : c.fn = .hashFindIfNotIns ∨ c.fn = .hashFind → s.owner c.k ≠ c.owner) :
    CallOk s task { c with k := c.k + 1, reads := c.reads + 1 } where
  ne := h.ne
  other := h.other
  unlocked := h.unlocked
  reads := by
    rw [reads_succ more, ← h.reads]
  passed := by
    intro inserts x before
    cases (before_succ more).mp before with
    | inl before => exact h.passed inserts x before
    | inr here =>
        subst here
        exact ⟨full inserts, fun fn => unmet (.inl fn)⟩
  missed := by
    intro fn all
    refine h.missed fn ?_
    intro m found
    refine ((before_succ more).mp (all m found)).resolve_right ?_
    intro here
    subst here
    exact unmet (.inr fn) found

theorem CallOk.lock (h : CallOk s task c) (fn : c.fn ≠ .hashFind) :
    CallOk s task { c with locked := true } :=
  ⟨h.ne, h.other, fun find => absurd find fn, h.reads, h.passed, h.missed⟩

theorem CallOk.turn (h : CallOk s task c) {c' : Call} (goes : c.turn (s.owner c.k) = .goes c') :
    CallOk s task c' := by
  have leaves (left : c.leave = .goes c') : CallOk s task c' := by
    simp only [Call.leave] at left
    split at left
    · cases left
    · next fn =>
        cases left
        exact h.lock fn
  have follows (left : c.next = .goes c') (full : c.inserts = true → s.owner c.k ≠ 0)
      (unmet : c.fn = .hashFindIfNotIns ∨ c.fn = .hashFind → s.owner c.k ≠ c.owner) :
      CallOk s task c' := by
    simp only [Call.next] at left
    split at left
    · cases left
    · next more =>
        cases left
        exact h.further more full unmet
  cases fn : c.fn with
  | hashIns =>
      simp only [Call.turn, fn] at goes
      split at goes
      · exact leaves goes
      · next full => exact follows goes (fun _ => full) (by simp [fn])
  | hashFindIfNotIns =>
      simp only [Call.turn, fn] at goes
      split at goes
      · exact leaves goes
      · next full =>
          rw [not_or] at full
          exact follows goes (fun _ => full.1) (fun _ => full.2)
  | hashFind =>
      simp only [Call.turn, fn] at goes
      split at goes
      · exact leaves goes
      split at goes
      · cases goes
      · next unmet full => exact follows goes (fun _ => full) (fun _ => unmet)
  | hashRem =>
      simp only [Call.turn, fn] at goes
      split at goes
      · exact leaves goes
      split at goes
      · cases goes
      · next unmet full => exact follows goes (fun _ => full) (fun _ => unmet)

theorem State.Ok.setCall (h : s.Ok) (goes : ∀ c', result = .goes c' → CallOk s task c') :
    (s.setCall task result).Ok := by
  cases result with
  | goes c' =>
      refine ⟨h.probed, h.stored, ?_⟩
      intro t c called
      simp only [State.setCall] at called
      by_cases same : t = task
      · subst same
        rw [update_self, Option.some.injEq] at called
        subst called
        have new := goes c' rfl
        exact ⟨new.ne, new.other, new.unlocked, new.reads, new.passed, new.missed⟩
      · rw [update_of_ne same] at called
        have old := h.calls called
        exact ⟨old.ne, old.other, old.unlocked, old.reads, old.passed, old.missed⟩
  | returns v =>
      refine ⟨h.probed, h.stored, ?_⟩
      intro t c called
      simp only [State.setCall] at called
      by_cases same : t = task
      · subst same
        rw [update_self] at called
        cases called
      · rw [update_of_ne same] at called
        have old := h.calls called
        exact ⟨old.ne, old.other, old.unlocked, old.reads, old.passed, old.missed⟩

/-! ## The locked sections -/

theorem State.Ok.ne_zero_of_free (h : s.Ok) (free : s.owner k = 0) : 0 ≠ k := by
  intro same
  subst same
  exact h.probed.kept free

/-- A write of a cell does not matter to an owner that is neither in it before nor after. -/
theorem exists_update_iff {o' : Owner} (before : s.owner k ≠ o) (after : o' ≠ o) :
    (∃ m, update s.owner k o' m = o) ↔ ∃ m, s.owner m = o := by
  refine exists_congr fun m => ?_
  by_cases here : m = k
  · rw [here, update_self]
    exact iff_of_false after before
  · rw [update_of_ne here]

theorem CallOk.put (h : CallOk s task c) (ok : s.Ok) (observed : s.Observed)
    (called : s.calls task = some c) (free : s.owner k = 0) (new : ∀ m, s.owner m ≠ o) :
    CallOk (s.write (.put k) o) task c where
  ne := h.ne
  other := by
    simp only [State.write]
    rw [update_of_ne (ok.ne_zero_of_free free)]
    exact h.other
  unlocked := h.unlocked
  reads := h.reads
  passed := by
    intro inserts x before
    have past := h.passed inserts x before
    have apart : x ≠ k := by
      intro same
      subst same
      exact past.1 free
    simp only [State.write]
    rw [update_of_ne apart]
    exact past
  missed := by
    intro fn all
    simp only [State.write] at all ⊢
    by_cases same : c.owner = o
    · refine .inl (observed task c called (ok.absent_of_not_stored h.ne h.other ?_))
      rw [same]
      exact new
    · rw [update_of_ne same]
      refine h.missed fn ?_
      intro m found
      have apart : m ≠ k := by
        intro here
        rw [here, free] at found
        exact h.ne found.symm
      exact all m (by rw [update_of_ne apart, found])

theorem State.Ok.put (h : s.Ok) (observed : s.Observed) (free : s.owner k = 0) (ne : o ≠ 0)
    (met : ∀ x, Before (hashFun o) x k → s.owner x ≠ 0) (new : ∀ m, s.owner m ≠ o) :
    (s.write (.put k) o).Ok where
  probed := h.probed.put free ne met new
  stored := by
    intro p hp other
    simp only [State.write] at other ⊢
    rw [update_of_ne (h.ne_zero_of_free free)] at other
    by_cases same : p = o
    · subst same
      rw [update_self]
      exact ⟨fun _ => ⟨k, update_self ..⟩, fun _ => rfl⟩
    · rw [update_of_ne same, h.stored p hp other]
      exact (exists_update_iff (by rw [free]; exact hp.symm) (Ne.symm same)).symm
  calls := fun called => (h.calls called).put h observed called free new

theorem CallOk.clear (h : CallOk s task c) (fixed : k ≠ 0) (holds : s.owner k = o)
    (off : c.inserts = true → ¬Before (hashFun c.owner) k c.k) :
    CallOk (s.write (.clear k) o) task c where
  ne := h.ne
  other := by
    simp only [State.write]
    rw [update_of_ne fixed.symm]
    exact h.other
  unlocked := h.unlocked
  reads := h.reads
  passed := by
    intro inserts x before
    have apart : x ≠ k := by
      intro same
      subst same
      exact off inserts before
    simp only [State.write]
    rw [update_of_ne apart]
    exact h.passed inserts x before
  missed := by
    intro fn all
    simp only [State.write] at all ⊢
    by_cases same : c.owner = o
    · rw [same, update_self]
      exact .inr rfl
    · rw [update_of_ne same]
      refine h.missed fn ?_
      intro m found
      have apart : m ≠ k := by
        intro here
        rw [here, holds] at found
        exact same found.symm
      exact all m (by rw [update_of_ne apart, found])

theorem State.Ok.clear (h : s.Ok) (fixed : k ≠ 0) (holds : s.owner k = o) (ne : o ≠ 0)
    (off : s.OffPaths k) : (s.write (.clear k) o).Ok where
  probed := h.probed.clear fixed off.1
  stored := by
    intro p hp other
    simp only [State.write] at other ⊢
    rw [update_of_ne fixed.symm] at other
    by_cases same : p = o
    · subst same
      rw [update_self]
      constructor
      · intro stored
        cases stored
      · rintro ⟨m, found⟩
        by_cases here : m = k
        · rw [here, update_self] at found
          exact absurd found.symm ne
        · rw [update_of_ne here] at found
          exact absurd (h.probed.once (found.trans holds.symm) (found ▸ ne)) here
    · rw [update_of_ne same, h.stored p hp other]
      exact (exists_update_iff (by rw [holds]; exact Ne.symm same) hp.symm).symm
  calls := fun called => (h.calls called).clear fixed holds (off.2 _ _ called)

/-! ## Steps -/

theorem State.Ok.commit (h : s.Ok) (observed : s.Observed) (called : s.calls task = some c)
    (careful : s.Harmless c.fn c.owner (c.commit (s.owner c.k)).1) :
    ((s.write (c.commit (s.owner c.k)).1 c.owner).setCall task (c.commit (s.owner c.k)).2).Ok := by
  have its := h.calls called
  have restart : (s.setCall task (.goes c.again)).Ok := by
    refine h.setCall ?_
    intro c' goes
    cases goes
    exact CallOk.start h its.ne its.other
  have stop {w : Write} {v : Index} (ok : (s.write w c.owner).Ok) :
      ((s.write w c.owner).setCall task (.returns v)).Ok := by
    refine ok.setCall ?_
    intro _ goes
    cases goes
  cases fn : c.fn with
  | hashIns =>
      simp only [Call.commit, fn] at careful ⊢
      split
      · next free =>
          rw [if_pos free] at careful
          refine stop (h.put observed free its.ne ?_ (careful rfl))
          intro x before
          exact (its.passed (by simp [Call.inserts, fn]) x before).1
      · exact restart
  | hashFindIfNotIns =>
      simp only [Call.commit, fn]
      split
      · exact stop (w := .none) h
      split
      · next free =>
          have past := its.passed (by simp [Call.inserts, fn])
          refine stop (h.put observed free its.ne (fun x before => (past x before).1) ?_)
          exact h.probed.absent free its.ne its.other.symm fun x before => (past x before).2 fn
      · exact restart
  | hashFind =>
      simp only [Call.commit, fn]
      exact stop (w := .none) h
  | hashRem =>
      simp only [Call.commit, fn] at careful ⊢
      split
      · next holds =>
          rw [if_pos holds] at careful
          have fixed : c.k ≠ 0 := by
            intro zero
            rw [zero] at holds
            exact its.other holds.symm
          exact stop (h.clear fixed holds its.ne careful)
      · exact restart

theorem State.Ok.run (h : s.Ok) (observed : s.Observed) (called : s.calls task = some c)
    (careful : s.Harmless c.fn c.owner (c.run (s.owner c.k)).1) :
    ((s.write (c.run (s.owner c.k)).1 c.owner).setCall task (c.run (s.owner c.k)).2).Ok := by
  by_cases locked : c.locked = true
  · simp only [Call.run, locked, if_true] at careful ⊢
    exact h.commit observed called careful
  · simp only [Call.run, locked]
    exact h.setCall fun c' goes => (h.calls called).turn goes

theorem State.Ok.release {op : Int} (h : s.Ok) (ne : o ≠ 0)
    (careful : s.Harmless .hashRem o (s.releaseWrite op o)) :
    (s.write (s.releaseWrite op o) o).Ok := by
  simp only [State.releaseWrite] at careful ⊢
  split
  · next its =>
      rw [if_pos its] at careful
      obtain ⟨low, high, holds⟩ := its
      refine h.clear ?_ holds ne careful
      intro zero
      have value := congrArg Fin.val zero
      simp only [Fin.ofNat, Fin.val_zero] at value
      rw [Nat.mod_eq_of_lt (by omega)] at value
      omega
  · exact h

theorem State.Ok.advance (h : s.Ok) (observed : s.Observed) (careful : Careful s e)
    (stepped : s.advance e = some s') : s'.Ok := by
  cases e with
  | call task fn owner =>
      simp only [State.advance, Option.ite_none_right_eq_some, Option.some.injEq] at stepped
      obtain ⟨⟨ne, idle⟩, rfl⟩ := stepped
      have fresh : ({ s with wasAbsent := update s.wasAbsent task false } : State n).Ok := by
        refine ⟨h.probed, h.stored, ?_⟩
        intro t c called
        have old := h.calls called
        refine ⟨old.ne, old.other, old.unlocked, old.reads, old.passed, ?_⟩
        intro find all
        have other : t ≠ task := by
          intro same
          subst same
          rw [idle] at called
          cases called
        simp only [update_of_ne other]
        exact old.missed find all
      refine fresh.setCall fun c' (goes : Next.goes (Call.start fn owner) = .goes c') => ?_
      cases goes
      exact CallOk.start fresh ne careful
  | run task =>
      obtain ⟨c, called, rfl⟩ := Option.map_eq_some_iff.mp stepped
      exact h.run observed called (careful c called)
  | release op owner =>
      simp only [State.advance, Option.ite_none_right_eq_some, Option.some.injEq] at stepped
      obtain ⟨ne, rfl⟩ := stepped
      exact h.release ne careful

theorem State.Ok.observe (h : s.Ok) : s.observe.Ok ∧ s.observe.Observed := by
  refine ⟨⟨h.probed, h.stored, ?_⟩, ?_⟩
  · intro task c called
    have old := h.calls called
    refine ⟨old.ne, old.other, old.unlocked, old.reads, old.passed, ?_⟩
    intro find all
    have called : s.calls task = some c := called
    refine .inl ?_
    simp only [State.observe, called, Option.any_some]
    cases old.missed find all with
    | inl seen => simp [seen]
    | inr absent => simp [absent]
  · intro task c called absent
    have called : s.calls task = some c := called
    have absent : s.stored c.owner = false := absent
    simp [State.observe, called, absent]

theorem State.Ok.step (h : s.Ok) (observed : s.Observed) (careful : Careful s e)
    (stepped : step e s = some s') : s'.Ok ∧ s'.Observed := by
  obtain ⟨s₁, advanced, rfl⟩ := Option.map_eq_some_iff.mp stepped
  exact (h.advance observed careful advanced).observe

/-! ## What is returned -/

theorem State.returned_eq_some (returned : s.returned task = some (c, v)) :
    s.calls task = some c ∧ (c.run (s.owner c.k)).2 = .returns v := by
  obtain ⟨c', called, returns⟩ := Option.bind_eq_some_iff.mp returned
  split at returns
  · next v' result =>
      cases returns
      exact ⟨called, result⟩
  · cases returns

theorem Call.next_returns (returns : c.next = .returns v) : v = 0 ∧ c.k + 1 = hashFun c.owner := by
  simp only [Call.next] at returns
  split at returns
  · next last =>
      cases returns
      exact ⟨rfl, last⟩
  · cases returns

theorem State.Ok.finds (h : s.Ok) (observed : s.Observed) (returned : s.returned task = some (c, v))
    (fn : c.fn = .hashFind) :
    (0 < v → s.stored c.owner = true) ∧ (v = 0 → s.wasAbsent task = true) := by
  obtain ⟨called, result⟩ := State.returned_eq_some returned
  have its := h.calls called
  have fails (all : ∀ m, s.owner m = c.owner → Before (hashFun c.owner) m c.k) :
      s.wasAbsent task = true := by
    cases its.missed fn all with
    | inl seen => exact seen
    | inr absent => exact observed task c called absent
  simp only [Call.run, its.unlocked fn, Call.turn, fn, Bool.false_eq_true, if_false] at result
  split at result
  · next found =>
      simp only [Call.leave, fn, if_true, Next.returns.injEq] at result
      subst result
      constructor
      · intro
        exact (h.stored _ its.ne its.other).mpr ⟨c.k, found⟩
      · intro zero
        rw [zero] at found
        exact absurd found.symm its.other
  split at result
  · next free =>
      cases result
      refine ⟨fun less => absurd less (lt_irrefl _), fun _ => fails ?_⟩
      intro m found
      rcases before_trichotomy (hashFun c.owner) m c.k with before | here | beyond
      · exact before
      · subst here
        exact absurd (found.symm.trans free) its.ne
      · have other : m ≠ 0 := by
          intro zero
          subst zero
          exact its.other found.symm
        have used : s.owner m ≠ 0 := found ▸ its.ne
        rw [← found] at beyond
        exact absurd free (h.probed.path other used beyond)
  · next unmet _ =>
      obtain ⟨zero, last⟩ := Call.next_returns result
      subst zero
      refine ⟨fun less => absurd less (lt_irrefl _), fun _ => fails ?_⟩
      intro m found
      refine (before_last last m).resolve_right ?_
      intro here
      subst here
      exact unmet found

theorem State.Ok.full (h : s.Ok) (returned : s.returned task = some (c, 0))
    (fn : c.fn = .hashFindIfNotIns) : s.stored c.owner = false ∧ ∀ k, s.owner k ≠ 0 := by
  obtain ⟨called, result⟩ := State.returned_eq_some returned
  have its := h.calls called
  have first (zero : c.k = 0) : s.owner c.k ≠ c.owner ∧ s.owner c.k ≠ 0 := by
    rw [zero]
    exact ⟨its.other.symm, h.probed.kept⟩
  cases locked : c.locked with
  | true =>
      simp only [Call.run, locked, if_true, Call.commit, fn] at result
      split at result
      · next found => exact absurd found (first (Next.returns.inj result)).1
      split at result
      · next free => exact absurd free (first (Next.returns.inj result)).2
      · cases result
  | false =>
      simp only [Call.run, locked, Bool.false_eq_true, if_false, Call.turn, fn] at result
      split at result
      · simp [Call.leave, fn] at result
      · next unmet =>
          rw [not_or] at unmet
          obtain ⟨_, last⟩ := Call.next_returns result
          have past := its.passed (by simp [Call.inserts, fn])
          have all (m : Index) : s.owner m ≠ 0 ∧ s.owner m ≠ c.owner := by
            cases before_last last m with
            | inl before => exact ⟨(past m before).1, (past m before).2 fn⟩
            | inr here =>
                subst here
                exact unmet
          exact ⟨h.absent_of_not_stored its.ne its.other fun m => (all m).2, fun m => (all m).1⟩

end

theorem init_owner {m : Index} (other : m ≠ 0) : (init n server).owner m = 0 := by
  simp [init, other]

theorem init_ok (real : server ≠ 0) : (init n server).Ok where
  probed := .of_empty real fun _ => init_owner
  stored := by
    intro o ne other
    constructor
    · intro stored
      cases stored
    · rintro ⟨k, found⟩
      by_cases zero : k = 0
      · rw [zero] at found
        exact absurd found.symm other
      · rw [init_owner zero] at found
        exact absurd found.symm ne
  calls := by
    intro _ _ called
    cases called

/-- Where removals are off all paths, the searches end and find what is stored. -/
theorem stubs_sound {server : Owner} (real : server ≠ 0) {tr : Trace n} {s : State n}
    (run : Run step Careful (init n server) tr s) : Sound tr s := by
  have kept : (s.Ok ∧ s.Observed) ∧ ∀ r ∈ tr, r.pre.Ok ∧ r.pre.Observed := by
    refine run.each (P := fun s => s.Ok ∧ s.Observed) (R := fun r => r.pre.Ok ∧ r.pre.Observed)
      ⟨init_ok real, ?_⟩ ?_
    · intro _ _ called
      cases called
    · intro s s' e ⟨ok, observed⟩ careful stepped
      exact ⟨ok.step observed careful stepped, ok, observed⟩
  obtain ⟨⟨ok, _⟩, past⟩ := kept
  refine ⟨?_, fun _ _ same used => ok.probed.once same used, ?_, ?_⟩
  · intro task c called
    rw [(ok.calls called).reads]
    exact reads_lt
  · intro r mem task c v _ returned fn
    exact (past r mem).1.finds (past r mem).2 returned fn
  · intro r mem task c _ returned fn
    exact (past r mem).1.full returned fn

/-- An owner is inserted, found and removed. -/
theorem stubs_sound_found :
    ∃ tr s, Run step Careful (init 1 0x1000) tr s ∧
      (tr.any fun r => r.pre.returned 0 ==
        some ({ fn := .hashFind, owner := 0x20, k := 2 }, 2)) = true ∧ Sound tr s := by
  have ⟨tr, s, run, test⟩ := Run.of_records step Careful (init 1 0x1000)
    [.call 0 .hashFindIfNotIns 0x20, .run 0, .run 0, .call 0 .hashFind 0x20, .run 0,
      .call 0 .hashRem 0x20, .run 0, .run 0, .call 0 .hashFind 0x20, .run 0]
    (fun tr _ => tr.any fun r => r.pre.returned 0 ==
      some ({ fn := .hashFind, owner := 0x20, k := 2 }, 2)) (by decide +kernel)
  exact ⟨tr, s, run, test, stubs_sound (by decide) run⟩

/-- An owner whose path a removal cuts is not found any more, and gets a second slot. -/
theorem not_stubs_sound :
    ¬∀ server, server ≠ 0 → ∀ tr s, Run step (fun _ _ => True) (init 1 server) tr s →
      Sound tr s := by
  intro sound
  have ⟨tr, s, run, test⟩ := Run.of_execute step (fun _ _ => True) (init 1 0x1000)
    [.call 0 .hashFindIfNotIns 0x20, .run 0, .run 0,
      .call 0 .hashFindIfNotIns 0x21, .run 0, .run 0, .run 0,
      .call 0 .hashRem 0x20, .run 0, .run 0,
      .call 0 .hashFindIfNotIns 0x21, .run 0, .run 0]
    (fun s => s.owner 2 == 0x21 && s.owner 3 == 0x21) (by decide +kernel)
  simp only [Bool.and_eq_true, beq_iff_eq] at test
  have same := (sound 0x1000 (by decide) tr s run).once 2 3 (by rw [test.1, test.2])
    (by rw [test.1]; decide)
  cases same

end Rtai.NetRpc.Stubs
