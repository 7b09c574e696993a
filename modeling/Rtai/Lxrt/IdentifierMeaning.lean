import Rtai.Lxrt.IdentifierTables

/-!
# What the task identifiers denote

A pid is looked up and released by its low byte alone, so a pid that is no longer assigned
denotes whatever its slot holds now.  `identifiers_faithful` says that pids and tasks lead to
each other in runs in which this does not happen, all assignments succeed and no version comes
round.
-/

namespace Rtai.Lxrt.Identifiers

open Function Rtai.Lib

abbrev Trace := List (Record State Event)

/-- The pid leads to a task exactly if it is assigned to it. -/
def State.Denotes (s : State) (pid : Pid) : Prop :=
  ∀ task number, s.born task = some number →
    (s.tables.pid2rttask pid = task ↔ s.assigned pid = some (.task number))

/-- The pid does not lead to a task created after the pid was released. -/
def State.NotStale (s : State) (pid : Pid) : Prop :=
  ∀ x ∈ s.released, x.1 = pid → ∀ task number, s.born task = some number → x.2 ≤ number →
    s.tables.pid2rttask pid ≠ task

structure Faithful (tr : Trace) (s : State) : Prop where
  lookups : ∀ r ∈ tr, ∀ pid, r.event = .pid2rttask pid → r.pre.Denotes pid ∧ r.pre.NotStale pid
  /-- A task leads to a pid of its own, or to 0 if it has none. -/
  pids : ∀ task number, s.born task = some number →
    (s.tables.rttask2pid task ≠ 0 →
      s.assigned (s.tables.rttask2pid task) = some (.task number)) ∧
    (s.tables.rttask2pid task = 0 → ∀ pid, s.assigned pid ≠ some (.task number))
  /-- Nothing is changed for a pid that is not assigned. -/
  unassigned : ∀ r ∈ tr, ∀ pid,
    (r.event = .release pid ∨ ∃ whoami memory, r.event = .attach pid whoami memory) →
    r.pre.assigned pid = none → r.post.tables = r.pre.tables

/-! ## Proper use -/

/-- The slot of the pid holds no other one. -/
def State.Current (s : State) (pid : Pid) : Prop :=
  (s.tables.tab (idx pid)).live ≠ 0 → (s.tables.tab (idx pid)).pid = pid

/-- There are a slot and a cell for a pid, and the pid has not been released before. -/
def State.Assigns (s : State) (type : BitVec 32) (memory : Bool) : Prop :=
  memory = true ∧ s.tables.freeSlot.any (fun i =>
    s.released.all fun x => x.1 != Tables.nextPid (s.tables.tab i) type i) = true

/-- What a run must meet: pids are looked up and released while their slots hold no other, an
unused slot has no name to be lost, assignments succeed, and a task is deleted when no slot
holds it. -/
def Proper (s : State) : Event → Prop
  | .pid2rttask pid => s.Current pid
  | .release pid => s.Current pid ∧
      ((s.tables.tab (idx pid)).live = 0 → (s.tables.tab (idx pid)).name = none)
  | .assignPid _ memory => s.Assigns 0 memory
  | .assignVc _ memory | .reserve memory => s.Assigns ARCNVCF memory
  | .delete task => ∀ i ∈ List.range 255, (s.tables.tab i).live ≠ 0 → (s.tables.tab i).task ≠ task
  | _ => True

instance (s : State) : (e : Event) → Decidable (Proper s e)
  | .pid2rttask _ => inferInstanceAs (Decidable (_ → _))
  | .release _ => inferInstanceAs (Decidable ((_ → _) ∧ (_ → _)))
  | .assignPid _ _ | .assignVc _ _ | .reserve _ => inferInstanceAs (Decidable (_ ∧ _))
  | .delete _ => inferInstanceAs (Decidable (∀ i ∈ List.range 255, _ → _))
  | .create _ | .assignAliasName _ _ _ | .attach _ _ _ => inferInstanceAs (Decidable True)

/-! ## The tables and what the pids stand for -/

/-- A slot's task is what the pid has been assigned to. -/
inductive Named (born : TaskPtr → Option Nat) : Option TaskPtr → Option Holder → Prop where
  | none : Named born none none
  | reservation : Named born (some RESERVED) (some .reservation)
  | task {t : TaskPtr} {number : Nat} (alive : born t = some number) :
      Named born (some t) (some (.task number))

structure State.Agrees (s : State) : Prop where
  tables : s.tables.Ok
  named : ∀ pid, Named s.born (s.tables.owner pid) (s.assigned pid)
  born : ∀ {t number}, s.born t = some number → t ≠ 0 ∧ t ≠ RESERVED ∧ number < s.created
  unique : ∀ {t t' number}, s.born t = some number → s.born t' = some number → t = t'
  released : ∀ x ∈ s.released, s.assigned x.1 = none

section

variable {s s' : State} {e : Event} {pid : Pid} {t : TaskPtr} {h : Holder} {number : Nat}

theorem Named.update {born : TaskPtr → Option Nat} {owner : Pid → Option TaskPtr}
    {assigned : Pid → Option Holder} {o : Option TaskPtr} {a : Option Holder}
    (named : ∀ p, Named born (owner p) (assigned p)) (new : Named born o a) :
    ∀ p, Named born (update owner pid o p) (update assigned pid a p) := by
  intro p
  by_cases same : p = pid
  · subst same
    rw [update_self, update_self]
    exact new
  · rw [update_of_ne same, update_of_ne same]
    exact named p

namespace State.Agrees

variable {task : TaskPtr} {memory : Bool} (ok : s.Agrees)
include ok

theorem owner_none (free : s.assigned pid = none) : s.tables.owner pid = none := by
  have named := ok.named pid
  rw [free] at named
  generalize s.tables.owner pid = o at named
  cases named with
  | none => rfl

/-! ### What is looked up -/

theorem denotes (current : s.Current pid) : s.Denotes pid := by
  intro task number alive
  rw [ok.tables.pid2rttask current]
  have named := ok.named pid
  have ⟨real, unreserved, _⟩ := ok.born alive
  generalize s.tables.owner pid = o at *
  generalize s.assigned pid = a at *
  cases named with
  | none => simpa using real.symm
  | reservation => simpa using unreserved.symm
  | task its =>
      simp only [Option.getD_some, Option.some.injEq, Holder.task.injEq]
      constructor
      · intro same
        subst same
        exact Option.some.inj (its.symm.trans alive)
      · intro same
        subst same
        exact ok.unique its alive

theorem notStale (current : s.Current pid) : s.NotStale pid := by
  intro x released its task number alive _
  have free := ok.released x released
  rw [its] at free
  rw [ok.tables.pid2rttask current, ok.owner_none free]
  exact (ok.born alive).1.symm

theorem pids (alive : s.born t = some number) :
    (s.tables.rttask2pid t ≠ 0 → s.assigned (s.tables.rttask2pid t) = some (.task number)) ∧
    (s.tables.rttask2pid t = 0 → ∀ pid, s.assigned pid ≠ some (.task number)) := by
  have ⟨real, unreserved, _⟩ := ok.born alive
  have ⟨leads, without⟩ := ok.tables.rttask2pid real unreserved
  constructor
  · intro some
    have named := ok.named (s.tables.rttask2pid t)
    rw [leads some] at named
    generalize s.assigned _ = a at named
    cases named with
    | reservation => exact absurd rfl unreserved
    | task its => rw [Option.some.inj (its.symm.trans alive)]
  · intro zero pid assigned
    have named := ok.named pid
    have other := without zero pid
    rw [assigned] at named
    generalize s.tables.owner pid = o at *
    cases named with
    | task its => exact other (by rw [ok.unique its alive])

/-! ### Steps -/

theorem assign {type : BitVec 32} (proper : s.Assigns type memory) (plain : type &&& MASKPID = 0)
    (real : task ≠ 0) (named : Named s.born (some task) (some h)) :
    (s.assign (s.tables.assignTyped task type memory) h).Agrees := by
  obtain ⟨rfl, room⟩ := proper
  obtain ⟨i, free, fresh⟩ := (Option.any_eq_true _ _).mp room
  obtain ⟨pid_eq, nonzero, new, tables, owner⟩ := ok.tables.assignTyped free plain real
  refine ⟨tables, ?_, ok.born, ok.unique, ?_⟩
  · simp only [State.assign, owner, pid_eq, nonzero, if_false]
    exact Named.update ok.named named
  · intro x released
    have other : x.1 ≠ Tables.nextPid (s.tables.tab i) type i := by
      simpa using List.all_eq_true.mp fresh x released
    simp only [State.assign, pid_eq, nonzero, if_false, update_of_ne other]
    exact ok.released x released

theorem create (real : task ≠ 0) (unreserved : task ≠ RESERVED) (new : s.born task = none) :
    { s with born := update s.born task (some s.created), created := s.created + 1 }.Agrees := by
  have old {t : TaskPtr} {number : Nat} (alive : s.born t = some number) : t ≠ task := by
    intro same
    rw [same, new] at alive
    cases alive
  have younger {t : TaskPtr} {number : Nat}
      (alive : update s.born task (some s.created) t = some number) (ne : t ≠ task) :
      s.born t = some number := by rwa [update_of_ne ne] at alive
  refine ⟨ok.tables, ?_, ?_, ?_, ok.released⟩
  · intro pid
    have named := ok.named pid
    generalize s.tables.owner pid = o at *
    generalize s.assigned pid = a at *
    cases named with
    | none => exact .none
    | reservation => exact .reservation
    | task alive => exact .task ((update_of_ne (old alive) _ _).trans alive)
  · intro t number alive
    by_cases same : t = task
    · subst same
      simp only [update_self, Option.some.injEq] at alive
      subst alive
      exact ⟨real, unreserved, Nat.lt_succ_self _⟩
    · have ⟨real, unreserved, earlier⟩ := ok.born (younger alive same)
      exact ⟨real, unreserved, Nat.lt_succ_of_lt earlier⟩
  · intro t t' number alive alive'
    by_cases same : t = task <;> by_cases same' : t' = task
    · rw [same, same']
    · subst same
      simp only [update_self, Option.some.injEq] at alive
      have ⟨_, _, earlier⟩ := ok.born (younger alive' same')
      omega
    · subst same'
      simp only [update_self, Option.some.injEq] at alive'
      have ⟨_, _, earlier⟩ := ok.born (younger alive same)
      omega
    · exact ok.unique (younger alive same) (younger alive' same')

theorem delete (proper : Proper s (.delete task)) :
    { s with born := update s.born task none }.Agrees := by
  have older {t : TaskPtr} {number : Nat} (alive : update s.born task none t = some number) :
      s.born t = some number := by
    by_cases same : t = task
    · subst same
      rw [update_self] at alive
      cases alive
    · rwa [update_of_ne same] at alive
  refine ⟨ok.tables, ?_, fun alive => ok.born (older alive),
    fun alive alive' => ok.unique (older alive) (older alive'), ok.released⟩
  intro pid
  have named := ok.named pid
  have unowned : s.tables.owner pid ≠ some task := by
    intro owned
    have ⟨live, _, its⟩ := Tables.owner_eq_some.mp owned
    have ⟨_, high⟩ := ok.tables.idx_of_owner owned
    exact proper (idx pid) (List.mem_range.mpr high) live its
  generalize s.tables.owner pid = o at *
  generalize s.assigned pid = a at *
  cases named with
  | none => exact .none
  | reservation => exact .reservation
  | task alive =>
      have ne : _ ≠ task := fun same => unowned (congrArg some same)
      exact .task ((update_of_ne ne _ _).trans alive)

theorem attach {whoami : TaskPtr} (alive : s.born whoami = some number) :
    (s.attach pid (s.tables.rtVcAttach pid whoami memory) number).Agrees := by
  obtain ⟨tables, moved | kept⟩ :=
    @Tables.Ok.rtVcAttach _ pid _ memory ok.tables (ok.born alive).1
  · obtain ⟨err, owned, owner⟩ := moved
    refine ⟨tables, ?_, ok.born, ok.unique, ?_⟩
    · simp only [State.attach, owner, err, if_true]
      exact Named.update ok.named (.task alive)
    · intro x released
      have free := ok.released x released
      have other : x.1 ≠ pid := by
        intro same
        rw [same] at free
        rw [ok.owner_none free] at owned
        cases owned
      simp only [State.attach, err, if_true, update_of_ne other]
      exact free
  · obtain ⟨err, owner, _⟩ := kept
    refine ⟨tables, ?_, ok.born, ok.unique, ?_⟩
    · simp only [State.attach, owner, err, if_false]
      exact ok.named
    · simp only [State.attach, err, if_false]
      exact ok.released

theorem release_unused (proper : Proper s (.release pid)) (free : s.assigned pid = none) :
    (s.tables.rtVcRelease pid).1 = s.tables := by
  have dead : (s.tables.tab (idx pid)).live = 0 := by
    by_contra live
    have owned := Tables.owner_eq_some.mpr ⟨live, proper.1 live, rfl⟩
    rw [ok.owner_none free] at owned
    cases owned
  exact ok.tables.rtVcRelease_of_dead dead (proper.2 dead)

theorem release (proper : Proper s (.release pid)) : (s.release pid).Agrees := by
  have released : ∀ x ∈ (s.release pid).released, update s.assigned pid none x.1 = none := by
    intro x mem
    by_cases same : x.1 = pid
    · rw [same, update_self]
    · rw [update_of_ne same]
      simp only [State.release] at mem
      split at mem
      · exact ok.released x mem
      · cases mem with
        | head => exact absurd rfl same
        | tail _ mem => exact ok.released x mem
  cases owned : s.tables.owner pid with
  | none =>
      have named := ok.named pid
      have free : s.assigned pid = none := by
        rw [owned] at named
        generalize s.assigned pid = a at *
        cases named with
        | none => rfl
      have same := ok.release_unused proper free
      refine ⟨?_, ?_, ok.born, ok.unique, released⟩
      · rw [State.release, same]
        exact ok.tables
      · simp only [State.release, same, ← free, update_eq_self]
        exact ok.named
  | some task =>
      have ⟨tables, owner⟩ := ok.tables.rtVcRelease owned
      refine ⟨tables, ?_, ok.born, ok.unique, released⟩
      simp only [State.release, owner]
      exact Named.update ok.named .none

theorem step (proper : Proper s e) (stepped : step e s = some s') : s'.Agrees := by
  cases e with
  | create task =>
      simp only [Identifiers.step, Option.ite_none_right_eq_some, Option.some.injEq] at stepped
      obtain ⟨⟨real, unreserved, new⟩, rfl⟩ := stepped
      exact ok.create real unreserved new
  | delete task =>
      obtain ⟨_, _, rfl⟩ := Option.map_eq_some_iff.mp stepped
      exact ok.delete proper
  | assignPid task memory =>
      obtain ⟨number, alive, rfl⟩ := Option.map_eq_some_iff.mp stepped
      exact ok.assign proper rfl (ok.born alive).1 (.task alive)
  | assignVc task memory =>
      obtain ⟨number, alive, rfl⟩ := Option.map_eq_some_iff.mp stepped
      exact ok.assign proper rfl (ok.born alive).1 (.task alive)
  | reserve memory =>
      cases stepped
      exact ok.assign proper rfl (by decide) .reservation
  | assignAliasName pid name memory =>
      cases stepped
      have ⟨tables, owner⟩ := @Tables.Ok.assignAliasName _ pid name memory ok.tables
      exact ⟨tables, by rw [owner]; exact ok.named, ok.born, ok.unique, ok.released⟩
  | attach pid whoami memory =>
      obtain ⟨number, alive, rfl⟩ := Option.map_eq_some_iff.mp stepped
      exact ok.attach alive
  | release pid =>
      cases stepped
      exact ok.release proper
  | pid2rttask pid =>
      cases stepped
      exact ok

/-- What a step on a pid that is not assigned leaves. -/
theorem unassigned (proper : Proper s e) (stepped : Identifiers.step e s = some s')
    (about : e = .release pid ∨ ∃ whoami memory, e = .attach pid whoami memory)
    (free : s.assigned pid = none) : s'.tables = s.tables := by
  rcases about with rfl | ⟨whoami, memory, rfl⟩
  · cases stepped
    exact ok.release_unused proper free
  · obtain ⟨number, alive, rfl⟩ := Option.map_eq_some_iff.mp stepped
    obtain ⟨_, moved | kept⟩ :=
      @Tables.Ok.rtVcAttach _ pid _ memory ok.tables (ok.born alive).1
    · have owned := moved.2.1
      rw [ok.owner_none free] at owned
      cases owned
    · refine kept.2.2 ?_
      rw [ok.owner_none free]
      intro owned
      cases owned

end State.Agrees

end

theorem start_agrees : State.Agrees {} := by
  refine ⟨⟨absurd rfl, absurd rfl, fun _ => rfl, ?_, ?_, ?_⟩, fun _ => .none, ?_, ?_, ?_⟩
  · intro _ _ mem
    cases mem
  · intro
    exact List.nodup_nil
  · intro _ _ owned
    cases owned
  · intro _ _ alive
    cases alive
  · intro _ _ _ alive
    cases alive
  · intro _ mem
    cases mem

/-- In a proper run pids and tasks lead to each other. -/
theorem identifiers_faithful {tr : Trace} {s : State} (run : Run step Proper {} tr s) :
    Faithful tr s := by
  have kept : s.Agrees ∧ ∀ r ∈ tr, r.pre.Agrees ∧ Proper r.pre r.event ∧
      step r.event r.pre = some r.post := by
    refine run.each (R := fun r => r.pre.Agrees ∧ Proper r.pre r.event ∧
      step r.event r.pre = some r.post) start_agrees ?_
    intro s s' e ok proper stepped
    exact ⟨ok.step proper stepped, ok, proper, stepped⟩
  obtain ⟨ok, past⟩ := kept
  refine ⟨?_, fun task number alive => ok.pids alive, ?_⟩
  · intro r mem pid event
    obtain ⟨ok, proper, _⟩ := past r mem
    rw [event] at proper
    exact ⟨ok.denotes proper, ok.notStale proper⟩
  · intro r mem pid about free
    obtain ⟨ok, proper, stepped⟩ := past r mem
    exact ok.unassigned proper stepped about free

/-- A reserved circuit that is attached, and a pid that is assigned, looked up and released. -/
theorem identifiers_faithful_attached :
    ∃ tr s, Run step Proper {} tr s ∧
      (s.tables.pid2rttask 0x8101 = 0x1000 ∧ s.tables.rttask2pid 0x1000 = 0x8101) ∧
      Faithful tr s := by
  have ⟨tr, s, run, test⟩ := Run.of_execute step Proper {}
    [.create 0x1000, .reserve true, .attach 0x8101 0x1000 true, .pid2rttask 0x8101,
      .create 0x2000, .assignPid 0x2000 true, .pid2rttask 0x102, .release 0x102, .delete 0x2000,
      .pid2rttask 0x102]
    (fun s => s.tables.pid2rttask 0x8101 == 0x1000 && s.tables.rttask2pid 0x1000 == 0x8101)
    (by decide +kernel)
  exact ⟨tr, s, run, by simpa using test, identifiers_faithful run⟩

/-- A released pid denotes the next task that gets its slot. -/
theorem not_faithful_stale :
    ¬∀ tr s, Run step (fun _ _ => True) {} tr s → Faithful tr s := by
  intro faithful
  have ⟨tr, s, run, test⟩ := Run.of_records step (fun _ _ => True) {}
    [.create 0x1000, .assignPid 0x1000 true, .release 0x101, .create 0x2000,
      .assignPid 0x2000 true, .pid2rttask 0x101]
    (fun tr _ => tr.any fun r => r.event = .pid2rttask 0x101 && r.pre.born 0x2000 == some 1 &&
      r.pre.released == [(0x101, 1)] && r.pre.tables.pid2rttask 0x101 == 0x2000)
    (by decide +kernel)
  simp only [List.any_eq_true, Bool.and_eq_true, decide_eq_true_eq, beq_iff_eq] at test
  obtain ⟨r, mem, ⟨⟨lookup, young⟩, released⟩, leads⟩ := test
  have notStale := ((faithful tr s run).lookups r mem 0x101 lookup).2
  refine notStale (0x101, 1) ?_ rfl 0x2000 1 young (Nat.le_refl 1) leads
  rw [released]
  exact List.mem_singleton_self _

end Rtai.Lxrt.Identifiers
