import Rtai.Fifos.Fifo
import Rtai.Lib.Run
import Mathlib.Logic.Relation

/-!
# The wake-up requests

Real time code leaves the wake-ups of Linux processes to `rtf_sysrq_handler`,
through the rings `taskq` and `pol_asyn_q`.  The machine runs the handler piece by
piece, as it can be interrupted anywhere, and between its pieces `mbx_signal`,
`mbx_sem_signal` and `mbx_sem_delete`, each with interrupts disabled.  What the
Linux processes do to the fifos meanwhile is left open, but for
`pol_asyn_pended`.

Nobody looks whether a ring is full.  `requests_kept` is what holds as long as
none is.
-/

namespace Rtai.Fifos

open Function Rtai.Lib

/-! ## The rings -/

namespace ReqQ

variable {α : Type} {q : ReqQ α} {x : α}

/-- The number of entries between `out` and `in`. -/
def count (q : ReqQ α) : Nat := (q.inp + MAXREQS - q.out) % MAXREQS

/-- The entries between `out` and `in`, the oldest first. -/
def content (q : ReqQ α) : List (Option α) :=
  (List.range q.count).map fun k => q.slot ((q.out + k) % MAXREQS)

/-- Both indices are inside the ring. -/
structure Valid (q : ReqQ α) : Prop where
  inp : q.inp < MAXREQS
  out : q.out < MAXREQS

theorem and_maxreqs (i : Nat) : i &&& (MAXREQS - 1) = i % MAXREQS :=
  Nat.and_two_pow_sub_one_eq_mod i 6

theorem Valid.put (h : q.Valid) : (q.put x).Valid := by
  refine ⟨?_, h.out⟩
  show (q.inp + 1) &&& (MAXREQS - 1) < MAXREQS
  rw [and_maxreqs]
  exact Nat.mod_lt _ (by decide)

theorem Valid.advance (h : q.Valid) : q.advance.Valid := by
  refine ⟨h.inp, ?_⟩
  show (q.out + 1) &&& (MAXREQS - 1) < MAXREQS
  rw [and_maxreqs]
  exact Nat.mod_lt _ (by decide)

theorem count_put (h : q.Valid) (room : q.count + 1 < MAXREQS) :
    (q.put x).count = q.count + 1 := by
  obtain ⟨hi, ho⟩ := h
  simp only [count, ReqQ.put, and_maxreqs] at *
  simp only [MAXREQS] at *
  omega

theorem count_advance (h : q.Valid) (some : q.count ≠ 0) : q.advance.count = q.count - 1 := by
  obtain ⟨hi, ho⟩ := h
  simp only [count, ReqQ.advance, and_maxreqs] at *
  simp only [MAXREQS] at *
  omega

theorem content_put (h : q.Valid) (room : q.count + 1 < MAXREQS) :
    (q.put x).content = q.content ++ [some x] := by
  have last : (q.out + q.count) % MAXREQS = q.inp := by
    obtain ⟨hi, ho⟩ := h
    simp only [count, MAXREQS] at *
    omega
  rw [content, count_put h room, List.range_succ, List.map_append]
  congr 1
  · refine List.map_congr_left fun k hk => update_of_ne ?_ _ _
    show (q.out + k) % MAXREQS ≠ q.inp
    have hk := List.mem_range.mp hk
    rw [← last]
    simp only [count, MAXREQS] at *
    omega
  · show [update q.slot q.inp (some x) ((q.out + q.count) % MAXREQS)] = [some x]
    rw [last, update_self]

theorem content_eq (some : q.count ≠ 0) :
    q.content = q.slot (q.out % MAXREQS) ::
      (List.range (q.count - 1)).map fun k => q.slot ((q.out + (k + 1)) % MAXREQS) := by
  obtain ⟨n, e⟩ := Nat.exists_eq_succ_of_ne_zero some
  rw [content, e, List.range_succ_eq_map, List.map_cons, List.map_map]
  rfl

theorem content_advance (h : q.Valid) (some : q.count ≠ 0) :
    q.advance.content = q.content.tail := by
  rw [content_eq some, List.tail_cons, content, count_advance h some]
  refine List.map_congr_left fun k _ => ?_
  show q.slot ((((q.out + 1) &&& (MAXREQS - 1)) + k) % MAXREQS) = _
  rw [and_maxreqs, Nat.mod_add_mod, Nat.add_assoc, Nat.add_comm 1 k]

/-- The oldest entry is the one at `out`. -/
theorem content_head (h : q.Valid) (some : q.count ≠ 0) :
    q.content = q.slot q.out :: q.content.tail := by
  have head := content_eq some
  rw [Nat.mod_eq_of_lt h.out] at head
  rw [head, List.tail_cons]

theorem count_eq_zero (h : q.Valid) : q.count = 0 ↔ q.out = q.inp := by
  obtain ⟨hi, ho⟩ := h
  simp only [count, MAXREQS] at *
  omega

theorem content_nil (h : q.Valid) (e : q.out = q.inp) : q.content = [] := by
  rw [content, (count_eq_zero h).mpr e]
  rfl

/-- What is on the ring, without the entry that is already taken. -/
def pending (q : ReqQ α) (taken : Bool) : List (Option α) :=
  if taken then q.content.tail else q.content

/-- The entries are there, the one that is already taken among them. -/
structure Filled (q : ReqQ α) (taken : Bool) : Prop where
  valid : q.Valid
  full : ∀ y ∈ q.content, y.isSome
  there : taken = true → q.count ≠ 0

theorem content_empty : ({} : ReqQ α).content = [] :=
  content_nil ⟨Nat.zero_lt_succ _, Nat.zero_lt_succ _⟩ rfl

theorem Filled.empty : ({} : ReqQ α).Filled false where
  valid := ⟨Nat.zero_lt_succ _, Nat.zero_lt_succ _⟩
  full y h := by
    rw [content_empty] at h
    cases h
  there f := by cases f

/-- Entries are put one after the other. -/
def putAll (xs : List α) (q : ReqQ α) : ReqQ α := xs.foldl (fun q x => q.put x) q

variable {taken : Bool}

theorem content_ne_nil (some : q.count ≠ 0) : q.content ≠ [] := by
  rw [content_eq some]
  exact List.cons_ne_nil _ _

theorem pending_put (h : q.Filled taken) (room : q.count + 1 < MAXREQS) :
    (q.put x).pending taken = q.pending taken ++ [some x] := by
  cases taken with
  | false => exact content_put h.valid room
  | true =>
      show (q.put x).content.tail = q.content.tail ++ [some x]
      rw [content_put h.valid room, List.tail_append_of_ne_nil (content_ne_nil (h.there rfl))]

theorem Filled.put (h : q.Filled taken) (room : q.count + 1 < MAXREQS) :
    (q.put x).Filled taken where
  valid := h.valid.put
  full y hy := by
    rw [content_put h.valid room, List.mem_append, List.mem_singleton] at hy
    rcases hy with hy | rfl
    · exact h.full y hy
    · rfl
  there _ := by
    rw [count_put h.valid room]
    exact Nat.succ_ne_zero _

theorem putAll_spec {xs : List α} (h : q.Filled taken) (room : q.count + xs.length < MAXREQS) :
    (q.putAll xs).Filled taken ∧
      (q.putAll xs).pending taken = q.pending taken ++ xs.map some := by
  induction xs generalizing q with
  | nil => exact ⟨h, (List.append_nil _).symm⟩
  | cons x xs ih =>
      have one : q.count + 1 < MAXREQS := by
        rw [List.length_cons] at room
        omega
      have rest : (q.put x).count + xs.length < MAXREQS := by
        rw [count_put h.valid one]
        rw [List.length_cons] at room
        omega
      obtain ⟨filled, e⟩ := ih (h.put one) rest
      refine ⟨filled, e.trans ?_⟩
      rw [pending_put h one, List.append_assoc]
      rfl

/-- The oldest entry is taken. -/
theorem take (h : q.Filled false) (some : q.count ≠ 0) :
    q.Filled true ∧ q.pending false = q.slot q.out :: q.pending true :=
  ⟨⟨h.valid, h.full, fun _ => some⟩, content_head h.valid some⟩

/-- The entry that is taken leaves the ring. -/
theorem Filled.advance (h : q.Filled true) :
    q.advance.Filled false ∧ q.advance.pending false = q.pending true := by
  have e := content_advance h.valid (h.there rfl)
  refine ⟨⟨h.valid.advance, fun y hy => ?_, fun f => by cases f⟩, e⟩
  rw [e] at hy
  exact h.full y (List.mem_of_mem_tail hy)

theorem Filled.slot (h : q.Filled taken) (some : q.count ≠ 0) : (q.slot q.out).isSome := by
  refine h.full _ ?_
  rw [content_head h.valid some]
  exact List.mem_cons_self

end ReqQ

/-! ## The machine -/

/-- The piece of `rtf_sysrq_handler` that is next. -/
inductive Handler where
  | idle
  /-- `while (taskq.out != taskq.in)`. -/
  | tasks
  /-- `wake_up_process(taskq.task[taskq.out])`. -/
  | wake
  /-- `taskq.out = (taskq.out + 1) & (MAXREQS - 1)`. -/
  | next
  /-- `while (pol_asyn_q.out != pol_asyn_q.in)`. -/
  | polls
  /-- `(pol_asyn_q.fifo[pol_asyn_q.out])->pol_asyn_pended = 0`. -/
  | clear
  /-- `wake_up_interruptible` and `kill_fasync`. -/
  | notify
  /-- `pol_asyn_q.out = (pol_asyn_q.out + 1) & (MAXREQS - 1)`. -/
  | pollNext
deriving DecidableEq

structure Machine (P : Type) where
  state : State P := {}
  pc : Handler := .idle

inductive Event (P : Type) where
  | signal (minor : Nat)
  | semSignal (r : SemRef)
  | semDelete (r : SemRef)
  /-- Linux processes use the fifos. -/
  | linux (fifo : Nat → Fifo P)
  /-- The handler is called, or goes on. -/
  | handler

namespace Machine

variable {P : Type} [DecidableEq P]

/-- One piece of the handler.  Without an entry it reads through `NULL`. -/
def handlerStep (m : Machine P) : Option (Machine P) :=
  let s := m.state
  match m.pc with
  | .idle => some { m with pc := .tasks }
  | .tasks => some { m with pc := if s.taskq.out ≠ s.taskq.inp then .wake else .polls }
  | .wake => (s.taskq.slot s.taskq.out).map fun _ => { m with pc := .next }
  | .next => some { state := { s with taskq := s.taskq.advance }, pc := .tasks }
  | .polls => some { m with pc := if s.polAsynQ.out ≠ s.polAsynQ.inp then .clear else .idle }
  | .clear => (s.polAsynQ.slot s.polAsynQ.out).map fun minor =>
      { state := s.setFifo minor { s.fifo minor with polAsynPended := false }, pc := .notify }
  | .notify => (s.polAsynQ.slot s.polAsynQ.out).map fun _ => { m with pc := .pollNext }
  | .pollNext => some { state := { s with polAsynQ := s.polAsynQ.advance }, pc := .polls }

def step : Event P → Machine P → Option (Machine P)
  | .signal minor, m => some { m with state := m.state.mbxSignal minor }
  | .semSignal r, m => some { m with state := m.state.mbxSemSignal r }
  | .semDelete r, m => some { m with state := m.state.mbxSemDelete r }
  | .linux fifo, m => some { m with state := { m.state with
      fifo := fun minor =>
        { fifo minor with polAsynPended := (m.state.fifo minor).polAsynPended } } }
  | .handler, m => m.handlerStep

/-! ## What is put and what is taken -/

/-- The processes a step puts on `taskq`. -/
def wakes (s : State P) : Event P → List P
  | .signal minor => (s.fifo minor).mbx.waitingTask.toList
  | .semSignal r => (s.sem r).queue.take 1
  | .semDelete r => (s.sem r).queue
  | .linux _ | .handler => []

/-- Somebody polls the fifo and it is not on `pol_asyn_q`. -/
def polled (f : Fifo P) : Bool :=
  !f.polAsynPended && (f.mbx.avbs ≠ 0 || f.mbx.frbs ≠ 0) && (f.pollq || f.asynq)

/-- The fifo as a list, if it is polled. -/
def ifPolled (s : State P) (minor : Nat) : List Nat :=
  if polled (s.fifo minor) then [minor] else []

/-- The fifos a step puts on `pol_asyn_q`. -/
def polls (s : State P) : Event P → List Nat
  | .semSignal r =>
      if (s.sem r).queue = [] then (r.fifop.map (ifPolled s)).getD [] else []
  | _ => []

/-- The handler has taken the process at `out`. -/
def taskTaken : Handler → Bool
  | .next => true
  | _ => false

/-- The handler has taken the fifo at `out`. -/
def pollTaken : Handler → Bool
  | .notify | .pollNext => true
  | _ => false

/-- What is on `taskq` and not yet taken. -/
def tasksPending (m : Machine P) : List (Option P) := m.state.taskq.pending (taskTaken m.pc)

/-- What is on `pol_asyn_q` and not yet taken. -/
def pollsPending (m : Machine P) : List (Option Nat) :=
  m.state.polAsynQ.pending (pollTaken m.pc)

/-- What a step puts on `taskq`. -/
def tasksPut (r : Record (Machine P) (Event P)) : List (Option P) :=
  (wakes r.pre.state r.event).map some

/-- What a step of the handler takes off `taskq`. -/
def tasksTaken (r : Record (Machine P) (Event P)) : List (Option P) :=
  match r.event, r.pre.pc with
  | .handler, .wake => [r.pre.state.taskq.slot r.pre.state.taskq.out]
  | _, _ => []

/-- What a step puts on `pol_asyn_q`. -/
def pollsPut (r : Record (Machine P) (Event P)) : List (Option Nat) :=
  (polls r.pre.state r.event).map some

/-- What a step of the handler takes off `pol_asyn_q`. -/
def pollsTaken (r : Record (Machine P) (Event P)) : List (Option Nat) :=
  match r.event, r.pre.pc with
  | .handler, .clear => [r.pre.state.polAsynQ.slot r.pre.state.polAsynQ.out]
  | _, _ => []

/-- The rings have room for what the step puts on them. -/
def HasRoom (m : Machine P) (e : Event P) : Prop :=
  m.state.taskq.count + (wakes m.state e).length < MAXREQS ∧
    m.state.polAsynQ.count + (polls m.state e).length < MAXREQS

instance (m : Machine P) (e : Event P) : Decidable (HasRoom m e) :=
  inferInstanceAs (Decidable (_ ∧ _))

/-! ## What a step does to the rings -/

variable {m m' : Machine P} {e : Event P} {s : State P} {tr : List (Record (Machine P) (Event P))}

section

omit [DecidableEq P]

theorem setFifo_pended (minor i : Nat) (f : Fifo P)
    (same : f.polAsynPended = (s.fifo minor).polAsynPended) :
    ((s.setFifo minor f).fifo i).polAsynPended = (s.fifo i).polAsynPended := by
  show (update s.fifo minor f i).polAsynPended = _
  rcases eq_or_ne i minor with rfl | other
  · rw [update_self, same]
  · rw [update_of_ne other]

theorem mbxSignal_requests (minor : Nat) :
    (s.mbxSignal minor).taskq = s.taskq.putAll (wakes s (.signal minor)) ∧
      (s.mbxSignal minor).polAsynQ = s.polAsynQ ∧
      ∀ i, ((s.mbxSignal minor).fifo i).polAsynPended = (s.fifo i).polAsynPended := by
  simp only [State.mbxSignal, wakes]
  cases (s.fifo minor).mbx.waitingTask with
  | none => exact ⟨rfl, rfl, fun _ => rfl⟩
  | some task => exact ⟨rfl, rfl, fun i => setFifo_pended minor i _ rfl⟩

theorem setSem_kept (r : SemRef) (v : FSem P) :
    (s.setSem r v).taskq = s.taskq ∧ (s.setSem r v).polAsynQ = s.polAsynQ ∧
      ∀ i, polled ((s.setSem r v).fifo i) = polled (s.fifo i) ∧
        ((s.setSem r v).fifo i).polAsynPended = (s.fifo i).polAsynPended := by
  cases r with
  | sndsem minor | rcvsem minor | sem minor =>
      refine ⟨rfl, rfl, fun i => ⟨?_, setFifo_pended minor i _ rfl⟩⟩
      show polled (update s.fifo minor _ i) = _
      rcases eq_or_ne i minor with rfl | other
      · rw [update_self]
        rfl
      · rw [update_of_ne other]

theorem requestPoll_requests (minor : Nat) :
    (s.requestPoll minor).taskq = s.taskq ∧
      (s.requestPoll minor).polAsynQ = s.polAsynQ.putAll (ifPolled s minor) ∧
      ∀ i, ((s.requestPoll minor).fifo i).polAsynPended =
        ((s.fifo i).polAsynPended || decide (i ∈ ifPolled s minor)) := by
  have test : (¬(s.fifo minor).polAsynPended ∧
      ((s.fifo minor).mbx.avbs ≠ 0 ∨ (s.fifo minor).mbx.frbs ≠ 0) ∧
        ((s.fifo minor).pollq ∨ (s.fifo minor).asynq)) ↔ polled (s.fifo minor) = true := by
    simp only [polled, Bool.and_eq_true, Bool.or_eq_true, Bool.not_eq_true', decide_eq_true_eq,
      Bool.not_eq_true, and_assoc]
  by_cases h : polled (s.fifo minor) = true
  · rw [State.requestPoll, if_pos (test.mpr h), ifPolled, if_pos h]
    refine ⟨rfl, rfl, fun i => ?_⟩
    show (update s.fifo minor _ i).polAsynPended = _
    rcases eq_or_ne i minor with rfl | other
    · rw [update_self]
      simp
    · rw [update_of_ne other]
      simp [other]
  · rw [State.requestPoll, if_neg fun c => h (test.mp c), ifPolled, if_neg h]
    exact ⟨rfl, rfl, fun i => by simp⟩

end

theorem mbxSemSignal_requests (r : SemRef) :
    (s.mbxSemSignal r).taskq = s.taskq.putAll (wakes s (.semSignal r)) ∧
      (s.mbxSemSignal r).polAsynQ = s.polAsynQ.putAll (polls s (.semSignal r)) ∧
      ∀ i, ((s.mbxSemSignal r).fifo i).polAsynPended =
        ((s.fifo i).polAsynPended || decide (i ∈ polls s (.semSignal r))) := by
  rcases queue : (s.sem r).queue with _ | ⟨task, rest⟩
  · have kept := setSem_kept (s := s) r { s.sem r with free := 1 }
    rcases fifop : r.fifop with _ | minor
    · simp only [State.mbxSemSignal, wakes, polls, queue, fifop]
      exact ⟨kept.1, kept.2.1, fun i => (kept.2.2 i).2.trans (by simp)⟩
    · simp only [State.mbxSemSignal, wakes, polls, queue, fifop]
      have free := requestPoll_requests (s := s.setFree r 1) minor
      have same : ifPolled (s.setFree r 1) minor = ifPolled s minor := by
        rw [ifPolled, ifPolled]
        exact if_congr (by rw [← (kept.2.2 minor).1]; rfl) rfl rfl
      rw [same] at free
      refine ⟨free.1.trans kept.1, ?_, fun i => ?_⟩
      · exact free.2.1.trans (congrArg (ReqQ.putAll _) kept.2.1)
      · exact (free.2.2 i).trans (congrArg (· || _) (kept.2.2 i).2)
  · have kept := setSem_kept (s := s) r { s.sem r with queue := (s.sem r).queue.erase task }
    simp only [State.mbxSemSignal, wakes, polls, queue, if_neg (List.cons_ne_nil task rest)]
    refine ⟨congrArg (ReqQ.put task) kept.1, kept.2.1, fun i => ?_⟩
    exact (kept.2.2 i).2.trans (by simp)

/-- What every step but the handler's does. -/
theorem step_requests (h : step e m = some m') (other : e ≠ .handler) :
    m'.pc = m.pc ∧ m'.state.taskq = m.state.taskq.putAll (wakes m.state e) ∧
      m'.state.polAsynQ = m.state.polAsynQ.putAll (polls m.state e) ∧
      ∀ i, (m'.state.fifo i).polAsynPended =
        ((m.state.fifo i).polAsynPended || decide (i ∈ polls m.state e)) := by
  cases e with
  | signal minor =>
      cases h
      have same := mbxSignal_requests (s := m.state) minor
      exact ⟨rfl, same.1, same.2.1, fun i => (same.2.2 i).trans (by simp [polls])⟩
  | semSignal r =>
      cases h
      exact ⟨rfl, mbxSemSignal_requests r⟩
  | semDelete r =>
      cases h
      have kept := setSem_kept (s := m.state) r { m.state.sem r with queue := [] }
      exact ⟨rfl, rfl, kept.2.1, fun i => (kept.2.2 i).2.trans (by simp [polls])⟩
  | linux fifo =>
      cases h
      exact ⟨rfl, rfl, rfl, fun i => by simp [polls]⟩
  | handler => exact absurd rfl other

/-- The rings are as the handler expects them. -/
structure Sound (m : Machine P) : Prop where
  tasks : m.state.taskq.Filled (taskTaken m.pc)
  polls : m.state.polAsynQ.Filled (pollTaken m.pc)
  wake : m.pc = .wake → m.state.taskq.count ≠ 0
  clear : m.pc = .clear → m.state.polAsynQ.count ≠ 0

/-- What is pending and what is put is taken or pending. -/
structure Accounts (r : Record (Machine P) (Event P)) : Prop where
  tasks : r.pre.tasksPending ++ tasksPut r = tasksTaken r ++ r.post.tasksPending
  polls : r.pre.pollsPending ++ pollsPut r = pollsTaken r ++ r.post.pollsPending

/-- A fifo is marked while it is pending, and it is pending once. -/
structure Marked (m : Machine P) : Prop where
  pended : ∀ minor, (m.state.fifo minor).polAsynPended = true ↔ some minor ∈ m.pollsPending
  once : m.pollsPending.Nodup

theorem Sound.other (sound : m.Sound) (room : HasRoom m e) (h : step e m = some m')
    (other : e ≠ .handler) : m'.Sound ∧ Accounts ⟨m, e, m'⟩ := by
  obtain ⟨pc, taskq, polAsynQ, -⟩ := step_requests h other
  have tasks := ReqQ.putAll_spec sound.tasks room.1
  have polls := ReqQ.putAll_spec sound.polls room.2
  have grows {α : Type} {q : ReqQ α} {xs : List α} (h : q.Filled true)
      (room : q.count + xs.length < MAXREQS) : (q.putAll xs).count ≠ 0 :=
    (ReqQ.putAll_spec h room).1.there rfl
  refine ⟨⟨?_, ?_, fun here => ?_, fun here => ?_⟩, ⟨?_, ?_⟩⟩
  · rw [taskq, pc]
    exact tasks.1
  · rw [polAsynQ, pc]
    exact polls.1
  · rw [pc] at here
    rw [taskq]
    exact grows ⟨sound.tasks.valid, sound.tasks.full, fun _ => sound.wake here⟩ room.1
  · rw [pc] at here
    rw [polAsynQ]
    exact grows ⟨sound.polls.valid, sound.polls.full, fun _ => sound.clear here⟩ room.2
  · have none : tasksTaken ⟨m, e, m'⟩ = [] := by
      cases e with
      | handler => exact absurd rfl other
      | signal | semSignal | semDelete | linux => rfl
    show tasksPending m ++ _ = _ ++ tasksPending m'
    rw [none, List.nil_append, tasksPending, tasksPending, pc, taskq]
    exact tasks.2.symm
  · have none : pollsTaken ⟨m, e, m'⟩ = [] := by
      cases e with
      | handler => exact absurd rfl other
      | signal | semSignal | semDelete | linux => rfl
    show pollsPending m ++ _ = _ ++ pollsPending m'
    rw [none, List.nil_append, pollsPending, pollsPending, pc, polAsynQ]
    exact polls.2.symm

omit [DecidableEq P] in
theorem Sound.handler (sound : m.Sound) (h : m.handlerStep = some m') :
    m'.Sound ∧ Accounts ⟨m, .handler, m'⟩ := by
  obtain ⟨s, pc⟩ := m
  obtain ⟨tasks, polls, wake, clear⟩ := sound
  cases pc with
  | idle =>
      cases h
      exact ⟨⟨tasks, polls, nofun, nofun⟩, ⟨List.append_nil _, List.append_nil _⟩⟩
  | tasks =>
      cases h
      by_cases more : s.taskq.out ≠ s.taskq.inp
      · have some := mt (ReqQ.count_eq_zero tasks.valid).mp more
        simp only [if_pos more]
        exact ⟨⟨tasks, polls, fun _ => some, nofun⟩, ⟨List.append_nil _, List.append_nil _⟩⟩
      · simp only [if_neg more]
        exact ⟨⟨tasks, polls, nofun, nofun⟩, ⟨List.append_nil _, List.append_nil _⟩⟩
  | wake =>
      obtain ⟨_, _, rfl⟩ := Option.map_eq_some_iff.mp h
      obtain ⟨filled, e⟩ := ReqQ.take tasks (wake rfl)
      exact ⟨⟨filled, polls, nofun, nofun⟩, ⟨(List.append_nil _).trans e, List.append_nil _⟩⟩
  | next =>
      cases h
      obtain ⟨filled, e⟩ := tasks.advance
      exact ⟨⟨filled, polls, nofun, nofun⟩,
        ⟨(List.append_nil _).trans e.symm, List.append_nil _⟩⟩
  | polls =>
      cases h
      by_cases more : s.polAsynQ.out ≠ s.polAsynQ.inp
      · have some := mt (ReqQ.count_eq_zero polls.valid).mp more
        simp only [if_pos more]
        exact ⟨⟨tasks, polls, nofun, fun _ => some⟩, ⟨List.append_nil _, List.append_nil _⟩⟩
      · simp only [if_neg more]
        exact ⟨⟨tasks, polls, nofun, nofun⟩, ⟨List.append_nil _, List.append_nil _⟩⟩
  | clear =>
      obtain ⟨_, _, rfl⟩ := Option.map_eq_some_iff.mp h
      obtain ⟨filled, e⟩ := ReqQ.take polls (clear rfl)
      exact ⟨⟨tasks, filled, nofun, nofun⟩, ⟨List.append_nil _, (List.append_nil _).trans e⟩⟩
  | notify =>
      obtain ⟨_, _, rfl⟩ := Option.map_eq_some_iff.mp h
      exact ⟨⟨tasks, polls, nofun, nofun⟩, ⟨List.append_nil _, List.append_nil _⟩⟩
  | pollNext =>
      cases h
      obtain ⟨filled, e⟩ := polls.advance
      exact ⟨⟨tasks, filled, nofun, nofun⟩,
        ⟨List.append_nil _, (List.append_nil _).trans e.symm⟩⟩

omit [DecidableEq P] in
/-- A step puts one fifo on `pol_asyn_q`, if any, and that is not marked. -/
theorem polls_cases (s : State P) (e : Event P) :
    polls s e = [] ∨
      ∃ minor, polls s e = [minor] ∧ (s.fifo minor).polAsynPended = false := by
  cases e with
  | signal | semDelete | linux | handler => exact .inl rfl
  | semSignal r =>
      show (if (s.sem r).queue = [] then (r.fifop.map (ifPolled s)).getD [] else []) = [] ∨
        ∃ minor, (if (s.sem r).queue = [] then (r.fifop.map (ifPolled s)).getD [] else []) =
          [minor] ∧ _
      split
      next =>
        cases r.fifop with
        | none => exact .inl rfl
        | some minor =>
            show ifPolled s minor = [] ∨ ∃ i, ifPolled s minor = [i] ∧ _
            unfold ifPolled
            split
            next polled =>
              simp only [Machine.polled, Bool.and_eq_true, Bool.not_eq_true'] at polled
              exact .inr ⟨minor, rfl, polled.1.1⟩
            next => exact .inl rfl
      next => exact .inl rfl

theorem Marked.other (marked : m.Marked) (sound : m.Sound) (room : HasRoom m e)
    (h : step e m = some m') (other : e ≠ .handler) : m'.Marked := by
  obtain ⟨pc, -, polAsynQ, pended⟩ := step_requests h other
  have pending : m'.pollsPending = m.pollsPending ++ (polls m.state e).map some := by
    rw [pollsPending, pollsPending, pc, polAsynQ]
    exact (ReqQ.putAll_spec sound.polls room.2).2
  refine ⟨fun minor => ?_, ?_⟩
  · rw [pended, pending, Bool.or_eq_true, marked.pended, decide_eq_true_eq, List.mem_append,
      List.mem_map]
    simp
  · rw [pending]
    rcases polls_cases m.state e with e | ⟨minor, e, unmarked⟩
    · rw [e]
      exact (List.append_nil _).symm ▸ marked.once
    · have absent : some minor ∉ m.pollsPending := fun h => by
        rw [(marked.pended minor).mpr h] at unmarked
        cases unmarked
      rw [e, List.map_singleton, List.nodup_append]
      refine ⟨marked.once, List.pairwise_singleton _ _, fun x hx y hy e => absent ?_⟩
      rw [← List.mem_singleton.mp hy, ← e]
      exact hx

theorem Marked.handler (marked : m.Marked) (sound : m.Sound) (h : m.handlerStep = some m') :
    m'.Marked := by
  have accounts := (sound.handler h).2.polls
  obtain ⟨s, pc⟩ := m
  by_cases taking : pc = .clear
  · subst taking
    obtain ⟨minor, slot, rfl⟩ := Option.map_eq_some_iff.mp h
    have pending : (Machine.mk s .clear).pollsPending = some minor :: pollsPending _ :=
      (List.append_nil _).symm.trans (accounts.trans (congrArg (· :: _) slot))
    obtain ⟨ended, once⟩ := List.nodup_cons.mp (pending ▸ marked.once)
    refine ⟨fun i => ?_, once⟩
    have before := marked.pended i
    rw [pending, List.mem_cons] at before
    show (update s.fifo minor _ i).polAsynPended = true ↔ _
    rcases eq_or_ne i minor with rfl | other
    · rw [update_self]
      exact ⟨nofun, fun h => absurd h ended⟩
    · rw [update_of_ne other]
      refine before.trans ⟨fun h => h.resolve_left fun e => other (Option.some.inj e), .inr⟩
  · have same : m'.state.fifo = s.fifo := by
      cases pc with
      | clear => exact absurd rfl taking
      | idle | tasks | next | polls | pollNext =>
          cases h
          rfl
      | wake | notify =>
          obtain ⟨_, _, rfl⟩ := Option.map_eq_some_iff.mp h
          rfl
    have pending : (Machine.mk s pc).pollsPending = m'.pollsPending := by
      have none : pollsTaken ⟨⟨s, pc⟩, .handler, m'⟩ = [] := by
        cases pc with
        | clear => exact absurd rfl taking
        | idle | tasks | next | polls | pollNext | wake | notify => rfl
      rw [none] at accounts
      exact (List.append_nil _).symm.trans accounts
    refine ⟨fun i => ?_, pending ▸ marked.once⟩
    rw [same, ← pending]
    exact marked.pended i

/-! ## The handler alone -/

/-- The handler goes from `m` to `m'`. -/
def Goes : Machine P → Machine P → Prop :=
  Relation.ReflTransGen fun m m' => m.handlerStep = some m'

section

omit [DecidableEq P]

theorem Goes.one (h : m.handlerStep = some m') : Goes m m' := .single h

theorem Sound.goes (sound : m.Sound) (h : Goes m m') : m'.Sound := by
  classical
  induction h with
  | refl => exact sound
  | tail _ step ih => exact (ih.handler step).1

theorem Sound.wakes_on {s : State P} (sound : (Machine.mk s .wake).Sound) :
    Goes ⟨s, .wake⟩ ⟨{ s with taskq := s.taskq.advance }, .tasks⟩ := by
  obtain ⟨task, slot⟩ := Option.isSome_iff_exists.mp (sound.tasks.slot (sound.wake rfl))
  have taken : (Machine.mk s .wake).handlerStep = some ⟨s, .next⟩ :=
    congrArg (Option.map _) slot
  exact (Goes.one taken).trans (Goes.one rfl)

theorem Sound.polls_on {s : State P} (sound : (Machine.mk s .clear).Sound) :
    ∃ fifo, Goes ⟨s, .clear⟩ ⟨{ s with fifo := fifo, polAsynQ := s.polAsynQ.advance }, .polls⟩ := by
  obtain ⟨minor, slot⟩ := Option.isSome_iff_exists.mp (sound.polls.slot (sound.clear rfl))
  have taken : (Machine.mk s .clear).handlerStep =
      some ⟨s.setFifo minor { s.fifo minor with polAsynPended := false }, .notify⟩ :=
    congrArg (Option.map _) slot
  have notified : (Machine.mk (s.setFifo minor { s.fifo minor with polAsynPended := false })
      .notify).handlerStep =
      some ⟨s.setFifo minor { s.fifo minor with polAsynPended := false }, .pollNext⟩ :=
    congrArg (Option.map _) slot
  exact ⟨_, ((Goes.one taken).trans (Goes.one notified)).trans (Goes.one rfl)⟩

/-- The first loop ends. -/
theorem Sound.tasks_end (n : Nat) {s : State P} (sound : (Machine.mk s .tasks).Sound)
    (many : s.taskq.count = n) :
    ∃ s', Goes ⟨s, .tasks⟩ ⟨s', .polls⟩ ∧ s'.taskq.count = 0 := by
  induction n generalizing s with
  | zero =>
      have none := not_not.mpr ((ReqQ.count_eq_zero sound.tasks.valid).mp many)
      have leaves : (Machine.mk s .tasks).handlerStep = some ⟨s, .polls⟩ :=
        congrArg (fun pc => some (Machine.mk s pc)) (if_neg none)
      exact ⟨s, Goes.one leaves, many⟩
  | succ n ih =>
      have more : s.taskq.out ≠ s.taskq.inp := fun e => by
        rw [(ReqQ.count_eq_zero sound.tasks.valid).mpr e] at many
        cases many
      have enters : (Machine.mk s .tasks).handlerStep = some ⟨s, .wake⟩ :=
        congrArg (fun pc => some (Machine.mk s pc)) (if_pos more)
      have inside := sound.goes (Goes.one enters)
      have round := (Goes.one enters).trans inside.wakes_on
      have less : s.taskq.advance.count = n := by
        rw [ReqQ.count_advance inside.tasks.valid (inside.wake rfl), many]
        rfl
      obtain ⟨s', rest, none⟩ := ih (sound.goes round) less
      exact ⟨s', round.trans rest, none⟩

/-- The second loop ends. -/
theorem Sound.polls_end (n : Nat) {s : State P} (sound : (Machine.mk s .polls).Sound)
    (many : s.polAsynQ.count = n) :
    ∃ s', Goes ⟨s, .polls⟩ ⟨s', .idle⟩ ∧ s'.polAsynQ.count = 0 ∧ s'.taskq = s.taskq := by
  induction n generalizing s with
  | zero =>
      have none := not_not.mpr ((ReqQ.count_eq_zero sound.polls.valid).mp many)
      have leaves : (Machine.mk s .polls).handlerStep = some ⟨s, .idle⟩ :=
        congrArg (fun pc => some (Machine.mk s pc)) (if_neg none)
      exact ⟨s, Goes.one leaves, many, rfl⟩
  | succ n ih =>
      have more : s.polAsynQ.out ≠ s.polAsynQ.inp := fun e => by
        rw [(ReqQ.count_eq_zero sound.polls.valid).mpr e] at many
        cases many
      have enters : (Machine.mk s .polls).handlerStep = some ⟨s, .clear⟩ :=
        congrArg (fun pc => some (Machine.mk s pc)) (if_pos more)
      have inside := sound.goes (Goes.one enters)
      obtain ⟨fifo, round⟩ := inside.polls_on
      have round := (Goes.one enters).trans round
      have less : s.polAsynQ.advance.count = n := by
        rw [ReqQ.count_advance inside.polls.valid (inside.clear rfl), many]
        rfl
      obtain ⟨s', rest, none, same⟩ := ih (sound.goes round) less
      exact ⟨s', round.trans rest, none, same⟩

theorem Sound.polls_drained {s : State P} (sound : (Machine.mk s .polls).Sound) :
    ∃ s', Goes ⟨s, .polls⟩ ⟨s', .idle⟩ ∧ s'.polAsynQ.count = 0 ∧ s'.taskq = s.taskq :=
  sound.polls_end _ rfl

theorem Sound.tasks_drained {s : State P} (sound : (Machine.mk s .tasks).Sound) :
    ∃ s', Goes ⟨s, .tasks⟩ ⟨s', .idle⟩ ∧ s'.polAsynQ.count = 0 ∧ s'.taskq.count = 0 := by
  obtain ⟨s₁, first, none⟩ := sound.tasks_end _ rfl
  obtain ⟨s₂, second, polls, same⟩ := (sound.goes first).polls_drained
  exact ⟨s₂, first.trans second, polls, same ▸ none⟩

/-- A run of the handler ends. -/
theorem Sound.returns (sound : m.Sound) : ∃ s, Goes m ⟨s, .idle⟩ := by
  have tasks {s : State P} (h : Goes m ⟨s, .tasks⟩) : ∃ s, Goes m ⟨s, .idle⟩ := by
    obtain ⟨s', rest, -⟩ := (sound.goes h).tasks_drained
    exact ⟨s', h.trans rest⟩
  have polls {s : State P} (h : Goes m ⟨s, .polls⟩) : ∃ s, Goes m ⟨s, .idle⟩ := by
    obtain ⟨s', rest, -⟩ := (sound.goes h).polls_drained
    exact ⟨s', h.trans rest⟩
  obtain ⟨s, pc⟩ := m
  cases pc with
  | idle => exact ⟨s, .refl⟩
  | tasks => exact tasks .refl
  | wake => exact tasks sound.wakes_on
  | next => exact tasks (Goes.one rfl)
  | polls => exact polls .refl
  | clear =>
      obtain ⟨fifo, round⟩ := sound.polls_on
      exact polls round
  | notify =>
      obtain ⟨minor, slot⟩ := Option.isSome_iff_exists.mp
        (sound.polls.slot (sound.polls.there rfl))
      have notified : (Machine.mk s .notify).handlerStep = some ⟨s, .pollNext⟩ :=
        congrArg (Option.map _) slot
      exact polls ((Goes.one notified).trans (Goes.one rfl))
  | pollNext => exact polls (Goes.one rfl)

/-- The run of the handler and one more leave nothing. -/
theorem Sound.drained (sound : m.Sound) :
    ∃ m', Goes m m' ∧ m'.pc = .idle ∧ m'.tasksPending = [] ∧ m'.pollsPending = [] := by
  obtain ⟨s₁, first⟩ := sound.returns
  have starts : (Machine.mk s₁ .idle).handlerStep = some ⟨s₁, .tasks⟩ := rfl
  have again := first.trans (Goes.one starts)
  obtain ⟨s₂, second, polls, tasks⟩ := (sound.goes again).tasks_drained
  have nothing {α : Type} {q : ReqQ α} (none : q.count = 0) : q.content = [] :=
    List.eq_nil_of_length_eq_zero ((List.length_map _).trans (List.length_range.trans none))
  exact ⟨⟨s₂, .idle⟩, again.trans second, rfl, nothing tasks, nothing polls⟩

theorem taken_append (tr tr' : List (Record (Machine P) (Event P)))
    (alone : ∀ r ∈ tr', r.event = .handler) :
    (tr ++ tr').flatMap tasksPut = tr.flatMap tasksPut ∧
      (tr ++ tr').flatMap pollsPut = tr.flatMap pollsPut := by
  have tasks : tr'.flatMap tasksPut = [] := List.flatMap_eq_nil_iff.mpr fun r hr => by
    rw [tasksPut, alone r hr]
    rfl
  have polls : tr'.flatMap pollsPut = [] := List.flatMap_eq_nil_iff.mpr fun r hr => by
    rw [pollsPut, alone r hr]
    rfl
  rw [List.flatMap_append, List.flatMap_append, tasks, polls, List.append_nil, List.append_nil]
  exact ⟨rfl, rfl⟩

end

/-- The handler's steps are a run. -/
theorem Goes.run (h : Goes m m') (G : Machine P → Event P → Prop) (free : ∀ m, G m .handler) :
    ∃ tr, Run step G m tr m' ∧ ∀ r ∈ tr, r.event = .handler := by
  induction h with
  | refl => exact ⟨[], .nil, fun _ hr => absurd hr List.not_mem_nil⟩
  | tail _ stepped ih =>
      obtain ⟨tr, run, alone⟩ := ih
      refine ⟨_, run.snoc (free _) stepped, fun r hr => ?_⟩
      rcases List.mem_append.mp hr with hr | hr
      · exact alone r hr
      · rw [List.mem_singleton.mp hr]

/-! ## Runs -/

/-- What is put is taken, once and in turn, or pending. -/
structure Balanced (tr : List (Record (Machine P) (Event P))) (m : Machine P) : Prop where
  tasks : tr.flatMap tasksPut = tr.flatMap tasksTaken ++ m.tasksPending
  polls : tr.flatMap pollsPut = tr.flatMap pollsTaken ++ m.pollsPending

omit [DecidableEq P] in
theorem Balanced.snoc (balanced : Balanced tr m) (accounts : Accounts ⟨m, e, m'⟩) :
    Balanced (tr ++ [⟨m, e, m'⟩]) m' := by
  have tasks : m.tasksPending ++ tasksPut ⟨m, e, m'⟩ = tasksTaken ⟨m, e, m'⟩ ++ m'.tasksPending :=
    accounts.tasks
  have polls : m.pollsPending ++ pollsPut ⟨m, e, m'⟩ = pollsTaken ⟨m, e, m'⟩ ++ m'.pollsPending :=
    accounts.polls
  constructor
  · rw [List.flatMap_append, List.flatMap_append, List.flatMap_singleton, List.flatMap_singleton,
      balanced.tasks, List.append_assoc, tasks, List.append_assoc]
  · rw [List.flatMap_append, List.flatMap_append, List.flatMap_singleton, List.flatMap_singleton,
      balanced.polls, List.append_assoc, polls, List.append_assoc]

/-- No request is lost: what is put and not taken is pending, a fifo is marked
while it is, the handler leaves neither loop before, and gone on alone it takes
all. -/
structure Kept (tr : List (Record (Machine P) (Event P))) (m : Machine P) : Prop where
  balanced : Balanced tr m
  marked : m.Marked
  tasksLeft : ∀ m', m.handlerStep = some m' → m.pc = .tasks → m'.pc = .polls →
    m.tasksPending = []
  pollsLeft : ∀ m', m.handlerStep = some m' → m.pc = .polls → m'.pc = .idle →
    m.pollsPending = []
  drained : ∃ tr' m', Run step (fun _ _ => True) m tr' m' ∧ (∀ r ∈ tr', r.event = .handler) ∧
    m'.pc = .idle ∧ tr.flatMap tasksPut = (tr ++ tr').flatMap tasksTaken ∧
      tr.flatMap pollsPut = (tr ++ tr').flatMap pollsTaken

/-- What one step keeps, and the balance. -/
structure Good (tr : List (Record (Machine P) (Event P))) (m : Machine P) : Prop where
  sound : m.Sound
  marked : m.Marked
  balanced : Balanced tr m

omit [DecidableEq P] in
theorem Good.init : Good [] ({} : Machine P) := by
  have tasks : ({} : Machine P).tasksPending = [] := ReqQ.content_empty
  have polls : ({} : Machine P).pollsPending = [] := ReqQ.content_empty
  refine ⟨⟨.empty, .empty, nofun, nofun⟩, ⟨fun minor => ?_, ?_⟩, ⟨?_, ?_⟩⟩
  · rw [polls]
    exact ⟨nofun, nofun⟩
  · rw [polls]
    exact List.nodup_nil
  · rw [tasks]
    rfl
  · rw [polls]
    rfl

theorem Good.step (good : Good tr m) (room : HasRoom m e) (h : step e m = some m') :
    Good (tr ++ [⟨m, e, m'⟩]) m' := by
  by_cases other : e = .handler
  · subst other
    obtain ⟨sound, accounts⟩ := good.sound.handler h
    exact ⟨sound, good.marked.handler good.sound h, good.balanced.snoc accounts⟩
  · obtain ⟨sound, accounts⟩ := good.sound.other room h other
    exact ⟨sound, good.marked.other good.sound room h other, good.balanced.snoc accounts⟩

omit [DecidableEq P] in
theorem hasRoom_handler (m : Machine P) : HasRoom m .handler :=
  ⟨Nat.mod_lt _ (by decide), Nat.mod_lt _ (by decide)⟩

/-- The balance goes on while the handler does. -/
theorem Good.goes (good : Good tr m) (h : Goes m m') :
    ∃ tr', Run Machine.step (fun _ _ => True) m tr' m' ∧ (∀ r ∈ tr', r.event = .handler) ∧
      Good (tr ++ tr') m' := by
  obtain ⟨tr', run, alone⟩ := Goes.run h HasRoom hasRoom_handler
  refine ⟨tr', run.mono fun _ _ _ => trivial, alone, ?_⟩
  refine Run.history (P := fun tr' m' => Good (tr ++ tr') m') ?_ (fun g room h => ?_) run
  · rw [List.append_nil]
    exact good
  · rw [← List.append_assoc]
    exact g.step room h

theorem Good.kept (good : Good tr m) : Kept tr m where
  balanced := good.balanced
  marked := good.marked
  tasksLeft m' h here there := by
    obtain ⟨s, pc⟩ := m
    cases here
    cases h
    refine ReqQ.content_nil good.sound.tasks.valid (not_not.mp fun more => ?_)
    rw [if_pos more] at there
    cases there
  pollsLeft m' h here there := by
    obtain ⟨s, pc⟩ := m
    cases here
    cases h
    refine ReqQ.content_nil good.sound.polls.valid (not_not.mp fun more => ?_)
    rw [if_pos more] at there
    cases there
  drained := by
    obtain ⟨m', goes, idle, tasks, polls⟩ := good.sound.drained
    obtain ⟨tr', run, alone, after⟩ := good.goes goes
    refine ⟨tr', m', run, alone, idle, ?_, ?_⟩
    · have e := after.balanced.tasks
      rw [tasks, List.append_nil, (taken_append tr tr' alone).1] at e
      exact e
    · have e := after.balanced.polls
      rw [polls, List.append_nil, (taken_append tr tr' alone).2] at e
      exact e

/-- As long as the rings have room no wake-up request is lost. -/
theorem requests_kept (r : Run step HasRoom {} tr m) : Kept tr m :=
  (r.history Good.init fun good room h => good.step room h).kept

/-- A signal wakes a process and a semaphore's a poller, while the handler runs. -/
theorem requests_kept_served :
    ∃ tr, ∃ m : Machine Nat, Run step HasRoom {} tr m ∧ Kept tr m ∧
      (m.pc = .next ∧ (m.state.fifo 3).polAsynPended = true) := by
  obtain ⟨tr, m, run, test⟩ := Run.of_execute (Machine.step (P := Nat)) HasRoom {}
    [.linux fun _ => { mbx := { frbs := 1, waitingTask := some 7 }, pollq := true },
      .signal 3, .handler, .handler, .semSignal (.sndsem 3), .handler]
    (fun m => m.pc = .next ∧ (m.state.fifo 3).polAsynPended = true) (by decide)
  exact ⟨tr, m, run, requests_kept run, of_decide_eq_true test⟩

/-- Of a semaphore with 64 waiters that is destroyed the handler wakes none. -/
theorem requests_lost :
    ∃ tr, ∃ m : Machine Nat, Run step (fun _ _ => True) {} tr m ∧
      (tr.flatMap tasksPut).length = 64 ∧ tr.flatMap tasksTaken = [] ∧ m.pc = .idle ∧
        m.state.taskq.out = m.state.taskq.inp ∧ ¬ Kept tr m := by
  have crowded : Run step (fun _ _ => True) ({} : Machine Nat) _ _ :=
    Run.nil.snoc trivial (e := .linux fun _ => { sem := { queue := List.range 64 } }) rfl
  have destroyed := crowded.snoc trivial (e := .semDelete (.sem 0)) rfl
  have handled := ((destroyed.snoc trivial (e := .handler) rfl).snoc trivial
    (e := .handler) rfl).snoc trivial (e := .handler) rfl
  refine ⟨_, _, handled, by decide, rfl, rfl, by decide, fun kept => ?_⟩
  have lengths := congrArg List.length kept.balanced.tasks
  revert lengths
  decide

end Machine

end Rtai.Fifos
