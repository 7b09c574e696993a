import Rtai.Fifos.Fifo
import Rtai.Lib.Run
import Rtai.Lib.Token

/-!
# A semaphore of a fifo

Linux processes share a semaphore.  A process that waits sleeps between the two
sections of `mbx_sem_wait` or `mbx_sem_wait_timed` that run with interrupts
disabled; anything may wake it, and the other processes go on before it runs.
What happens to the rest of the module is left open.

`semaphore_exclusive` holds in runs in which no process gives up as the last one on
the queue, and no pending Linux signal finds a timed waiter or one that already
has the semaphore.
-/

namespace Rtai.Fifos

open Function Rtai.Lib

/-! ## The operations, seen from the semaphore -/

namespace State

variable {P : Type} {s : State P} {r : SemRef} {v : FSem P}

@[simp] theorem sem_setSem (s : State P) (r : SemRef) (v : FSem P) :
    (s.setSem r v).sem r = v := by
  cases r with
  | sndsem minor | rcvsem minor | sem minor =>
      simp only [setSem, sem, setMbx, setFifo, update_self]

@[simp] theorem node_setSem (s : State P) (r : SemRef) (v : FSem P) :
    (s.setSem r v).node = s.node := by
  cases r with
  | sndsem minor | rcvsem minor | sem minor => rfl

@[simp] theorem sem_requestPoll (s : State P) (r : SemRef) (minor : Nat) :
    (s.requestPoll minor).sem r = s.sem r := by
  have same (f : Fifo P) (mbx : f.mbx = (s.fifo minor).mbx) (sem : f.sem = (s.fifo minor).sem) :
      (s.setFifo minor f).sem r = s.sem r := by
    cases r with
    | sndsem i | rcvsem i | sem i =>
        simp only [State.sem, setFifo]
        rcases eq_or_ne i minor with rfl | other
        · simp only [update_self, mbx, sem]
        · simp only [update_of_ne other]
  simp only [requestPoll]
  split
  · exact same _ rfl rfl
  · rfl

@[simp] theorem node_requestPoll (s : State P) (minor : Nat) :
    (s.requestPoll minor).node = s.node := by
  simp only [requestPoll]
  split
  · rfl
  · rfl

variable [DecidableEq P] {task : P}

theorem enqueueBlocked_sem (task : P) (r : SemRef) (priority : Int) :
    ∃ queue, (s.enqueueBlocked task r priority).sem r = { s.sem r with queue := queue } ∧
      queue.Perm (task :: (s.sem r).queue) := by
  refine ⟨_, sem_setSem s r _, ?_⟩
  split
  · refine List.perm_middle.trans (List.Perm.cons _ ?_)
    rw [List.takeWhile_append_dropWhile]
  · exact List.perm_append_singleton task _

theorem dequeueBlocked_sem (task : P) :
    (s.dequeueBlocked task r).sem r =
      { s.sem r with queue := (s.sem r).queue.erase task } :=
  sem_setSem s r _

/-- The head of the queue is handed the semaphore. -/
theorem mbxSemSignal_cons {rest : List P} (queue : (s.sem r).queue = task :: rest) :
    (s.mbxSemSignal r).sem r = { s.sem r with queue := rest } ∧
      (s.mbxSemSignal r).node = update s.node task { s.node task with blocked := false } := by
  simp only [mbxSemSignal, queue]
  refine ⟨?_, rfl⟩
  refine (dequeueBlocked_sem task).trans ?_
  rw [queue, List.erase_cons_head]

/-- Without a waiter the semaphore is free. -/
theorem mbxSemSignal_nil (queue : (s.sem r).queue = []) :
    (s.mbxSemSignal r).sem r = { s.sem r with free := 1 } ∧
      (s.mbxSemSignal r).node = s.node := by
  have free : (s.setFree r 1).sem r = { s.sem r with free := 1 } ∧
      (s.setFree r 1).node = s.node := ⟨sem_setSem s r _, node_setSem s r _⟩
  rcases fifop : r.fifop with _ | minor
  · have e : s.mbxSemSignal r = s.setFree r 1 := by
      simp only [mbxSemSignal, queue, fifop]
    rw [e]
    exact free
  · have e : s.mbxSemSignal r = (s.setFree r 1).requestPoll minor := by
      simp only [mbxSemSignal, queue, fifop]
    rw [e, sem_requestPoll, node_requestPoll]
    exact free

/-- A waiter that leaves others behind only leaves the queue. -/
theorem abandon_others (others : (s.sem r).queue.erase task ≠ []) :
    s.abandon task r = s.dequeueBlocked task r := by
  have queue : ((s.dequeueBlocked task r).sem r).queue ≠ [] := by
    rw [dequeueBlocked_sem]
    exact others
  exact if_neg queue

end State

/-! ## The machine -/

/-- Where a process is. -/
inductive Phase where
  | idle
  /-- In `schedule`, or `schedule_timeout`. -/
  | waiting (timed : Bool)
  /-- Back from there, with what `check_current_blocked` found. -/
  | woken (timed pending : Bool)
  | holding
deriving DecidableEq

/-- A process that has called and not returned. -/
def Phase.waits : Phase → Prop
  | .waiting _ | .woken _ _ => True
  | .idle | .holding => False

/-- What a call that has returned leaves: the semaphore is had with 0. -/
def Phase.returned (value : Int) : Phase := if value = 0 then .holding else .idle

/-- Processes that share a semaphore. -/
structure Sharing (P : Type) where
  state : State P
  phase : P → Phase

inductive SemEvent (P : Type) where
  | waitIf (p : P)
  | wait (p : P) (timed : Bool) (priority : Int)
  /-- Linux runs the process again. -/
  | wake (p : P) (pending : Bool)
  | finish (p : P)
  /-- The holder signals. -/
  | signal (p : P)
  /-- Whatever else happens in the module. -/
  | others (fifo : Nat → Fifo P) (taskq : ReqQ P) (polAsynQ : ReqQ Nat)

namespace Sharing

variable {P : Type} [DecidableEq P]

def sem (m : Sharing P) (r : SemRef) : FSem P := m.state.sem r

/-- A process goes on with a new state of the module. -/
def goes (m : Sharing P) (p : P) (state : State P) (phase : Phase) : Sharing P where
  state := state
  phase := update m.phase p phase

def step (r : SemRef) : SemEvent P → Sharing P → Option (Sharing P)
  | .waitIf p, m =>
      if m.phase p = .idle then
        let (s, value) := m.state.mbxSemWaitIf r
        some (m.goes p s (if value = 0 then .idle else .holding))
      else none
  | .wait p timed priority, m =>
      if m.phase p = .idle then
        let (s, value) := m.state.mbxSemWait p priority r
        some (m.goes p s (value.elim (.waiting timed) .returned))
      else none
  | .wake p pending, m =>
      match m.phase p with
      | .waiting timed => some (m.goes p m.state (.woken timed pending))
      | _ => none
  | .finish p, m =>
      match m.phase p with
      | .woken false pending =>
          let (s, value) := m.state.mbxSemWaitRest p r pending
          some (m.goes p s (.returned value))
      | .woken true pending =>
          let (s, value) := m.state.mbxSemWaitTimedRest p r pending
          some (m.goes p s (.returned value))
      | _ => none
  | .signal p, m =>
      if m.phase p = .holding then some (m.goes p (m.state.mbxSemSignal r) .idle) else none
  | .others fifo taskq polAsynQ, m =>
      let s := { m.state with fifo := fifo, taskq := taskq, polAsynQ := polAsynQ }
      some { m with state := s.setSem r (m.sem r) }

/-- The processes that hold the semaphore, and the waiters that are off the queue and
will. -/
def Has (r : SemRef) (m : Sharing P) (p : P) : Prop :=
  m.phase p = .holding ∨ (m.phase p).waits ∧ p ∉ (m.sem r).queue

/-- What the processes rely on. -/
structure Exclusive (r : SemRef) (m : Sharing P) : Prop where
  one : ∀ p q, m.phase p = .holding → m.phase q = .holding → p = q
  gone : ∀ p, ¬(m.phase p).waits → p ∉ (m.sem r).queue
  free : (∀ p, ¬m.Has r p) → (m.sem r).free = 1

/-- A woken process is not the last one on the queue, and a pending signal finds it
on the queue and in `mbx_sem_wait`. -/
def Settled (r : SemRef) (m : Sharing P) (p : P) : Phase → Prop
  | .woken timed pending =>
      ((m.state.node p).blocked = true → (m.sem r).queue ≠ [p]) ∧
        (pending = true → timed = false ∧ (m.state.node p).blocked = true)
  | _ => True

/-- Only settled processes return from a wait. -/
def Orderly (r : SemRef) (m : Sharing P) : SemEvent P → Prop
  | .finish p => m.Settled r p (m.phase p)
  | _ => True

instance (r : SemRef) (m : Sharing P) (p : P) : ∀ ph, Decidable (m.Settled r p ph)
  | .woken _ _ => inferInstanceAs (Decidable (_ ∧ _))
  | .idle | .waiting _ | .holding => .isTrue trivial

instance (r : SemRef) (m : Sharing P) : ∀ e, Decidable (m.Orderly r e)
  | .finish p => inferInstanceAs (Decidable (m.Settled r p _))
  | .waitIf _ | .wait _ _ _ | .wake _ _ | .signal _ | .others _ _ _ => .isTrue trivial

/-! ## The token -/

/-- The queue holds waiters, each once and marked, and the semaphore is free, held, or
handed to a waiter. -/
structure Ok (r : SemRef) (m : Sharing P) : Prop where
  nodup : (m.sem r).queue.Nodup
  waits : ∀ p ∈ (m.sem r).queue, (m.phase p).waits
  blocked : ∀ p, (m.phase p).waits → ((m.state.node p).blocked = true ↔ p ∈ (m.sem r).queue)
  token : Token ((m.sem r).free ≠ 0) (m.Has r)
  empty : (m.sem r).free ≠ 0 → (m.sem r).queue = []
  value : (m.sem r).free ≠ 0 → (m.sem r).free = 1

variable {r : SemRef} {m m' : Sharing P} {p q : P} {ph : Phase}

omit [DecidableEq P] in
theorem Ok.exclusive (ok : m.Ok r) : m.Exclusive r where
  one _ _ hp hq := ok.token.unique (.inl hp) (.inl hq)
  gone p idle queued := idle (ok.waits p queued)
  free none := ok.value (ok.token.free_of_none none)

theorem phase_self (s : State P) (ph : Phase) : (m.goes p s ph).phase p = ph := by
  show update m.phase p ph p = ph
  rw [update_self]

theorem phase_other (s : State P) (ph : Phase) (other : q ≠ p) :
    (m.goes p s ph).phase q = m.phase q := by
  show update m.phase p ph q = m.phase q
  rw [update_of_ne other]

/-- Whoever else has the semaphore keeps it while the queue loses none of them. -/
theorem has_other {s : State P} (other : q ≠ p)
    (queue : q ∈ (s.sem r).queue ↔ q ∈ (m.sem r).queue) :
    (m.goes p s ph).Has r q ↔ m.Has r q := by
  show (m.goes p s ph).phase q = _ ∨ ((m.goes p s ph).phase q).waits ∧ q ∉ (s.sem r).queue ↔ _
  rw [phase_other s ph other, queue]
  rfl

/-- An idle process finds the semaphore free. -/
theorem Ok.takes (ok : m.Ok r) (idle : m.phase p = .idle) (free : (m.sem r).free ≠ 0) :
    (m.goes p (m.state.setFree r 0) .holding).Ok r := by
  have sem : (m.goes p (m.state.setFree r 0) .holding).sem r = { m.sem r with free := 0 } :=
    State.sem_setSem m.state r _
  have node : (m.state.setFree r 0).node = m.state.node := State.node_setSem m.state r _
  have none : (m.sem r).queue = [] := ok.empty free
  have waits (q : P) (h : ((m.goes p (m.state.setFree r 0) .holding).phase q).waits) :
      (m.phase q).waits := by
    rcases eq_or_ne q p with rfl | other
    · rw [phase_self] at h
      exact h.elim
    · rwa [phase_other _ _ other] at h
  refine ⟨?_, ?_, fun q h => ?_, ok.token.take (p := p) free ?_ fun q => ?_, ?_, ?_⟩
  · rw [sem]
    exact ok.nodup
  · rw [sem, none]
    exact nofun
  · rw [sem]
    show ((m.state.setFree r 0).node q).blocked = true ↔ _
    rw [node]
    exact ok.blocked q (waits q h)
  · rw [sem]
    exact fun h => h rfl
  · rcases eq_or_ne q p with rfl | other
    · exact ⟨fun _ => .inr rfl, fun _ => .inl (phase_self _ _)⟩
    · rw [has_other other (by rw [State.setFree, State.sem_setSem]; rfl)]
      exact ⟨.inl, fun h => h.resolve_right other⟩
  · rw [sem]
    exact fun h => absurd rfl h
  · rw [sem]
    exact fun h => absurd rfl h

/-- An idle process queues up. -/
theorem Ok.queues (ok : m.Ok r) (idle : m.phase p = .idle) (taken : (m.sem r).free = 0)
    (priority : Int) (timed : Bool) :
    (m.goes p (m.state.enqueueBlocked p r priority) (.waiting timed)).Ok r := by
  obtain ⟨queue, sem, perm⟩ := m.state.enqueueBlocked_sem p r priority
  have sem : (m.goes p (m.state.enqueueBlocked p r priority) (.waiting timed)).sem r =
      { m.sem r with queue := queue } := sem
  have out : p ∉ (m.sem r).queue := fun queued => by
    have h := ok.waits p queued
    rw [idle] at h
    exact h
  have mem (q : P) : q ∈ queue ↔ q = p ∨ q ∈ (m.sem r).queue := by
    rw [perm.mem_iff, List.mem_cons]
    rfl
  have still (q : P) (other : q ≠ p) : q ∈ queue ↔ q ∈ (m.sem r).queue :=
    (mem q).trans ⟨fun h => h.resolve_left other, .inr⟩
  refine ⟨?_, fun q queued => ?_, fun q h => ?_, ok.token.congr ?_ fun q => ?_, ?_, ?_⟩
  · rw [sem]
    exact perm.nodup_iff.mpr (List.nodup_cons.mpr ⟨out, ok.nodup⟩)
  · rw [sem] at queued
    rcases eq_or_ne q p with rfl | other
    · rw [phase_self]
      trivial
    · rw [phase_other _ _ other]
      exact ok.waits q ((still q other).mp queued)
  · rw [sem]
    show (update m.state.node p _ q).blocked = true ↔ q ∈ queue
    rcases eq_or_ne q p with rfl | other
    · rw [update_self]
      exact ⟨fun _ => (mem q).mpr (.inl rfl), fun _ => rfl⟩
    · rw [phase_other _ _ other] at h
      rw [update_of_ne other, still q other]
      exact ok.blocked q h
  · rw [sem]
  · rcases eq_or_ne q p with rfl | other
    · refine ⟨fun h => ?_, fun h => ?_⟩
      · rcases h with h | ⟨-, h⟩
        · rw [phase_self] at h
          cases h
        · rw [sem] at h
          exact absurd ((mem q).mpr (.inl rfl)) h
      · rcases h with h | ⟨h, -⟩
        · rw [idle] at h
          cases h
        · rw [idle] at h
          exact h.elim
    · refine has_other other ?_
      show q ∈ ((m.goes p (m.state.enqueueBlocked p r priority) (.waiting timed)).sem r).queue ↔ _
      rw [sem]
      exact still q other
  · rw [sem]
    exact fun h => absurd taken h
  · rw [sem]
    exact ok.value

/-- A waiter that goes on with the semaphore untouched: it still waits, or it has what
it was handed. -/
theorem Ok.goes_on (ok : m.Ok r) (waits : (m.phase p).waits)
    (after : ph.waits ∨ ph = .holding ∧ p ∉ (m.sem r).queue) : (m.goes p m.state ph).Ok r := by
  refine ⟨ok.nodup, fun q queued => ?_, fun q h => ?_, ok.token.congr Iff.rfl fun q => ?_,
    ok.empty, ok.value⟩
  · rcases eq_or_ne q p with rfl | other
    · rw [phase_self]
      exact after.resolve_right fun h => h.2 queued
    · rw [phase_other _ _ other]
      exact ok.waits q queued
  · rcases eq_or_ne q p with rfl | other
    · exact ok.blocked q waits
    · rw [phase_other _ _ other] at h
      exact ok.blocked q h
  · rcases eq_or_ne q p with rfl | other
    · refine ⟨fun h => ?_, fun h => ?_⟩
      · rcases after with after | ⟨-, out⟩
        · refine h.elim (fun h => ?_) fun h => .inr ⟨waits, h.2⟩
          rw [phase_self] at h
          rw [h] at after
          exact after.elim
        · exact .inr ⟨waits, out⟩
      · rcases h with h | ⟨-, out⟩
        · rw [h] at waits
          exact waits.elim
        · rcases after with after | ⟨after, -⟩
          · exact .inr ⟨(phase_self m.state ph).symm ▸ after, out⟩
          · exact .inl ((phase_self m.state ph).trans after)
    · exact has_other other Iff.rfl

/-- A waiter gives up and leaves others on the queue. -/
theorem Ok.abandons (ok : m.Ok r) (queued : p ∈ (m.sem r).queue) (others : (m.sem r).queue ≠ [p]) :
    (m.goes p (m.state.abandon p r) .idle).Ok r := by
  have left : (m.state.sem r).queue.erase p ≠ [] := fun none => by
    have length := List.length_erase_of_mem queued
    obtain ⟨q, only⟩ := List.length_eq_one_iff.mp
      ((Nat.sub_eq_iff_eq_add (List.length_pos_of_mem queued)).mp
        (length.symm.trans (congrArg List.length none)))
    rw [only, List.mem_singleton] at queued
    exact others (queued ▸ only)
  rw [State.abandon_others left]
  have sem : (m.goes p (m.state.dequeueBlocked p r) .idle).sem r =
      { m.sem r with queue := (m.sem r).queue.erase p } := State.dequeueBlocked_sem p
  have still (q : P) (other : q ≠ p) : q ∈ (m.sem r).queue.erase p ↔ q ∈ (m.sem r).queue :=
    List.mem_erase_of_ne other
  refine ⟨?_, fun q queued => ?_, fun q h => ?_, ok.token.congr ?_ fun q => ?_, ?_, ?_⟩
  · rw [sem]
    exact ok.nodup.erase p
  · rw [sem] at queued
    obtain ⟨other, queued⟩ := ok.nodup.mem_erase_iff.mp queued
    rw [phase_other _ _ other]
    exact ok.waits q queued
  · rcases eq_or_ne q p with rfl | other
    · rw [phase_self] at h
      exact h.elim
    · rw [sem]
      show (update m.state.node p _ q).blocked = true ↔ q ∈ (m.sem r).queue.erase p
      rw [phase_other _ _ other] at h
      rw [update_of_ne other, still q other]
      exact ok.blocked q h
  · rw [sem]
  · rcases eq_or_ne q p with rfl | other
    · refine ⟨fun h => ?_, fun h => ?_⟩
      · rcases h with h | ⟨h, -⟩
        · rw [phase_self] at h
          cases h
        · rw [phase_self] at h
          exact h.elim
      · rcases h with h | ⟨-, out⟩
        · have waits := ok.waits q queued
          rw [h] at waits
          exact waits.elim
        · exact absurd queued out
    · refine has_other other ?_
      show q ∈ ((m.goes p (m.state.dequeueBlocked p r) .idle).sem r).queue ↔ _
      rw [sem]
      exact still q other
  · rw [sem]
    intro free
    have none := ok.empty free
    rw [none] at queued
    cases queued
  · rw [sem]
    exact ok.value

/-- The holder hands the semaphore to the head of the queue. -/
theorem Ok.hands (ok : m.Ok r) (holds : m.phase p = .holding) {task : P} {rest : List P}
    (queue : (m.sem r).queue = task :: rest) :
    (m.goes p (m.state.mbxSemSignal r) .idle).Ok r := by
  obtain ⟨sem, node⟩ := State.mbxSemSignal_cons queue
  have sem : (m.goes p (m.state.mbxSemSignal r) .idle).sem r = { m.sem r with queue := rest } := sem
  have nodup := ok.nodup
  rw [queue, List.nodup_cons] at nodup
  have taskWaits : (m.phase task).waits := ok.waits task (queue ▸ List.mem_cons_self)
  have apart : task ≠ p := fun e => by
    rw [e, holds] at taskWaits
    exact taskWaits
  have taken : ¬(m.sem r).free ≠ 0 := ok.token.not_free (.inl holds)
  refine ⟨?_, fun q queued => ?_, fun q h => ?_,
    ok.token.pass (p := p) (q := task) (.inl holds) ?_ fun q => ?_, ?_, ?_⟩
  · rw [sem]
    exact nodup.2
  · rw [sem] at queued
    have queued : q ∈ (m.sem r).queue := queue ▸ List.mem_cons_of_mem task queued
    have waits := ok.waits q queued
    have other : q ≠ p := fun e => by
      rw [e, holds] at waits
      exact waits
    rwa [phase_other _ _ other]
  · have other : q ≠ p := fun e => by
      rw [e, phase_self] at h
      exact h
    rw [phase_other _ _ other] at h
    rw [sem]
    show ((m.state.mbxSemSignal r).node q).blocked = true ↔ q ∈ rest
    rw [node]
    rcases eq_or_ne q task with rfl | behind
    · rw [update_self]
      exact ⟨nofun, fun h => absurd h nodup.1⟩
    · rw [update_of_ne behind, ok.blocked q h, queue, List.mem_cons]
      exact ⟨fun h => h.resolve_left behind, .inr⟩
  · rw [sem]
    exact taken
  · rcases eq_or_ne q p with rfl | other
    · refine ⟨fun h => ?_, fun h => ?_⟩
      · rcases h with h | ⟨h, -⟩
        · rw [phase_self] at h
          cases h
        · rw [phase_self] at h
          exact h.elim
      · rcases h with ⟨-, h⟩ | h
        · exact absurd rfl h
        · exact absurd h.symm apart
    · rcases eq_or_ne q task with rfl | behind
      · refine ⟨fun _ => .inr rfl, fun _ => .inr ⟨?_, ?_⟩⟩
        · rwa [phase_other _ _ other]
        · rw [sem]
          exact nodup.1
      · rw [has_other other ?_]
        · exact ⟨fun h => .inl ⟨h, other⟩, fun h => (h.resolve_right behind).1⟩
        · show q ∈ ((m.goes p (m.state.mbxSemSignal r) .idle).sem r).queue ↔ _
          rw [sem, queue, List.mem_cons]
          exact ⟨.inr, fun h => h.resolve_left behind⟩
  · rw [sem]
    exact fun free => absurd free taken
  · rw [sem]
    exact fun free => absurd free taken

/-- The holder finds nobody on the queue. -/
theorem Ok.frees (ok : m.Ok r) (holds : m.phase p = .holding) (queue : (m.sem r).queue = []) :
    (m.goes p (m.state.mbxSemSignal r) .idle).Ok r := by
  obtain ⟨sem, node⟩ := State.mbxSemSignal_nil queue
  have sem : (m.goes p (m.state.mbxSemSignal r) .idle).sem r = { m.sem r with free := 1 } := sem
  have other (q : P) (h : ((m.goes p (m.state.mbxSemSignal r) .idle).phase q).waits) : q ≠ p := by
    rintro rfl
    rw [phase_self] at h
    exact h
  refine ⟨?_, fun q queued => ?_, fun q h => ?_, ok.token.release (p := p) (.inl holds) ?_ fun q => ?_,
    ?_, ?_⟩
  · rw [sem]
    exact ok.nodup
  · rw [sem, queue] at queued
    cases queued
  · have apart := other q h
    rw [phase_other _ _ apart] at h
    rw [sem]
    show ((m.state.mbxSemSignal r).node q).blocked = true ↔ _
    rw [node]
    exact ok.blocked q h
  · rw [sem]
    exact Int.one_ne_zero
  · rcases eq_or_ne q p with rfl | apart
    · refine ⟨fun h => ?_, fun h => absurd rfl h.2⟩
      rcases h with h | ⟨h, -⟩
      · rw [phase_self] at h
        cases h
      · exact absurd rfl (other q h)
    · rw [has_other apart ?_]
      · exact ⟨fun h => ⟨h, apart⟩, And.left⟩
      · show q ∈ ((m.goes p (m.state.mbxSemSignal r) .idle).sem r).queue ↔ _
        rw [sem]
  · rw [sem]
    exact fun _ => queue
  · rw [sem]
    exact fun _ => rfl

omit [DecidableEq P] in
/-- Only the semaphore, the nodes and the phases matter. -/
theorem Ok.congr (ok : m.Ok r) (sem : m'.sem r = m.sem r) (node : m'.state.node = m.state.node)
    (phase : m'.phase = m.phase) : m'.Ok r := by
  refine ⟨?_, ?_, ?_, ok.token.congr ?_ fun q => ?_, ?_, ?_⟩
  · rw [sem]
    exact ok.nodup
  · rw [sem, phase]
    exact ok.waits
  · rw [sem, node, phase]
    exact ok.blocked
  · rw [sem]
  · rw [Has, Has, sem, phase]
  · rw [sem]
    exact ok.empty
  · rw [sem]
    exact ok.value

/-- A call returns: the waiter has given up, or it has what it was handed. -/
theorem Ok.returns (ok : m.Ok r) (waits : (m.phase p).waits)
    (others : (m.state.node p).blocked = true → (m.sem r).queue ≠ [p]) {s : State P} {value : Int}
    (returns : (m.state.node p).blocked = true ∧ s = m.state.abandon p r ∧ value ≠ 0 ∨
      ¬(m.state.node p).blocked = true ∧ s = m.state ∧ value = 0) :
    (m.goes p s (.returned value)).Ok r := by
  rcases returns with ⟨blocked, rfl, failed⟩ | ⟨handed, rfl, rfl⟩
  · rw [Phase.returned, if_neg failed]
    exact ok.abandons ((ok.blocked p waits).mp blocked) (others blocked)
  · rw [Phase.returned, if_pos rfl]
    exact ok.goes_on waits (.inr ⟨rfl, fun queued => handed ((ok.blocked p waits).mpr queued)⟩)

/-- What an orderly return from `mbx_sem_wait` is. -/
theorem waitRest_returns (s : State P) (pending : Bool)
    (signal : pending = true → (s.node p).blocked = true) :
    (s.node p).blocked = true ∧ (s.mbxSemWaitRest p r pending).1 = s.abandon p r ∧
        (s.mbxSemWaitRest p r pending).2 ≠ 0 ∨
      ¬(s.node p).blocked = true ∧ (s.mbxSemWaitRest p r pending).1 = s ∧
        (s.mbxSemWaitRest p r pending).2 = 0 := by
  by_cases blocked : (s.node p).blocked = true
  · refine .inl ⟨blocked, ?_⟩
    simp only [State.mbxSemWaitRest, if_pos blocked, true_and]
    cases pending with
    | true => decide
    | false => decide
  · have none : pending = false := by
      cases pending with
      | true => exact absurd (signal rfl) blocked
      | false => rfl
    subst none
    refine .inr ⟨blocked, ?_⟩
    simp only [State.mbxSemWaitRest, if_neg blocked, true_and]
    rfl

/-- What an orderly return from `mbx_sem_wait_timed` is. -/
theorem waitTimedRest_returns (s : State P) :
    (s.node p).blocked = true ∧ (s.mbxSemWaitTimedRest p r false).1 = s.abandon p r ∧
        (s.mbxSemWaitTimedRest p r false).2 ≠ 0 ∨
      ¬(s.node p).blocked = true ∧ (s.mbxSemWaitTimedRest p r false).1 = s ∧
        (s.mbxSemWaitTimedRest p r false).2 = 0 := by
  by_cases blocked : (s.node p).blocked = true
  · refine .inl ⟨blocked, ?_⟩
    simp only [State.mbxSemWaitTimedRest, Bool.false_eq_true, if_false, if_pos blocked, true_and]
    decide
  · refine .inr ⟨blocked, ?_⟩
    simp only [State.mbxSemWaitTimedRest, Bool.false_eq_true, if_false, if_neg blocked, and_self]

theorem Ok.step (ok : m.Ok r) {e : SemEvent P} (orderly : m.Orderly r e)
    (h : step r e m = some m') : m'.Ok r := by
  cases e with
  | waitIf p =>
      simp only [Sharing.step, State.mbxSemWaitIf] at h
      split at h
      next idle =>
        split at h
        next free =>
          cases h
          exact ok.takes idle free
        next taken =>
          cases h
          exact ok.congr rfl rfl (update_eq_self_iff.mpr idle.symm)
      next => cases h
  | wait p timed priority =>
      simp only [Sharing.step, State.mbxSemWait] at h
      split at h
      next idle =>
        split at h
        next taken =>
          cases h
          exact ok.queues idle taken priority timed
        next free =>
          cases h
          exact ok.takes idle free
      next => cases h
  | wake p pending =>
      simp only [Sharing.step] at h
      split at h
      next timed waiting =>
        cases h
        exact ok.goes_on (by rw [waiting]; trivial) (.inl trivial)
      next => cases h
  | finish p =>
      simp only [Sharing.step] at h
      split at h
      next pending woken =>
        cases h
        simp only [Orderly, woken, Settled] at orderly
        exact ok.returns (by rw [woken]; trivial) orderly.1
          (waitRest_returns m.state pending fun signal => (orderly.2 signal).2)
      next pending woken =>
        cases h
        simp only [Orderly, woken, Settled] at orderly
        have none : pending = false := by
          cases pending with
          | true => cases (orderly.2 rfl).1
          | false => rfl
        subst none
        exact ok.returns (by rw [woken]; trivial) orderly.1 (waitTimedRest_returns m.state)
      next => cases h
  | signal p =>
      simp only [Sharing.step] at h
      split at h
      next holds =>
        cases h
        rcases queue : (m.sem r).queue with _ | ⟨task, rest⟩
        · exact ok.frees holds queue
        · exact ok.hands holds queue
      next => cases h
  | others fifo taskq polAsynQ =>
      cases h
      exact ok.congr (State.sem_setSem _ r _) (State.node_setSem _ r _) rfl

/-! ## Runs -/

/-- `mbx_sem_init(sem, 1)`, and nobody there yet. -/
structure Initial (r : SemRef) (m : Sharing P) : Prop where
  free : (m.sem r).free = 1
  queue : (m.sem r).queue = []
  idle : ∀ p, m.phase p = .idle

omit [DecidableEq P] in
theorem Initial.ok (init : m.Initial r) : m.Ok r := by
  have nobody (p : P) : ¬m.Has r p := fun h => by
    rcases h with h | ⟨h, -⟩
    · rw [init.idle] at h
      cases h
    · rw [init.idle] at h
      exact h
  refine ⟨?_, fun p queued => ?_, fun p waits => ?_, .inl ⟨?_, nobody⟩, fun _ => init.queue,
    fun _ => init.free⟩
  · rw [init.queue]
    exact List.nodup_nil
  · rw [init.queue] at queued
    cases queued
  · rw [init.idle] at waits
    exact waits.elim
  · rw [init.free]
    exact Int.one_ne_zero

/-- In orderly runs one process at most holds the semaphore, nobody who has returned is
on the queue, and the semaphore is free when nobody has it. -/
theorem semaphore_exclusive {m₀ : Sharing P} (init : m₀.Initial r)
    {tr : List (Record (Sharing P) (SemEvent P))}
    (run : Run (step r) (fun m e => m.Orderly r e) m₀ tr m) : m.Exclusive r :=
  (run.invariant init.ok fun ok orderly h => ok.step orderly h).exclusive

/-- The semaphore `mbx_init` leaves in fifo 0. -/
def fresh : Sharing Nat where
  state := { fifo := fun _ => { mbx := .mbxInit 1 fun _ => 0 } }
  phase _ := .idle

theorem fresh_initial : fresh.Initial (.sndsem 0) := ⟨rfl, rfl, fun _ => rfl⟩

/-- A waiter times out while another is behind it, which is handed the semaphore. -/
theorem semaphore_exclusive_handed :
    ∃ tr m, Run (step (.sndsem 0)) (fun m e => m.Orderly (.sndsem 0) e) fresh tr m ∧
      m.Exclusive (.sndsem 0) ∧ (m.phase 1 = .idle ∧ m.phase 3 = .holding) := by
  obtain ⟨tr, m, run, test⟩ := Run.of_execute (step (.sndsem 0))
    (fun m e => m.Orderly (.sndsem 0) e) fresh
    [.waitIf 1, .wait 2 true 0, .wait 3 false 0, .wake 2 false, .finish 2, .signal 1,
      .wake 3 false, .finish 3]
    (fun m => m.phase 1 = .idle ∧ m.phase 3 = .holding) (by decide)
  exact ⟨tr, m, run, semaphore_exclusive fresh_initial run, of_decide_eq_true test⟩

/-- The last waiter is interrupted, and two processes hold the semaphore. -/
theorem semaphore_shared :
    ∃ tr m, Run (step (.sndsem 0)) (fun _ _ => True) fresh tr m ∧
      ¬m.Exclusive (.sndsem 0) := by
  obtain ⟨tr, m, run, test⟩ := Run.of_execute (step (.sndsem 0)) (fun _ _ => True) fresh
    [.wait 1 false 0, .wait 2 false 0, .wake 2 true, .finish 2, .waitIf 3]
    (fun m => m.phase 1 = .holding ∧ m.phase 3 = .holding) (by decide)
  have both := of_decide_eq_true test
  refine ⟨tr, m, run, fun exclusive => ?_⟩
  have same := exclusive.one 1 3 both.1 both.2
  revert same
  decide

end Sharing

end Rtai.Fifos
