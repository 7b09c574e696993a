import Rtai.Tbx.Places
import Rtai.Lib.Token

/-!
# The two sides of a typed mailbox

`Orderly n s` is kept by the calls of `rt_tbx_send`, `rt_tbx_urgent` and `rt_tbx_receive_until` with
messages of `n` bytes.  It says of each task by itself how its words agree with its place, and of all
of them who waits on which queue, whom `tbx_signal` may wake and that a semaphore has one holder.

A step changes the words of one task, so that most of its effects are a case of `Orderly.keep`.
-/

namespace Rtai.Tbx

open Function Rtai.Lib
open Rtai.Up (TaskState READY SUSPENDED DELAYED SEMAPHORE TIMED_OUT)

/-! ## A task by itself -/

/-- The message is for one receiver. -/
def Sending.Single : Sending → Prop
  | broadcast _ => False
  | _ => True

/-- The calls that use messages of `n` bytes. -/
def Op.Of (n : Nat) : Op → Prop
  | put k .plain msg => k.Single ∧ msg.length = n
  | receive .timed msgSize => msgSize = n
  | _ => False

theorem Op.Of.cases {n : Nat} {op : Op} (h : op.Of n) :
    (∃ k msg, op = .put k .plain msg ∧ k.Single ∧ msg.length = n) ∨ op = .receive .timed n := by
  cases op with
  | put k form msg =>
      cases form with
      | plain => exact .inl ⟨k, msg, rfl, h⟩
      | cond => exact h.elim
      | timed => exact h.elim
  | receive form msgSize =>
      cases form with
      | plain => exact h.elim
      | cond => exact h.elim
      | timed =>
          obtain rfl : msgSize = n := h
          exact .inr rfl

namespace Pc

/-- The places in these calls. -/
def Of (n : Nat) : Pc → Prop
  | user => True
  | smxWait op | entered op | wait op _ => op.Of n
  | put k form msg => (Op.put k form msg).Of n
  | core msgSize type => msgSize = n ∧ type ≠ TYPE_BROADCAST
  | signal x out | leave x out => x ≠ .bcbsmx ∧ out.lock = false
  | share _ | lock _ | lockWait _ => False

/-- `blocked_on` of a task that waits at the place. -/
def blocks : Pc → BlockedOn
  | smxWait op => .queue op.smx
  | wait _ _ => .something
  | _ => .nothing

/-- A task waits at the place without a time. -/
def plain : Pc → Prop
  | smxWait op | wait op _ => op.form = .plain
  | _ => False

/-- The semaphore that a task has taken at the place, or waits for. -/
def smx : Pc → Option Smx
  | smxWait op | entered op | wait op _ => some op.smx
  | put _ _ _ => some .sndsmx
  | core _ _ | share _ => some .rcvsmx
  | signal x _ | leave x _ => some x
  | user | lock _ | lockWait _ => none

end Pc

/-- The words of a task agree with its place. -/
structure Stands (n : Nat) (w : TaskWords) : Prop where
  of : w.pc.Of n
  blocked : w.blockedOn = .nothing ∨ w.blockedOn = w.pc.blocks
  timed : w.timed = true → w.state.delayed = true ∧ w.blockedOn ≠ .nothing ∧ w.ready = false
  plain : w.blockedOn ≠ .nothing → w.pc.plain → w.ready = false ∧ w.timed = false

/-- The task has the semaphore. -/
def TaskWords.Holds (x : Smx) (w : TaskWords) : Prop := w.pc.smx = some x ∧ w.blockedOn ≠ .queue x

namespace Stands

variable {n : Nat} {w : TaskWords} {pc : Pc} {x : Smx}

theorem awake (of : w.pc.Of n) (free : w.blockedOn = .nothing) (untimed : w.timed = false) :
    Stands n w :=
  ⟨of, .inl free, fun timed => absurd (untimed.symm.trans timed) nofun,
    fun blocked => absurd free blocked⟩

variable (h : Stands n w)
include h

theorem untimed (free : w.blockedOn = .nothing) : w.timed = false := by
  by_contra timed
  exact (h.timed (eq_true_of_ne_false timed)).2.1 free

/-- An awake task is elsewhere. -/
theorem goes (free : w.blockedOn = .nothing) (of : pc.Of n) :
    Stands n { w with pc := pc } := awake of free (h.untimed free)

/-- A task that is no longer on the timed list is not waited for there. -/
theorem remTimed_timed : w.remTimed.timed = false := by
  rw [TaskWords.remTimed]
  split
  · rfl
  next undelayed =>
    by_contra timed
    exact undelayed (h.timed (eq_true_of_ne_false timed)).1

theorem dequeued : Stands n w.dequeued := by
  have untimed : ({ w with blockedOn := .nothing } : TaskWords).remTimed.timed = false := by
    have off := h.remTimed_timed
    rw [TaskWords.remTimed] at off ⊢
    split at off
    next delayed => rw [if_pos (by exact delayed)]
    next undelayed =>
      rw [if_neg (by exact undelayed)]
      exact off
  refine awake ?_ ?_ untimed
  · rw [TaskWords.dequeued_pc]
    exact h.of
  · exact w.dequeued_blockedOn

theorem signalled : Stands n w.signalled := by
  refine awake ?_ rfl h.remTimed_timed
  rw [TaskWords.signalled_pc]
  exact h.of

/-- The time of a task is over. -/
theorem wakeUp (timed : w.timed = true) : Stands n w.wakeUp := by
  refine ⟨h.of, h.blocked, nofun, ?_⟩
  intro blocked plain
  exact absurd ((h.plain blocked plain).2.symm.trans timed) nofun

/-- A task that runs is not on the timed list. -/
theorem untimed_of_ready (ready : w.ready = true) : w.timed = false := by
  by_contra timed
  have asleep := (h.timed (eq_true_of_ne_false timed)).2.2
  exact absurd (ready.symm.trans asleep) nofun

/-- Where a task waits without a time, it does not run before it is woken. -/
theorem woken (ready : w.ready = true) (plain : w.pc.plain) : w.blockedOn = .nothing := by
  by_contra blocked
  exact absurd (ready.symm.trans (h.plain blocked plain).1) nofun

theorem queue_smx (blocked : w.blockedOn = .queue x) : ∃ op, w.pc = .smxWait op ∧ op.smx = x := by
  rcases h.blocked with free | at_place
  · rw [blocked] at free
    cases free
  · rw [blocked] at at_place
    cases e : w.pc with
    | smxWait op =>
        rw [e] at at_place
        exact ⟨op, rfl, (BlockedOn.queue.inj at_place).symm⟩
    | _ =>
        rw [e] at at_place
        cases at_place

/-- A task that runs outside of the waits is not blocked. -/
theorem free (pc : w.pc.blocks = .nothing) : w.blockedOn = .nothing :=
  h.blocked.elim id fun e => e.trans pc

/-- A task that runs behind the wait for a semaphore has it. -/
theorem holds (still : w.pc.blocks = .nothing) (smx : w.pc.smx = some x) : w.Holds x := by
  refine ⟨smx, ?_⟩
  rw [h.free still]
  nofun

end Stands

/-! ## All of them -/

namespace Mailbox

variable {Task : Type} [DecidableEq Task] {s s' : Mailbox Task} {t u : Task} {n : Nat}
  {x : Smx} {op : Op} {out : Out} {type : UInt8} {w : TaskWords} {pc : Pc}

/-- The tasks agree with the queues, with `waiting_task` and with the counts. -/
structure Orderly (n : Nat) (s : Mailbox Task) : Prop where
  stands : ∀ t, Stands n (s.task t)
  queued : ∀ x t, t ∈ s.queue x ↔ (s.task t).blockedOn = .queue x
  nodup : ∀ x, (s.queue x).Nodup
  waiting : ∀ t, s.waitingTask = some t → (s.task t).blockedOn = .something
  gate : ∀ x, Token (s.count x ≠ 0) fun t => (s.task t).Holds x

namespace Orderly

section

omit [DecidableEq Task]

variable (h : Orderly n s) (here : (s.task t).pc = pc)
include h here

theorem ofAt : pc.Of n := here ▸ (h.stands t).of

/-- A task at a place without a wait is not blocked. -/
theorem freeAt (still : pc.blocks = .nothing) :
    (s.task t).blockedOn = .nothing := (h.stands t).free (here ▸ still)

/-- A task behind the wait for a semaphore has it. -/
theorem holdsAt (still : pc.blocks = .nothing) (smx : pc.smx = some x) :
    (s.task t).Holds x := (h.stands t).holds (here ▸ still) (here ▸ smx)

end

/-- A task that does not wait for `tbx_signal` may change. -/
theorem waiting_update (h : Orderly n s) (other : (s.task t).blockedOn ≠ .something) :
    ∀ u, s.waitingTask = some u → (update s.task t w u).blockedOn = .something := by
  intro u waits
  have something := h.waiting u waits
  have ne : u ≠ t := fun e => other (e ▸ something)
  rwa [update_of_ne ne]

/-- The words of one task change. -/
theorem change (h : Orderly n s) (task : s'.task = update s.task t w) (stands : Stands n w)
    (queued : ∀ x, t ∈ s'.queue x ↔ w.blockedOn = .queue x)
    (others : ∀ x u, u ≠ t → (u ∈ s'.queue x ↔ u ∈ s.queue x)) (nodup : ∀ x, (s'.queue x).Nodup)
    (waiting : ∀ u, s'.waitingTask = some u → (update s.task t w u).blockedOn = .something)
    (gate : ∀ x, Token (s'.count x ≠ 0) fun u => (update s.task t w u).Holds x) : Orderly n s' := by
  constructor
  · intro u
    rw [task]
    by_cases e : u = t
    · rwa [e, update_self]
    · rw [update_of_ne e]
      exact h.stands u
  · intro x u
    rw [task]
    by_cases e : u = t
    · rw [e, update_self]
      exact queued x
    · rw [update_of_ne e, others x u e]
      exact h.queued x u
  · exact nodup
  · rwa [task]
  · rwa [task]

/-- The words of one task change, and it is on no other queue and has the same semaphore. -/
theorem keep (h : Orderly n s) (task : s'.task = update s.task t w) (queue : s'.queue = s.queue)
    (count : s'.count = s.count) (stands : Stands n w)
    (still : ∀ x, w.blockedOn = .queue x ↔ (s.task t).blockedOn = .queue x)
    (smx : ∀ x, w.Holds x ↔ (s.task t).Holds x)
    (waiting : ∀ u, s'.waitingTask = some u → (update s.task t w u).blockedOn = .something) :
    Orderly n s' := by
  refine h.change task stands ?_ (fun x u _ => by rw [queue]) (queue ▸ h.nodup) waiting ?_
  · intro x
    rw [queue, h.queued, still]
  · intro x
    rw [count]
    refine (h.gate x).congr Iff.rfl fun u => ?_
    by_cases e : u = t
    · rw [e, update_self, smx]
    · rw [update_of_ne e]

/-- An awake task goes on to a place of the same semaphore. -/
theorem setPc (h : Orderly n s) (free : (s.task t).blockedOn = .nothing) (of : pc.Of n)
    (same : pc.smx = (s.task t).pc.smx) : Orderly n (s.setPc t pc) := by
  refine h.keep rfl rfl rfl ((h.stands t).goes free of) (fun _ => Iff.rfl) ?_
    (h.waiting_update (by rw [free]; nofun))
  intro x
  rw [TaskWords.Holds, TaskWords.Holds, same]

omit [DecidableEq Task] in
/-- The buffer is nobody's. -/
theorem setBuffer (h : Orderly n s) (b : Buffer) : Orderly n { s with buffer := b } :=
  ⟨h.stands, h.queued, h.nodup, h.waiting, h.gate⟩

/-- The time of a task is over. -/
theorem wakeUp (h : Orderly n s) (timed : (s.task t).timed = true) :
    Orderly n (s.modify t .wakeUp) := by
  refine h.keep rfl rfl rfl ((h.stands t).wakeUp timed) (fun _ => Iff.rfl) (fun _ => Iff.rfl) ?_
  intro u waits
  have something := h.waiting u waits
  by_cases e : u = t
  · rw [e, update_self]
    exact e ▸ something
  · rwa [update_of_ne e]

omit [DecidableEq Task] in
/-- Who waits for `tbx_signal` is on no queue. -/
theorem something_iff_nothing : BlockedOn.something = .queue x ↔ BlockedOn.nothing = .queue x :=
  ⟨nofun, nofun⟩

variable {f : TaskWords → TaskWords}

/-- A task begins to wait for `tbx_signal`. -/
theorem await (h : Orderly n s) (free : (s.task t).blockedOn = .nothing)
    (stands : Stands n { f (s.task t) with blockedOn := .something })
    (same : (f (s.task t)).pc.smx = (s.task t).pc.smx) : Orderly n (s.await t f) := by
  refine h.keep rfl rfl rfl stands ?_ ?_ ?_
  · intro x
    rw [free]
    exact something_iff_nothing
  · intro x
    show (f (s.task t)).pc.smx = some x ∧ BlockedOn.something ≠ .queue x ↔ (s.task t).Holds x
    rw [TaskWords.Holds, same, free]
    exact and_congr_right fun _ => not_congr something_iff_nothing
  · rintro u ⟨⟩
    rw [update_self]

theorem tbxSignal (h : Orderly n s) : Orderly n s.tbxSignal := by
  rw [Mailbox.tbxSignal]
  split
  · exact h
  next task waits =>
    have something := h.waiting task waits
    refine h.keep rfl rfl rfl (h.stands task).signalled ?_ ?_ ?_
    · intro x
      rw [something]
      exact something_iff_nothing.symm
    · intro x
      rw [TaskWords.Holds, TaskWords.Holds, TaskWords.signalled_pc, something]
      exact and_congr_right fun _ => not_congr something_iff_nothing.symm
    · rintro u ⟨⟩

/-- The time of a task that waits for `tbx_signal` is over, and it goes on. -/
theorem timedOut (h : Orderly n s) (something : (s.task t).blockedOn = .something)
    (pc : (s.task t).pc = .wait op type) (untimed : (s.task t).timed = false)
    (side : op.smx ≠ .bcbsmx) : Orderly n (s.timedOut t op) := by
  refine h.keep rfl rfl rfl (.awake ?_ rfl untimed) ?_ ?_ ?_
  · refine ⟨side, ?_⟩
    cases op <;> rfl
  · intro x
    rw [something]
    exact something_iff_nothing.symm
  · intro x
    rw [TaskWords.Holds, TaskWords.Holds, something, pc]
    exact and_congr_right fun _ => not_congr something_iff_nothing.symm
  · rintro u ⟨⟩

theorem outside_not_holds (outside : w.pc.smx = none) : ¬w.Holds x := by
  rintro ⟨smx, -⟩
  rw [outside] at smx
  cases smx

/-- A task takes the free semaphore. -/
theorem take (h : Orderly n s) (free : (s.task t).blockedOn = .nothing)
    (outside : (s.task t).pc.smx = none) (there : s.count op.smx ≠ 0) (of : op.Of n) :
    Orderly n ((s.setCount op.smx 0).setPc t (.entered op)) := by
  have none (x : Smx) : ¬(s.task t).Holds x := outside_not_holds outside
  have holds (x : Smx) (u : Task) : (update s.task t { s.task t with pc := .entered op } u).Holds x ↔
      (s.task u).Holds x ∨ x = op.smx ∧ u = t := by
    by_cases e : u = t
    · rw [e, update_self, or_iff_right (none x), and_iff_left rfl, TaskWords.Holds, free]
      exact ⟨fun here => (Option.some.inj here.1).symm, fun here => ⟨congrArg some here.symm, nofun⟩⟩
    · rw [update_of_ne e, or_iff_left fun here => e here.2]
  refine h.change rfl ((h.stands t).goes free of) (fun x => h.queued x t) (fun _ _ _ => Iff.rfl)
    h.nodup (h.waiting_update (by rw [free]; nofun)) ?_
  intro x
  by_cases e : x = op.smx
  · subst e
    have taker (u : Task) : (update s.task t { s.task t with pc := .entered op } u).Holds op.smx ↔
        (s.task u).Holds op.smx ∨ u = t := (holds op.smx u).trans (or_congr_right (and_iff_right rfl))
    exact (h.gate op.smx).take there (not_not.mpr (update_self _ _ _)) taker
  · refine (h.gate x).congr ?_ fun u => (holds x u).trans (or_iff_left fun here => e here.1)
    exact iff_of_eq (congrArg (· ≠ 0) (update_of_ne e _ _))

/-- A task waits for a semaphore. -/
theorem enqueue (h : Orderly n s) (free : (s.task t).blockedOn = .nothing)
    (outside : (s.task t).pc.smx = none) (pc : (f (s.task t)).pc = .smxWait op)
    (stands : Stands n { f (s.task t) with blockedOn := .queue op.smx }) :
    Orderly n (((s.addWaiting 1).modify t f).enqueueBlocked t op.smx) := by
  have task : (((s.addWaiting 1).modify t f).enqueueBlocked t op.smx).task =
      update s.task t { f (s.task t) with blockedOn := .queue op.smx } := by
    show update (update s.task t _) t _ = _
    rw [update_idem]
    congr 1
    show ({ update s.task t (f (s.task t)) t with blockedOn := .queue op.smx } : TaskWords) = _
    rw [update_self]
  have absent : t ∉ s.queue op.smx := by
    rw [h.queued, free]
    nofun
  refine h.change task stands ?_ ?_ ?_ (h.waiting_update (by rw [free]; nofun)) ?_
  · intro x
    by_cases e : x = op.smx
    · subst e
      refine iff_of_true ?_ rfl
      show t ∈ update s.queue op.smx _ op.smx
      rw [update_self]
      exact mem_enqueue.mpr (.inl rfl)
    · refine iff_of_false ?_ fun same => e (BlockedOn.queue.inj same).symm
      show t ∉ update s.queue op.smx _ x
      rw [update_of_ne e]
      show t ∉ s.queue x
      rw [h.queued, free]
      nofun
  · intro x u ne
    show u ∈ update s.queue op.smx _ x ↔ _
    by_cases e : x = op.smx
    · subst e
      rw [update_self]
      exact mem_enqueue.trans (or_iff_right ne)
    · rw [update_of_ne e]
  · intro x
    show (update s.queue op.smx _ x).Nodup
    by_cases e : x = op.smx
    · subst e
      rw [update_self]
      exact enqueue_perm.nodup_iff.mpr (List.nodup_cons.mpr ⟨absent, h.nodup _⟩)
    · rw [update_of_ne e]
      exact h.nodup x
  · intro x
    refine (h.gate x).congr Iff.rfl fun u => ?_
    by_cases e : u = t
    · rw [e, update_self]
      refine iff_of_false ?_ (outside_not_holds outside)
      rintro ⟨smx, not⟩
      have smx : (f (s.task t)).pc.smx = some x := smx
      rw [pc] at smx
      exact not (congrArg BlockedOn.queue (Option.some.inj smx))
    · rw [update_of_ne e]

/-- The time of a task that waits for a semaphore is over, and it returns. -/
theorem unqueue (h : Orderly n s) (blocked : (s.task t).blockedOn = .queue op.smx)
    (pc : (s.task t).pc = .smxWait op) (untimed : (s.task t).timed = false) :
    Orderly n (((s.dequeueBlocked t).addWaiting (-1)).finish t out) := by
  have erased : s.dequeueBlocked t =
      { s with queue := update s.queue op.smx ((s.queue op.smx).erase t) }.modify t
        fun w => { w with blockedOn := .nothing } := by
    rw [dequeueBlocked, blocked]
  have task : (((s.dequeueBlocked t).addWaiting (-1)).finish t out).task =
      update s.task t { s.task t with blockedOn := .nothing, pc := .user } := by
    rw [erased]
    show update (update s.task t _) t _ = _
    rw [update_idem]
    congr 1
    show ({ update s.task t _ t with pc := .user } : TaskWords) = _
    rw [update_self]
  have queue : (((s.dequeueBlocked t).addWaiting (-1)).finish t out).queue =
      update s.queue op.smx ((s.queue op.smx).erase t) := by
    rw [erased]
    rfl
  have same : (((s.dequeueBlocked t).addWaiting (-1)).finish t out).count = s.count ∧
      (((s.dequeueBlocked t).addWaiting (-1)).finish t out).waitingTask = s.waitingTask := by
    rw [erased]
    exact ⟨rfl, rfl⟩
  refine h.change task (.awake trivial rfl untimed) ?_ ?_ ?_ ?_ ?_
  · intro x
    rw [queue]
    refine iff_of_false ?_ (by simp)
    by_cases e : x = op.smx
    · rw [e, update_self]
      exact (h.nodup _).not_mem_erase
    · rw [update_of_ne e, h.queued, blocked]
      exact fun same => e (BlockedOn.queue.inj same).symm
  · intro x u ne
    rw [queue]
    by_cases e : x = op.smx
    · rw [e, update_self, List.mem_erase_of_ne ne]
    · rw [update_of_ne e]
  · intro x
    rw [queue]
    by_cases e : x = op.smx
    · rw [e, update_self]
      exact (h.nodup _).erase t
    · rw [update_of_ne e]
      exact h.nodup x
  · rw [same.2]
    exact h.waiting_update (by simp [blocked])
  · intro x
    rw [same.1]
    refine (h.gate x).congr Iff.rfl fun u => ?_
    by_cases e : u = t
    · rw [e, update_self]
      refine iff_of_false (outside_not_holds rfl) ?_
      rintro ⟨smx, not⟩
      rw [pc] at smx
      exact not (blocked.trans (congrArg BlockedOn.queue (Option.some.inj smx)))
    · rw [update_of_ne e]

/-- A task gives its semaphore back when nobody waits for it. -/
theorem giveBack (h : Orderly n s) (holds : (s.task t).Holds x)
    (free : (s.task t).blockedOn = .nothing) : Orderly n ((s.setCount x 1).finish t out) := by
  have user : Stands n { s.task t with pc := .user } := (h.stands t).goes free trivial
  refine h.change rfl user (fun x => h.queued x t) (fun _ _ _ => Iff.rfl) h.nodup
    (h.waiting_update (by rw [free]; nofun)) ?_
  intro y
  have gone : ¬({ s.task t with pc := .user } : TaskWords).Holds y := outside_not_holds rfl
  by_cases e : y = x
  · subst e
    refine (h.gate y).release holds ?_ fun u => ?_
    · show update s.count y 1 y ≠ 0
      rw [update_self]
      exact Int.one_ne_zero
    · by_cases e : u = t
      · rw [e, update_self]
        exact iff_of_false gone fun here => here.2 rfl
      · rw [update_of_ne e]
        exact (and_iff_left e).symm
  · refine (h.gate y).congr ?_ fun u => ?_
    · show update s.count x 1 y ≠ 0 ↔ _
      rw [update_of_ne e]
    · by_cases here : u = t
      · rw [here, update_self]
        refine iff_of_false gone fun other => e ?_
        exact Option.some.inj (other.1.symm.trans holds.1)
      · rw [update_of_ne here]

/-- A task gives its semaphore to the first one that waits for it. -/
theorem handOver (h : Orderly n s) (holds : (s.task t).Holds x)
    (free : (s.task t).blockedOn = .nothing) {rest : List Task} (first : s.queue x = u :: rest) :
    Orderly n ((({ s with queue := update s.queue x rest }.addWaiting (-1)).modify u
      .dequeued).finish t out) := by
  have waits : (s.task u).blockedOn = .queue x := (h.queued x u).mp (first ▸ List.mem_cons_self)
  have other : u ≠ t := by
    rintro rfl
    rw [free] at waits
    cases waits
  obtain ⟨absent, nodup⟩ := List.nodup_cons.mp (first ▸ h.nodup x)
  obtain ⟨op, pc, side⟩ := (h.stands u).queue_smx waits
  -- `u` is woken with the semaphore, and `t` is outside.
  have words (v : Task) : ((({ s with queue := update s.queue x rest }.addWaiting (-1)).modify u
      .dequeued).finish t out).task v = if v = t then { s.task t with pc := .user } else
        if v = u then (s.task u).dequeued else s.task v := by
    show update (update s.task u _) t _ v = _
    by_cases here : v = t
    · rw [here, update_self, if_pos rfl]
      show ({ update s.task u _ t with pc := .user } : TaskWords) = _
      rw [update_of_ne other.symm]
    · rw [update_of_ne here, if_neg here]
      by_cases there : v = u
      · rw [there, update_self, if_pos rfl]
        rfl
      · rw [update_of_ne there, if_neg there]
  constructor
  · intro v
    rw [words]
    split
    · exact (h.stands t).goes free trivial
    · split
      · exact (h.stands u).dequeued
      · exact h.stands v
  · intro y v
    show v ∈ update s.queue x rest y ↔ _
    rw [words]
    have before := h.queued y v
    have shorter : v ∈ update s.queue x rest y ↔ v ∈ s.queue y ∧ v ≠ u := by
      by_cases e : y = x
      · subst e
        rw [update_self, first, List.mem_cons]
        refine ⟨fun mem => ⟨.inr mem, fun e => absent (e ▸ mem)⟩, fun mem => mem.1.resolve_left mem.2⟩
      · rw [update_of_ne e]
        refine (and_iff_left_of_imp fun mem e' => e ?_).symm
        rw [before, e', waits] at mem
        exact (BlockedOn.queue.inj mem).symm
    rw [shorter, before]
    split
    next here =>
      rw [here, free]
      exact iff_of_false (fun mem => nomatch mem.1) nofun
    next here =>
      split
      next there =>
        refine iff_of_false (fun mem => mem.2 there) ?_
        rw [TaskWords.dequeued_blockedOn]
        nofun
      next there => exact and_iff_left there
  · intro y
    show (update s.queue x rest y).Nodup
    by_cases e : y = x
    · rw [e, update_self]
      exact nodup
    · rw [update_of_ne e]
      exact h.nodup y
  · intro v names
    have something := h.waiting v names
    rw [words]
    split
    next here =>
      rw [here, free] at something
      cases something
    next =>
      split
      next there =>
        rw [there, waits] at something
        cases something
      next => exact something
  · intro y
    have gone : ¬({ s.task t with pc := .user } : TaskWords).Holds y := outside_not_holds rfl
    have woken : (s.task u).dequeued.Holds y ↔ x = y := by
      rw [TaskWords.Holds, TaskWords.dequeued_pc, TaskWords.dequeued_blockedOn, pc]
      show some op.smx = some y ∧ _ ↔ _
      rw [side, Option.some.injEq]
      exact and_iff_left nofun
    by_cases e : y = x
    · subst e
      refine (h.gate y).pass (q := u) holds ((h.gate y).not_free holds) fun v => ?_
      rw [words]
      split
      next here =>
        rw [here]
        exact iff_of_false gone fun mem => mem.elim (fun mem => mem.2 rfl) fun e => other e.symm
      next here =>
        split
        next there => exact iff_of_true (woken.mpr rfl) (.inr there)
        next there => exact (and_iff_left here).symm.trans (or_iff_left there).symm
    · refine (h.gate y).congr Iff.rfl fun v => ?_
      rw [words]
      split
      next here =>
        rw [here]
        exact iff_of_false gone fun mem => e (Option.some.inj (mem.1.symm.trans holds.1))
      next here =>
        split
        next there =>
          refine iff_of_false (fun mem => e (woken.mp mem).symm) fun mem => e ?_
          rw [there, TaskWords.Holds, pc] at mem
          exact (Option.some.inj mem.1).symm.trans side
        next => exact Iff.rfl

/-- A task leaves. -/
theorem leave (h : Orderly n s) (pc : (s.task t).pc = .leave x out) (v : Out) :
    Orderly n ((s.tbxSmxSignal x).finish t v) := by
  have free := h.freeAt pc rfl
  have holds : (s.task t).Holds x := h.holdsAt pc rfl rfl
  rw [tbxSmxSignal]
  split
  · exact h.giveBack holds free
  next first => exact h.handOver holds free first

end Orderly

end Mailbox

end Rtai.Tbx
