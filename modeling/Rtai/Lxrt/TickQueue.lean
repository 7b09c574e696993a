import Rtai.Lib.Deltas
import Rtai.Lib.Run

/-!
# The tick queue

The queue in which a task keeps its `QBLK`s, and the functions on it.  A doubly linked list is
the list of its blocks.  What a block does when it is executed may be any of the calls, so
the functions that are running are a stack, and a call is made by the one on top of it, or by
the task when there is none.  `RTIME` is an integer: while the clock and the dates are less
than `2 ^ 62` in size no `TIC` leaves `long long` (`Sound.fits`).

Beside what the source has, the state keeps for each block when it is due, what delay it has
been given and how many insertions were before its own, and which insertions have ended in an
execution or a removal.
-/

namespace Rtai.Lxrt.TickQueue

open Function Rtai.Lib

variable {α : Type} [DecidableEq α]

/-- `cur->hook`: none, `&TQ->hook`, `&TQ->exec` or the hook of another queue. -/
inductive Place where
  | none
  | tick
  | exec
  | other (hook : Nat)
deriving DecidableEq

/-- A block that is being executed; `touched` when it has been dequeued or rescheduled since. -/
structure Running (α : Type) where
  block : α
  rpt : Int
  touched : Bool := false
deriving DecidableEq

inductive Frame (α : Type) where
  /-- In the loops of `rt_qSync`. -/
  | syncing
  /-- In the `exec_func` of `tqcomplete`. -/
  | executing (f : Running α)
deriving DecidableEq

/-- What orders the executions: blocks put at the head go first, the last one foremost, and
the others by the time that they are due and then by their insertion. -/
structure Key where
  soon : Bool
  due : Int
  stamp : Nat
deriving DecidableEq

def Key.Before (a b : Key) : Prop :=
  (a.soon = true ∧ (b.soon = true → b.stamp < a.stamp)) ∨
  (a.soon = false ∧ b.soon = false ∧ (a.due < b.due ∨ (a.due = b.due ∧ a.stamp < b.stamp)))

instance (a b : Key) : Decidable (a.Before b) := inferInstanceAs (Decidable (_ ∨ _))

/-- An execution, with the time and the number of insertions before it. -/
structure Entry (α : Type) where
  block : α
  key : Key
  due : Int
  time : Int
  count : Nat
deriving DecidableEq

structure State (α : Type) where
  /-- `TQ->hook`, `TQ->exec` and `TQ->wait`. -/
  hook : List α := []
  exec : List α := []
  wait : Option α := none
  /-- `TQ->tic`. -/
  tic : Int := 0
  /-- `TIC(cur)` and `RPT(cur)`. -/
  blkTic : α → Int := fun _ => 0
  blkRpt : α → Int := fun _ => 0
  place : α → Place := fun _ => .none
  frames : List (Frame α) := []
  /-- `rt_get_time()`. -/
  now : Int := 0
  due : α → Int := fun _ => 0
  delay : α → Int := fun _ => 0
  soon : α → Bool := fun _ => false
  stamp : α → Nat := fun _ => 0
  count : Nat := 0
  log : List (Entry α) := []
  removed : List Nat := []

namespace State

/-- A block with a negative delay is overdue by it, and executed as if it had none. -/
def key (b : α) (s : State α) : Key := ⟨s.soon b, s.due b - min (s.delay b) 0, s.stamp b⟩

/-- The blocks from `TQ->wait` on. -/
def pending (s : State α) : List α :=
  match s.wait with
  | none => []
  | some w => s.hook.dropWhile (· ≠ w)

/-- The blocks behind one, the first of them `cur->nxt`. -/
def behind (cur : α) (s : State α) : List α := (s.hook.dropWhile (· ≠ cur)).tail

/-- `rt_qBlkBefore`. -/
def putBefore (cur nxt : α) : List α → List α
  | [] => []
  | b :: rest => if b = nxt then cur :: b :: rest else b :: putBefore cur nxt rest

/-- `rt_qBlkUnhook`. -/
def unhook (cur : α) (s : State α) : State α :=
  match s.place cur with
  | .tick => { s with hook := s.hook.erase cur, place := update s.place cur .none }
  | .exec => { s with exec := s.exec.erase cur, place := update s.place cur .none }
  | _ => { s with place := update s.place cur .none }

/-- `rt_qBlkRelease`; which blocks are free does not matter to the queue. -/
def blkRelease (cur : α) (s : State α) : State α :=
  if s.place cur ≠ .none then s.unhook cur else s

def tqcancel (cur : α) (s : State α) : State α :=
  { s with
    blkTic := match (s.behind cur).head? with
      | some n => update s.blkTic n (s.blkTic n + s.blkTic cur)
      | none => s.blkTic
    wait := if s.wait = some cur then (s.behind cur).head? else s.wait }

/-- `tqadjust`, whose loop is `Deltas.passed`. -/
def tqadjust (s : State α) : State α :=
  let left := Deltas.passed (s.now - s.tic) s.pending s.blkTic
  { s with tic := s.now, wait := left.1.head?, blkTic := left.2 }

/-- What `tqadjust` returns. -/
def expired (s : State α) : Bool := s.hook.head? != s.wait

/-- The ghosts of an insertion. -/
def record (cur : α) (soon : Bool) (time delay : Int) (s : State α) : State α :=
  { s with
    due := update s.due cur (time + delay)
    delay := update s.delay cur delay
    soon := update s.soon cur soon
    stamp := update s.stamp cur s.count
    count := s.count + 1 }

/-- `tqinsert` behind `tqadjust`; the loop is `Deltas.seek`. -/
def link (cur : α) (tic : Int) (s : State α) : State α :=
  let place := Deltas.seek tic s.pending s.blkTic
  { s with
    wait := match s.wait with
      | some w => if tic ≥ s.blkTic w then some w else if tic ≠ 0 then some cur else some w
      | none => if tic ≠ 0 then some cur else none
    hook := match place.2.head? with
      | some nxt => putBefore cur nxt s.hook
      | none => s.hook ++ [cur]
    blkTic := update (Deltas.closer place.1 place.2 s.blkTic) cur place.1
    place := update s.place cur .tick }

def tqinsert (cur : α) (tic : Int) (rpt : Bool) (s : State α) : State α :=
  let s := { s with blkRpt := update s.blkRpt cur (if rpt then tic else 0) }.tqadjust
  (s.link cur tic).record cur false s.tic tic

def entry (cur : α) (s : State α) : Entry α :=
  { block := cur, key := s.key cur, due := s.due cur, time := s.now, count := s.count }

/-- The part of `tqcomplete` before the function is executed. -/
def tqcomplete (cur : α) (s : State α) : State α :=
  let s := { s with
    log := s.log ++ [s.entry cur]
    frames := .executing { block := cur, rpt := s.blkRpt cur } :: s.frames }
  if s.blkRpt cur = 0 then s.blkRelease cur
  else
    let s := s.unhook cur
    { s with exec := cur :: s.exec, place := update s.place cur .exec }

/-- The part behind it. -/
def tqcompleted (f : Running α) (s : State α) : State α :=
  if s.exec.head? = some f.block then
    (s.unhook f.block).tqinsert f.block (s.blkRpt f.block) true
  else s

/-- The executions of a block know that it has been dequeued or rescheduled. -/
def touch (cur : α) (s : State α) : State α :=
  { s with
    frames := s.frames.map fun
      | .executing f => .executing { f with touched := f.touched || f.block == cur }
      | .syncing => .syncing }

def blkDequeue (cur : α) (s : State α) : State α :=
  match s.place cur with
  | .none => s
  | .tick => { (s.tqcancel cur).unhook cur with removed := s.stamp cur :: s.removed }
  | _ => s.unhook cur

def blkCancel (cur : α) (s : State α) : State α := (s.blkDequeue cur).blkRelease cur

def blkSoon (cur : α) (s : State α) : State α :=
  let s := s.blkDequeue cur
  { s with
    hook := cur :: s.hook
    place := update s.place cur .tick
    blkRpt := update s.blkRpt cur 0
    blkTic := update s.blkTic cur 0 }.record cur true s.now 0

end State

inductive Event (α : Type) where
  /-- Time goes by. -/
  | time (t : Int)
  /-- A block that is in neither queue of the task is hooked to another. -/
  | hookAt (b : α) (hook : Nat)
  | blkWait (b : α) (tic : Int)
  | blkRepeat (b : α) (tic : Int)
  | blkSoon (b : α)
  | blkDequeue (b : α)
  | blkCancel (b : α)
  /-- `rt_qBlkSchedule` of a block that is not in the tick queue. -/
  | blkSchedule (b : α) (tic : Int)
  | qSync
  | qStep
  /-- The next turn of the loops of `rt_qSync`. -/
  | turn
  /-- The function that is executed returns. -/
  | ret
deriving DecidableEq

namespace State

/-- The task or a function of a block may call. -/
def Calling (s : State α) : Prop := s.frames.head? ≠ some .syncing

instance (s : State α) : Decidable s.Calling := inferInstanceAs (Decidable (_ ≠ _))

/-- `while (TQ->hook.head != TQ->wait) tqcomplete(TQ->hook.head)`, or the condition of the
outer loop. -/
def turn (rest : List (Frame α)) (s : State α) : State α :=
  match s.hook.head?, s.wait with
  | some b, wait =>
      if wait ≠ some b then s.tqcomplete b
      else if s.tqadjust.expired then s.tqadjust
      else { s.tqadjust with frames := rest }
  | none, _ => { s with frames := rest }

def qStep (s : State α) : State α :=
  match s.hook.head? with
  | none => s
  | some b =>
      if s.expired then s.tqcomplete b
      else if s.tqadjust.expired then s.tqadjust.tqcomplete b
      else s.tqadjust

end State

def step : Event α → State α → Option (State α)
  | .time t, s => if s.now ≤ t then some { s with now := t } else none
  | .hookAt b hook, s =>
      if s.Calling ∧ s.place b ≠ .tick ∧ s.place b ≠ .exec then
        some { s with place := update s.place b (.other hook) }
      else none
  | .blkWait b tic, s =>
      if s.Calling then some (((s.touch b).blkDequeue b).tqinsert b tic false) else none
  | .blkRepeat b tic, s =>
      if s.Calling then some (((s.touch b).blkDequeue b).tqinsert b tic true) else none
  | .blkSoon b, s => if s.Calling then some ((s.touch b).blkSoon b) else none
  | .blkDequeue b, s => if s.Calling then some ((s.touch b).blkDequeue b) else none
  | .blkCancel b, s => if s.Calling then some ((s.touch b).blkCancel b) else none
  | .blkSchedule b tic, s =>
      if s.Calling ∧ s.place b ≠ .tick then
        some (((s.touch b).unhook b).tqinsert b tic false)
      else none
  | .qSync, s => if s.Calling then some { s with frames := .syncing :: s.frames } else none
  | .qStep, s => if s.Calling then some s.qStep else none
  | .turn, s =>
      match s.frames with
      | .syncing :: rest => some (s.turn rest)
      | _ => none
  | .ret, s =>
      match s.frames with
      | .executing f :: rest => some ({ s with frames := rest }.tqcompleted f)
      | _ => none

end Rtai.Lxrt.TickQueue
