import Rtai.Lib.Hooks
import Rtai.Lib.Run

/-!
# The pointers and the memory of the qBlks

The functions of `qblk.c` on the pointers as they are stored: a hook has the first and the
last block of its queue, a block its two neighbours and its hook, and the blocks that are free
are linked by the same `nxt` as those in a queue.  `none` is a `NULL` that is used, or a loop
that does not end: a list meets no block twice, so the number of blocks is `fuel` enough.

Beside what the source has, `heap` and `freed` are what `rt_malloc` and `rt_free` have done,
`static` is the memory that `rt_qBlkInit` has been given, and `handed` says that a block that
`rt_qDynInit` has returned has not been released since.
-/

namespace Rtai.Lxrt.Qblk

open Function Rtai.Lib

/-- `&TQ->hook`, `&TQ->exec` and the hooks of other queues. -/
inductive Hook where
  | tick
  | exec
  | other (hook : Nat)
deriving DecidableEq

/-- `cur->lnk`. -/
inductive Lnk where
  | nullLnk
  | null
  | at (p : Nat)
deriving DecidableEq

abbrev Queues (α : Type) := Hooked Hook α

/-! ## Queues -/

namespace Queues

variable {α : Type} [DecidableEq α]

/-- `*(p ? &p->nxt : &hook->head) = v`. -/
def storeNxt (hook : Option Hook) (p v : Option α) (q : Queues α) : Option (Queues α) :=
  match hook, p with
  | some h, p => some (q.setNxt h p v)
  | none, some b => some { q with nxt := update q.nxt b v }
  | none, none => none

/-- `*(p ? &p->prv : &hook->tail) = v`. -/
def storePrv (hook : Option Hook) (p v : Option α) (q : Queues α) : Option (Queues α) :=
  match hook, p with
  | some h, p => some (q.setPrv h p v)
  | none, some b => some { q with prv := update q.prv b v }
  | none, none => none

def qBlkUnhook (cur : α) (q : Queues α) : Option (Queues α) := do
  let q ← storePrv (q.hook cur) (q.nxt cur) (q.prv cur) q
  let q ← storeNxt (q.hook cur) (q.prv cur) (q.nxt cur) q
  return { q with hook := update q.hook cur none }

/-- `if (cur->hook) rt_qBlkUnhook(cur)`. -/
def unhookIf (cur : α) (q : Queues α) : Option (Queues α) :=
  if (q.hook cur).isSome then qBlkUnhook cur q else some q

def qBlkBefore (cur nxt : α) (q : Queues α) : Option (Queues α) := do
  let q ← unhookIf cur q
  let q := { q with hook := update q.hook cur (q.hook nxt) }
  let q := { q with nxt := update q.nxt cur (some nxt) }
  let q := { q with prv := update q.prv cur (q.prv nxt) }
  let q := { q with prv := update q.prv nxt (some cur) }
  storeNxt (q.hook cur) (q.prv cur) (some cur) q

def qBlkAfter (cur prv : α) (q : Queues α) : Option (Queues α) := do
  let q ← unhookIf cur q
  let q := { q with hook := update q.hook cur (q.hook prv) }
  let q := { q with prv := update q.prv cur (some prv) }
  let q := { q with nxt := update q.nxt cur (q.nxt prv) }
  let q := { q with nxt := update q.nxt prv (some cur) }
  storePrv (q.hook cur) (q.nxt cur) (some cur) q

def qBlkAtHead (cur : α) (hook : Hook) (q : Queues α) : Option (Queues α) := do
  let q ← unhookIf cur q
  let q := { q with hook := update q.hook cur (some hook) }
  let q := { q with prv := update q.prv cur none }
  let q := { q with nxt := update q.nxt cur (q.head hook) }
  let q := q.setPrv hook (q.nxt cur) (some cur)
  return { q with head := update q.head hook (some cur) }

def qBlkAtTail (cur : α) (hook : Hook) (q : Queues α) : Option (Queues α) := do
  let q ← unhookIf cur q
  let q := { q with hook := update q.hook cur (some hook) }
  let q := { q with nxt := update q.nxt cur none }
  let q := { q with prv := update q.prv cur (q.tail hook) }
  let q := q.setNxt hook (q.prv cur) (some cur)
  return { q with tail := update q.tail hook (some cur) }

end Queues

/-! ## The task -/

structure State (α : Type) where
  queues : Queues α
  /-- `TQ->free`, `TQ->wait` and `TQ->tic`. -/
  free : Option α
  wait : Option α
  tic : Int
  /-- `TIC(cur)` and `RPT(cur)`. -/
  blkTic : α → Int
  blkRpt : α → Int
  lnk : α → Lnk
  /-- What the link pointers point to. -/
  linked : Nat → Option α
  /-- The task has its `TickQueue`. -/
  tickQueue : Bool
  /-- The blocks that are being executed, the last one first. -/
  frames : List α
  /-- What `rt_qDynInit` has returned. -/
  value : Option α
  heap : α → Bool
  freed : List α
  static : α → Bool
  handed : α → Bool

namespace State

variable {α : Type} [DecidableEq α]

def setTic (cur : α) (tic : Int) (s : State α) : State α :=
  { s with blkTic := update s.blkTic cur tic }

/-- The task after `rt_InitTickQueue`. -/
def start : State α where
  queues := .empty
  free := none
  wait := none
  tic := 0
  blkTic := fun _ => 0
  blkRpt := fun _ => 0
  lnk := fun _ => .null
  linked := fun _ => none
  tickQueue := true
  frames := []
  value := none
  heap := fun _ => false
  freed := []
  static := fun _ => false
  handed := fun _ => false

/-- A function on the queues. -/
def run (f : Queues α → Option (Queues α)) (s : State α) : Option (State α) :=
  (f s.queues).map fun q => { s with queues := q }

/-- The block is put on the free list. -/
def pushFree (cur : α) (s : State α) : State α :=
  { s with
    queues := { s.queues with nxt := update s.queues.nxt cur s.free }
    free := some cur }

def qBlkRelease (cur : α) (s : State α) : Option (State α) := do
  let s ← s.run (Queues.unhookIf cur)
  match s.lnk cur with
  | .nullLnk => return s
  | .null => return { s.pushFree cur with handed := update s.handed cur false }
  | .at p =>
      return { s.pushFree cur with
        linked := update s.linked p none
        handed := update s.handed cur false }

variable [Fintype α]

/-- A loop over a list ends within it. -/
def fuel (α : Type) [Fintype α] : Nat := Fintype.card α + 1

/-- `RPT(cur) = TIC(cur) = 0; cur->hook = &TQ->hook`. -/
def toTick (s : State α) (cur : α) : State α :=
  { s with
    blkTic := update s.blkTic cur 0
    blkRpt := update s.blkRpt cur 0
    queues := { s.queues with hook := update s.queues.hook cur (some .tick) } }

/-- `rt_qHookFlush` behind its loop. -/
def moveToTick (hook : Hook) (first last : α) (wait : Option α) (q : Queues α) : Queues α :=
  let q := { q with nxt := update q.nxt last wait }
  let q := match wait with
    | none =>
        let q := { q with prv := update q.prv first (q.tail .tick) }
        { q with tail := update q.tail .tick (some last) }
    | some w =>
        let q := { q with prv := update q.prv first (q.prv w) }
        { q with prv := update q.prv w (some last) }
  let q := q.setNxt .tick (q.prv first) (some first)
  { q with head := update q.head hook none, tail := update q.tail hook none }

def qHookFlush (hook : Hook) (s : State α) : Option (State α) :=
  match s.queues.head hook with
  | none => some s
  | some cur => do
      let s ← follow s.queues.nxt toTick (fuel α) cur (s.toTick cur)
      let last ← s.queues.tail hook
      return { s with queues := moveToTick hook cur last s.wait s.queues }

/-! ### The tick queue -/

def tqcancel (cur : α) (s : State α) : State α :=
  { s with
    blkTic := match s.queues.nxt cur with
      | some n => update s.blkTic n (s.blkTic n + s.blkTic cur)
      | none => s.blkTic
    wait := if s.wait = some cur then s.queues.nxt cur else s.wait }

/-- `tic < TIC(cur)`. -/
def later (p : Int × (α → Int)) (cur : α) : Bool := p.1 < p.2 cur

/-- `tic -= TIC(cur); TIC(cur) = 0`. -/
def pass (p : Int × (α → Int)) (cur : α) : Int × (α → Int) :=
  (p.1 - p.2 cur, update p.2 cur 0)

/-- `tqadjust` when `rt_get_time` returns `now`. -/
def tqadjust (now : Int) (s : State α) : Option (State α) :=
  if s.wait = none then some { s with tic := now }
  else do
    let (cur, tic, blkTic) ← walk s.queues.nxt later pass (fuel α) s.wait (now - s.tic, s.blkTic)
    return { s with
      tic := now
      wait := cur
      blkTic := match cur with
        | some b => update blkTic b (blkTic b - tic)
        | none => blkTic }

def tqinsert (cur : α) (tic : Int) (rpt : Bool) (now : Int) (s : State α) :
    Option (State α) := do
  let s ← tqadjust now { s with blkRpt := update s.blkRpt cur (if rpt then tic else 0) }
  let (nxt, left) ← walk s.queues.nxt (fun tic nxt => tic < s.blkTic nxt)
    (fun tic nxt => tic - s.blkTic nxt) (fuel α) s.wait tic
  let passes := s.wait.any fun w => s.blkTic w ≤ tic
  let s := if passes then s else if tic = 0 then s else { s with wait := some cur }
  let s ← match nxt with
    | some n => (s.setTic n (s.blkTic n - left)).run (Queues.qBlkBefore cur n)
    | none => s.run (Queues.qBlkAtTail cur .tick)
  return s.setTic cur left

/-- Only the tick queue of the hooks of a task has a cancel function. -/
def qBlkDequeue (cur : α) (s : State α) : Option (State α) :=
  match s.queues.hook cur with
  | none => some s
  | some .tick => (s.tqcancel cur).run (Queues.qBlkUnhook cur)
  | some _ => s.run (Queues.qBlkUnhook cur)

def qBlkWait (cur : α) (tic now : Int) (s : State α) : Option (State α) := do
  (← s.qBlkDequeue cur).tqinsert cur tic false now

def qBlkRepeat (cur : α) (tic now : Int) (s : State α) : Option (State α) := do
  (← s.qBlkDequeue cur).tqinsert cur tic true now

def qBlkCancel (cur : α) (s : State α) : Option (State α) := do
  (← s.qBlkDequeue cur).qBlkRelease cur

/-- `tqcomplete` up to the `exec_func` in it. -/
def tqcomplete (cur : α) (s : State α) : Option (State α) := do
  let s ← if s.blkRpt cur = 0 then s.qBlkRelease cur else s.run (Queues.qBlkAtHead cur .exec)
  return { s with frames := cur :: s.frames }

/-- `tqcomplete` behind the `exec_func`. -/
def tqcompleted (cur : α) (now : Int) (s : State α) : Option (State α) :=
  if s.queues.head .exec = some cur then do
    (← s.run (Queues.qBlkUnhook cur)).tqinsert cur (s.blkRpt cur) true now
  else some s

/-! ### Memory -/

/-- What `rt_malloc` has found is nobody's memory. -/
def malloc (b : α) (s : State α) : Option (State α) :=
  if s.heap b || s.static b then none else some { s with heap := update s.heap b true }

def rtFree (s : State α) (b : α) : State α :=
  { s with heap := update s.heap b false, freed := s.freed ++ [b] }

/-- `memset(cur, 0, sizeof(QBLK))`. -/
def zero (cur : α) (s : State α) : State α :=
  { s with
    queues := { s.queues with
      nxt := update s.queues.nxt cur none
      prv := update s.queues.prv cur none
      hook := update s.queues.hook cur none }
    blkTic := update s.blkTic cur 0
    blkRpt := update s.blkRpt cur 0
    lnk := update s.lnk cur .null }

/-- `found` is what `rt_malloc` returns one time after another. -/
def qDynAlloc : Nat → List (Option α) → State α → Option (State α)
  | 0, _, s => some s
  | _ + 1, [], _ => none
  | _ + 1, none :: _, s => some s
  | n + 1, some b :: found, s => do
      let s ← s.malloc b
      qDynAlloc n found ((s.zero b).pushFree b)

/-- The block is initialised. -/
def dynInit (lnk : Option Nat) (b : α) (s : State α) : State α :=
  { s with
    queues := { s.queues with hook := update s.queues.hook b none }
    lnk := update s.lnk b (match lnk with | none => .null | some p => .at p)
    linked := match lnk with | none => s.linked | some p => update s.linked p (some b)
    value := some b
    handed := update s.handed b true }

/-- `found` is what `rt_malloc` returns when it is called. -/
def qDynInit (lnk : Option Nat) (found : Option α) (s : State α) : Option (State α) :=
  if ¬s.tickQueue then some { s with value := none }
  else match s.free with
    | some b => some ({ s with free := s.queues.nxt b }.dynInit lnk b)
    | none =>
        match found with
        | none => some { s with value := none }
        | some b => (s.malloc b).map (dynInit lnk b)

/-- `!n`. -/
def spent (p : Int32 × List α) (_ : α) : Bool := p.1 == 0

/-- `rt_free(cur); n--`. -/
def freeOne (p : Int32 × List α) (cur : α) : Int32 × List α := (p.1 - 1, p.2 ++ [cur])

/-- `while (n && TQ->free)`. -/
def qDynFree (n : Int32) (s : State α) : Option (State α) := do
  let (free, _, freed) ← walk s.queues.nxt spent freeOne (fuel α) s.free (n, [])
  return freed.foldl rtFree { s with free := free }

/-- `rt_qBlkInit` of memory that is nobody else's. -/
def qBlkInit (b : α) (s : State α) : State α :=
  { s with
    queues := { s.queues with hook := update s.queues.hook b none }
    lnk := update s.lnk b .nullLnk
    static := update s.static b true }

/-- The blocks that a loop of `rt_qCleanup` comes to from `p` on. -/
def drain (p : Option α) (s : State α) : Option (List α) :=
  (walk s.queues.nxt (fun _ _ => false) (fun freed b => freed ++ [b]) (fuel α) p []).map (·.2)

def qCleanup (s : State α) : Option (State α) := do
  let free ← s.drain s.free
  let wait ← s.drain s.wait
  let s := (free ++ wait).foldl rtFree s
  return { s with free := none, wait := none, tickQueue := false }

end State

end Rtai.Lxrt.Qblk
