import Rtai.Lib.Run
import Rtai.Lib.Probing
import Mathlib.Algebra.Ring.Nat

/-!
# The table of stubs

The hash table of `portslot[k].owner` for the first `MAX_STUBS` port slots, and the functions
that search and change it.  A search takes no lock: each turn of its loop is a step of its
own, and so is the locked section behind it.  Any number of tasks may be in the functions,
and the port server releases a slot in a locked section that names it.

Beside the table the state keeps which owners have been inserted and not removed, and for
each task whether this was not so of its owner at some time since its call.
-/

namespace Rtai.NetRpc.Stubs

open Function Rtai.Lib

/-- `unsigned long long`, 0 for a free slot. -/
abbrev Owner := UInt64

/-- `MAX_STUBS - 1`. -/
abbrev LAST_STUB : Nat := 31

/-- The index of one of the `MAX_STUBS` slots; `(k + 1) & (MAX_STUBS - 1)` is `k + 1`. -/
abbrev Index := Fin (LAST_STUB + 1)

instance (priority := high) neZeroStubs : @NeZero Nat Zero.ofOfNat0 (LAST_STUB + 1) := ⟨by decide⟩

/-- `us[i]`. -/
def us (owner : Owner) (i : UInt64) : Nat := (owner >>> (16 * i)).toUInt16.toNat

def hashFun (owner : Owner) : Index := Fin.ofNat _ ((us owner 0 >>> 4) + us owner 3)

/-- The functions on the table. -/
inductive Fn where
  | hashIns
  | hashFind
  | hashFindIfNotIns
  | hashRem
deriving DecidableEq

/-- A call: the next slot it reads, in its loop or behind it in the locked section. -/
structure Call where
  fn : Fn
  owner : Owner
  k : Index
  locked : Bool := false
  /-- How many slots the loop has read. -/
  reads : Nat := 0
deriving DecidableEq

/-- What a step does to the table. -/
inductive Write where
  | none
  | put (k : Index)
  | clear (k : Index)
deriving DecidableEq

/-- A call goes on or returns. -/
inductive Next where
  | goes (c : Call)
  | returns (v : Index)
deriving DecidableEq

namespace Call

def start (fn : Fn) (owner : Owner) : Call := { fn := fn, owner := owner, k := hashFun owner }

/-- `while (1) { k = i; ...`. -/
def again (c : Call) : Call := start c.fn c.owner

/-- `if (... (k = (k + 1) & (MAX_STUBS - 1)) == i) return 0`. -/
def next (c : Call) : Next :=
  if c.k + 1 = hashFun c.owner then .returns 0
  else .goes { c with k := c.k + 1, reads := c.reads + 1 }

/-- The end of the loop. -/
def leave (c : Call) : Next :=
  if c.fn = .hashFind then .returns c.k else .goes { c with locked := true }

/-- A turn of the loop, which finds `here` in the slot. -/
def turn (here : Owner) (c : Call) : Next :=
  match c.fn with
  | .hashIns => if here = 0 then c.leave else c.next
  | .hashFindIfNotIns => if here = 0 ∨ here = c.owner then c.leave else c.next
  | .hashFind | .hashRem =>
      if here = c.owner then c.leave else if here = 0 then .returns 0 else c.next

/-- The locked section. -/
def commit (here : Owner) (c : Call) : Write × Next :=
  match c.fn with
  | .hashIns => if here = 0 then (.put c.k, .returns c.k) else (.none, .goes c.again)
  | .hashFindIfNotIns =>
      if here = c.owner then (.none, .returns c.k)
      else if here = 0 then (.put c.k, .returns c.k)
      else (.none, .goes c.again)
  | .hashRem => if here = c.owner then (.clear c.k, .returns c.k) else (.none, .goes c.again)
  | .hashFind => (.none, .returns c.k)

def run (here : Owner) (c : Call) : Write × Next :=
  if c.locked then c.commit here else (.none, c.turn here)

/-- The call may put its owner into a slot. -/
def inserts (c : Call) : Bool := c.fn = .hashIns || c.fn = .hashFindIfNotIns

end Call

structure State (n : Nat) where
  owner : Index → Owner
  calls : Fin n → Option Call := fun _ => none
  stored : Owner → Bool := fun _ => false
  wasAbsent : Fin n → Bool := fun _ => false

inductive Event (n : Nat) where
  | call (task : Fin n) (fn : Fn) (owner : Owner)
  /-- The next step of the task's call. -/
  | run (task : Fin n)
  /-- A release that the port server gets. -/
  | release (op : Int) (owner : Owner)
deriving DecidableEq

def BASEPORT : Int := 5000

namespace State

variable {n : Nat}

def write (w : Write) (owner : Owner) (s : State n) : State n :=
  match w with
  | .none => s
  | .put k => { s with owner := update s.owner k owner, stored := update s.stored owner true }
  | .clear k => { s with owner := update s.owner k 0, stored := update s.stored owner false }

/-- The task's call after a step. -/
def setCall (task : Fin n) (next : Next) (s : State n) : State n :=
  match next with
  | .goes c => { s with calls := update s.calls task (some c) }
  | .returns _ => { s with calls := update s.calls task none }

/-- What the locked section of the port server does. -/
def releaseWrite (op : Int) (owner : Owner) (s : State n) : Write :=
  let i := op - BASEPORT
  if 0 < i ∧ i < LAST_STUB + 1 ∧ s.owner (Fin.ofNat _ i.toNat) = owner then
    .clear (Fin.ofNat _ i.toNat)
  else .none

def observe (s : State n) : State n :=
  { s with
    wasAbsent := fun task => (s.calls task).any fun c => s.wasAbsent task || !s.stored c.owner }

def advance : Event n → State n → Option (State n)
  | .call task fn owner, s =>
      if owner ≠ 0 ∧ s.calls task = none then
        some { s with
          calls := update s.calls task (some (Call.start fn owner))
          wasAbsent := update s.wasAbsent task false }
      else none
  | .run task, s => (s.calls task).map fun c =>
      let result := c.run (s.owner c.k)
      (s.write result.1 c.owner).setCall task result.2
  | .release op owner, s =>
      if owner ≠ 0 then some (s.write (s.releaseWrite op owner) owner) else none

end State

def step {n : Nat} (e : Event n) (s : State n) : Option (State n) :=
  (s.advance e).map State.observe

/-- The table of `init_module`, where the port server's owner is `server`. -/
def init (n : Nat) (server : Owner) : State n := { owner := update (fun _ => 0) 0 server }

end Rtai.NetRpc.Stubs
