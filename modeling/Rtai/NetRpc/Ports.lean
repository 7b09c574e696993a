import Rtai.NetRpc.Stubs

/-!
# Ports

The protocol by which clients get and release their ports: `rt_send_req_rel_port` at the
clients and `port_server_fun` at the server.  A datagram that has been sent may be received
at any time, once, many times or never.  A party is one owner: a task, or an id that a task
has asked a port for; it is in one call at a time.  A slot is one of the port slots of the
clients' nodes, with its socket.

Beside what the nodes know a datagram has the number of the call it is from, and the state
has which requests the server has served and which parties have had their last call, a
release, acknowledged, and whether a datagram has been copied to the `msg` of a call that has
returned, which `portslotp->msg` points to until the slot is used again.
-/

namespace Rtai.NetRpc.Ports

open Function Rtai.NetRpc.Stubs

def TIMER_FREQ : Nat := 50

def ENXIO : Int := 6
def ENOMEM : Int := 12
def ENODEV : Int := 19
def EINVAL : Int := 22

/-- The owners of `n` parties, and that of the port server itself. -/
structure Parties (n : Nat) where
  owner : Fin n → Owner
  server : Owner
  injective : Injective owner
  ne_zero : ∀ p, owner p ≠ 0
  ne_server : ∀ p, owner p ≠ server
  real : server ≠ 0

variable {n m : Nat}

/-- `struct req_rel_msg` on its way to the server, from the socket of a slot. -/
structure Request (n m : Nat) where
  party : Fin n
  /-- The server's port for a release, 0 for a request. -/
  op : Int
  slot : Fin m
  number : Nat
deriving DecidableEq

/-- `struct req_rel_msg` on its way back. -/
structure Reply (n m : Nat) where
  party : Fin n
  op : Int
  slot : Fin m
  number : Nat
  port : Int
deriving DecidableEq

/-! ## The server -/

/-- The owners and the stubs of the slots at the server.  A stub is known by the owner it has
been made for. -/
structure Table where
  owner : Index → Owner
  task : Index → Option Owner

namespace Table

/-- The loop of `hash_find_if_not_ins`, with as many turns as there are slots. -/
def search (owner : Index → Owner) (o : Owner) : Nat → Index → Option Index
  | 0, _ => none
  | turns + 1, k => if owner k = 0 ∨ owner k = o then some k else search owner o turns (k + 1)

/-- `hash_find_if_not_ins`, before it puts the owner into the slot. -/
def hashFindIfNotIns (t : Table) (o : Owner) : Option Index :=
  search t.owner o (LAST_STUB + 1) (hashFun o)

/-- `if (msg.op) ...`: the table and `msg.port`. -/
def release (op : Int) (o : Owner) (t : Table) : Table × Int :=
  let i := op - BASEPORT
  if 0 < i ∧ i < LAST_STUB + 1 then
    let k : Index := Fin.ofNat _ i.toNat
    if t.owner k = o then
      ({ owner := update t.owner k 0, task := update t.task k none }, op)
    else (t, if t.owner k = 0 then op else - ENXIO)
  else (t, -EINVAL)

/-- What follows in the loop of `port_server_fun`; `noMemory` is a stub that cannot be made. -/
def request (noMemory : Bool) (o : Owner) (t : Table) : Table × Int :=
  match t.hashFindIfNotIns o with
  | none => (t, -ENODEV)
  | some k =>
      if k = 0 then (t, -ENODEV)
      else if t.task k ≠ none then (t, k.val + BASEPORT)
      else if noMemory then ({ t with owner := update t.owner k 0 }, -ENOMEM)
      else ({ owner := update t.owner k o, task := update t.task k (some o) }, k.val + BASEPORT)

/-- `port_server_fun` for one datagram. -/
def serve (op : Int) (noMemory : Bool) (o : Owner) (t : Table) : Table × Int :=
  if op ≠ 0 then t.release op o else t.request noMemory o

end Table

/-! ## The clients -/

/-- A call of `rt_send_req_rel_port`. -/
structure Call (m : Nat) where
  /-- The slot to be released. -/
  op : Option (Fin m)
  msgOp : Int
  slot : Fin m
  number : Nat
  port : Int := 0
  sends : Nat := 0
deriving DecidableEq

/-- A port, with the number of the call that it is from; `live` until its release is called. -/
structure Port (n : Nat) where
  party : Fin n
  port : Int
  number : Nat
  live : Bool := true
deriving DecidableEq

structure State (n m : Nat) where
  table : Table
  ports : Fin m → Option (Port n) := fun _ => none
  calls : Fin n → Option (Call m) := fun _ => none
  count : Fin n → Nat := fun _ => 0
  asked : List (Request n m) := []
  served : List (Request n m) := []
  answered : List (Reply n m) := []
  released : Fin n → Bool := fun _ => false
  stray : Bool := false

inductive Event (n m : Nat) where
  /-- A party calls for a port, and `get_portslot` gives a slot. -/
  | request (p : Fin n) (slot : Fin m)
  | release (p : Fin n) (op slot : Fin m)
  /-- A turn of the loop of a call. -/
  | send (p : Fin n)
  | serve (d : Request n m) (noMemory : Bool)
  | deliver (r : Reply n m)
  /-- A call returns. -/
  | finish (p : Fin n)

namespace State

/-- No port and no call has the slot. -/
def Free (s : State n m) (slot : Fin m) : Prop :=
  s.ports slot = none ∧ ∀ p, ∀ c ∈ s.calls p, c.slot ≠ slot

instance (s : State n m) (slot : Fin m) : Decidable (s.Free slot) :=
  inferInstanceAs (Decidable (_ ∧ ∀ _, ∀ _ ∈ _, _ ≠ _))

def begin (p : Fin n) (op : Option (Fin m)) (msgOp : Int) (slot : Fin m) (s : State n m) :
    State n m :=
  { s with
    calls := update s.calls p
      (some { op := op, msgOp := msgOp, slot := slot, number := s.count p + 1 })
    count := update s.count p (s.count p + 1)
    released := update s.released p false }

def send (p : Fin n) (c : Call m) (s : State n m) : State n m :=
  { s with
    calls := update s.calls p (some { c with sends := c.sends + 1 })
    asked := ⟨p, c.msgOp, c.slot, c.number⟩ :: s.asked }

def setPort (slot : Fin m) (port : Option (Port n)) (s : State n m) : State n m :=
  { s with ports := update s.ports slot port }

def serve (P : Parties n) (d : Request n m) (noMemory : Bool) (s : State n m) : State n m :=
  let result := s.table.serve d.op noMemory (P.owner d.party)
  { s with
    table := result.1
    served := d :: s.served
    answered := ⟨d.party, d.op, d.slot, d.number, result.2⟩ :: s.answered }

/-- `soft_net_rcv_rtr`: the datagram is read into `*portslotp->msg`, which is the `msg` of the
call that the slot is in. -/
def deliver (r : Reply n m) (s : State n m) : State n m :=
  { s with
    calls := fun p => (s.calls p).map fun c => if c.slot = r.slot then { c with port := r.port } else c
    stray := s.stray || decide (∀ p, ∀ c ∈ s.calls p, c.slot ≠ r.slot) }

/-- What is behind the loop. -/
def leave (p : Fin n) (c : Call m) (s : State n m) : State n m :=
  let s := { s with calls := update s.calls p none }
  if c.port > 0 then
    match c.op with
    | some op => { s.setPort op none with released := update s.released p true }
    | none => s.setPort c.slot (some { party := p, port := c.port, number := c.number })
  else s

end State

def step (P : Parties n) : Event n m → State n m → Option (State n m)
  | .request p slot, s =>
      if s.calls p = none ∧ s.Free slot then some (s.begin p none 0 slot) else none
  | .release p op slot, s =>
      match s.ports op with
      | some port =>
          if port.party = p ∧ s.calls p = none ∧ s.Free slot then
            some ((s.setPort op (some { port with live := false })).begin p (some op) port.port slot)
          else none
      | none => none
  | .send p, s =>
      match s.calls p with
      | some c =>
          if c.port = 0 ∧ c.sends < TIMER_FREQ then some (s.send p c) else none
      | none => none
  | .serve d noMemory, s => if d ∈ s.asked then some (s.serve P d noMemory) else none
  | .deliver r, s => if r ∈ s.answered then some (s.deliver r) else none
  | .finish p, s =>
      match s.calls p with
      | some c => if c.port ≠ 0 ∨ c.sends = TIMER_FREQ then some (s.leave p c) else none
      | none => none

/-- The server has no stubs and the clients no ports. -/
def init (P : Parties n) : State n m where
  table := { owner := update (fun _ => 0) 0 P.server, task := fun _ => none }

end Rtai.NetRpc.Ports
