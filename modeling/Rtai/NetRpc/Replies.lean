import Rtai.NetRpc.MailboxSend

/-!
# Replies on a port

One port slot of a client, with its semaphore and its socket: the calls of `rt_net_rpc` and
`rt_sync_net_rpc` on it step by step, and the callback `soft_net_rcv_rtr` or
`hard_net_rcv_rtr` between any two steps.  Requests and replies of the stub get through once
and in order; a reply of the port server may come at any time.

The replies to asynchronous requests go into a mailbox, from which other tasks take them.  The
read of such a reply and `mbx_send_if` are one step, so nothing else is done with the mailbox
while `mbx_send_if` works on its copy of `avbs`.

Calls are numbered, and a number stands for the buffer `msg` of its call.  The state keeps
what has been sent, what has been taken out of the mailbox and what the calls have returned.
-/

namespace Rtai.NetRpc.Replies

open Rtai.Up Rtai.NetRpc.MailboxSend

variable {n : Nat}

/-- What the buffer of a socket or of a call holds. -/
inductive Datagram where
  /-- The request of a call. -/
  | request (k : Nat)
  /-- The stub's reply to it. -/
  | reply (k : Nat)
  /-- A reply of the port server. -/
  | port
deriving DecidableEq

/-- Where the task that uses the slot is.  `bare` is `FUN(fun_ext_timed) == 0xFF`. -/
inductive Phase where
  | idle
  /-- In the loop of `rt_send_req_rel_port`. -/
  | asking (k : Nat)
  /-- Before the first `rt_sem_wait`. -/
  | draining (k : Nat) (bare : Bool)
  /-- Before the `recvfrom` and `mbx_send_if` of the old reply. -/
  | reading (k : Nat) (positive bare : Bool)
  /-- Before `portslotp->task = 1`. -/
  | settling (k : Nat) (bare : Bool)
  /-- Before `portslotp->msg = msg`. -/
  | pointing (k : Nat) (bare : Bool)
  /-- Before `portslotp->task = -1`. -/
  | marking (k : Nat) (bare : Bool)
  | sending (k : Nat) (positive bare : Bool)
  /-- Before the last `rt_sem_wait`. -/
  | waiting (k : Nat)
  /-- Before the reply is copied out of `msg`. -/
  | copying (k : Nat)
deriving DecidableEq

/-- The call whose buffer is in use. -/
def Phase.call : Phase → Option Nat
  | .idle => none
  | .asking k | .draining k _ | .reading k _ _ | .settling k _ | .pointing k _ | .marking k _
  | .sending k _ _ | .waiting k | .copying k => some k

structure State (n : Nat) where
  /-- The mailbox of the port, and the tasks that wait on it. -/
  node : Node n
  phase : Phase := .idle
  task : Int := 0
  /-- `sem.count`, of a binary semaphore. -/
  count : Nat := 0
  socket : List Datagram := []
  /-- The call whose buffer `portslotp->msg` points to. -/
  msg : Nat := 0
  /-- What is in the buffer of the call in progress. -/
  held : Option Datagram := none
  calls : Nat := 0
  /-- The requests that the stub has not answered, and the replies on their way. -/
  atStub : List Nat := []
  replies : List Nat := []
  /-- What has been taken out of the mailbox. -/
  got : List UInt8 := []
  sent : List Nat := []
  /-- The asynchronous ones of the requests sent. -/
  asyncs : List Nat := []
  /-- The calls that have returned 0 for a reply that was still pending. -/
  refused : List Nat := []
  /-- What the synchronous calls have returned. -/
  returned : List (Nat × Option Datagram) := []
  /-- A datagram has been copied to the buffer of a call that has returned. -/
  stray : Bool := false

inductive Event (n : Nat) where
  /-- `rt_send_req_rel_port` takes the slot. -/
  | ask
  /-- It returns, with a port or without. -/
  | given (port : Bool)
  /-- The port is released. -/
  | release
  /-- `rt_net_rpc`; `rt_sync_net_rpc` is one that is bare. -/
  | netRpc (positive bare : Bool)
  /-- The next step of the call. -/
  | run
  /-- The stub answers a request. -/
  | serve
  /-- A reply of the stub arrives. -/
  | arrive
  /-- A reply of the port server arrives. -/
  | arrivePort
  /-- A task takes bytes out of the mailbox, and there is one that waits for more or none. -/
  | get (size : Nat) (waiting : Option (Task n))

namespace State

/-- The socket of RTnet queues what arrives; the soft one has one buffer, for what it receives
and what it sends. -/
def put (hard : Bool) (d : Datagram) (s : State n) : State n :=
  { s with socket := if hard then s.socket ++ [d] else [d] }

/-- What `recvfrom` leaves in the socket. -/
def taken (hard : Bool) (s : State n) : State n :=
  { s with socket := if hard then s.socket.tail else s.socket }

/-- `rt_sem_signal`. -/
def signal (s : State n) : State n := { s with count := 1 }

/-- `recvfrom(sock, portslotp->msg, ...)`. -/
def receive (hard : Bool) (s : State n) : State n :=
  match s.socket with
  | [] => s
  | d :: _ =>
      if s.phase.call = some s.msg then { s.taken hard with held := some d }
      else { s.taken hard with stray := true }

/-- The callback of the socket. -/
def rcvRtr (hard : Bool) (d : Datagram) (s : State n) : State n :=
  let s := s.put hard d
  if s.task > 0 then (s.receive hard).signal
  else if s.task < 0 then s.signal
  else s.receive hard

/-- The number of a new call. -/
def start (s : State n) : State n := { s with calls := s.calls + 1, held := none }

def enter (phase : Phase) (s : State n) : State n := { s with phase := phase }

/-- `rt_net_rpc` up to its first step that waits or writes. -/
def netRpc (positive bare : Bool) (s : State n) : State n :=
  let k := s.calls + 1
  let s := s.start
  if positive then
    if s.task < 0 then s.enter (.draining k bare) else s.enter (.pointing k bare)
  else if s.task < 0 then
    if s.count = 0 then { s with refused := k :: s.refused }
    else { s.enter (.reading k false bare) with count := s.count - 1 }
  else s.enter (.marking k bare)

/-- The request is sent. -/
def send (hard : Bool) (k : Nat) (positive : Bool) (s : State n) : State n :=
  { s with
    phase := if positive then .waiting k else .idle
    held := some (.request k)
    socket := if hard then s.socket else [.request k]
    atStub := s.atStub ++ [k]
    sent := s.sent ++ [k]
    asyncs := if positive then s.asyncs else s.asyncs ++ [k] }

/-- `if ((rsize = ...)) mbx_send_if(portslotp->mbx, msg, rsize)`. -/
def collect (bytes : Datagram → List UInt8) (d : Datagram) (s : State n) : Option (State n) :=
  if bytes d = [] then some s
  else do
    let (node, _) ← s.node.mbxSendIf (bytes d) (bytes d).length
    return { s with node }

def run (hard : Bool) (bytes : Datagram → List UInt8) (s : State n) : Option (State n) :=
  match s.phase with
  | .idle | .asking _ => none
  | .draining k bare =>
      if s.count > 0 then some { s.enter (.reading k true bare) with count := s.count - 1 }
      else none
  | .reading k positive bare =>
      let next := if positive then .settling k bare else .sending k false bare
      match s.socket with
      | [] => if hard then none else some (s.enter next)
      | d :: _ => ((s.taken hard).enter next).collect bytes d
  | .settling k bare => some { s.enter (.pointing k bare) with task := 1 }
  | .pointing k bare => some { s.enter (.sending k true bare) with msg := k }
  | .marking k bare => some { s.enter (.sending k false bare) with task := -1 }
  | .sending k positive bare =>
      if bare then some (s.enter .idle) else some (s.send hard k positive)
  | .waiting k =>
      if s.count > 0 then some { s.enter (.copying k) with count := s.count - 1 } else none
  | .copying k => some { s.enter .idle with returned := s.returned ++ [(k, s.held)] }

end State

/-- `bytes` has what the datagrams are. -/
def step (hard : Bool) (bytes : Datagram → List UInt8) : Event n → State n → Option (State n)
  | .ask, s =>
      if s.phase = .idle ∧ s.task = 0 then
        some { s.start.enter (.asking (s.calls + 1)) with msg := s.calls + 1 }
      else none
  | .given port, s =>
      match s.phase with
      | .asking _ => some { s.enter .idle with task := if port then 1 else 0 }
      | _ => none
  | .release, s => if s.phase = .idle ∧ s.task ≠ 0 then some { s with task := 0 } else none
  | .netRpc positive bare, s =>
      if s.phase = .idle ∧ s.task ≠ 0 then some (s.netRpc positive bare) else none
  | .run, s => s.run hard bytes
  | .serve, s =>
      match s.atStub with
      | [] => none
      | k :: rest => some { s with atStub := rest, replies := s.replies ++ [k] }
  | .arrive, s =>
      match s.replies with
      | [] => none
      | k :: rest => some ({ s with replies := rest }.rcvRtr hard (.reply k))
  | .arrivePort, s => some (s.rcvRtr hard .port)
  | .get size waiting, s => do
      let (mbx, taken, _) ← s.node.mbx.mbxget size
      return { s with
        node := { s.node with mbx := { mbx with waitingTask := waiting } }
        got := s.got ++ taken }

end Rtai.NetRpc.Replies
