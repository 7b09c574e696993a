import Rtai.Lib.Circular

/-!
# The fifos

The data and the functions of `rtai_fifos.c` that the fifos' buffers,
semaphores and wake-up requests rest on.  `P` is the type of the Linux
processes.  A semaphore queue is the list of the processes whose nodes are linked
on it, from the head on; `node` is the `LX_TASK` a process has on its stack while
it waits.

The calls are those from real time context: `lnx` is 0 and `copy_from_user` is
`memcpy`.  A loop that would not end is cut off with `none`.
-/

namespace Rtai.Fifos

open Function Rtai.Lib

def MAX_FIFOS : Nat := 64
def MAXREQS : Nat := 64

def ENODEV : Int := 19
def EINVAL : Int := 22
def ERESTARTSYS : Int := 512

/-- `LX_TASK` without its queue node. -/
structure LxTask where
  blocked : Bool := false
  priority : Int := 0

/-- `F_SEM`. -/
structure FSem (P : Type) where
  free : Int := 0
  qtype : Int := 0
  queue : List P := []

/-- `F_MBX`. -/
structure FMbx (P : Type) where
  size : Int := 0
  fbyte : Int := 0
  lbyte : Int := 0
  avbs : Int := 0
  frbs : Int := 0
  /-- The memory from `bufadr` on. -/
  bufadr : Int → UInt8 := fun _ => 0
  sndsem : FSem P := {}
  rcvsem : FSem P := {}
  waitingTask : Option P := none

/-- `FIFO`. -/
structure Fifo (P : Type) where
  mbx : FMbx P := {}
  opncnt : Int := 0
  polAsynPended : Bool := false
  /-- `waitqueue_active(&pollq)`. -/
  pollq : Bool := false
  /-- `asynq != 0`. -/
  asynq : Bool := false
  sem : FSem P := {}

/-- `taskq` and `pol_asyn_q`. -/
structure ReqQ (α : Type) where
  inp : Nat := 0
  out : Nat := 0
  slot : Nat → Option α := fun _ => none

/-- `q.slot[q.in] = x; q.in = (q.in + 1) & (MAXREQS - 1)`. -/
def ReqQ.put {α : Type} (x : α) (q : ReqQ α) : ReqQ α :=
  { q with slot := update q.slot q.inp (some x), inp := (q.inp + 1) &&& (MAXREQS - 1) }

/-- `q.out = (q.out + 1) & (MAXREQS - 1)`. -/
def ReqQ.advance {α : Type} (q : ReqQ α) : ReqQ α :=
  { q with out := (q.out + 1) &&& (MAXREQS - 1) }

/-- A semaphore of a fifo. -/
inductive SemRef where
  | sndsem (minor : Nat)
  | rcvsem (minor : Nat)
  /-- That of `rtf_sem_init`. -/
  | sem (minor : Nat)
deriving DecidableEq

/-- The fifo `mbx_sem_signal` is told of. -/
def SemRef.fifop : SemRef → Option Nat
  | .sndsem minor | .rcvsem minor => some minor
  | .sem _ => none

/-- The state of the module. -/
structure State (P : Type) where
  fifo : Nat → Fifo P := fun _ => {}
  taskq : ReqQ P := {}
  polAsynQ : ReqQ Nat := {}
  node : P → LxTask := fun _ => {}

/-! ## The buffer -/

namespace FMbx

variable {P : Type}

/-- `MOD_SIZE`. -/
def modSize (m : FMbx P) (indx : Int) : Int :=
  if indx < m.size then indx else indx - m.size

/-- How much one round of a loop copies: what is wanted, if it does not reach
over the end of the buffer and is there. -/
def tocpy (m : FMbx P) (pos msgSize there : Int) : Int :=
  let tocpy := if m.size - pos > msgSize then msgSize else m.size - pos
  if tocpy > there then there else tocpy

/-- One round of `mbx_put`. -/
def putRound (m : FMbx P) (msg : List UInt8) (tocpy : Int) : FMbx P :=
  { m with
    bufadr := blit m.bufadr m.lbyte (msg.take tocpy.toNat)
    lbyte := m.modSize (m.lbyte + tocpy)
    frbs := m.frbs - tocpy
    avbs := m.avbs + tocpy }

/-- One round of `mbx_get`, or of the inner loop of `mbx_ovrwr_put`. -/
def getRound (m : FMbx P) (tocpy : Int) : FMbx P :=
  { m with
    fbyte := m.modSize (m.fbyte + tocpy)
    frbs := m.frbs + tocpy
    avbs := m.avbs - tocpy }

/-- `memcpy(*msg, mbx->bufadr + fbyte, tocpy)`. -/
def read (m : FMbx P) (fbyte tocpy : Int) : List UInt8 :=
  (List.range tocpy.toNat).map fun i : Nat => m.bufadr (fbyte + i)

/-- The loop of `mbx_put`, with what is left of the message. -/
def putLoop : Nat → List UInt8 → Int → FMbx P → Option (FMbx P × Int)
  | 0, _, _, _ => none
  | k + 1, msg, msgSize, m =>
      if msgSize > 0 ∧ m.frbs ≠ 0 then
        let tocpy := m.tocpy m.lbyte msgSize m.frbs
        putLoop k (msg.drop tocpy.toNat) (msgSize - tocpy) (m.putRound msg tocpy)
      else some (m, msgSize)

def mbxPut (msg : List UInt8) (msgSize : Int) (m : FMbx P) : Option (FMbx P × Int) :=
  m.putLoop (msgSize.toNat + 1) msg msgSize

/-- `while ((n = msg_size - mbx->frbs) > 0)`. -/
def roomLoop (msgSize : Int) : Nat → FMbx P → Option (FMbx P)
  | 0, _ => none
  | k + 1, m =>
      let n := msgSize - m.frbs
      if n > 0 then roomLoop msgSize k (m.getRound (m.tocpy m.fbyte n m.avbs)) else some m

/-- The outer loop of `mbx_ovrwr_put`. -/
def ovrwrLoop : Nat → List UInt8 → Int → FMbx P → Option (FMbx P)
  | 0, _, _, _ => none
  | k + 1, msg, msgSize, m =>
      if msgSize > 0 then do
        let tocpy := if m.frbs ≠ 0 then m.tocpy m.lbyte msgSize m.frbs else 0
        let m := if m.frbs ≠ 0 then m.putRound msg tocpy else m
        let msgSize := msgSize - tocpy
        let m ← (if msgSize ≠ 0 then m.roomLoop msgSize (msgSize.toNat + 1) else some m)
        ovrwrLoop k (msg.drop tocpy.toNat) msgSize m
      else some m

def mbxOvrwrPut (msg : List UInt8) (msgSize : Int) (m : FMbx P) : Option (FMbx P × Int) := do
  let n := msgSize - m.size
  let skip := if n > 0 then n else 0
  let m ← m.ovrwrLoop ((msgSize - skip).toNat + 2) (msg.drop skip.toNat) (msgSize - skip)
  return (m, 0)

/-- The loop of `mbx_get`, with what it has delivered. -/
def getLoop : Nat → List UInt8 → Int → FMbx P → Option (FMbx P × Int × List UInt8)
  | 0, _, _, _ => none
  | k + 1, got, msgSize, m =>
      if msgSize > 0 ∧ m.avbs ≠ 0 then
        let tocpy := m.tocpy m.fbyte msgSize m.avbs
        getLoop k (got ++ m.read m.fbyte tocpy) (msgSize - tocpy) (m.getRound tocpy)
      else some (m, msgSize, got)

def mbxGet (msgSize : Int) (m : FMbx P) : Option (FMbx P × Int × List UInt8) :=
  m.getLoop (msgSize.toNat + 1) [] msgSize

/-- The loop of `mbx_evdrp`, which goes on with copies of `fbyte` and `avbs`. -/
def evdrpLoop (m : FMbx P) : Nat → List UInt8 → Int → Int → Int → Option (Int × List UInt8)
  | 0, _, _, _, _ => none
  | k + 1, got, msgSize, fbyte, avbs =>
      if msgSize > 0 ∧ avbs ≠ 0 then
        let tocpy := m.tocpy fbyte msgSize avbs
        evdrpLoop m k (got ++ m.read fbyte tocpy) (msgSize - tocpy)
          (m.modSize (fbyte + tocpy)) (avbs - tocpy)
      else some (msgSize, got)

def mbxEvdrp (msgSize : Int) (m : FMbx P) : Option (Int × List UInt8) :=
  m.evdrpLoop (msgSize.toNat + 1) [] msgSize m.fbyte m.avbs

/-- `mbx_init`. -/
def mbxInit (size : Int) (bufadr : Int → UInt8) : FMbx P where
  size := size
  frbs := size
  bufadr := bufadr
  sndsem := { free := 1 }
  rcvsem := { free := 1 }

end FMbx

/-! ## Semaphores and wake-ups -/

namespace State

variable {P : Type} [DecidableEq P]

def setFifo (minor : Nat) (f : Fifo P) (s : State P) : State P :=
  { s with fifo := update s.fifo minor f }

def setMbx (minor : Nat) (m : FMbx P) (s : State P) : State P :=
  s.setFifo minor { s.fifo minor with mbx := m }

def sem (s : State P) : SemRef → FSem P
  | .sndsem minor => (s.fifo minor).mbx.sndsem
  | .rcvsem minor => (s.fifo minor).mbx.rcvsem
  | .sem minor => (s.fifo minor).sem

def setSem (r : SemRef) (v : FSem P) (s : State P) : State P :=
  match r with
  | .sndsem minor => s.setMbx minor { (s.fifo minor).mbx with sndsem := v }
  | .rcvsem minor => s.setMbx minor { (s.fifo minor).mbx with rcvsem := v }
  | .sem minor => s.setFifo minor { s.fifo minor with sem := v }

def setFree (r : SemRef) (free : Int) (s : State P) : State P :=
  s.setSem r { s.sem r with free := free }

/-- `while ((q = q->next) != queue && (q->task)->priority >= priority);`. -/
def enqueueBlocked (task : P) (r : SemRef) (priority : Int) (s : State P) : State P :=
  let v := s.sem r
  let queue :=
    if v.qtype = 0 then
      v.queue.takeWhile (fun q => (s.node q).priority ≥ priority) ++
        task :: v.queue.dropWhile fun q => (s.node q).priority ≥ priority
    else v.queue ++ [task]
  { s.setSem r { v with queue := queue } with
    node := update s.node task { blocked := true, priority := priority } }

def dequeueBlocked (task : P) (r : SemRef) (s : State P) : State P :=
  { s.setSem r { s.sem r with queue := (s.sem r).queue.erase task } with
    node := update s.node task { s.node task with blocked := false } }

/-- The wake-up of a process is left to Linux. -/
def requestTask (task : P) (s : State P) : State P :=
  { s with taskq := s.taskq.put task }

/-- A fifo that someone polls is left to Linux, unless it is already. -/
def requestPoll (minor : Nat) (s : State P) : State P :=
  let f := s.fifo minor
  if ¬f.polAsynPended ∧ (f.mbx.avbs ≠ 0 ∨ f.mbx.frbs ≠ 0) ∧ (f.pollq ∨ f.asynq) then
    { s.setFifo minor { f with polAsynPended := true } with polAsynQ := s.polAsynQ.put minor }
  else s

def mbxSemSignal (r : SemRef) (s : State P) : State P :=
  match (s.sem r).queue with
  | task :: _ => (s.dequeueBlocked task r).requestTask task
  | [] =>
      let s := s.setFree r 1
      match r.fifop with
      | some minor => s.requestPoll minor
      | none => s

def mbxSemWaitIf (r : SemRef) (s : State P) : State P × Int :=
  if (s.sem r).free ≠ 0 then (s.setFree r 0, 1) else (s, 0)

/-- `mbx_sem_wait` and `mbx_sem_wait_timed` up to `schedule`, with what they return
without it. -/
def mbxSemWait (task : P) (priority : Int) (r : SemRef) (s : State P) : State P × Option Int :=
  if (s.sem r).free = 0 then (s.enqueueBlocked task r priority, none)
  else (s.setFree r 0, some 0)

/-- A waiter gives up. -/
def abandon (task : P) (r : SemRef) (s : State P) : State P :=
  let s := s.dequeueBlocked task r
  if (s.sem r).queue = [] then s.setFree r 1 else s

/-- `mbx_sem_wait` behind `schedule`; `pending` is what `check_current_blocked`
found. -/
def mbxSemWaitRest (task : P) (r : SemRef) (pending : Bool) (s : State P) : State P × Int :=
  let ret := if pending then -ERESTARTSYS else 0
  if (s.node task).blocked then (s.abandon task r, if ret = 0 then -1 else ret) else (s, ret)

/-- `mbx_sem_wait_timed` behind `schedule_timeout`. -/
def mbxSemWaitTimedRest (task : P) (r : SemRef) (pending : Bool) (s : State P) :
    State P × Int :=
  if pending then (s, -ERESTARTSYS)
  else if (s.node task).blocked then (s.abandon task r, -1)
  else (s, 0)

def mbxSignal (minor : Nat) (s : State P) : State P :=
  let m := (s.fifo minor).mbx
  match m.waitingTask with
  | some task => (s.setMbx minor { m with waitingTask := none }).requestTask task
  | none => s

/-- Every waiter is requested and unlinked; its `blocked` stays. -/
def mbxSemDelete (r : SemRef) (s : State P) : State P :=
  let v := s.sem r
  { s.setSem r { v with queue := [] } with
    taskq := v.queue.foldl (fun q task => q.put task) s.taskq }

def mbxDelete (minor : Nat) (s : State P) : State P :=
  ((s.mbxSignal minor).mbxSemDelete (.sndsem minor)).mbxSemDelete (.rcvsem minor)

/-! ## The transfers that do not wait -/

/-- A sender that finds the semaphore free and the room it wants. -/
def sendNow (minor : Nat) (room : Bool) (put : FMbx P → Option (FMbx P × Int)) (msgSize : Int)
    (s : State P) : Option (State P × Int) :=
  if (s.fifo minor).mbx.sndsem.free ≠ 0 ∧ room then do
    let s := s.setFree (.sndsem minor) 0
    let (m, left) ← put (s.fifo minor).mbx
    let s := (s.setMbx minor m).mbxSignal minor
    return (s.mbxSemSignal (.sndsem minor), left)
  else some (s, msgSize)

def mbxSendWp (minor : Nat) (msg : List UInt8) (s : State P) : Option (State P × Int) :=
  s.sendNow minor ((s.fifo minor).mbx.frbs ≠ 0) (·.mbxPut msg msg.length) msg.length

def mbxSendIf (minor : Nat) (msg : List UInt8) (s : State P) : Option (State P × Int) :=
  s.sendNow minor ((s.fifo minor).mbx.frbs ≥ msg.length) (·.mbxPut msg msg.length) msg.length

def mbxOvrwrSend (minor : Nat) (msg : List UInt8) (s : State P) : Option (State P × Int) :=
  s.sendNow minor true (·.mbxOvrwrPut msg msg.length) msg.length

def mbxReceiveWp (minor : Nat) (msgSize : Int) (s : State P) :
    Option (State P × Int × List UInt8) :=
  if (s.fifo minor).mbx.rcvsem.free ≠ 0 ∧ (s.fifo minor).mbx.avbs ≠ 0 then do
    let s := s.setFree (.rcvsem minor) 0
    let (m, left, got) ← (s.fifo minor).mbx.mbxGet msgSize
    let s := (s.setMbx minor m).mbxSignal minor
    return (s.mbxSemSignal (.rcvsem minor), left, got)
  else some (s, msgSize, [])

/-! ## The calls -/

/-- What `rtf_create` leaves of a fifo that was not open. -/
def created (minor : Nat) (size : Int) (bufadr : Int → UInt8) (s : State P) : State P :=
  s.setFifo minor { s.fifo minor with
    mbx := .mbxInit size bufadr
    sem := {}
    polAsynPended := false
    asynq := false
    opncnt := (s.fifo minor).opncnt + 1 }

/-- A call of `rtai_fifos.h`.  A buffer is given with its contents. -/
inductive Call where
  | put (buf : List UInt8)
  | putIf (buf : List UInt8)
  | ovrwrPut (buf : List UInt8)
  | get (count : Nat)
  | getIf (buf : List UInt8)
  | evdrp (count : Nat)
  | reset

/-- What a call returns, and the bytes it stores in the caller's buffer. -/
structure Result where
  value : Int
  bytes : List UInt8 := []

/-- The body of a call, behind `VALID_FIFO`. -/
def body (minor : Nat) : Call → State P → Option (State P × Result)
  | .put buf, s => do
      let (s, left) ← s.mbxSendWp minor buf
      return (s, { value := buf.length - left })
  | .putIf buf, s => do
      let (s, left) ← s.mbxSendIf minor buf
      return (s, { value := buf.length - left })
  | .ovrwrPut buf, s => do
      let (s, left) ← s.mbxOvrwrSend minor buf
      return (s, { value := left })
  | .get count, s => do
      let (s, left, got) ← s.mbxReceiveWp minor count
      return (s, { value := count - left, bytes := got })
  | .getIf buf, s => do
      -- the source calls `mbx_send_if`
      let (s, left) ← s.mbxSendIf minor buf
      return (s, { value := buf.length - left })
  | .evdrp count, s => do
      let (left, got) ← (s.fifo minor).mbx.mbxEvdrp count
      return (s, { value := count - left, bytes := got })
  | .reset, s =>
      let s := s.mbxDelete minor
      let m := (s.fifo minor).mbx
      some (s.setMbx minor (.mbxInit m.size m.bufadr), { value := 0 })

/-- `VALID_FIFO` and the body. -/
def call (minor : Nat) (c : Call) (s : State P) : Option (State P × Result) :=
  if minor ≥ MAX_FIFOS then some (s, { value := -ENODEV })
  else if (s.fifo minor).opncnt = 0 then some (s, { value := -EINVAL })
  else s.body minor c

end State

end Rtai.Fifos
