import Rtai.Pqueues.Queue

/-!
# The message queue calls

The globals of `rtai_pqueue.c` and the calls of its interface, for tasks of an arbitrary
type.  A call holds `pqueue_mutex` or the mutex of the queue for all it reads and writes
there, so it is one step.  What `rt_malloc` returns is an argument of `mqOpen`, and `rt_free`
refuses a block without a byte.

A call that waits on a condition variable of the queue has the outcome `blocks`.  A call
that reads through a `system_data_ptr` or `pqueues` that is `NULL` has none.
-/

namespace Rtai.Pqueues

open Function

def MAX_PQUEUES : Nat := 4
def MAX_RT_TASKS : Nat := 128
def MAX_MSGS : Nat := 10
def MAX_MSGSIZE : Nat := 50
def MQ_OPEN_MAX : Nat := 8
def MQ_PRIO_MAX : Nat := 32
def MQ_NONBLOCK : Int := 1
def MQ_NAME_MAX : Nat := 80
def INVALID_PQUEUE : Nat := 0

def ENOENT : Int := 2
def EBADF : Int := 9
def EAGAIN : Int := 11
def ENOMEM : Int := 12
def EEXIST : Int := 17
def EINVAL : Int := 22
def EMFILE : Int := 24
def ENAMETOOLONG : Int := 36
def EMSGSIZE : Int := 90
def ENOBUFS : Int := 105

def defaultDataQueueAttrs : MqAttr where
  mqMaxmsg := MAX_MSGS
  mqMsgsize := MAX_MSGSIZE
  mqFlags := MQ_NONBLOCK

/-- A string without its final zero. -/
abbrev Name := List UInt8

/-- The bits of `oflags`. -/
structure Oflags where
  wronly : Bool := false
  rdwr : Bool := false
  creat : Bool := false
  excl : Bool := false
  nonblock : Bool := false
deriving DecidableEq

/-- The bits of `permissions`. -/
structure Permissions where
  rusr : Bool := false
  wusr : Bool := false
  rgrp : Bool := false
  wgrp : Bool := false

/-- `Q_ACCESS`. -/
inductive QAccess where
  | forRead
  | forWrite
deriving DecidableEq

/-- `MSG_QUEUE`. -/
structure MsgQueue (T : Type) where
  owner : Option T := none
  openCount : Int := 0
  qName : Name := []
  qId : Nat := INVALID_PQUEUE
  markedForDeletion : Bool := false
  data : QCtrl := {}
  permissions : Permissions := {}
  /-- `notify.task`. -/
  notifyTask : Option T := none

/-- `struct _pqueue_access_data`. -/
structure AccessData where
  qId : Nat := INVALID_PQUEUE
  oflags : Oflags := {}

/-- `struct _pqueue_access_struct`. -/
structure AccessStruct (T : Type) where
  thisTask : Option T := none
  nOpenPqueues : Int := 0
  qAccess : Nat → AccessData := fun _ => {}

/-- The globals, and what they point to. -/
structure State (T : Type) where
  numPqueues : Nat := 0
  /-- `rt_pqueue_descr`. -/
  descr : Nat → MsgQueue T := fun _ => {}
  /-- `task_pqueue_access`. -/
  access : Nat → AccessStruct T := fun _ => {}
  queueType : QueueType := .posix
  /-- `system_data_ptr` of a task, and in it `pqueues`, an index of `access`. -/
  zapps : T → Option (Option Nat) := fun _ => none
  memory : Memory := fun _ => {}
  /-- The blocks of `rt_malloc` that have not been given to `rt_free`. -/
  allocated : List Nat := []

/-- How a call ends. -/
inductive Outcome where
  | blocks
  | returns (v : Int)
deriving DecidableEq

/-- What a call returns, and what `mq_receive` stores for its caller. -/
structure Reply where
  outcome : Outcome
  buffer : List UInt8 := []
  msgprio : Nat := 0

namespace State

variable {T : Type} [DecidableEq T]

def setDescr (i : Nat) (q : MsgQueue T) (s : State T) : State T :=
  { s with descr := update s.descr i q }

def setAccess (i : Nat) (a : AccessStruct T) (s : State T) : State T :=
  { s with access := update s.access i a }

/-- `pqueues` of the task, read through `system_data_ptr`. -/
def pqueuesOf (self : T) (s : State T) : Option Nat := (s.zapps self).join

def nameToId (name : Name) (s : State T) : Option Nat :=
  (List.range MAX_PQUEUES).find? fun ind =>
    (s.descr ind).qName ≠ [] ∧ (s.descr ind).qName = name

/-- The first slot of the access structure with the given id. -/
def slotOf (id : Nat) (a : AccessStruct T) : Option Nat :=
  (List.range MQ_OPEN_MAX).find? fun qInd => (a.qAccess qInd).qId = id

def isBlocking (self : T) (q : MsgQueue T) (s : State T) : Option Bool := do
  let t ← s.pqueuesOf self
  return (slotOf q.qId (s.access t)).any fun qInd => !((s.access t).qAccess qInd).oflags.nonblock

def permits (self : T) (access : QAccess) (q : MsgQueue T) : Bool :=
  match access with
  | .forRead => if q.owner = some self then q.permissions.rusr else q.permissions.rgrp
  | .forWrite => if q.owner = some self then q.permissions.wusr else q.permissions.wgrp

def canAccess (self : T) (access : QAccess) (q : MsgQueue T) (s : State T) : Option Bool :=
  if permits self access q then do
    let pqueues ← s.zapps self
    return pqueues.any fun t =>
      (slotOf q.qId (s.access t)).any fun qInd =>
        let flags := ((s.access t).qAccess qInd).oflags
        access = .forRead || flags.wronly || flags.rdwr
  else some false

/-! ## Messages -/

/-- `mq_send` behind the test for room. -/
def sendNow (qIndex : Nat) (msg : List UInt8) (msgprio : Nat) (s : State T) :
    Option (State T × Int) :=
  let q := s.descr qIndex
  match q.data.getnode s.memory with
  | none => some (s, -ENOBUFS)
  | some (memory, thisMsg) =>
      let wasEmpty := q.data.isEmpty
      let data := { q.data with attrs := { q.data.attrs with
        mqCurmsgs := q.data.attrs.mqCurmsgs + 1 } }
      if msg.length > data.attrs.mqMsgsize then
        some ({ s.setDescr qIndex { q with data := data } with memory := memory }, -EMSGSIZE)
      else do
        let memory := memory.store thisMsg msg msgprio
        let (data, memory) ← data.insertMessage s.queueType thisMsg memory
        let q := { q with data := data, notifyTask := if wasEmpty then none else q.notifyTask }
        return ({ s.setDescr qIndex q with memory := memory }, msg.length)

def mqSend (self : T) (mq : Nat) (msg : List UInt8) (msgprio : Nat) (s : State T) :
    Option (State T × Reply) :=
  if 1 ≤ mq ∧ mq ≤ MAX_PQUEUES then do
    let q := s.descr (mq - 1)
    if ¬(← s.canAccess self .forWrite q) then return (s, ⟨.returns (-EINVAL), [], 0⟩)
    else if msgprio > MQ_PRIO_MAX then return (s, ⟨.returns (-EINVAL), [], 0⟩)
    else if q.data.isFull then
      if ← s.isBlocking self q then return (s, ⟨.blocks, [], 0⟩)
      else return (s, ⟨.returns (-EAGAIN), [], 0⟩)
    else
      let (s, v) ← s.sendNow (mq - 1) msg msgprio
      return (s, ⟨.returns v, [], 0⟩)
  else some (s, ⟨.returns (-EBADF), [], 0⟩)

/-- `mq_receive` behind the test for a message. -/
def receiveNow (qIndex buflen : Nat) (s : State T) : State T × Reply :=
  let q := s.descr qIndex
  if buflen < q.data.attrs.mqMsgsize then (s, ⟨.returns (-EMSGSIZE), [], 0⟩)
  else
    let hdr := (s.memory q.data.head).hdr
    let reply : Reply :=
      if hdr.size ≤ buflen then
        ⟨.returns hdr.size, s.memory.bytes q.data.head hdr.size, hdr.priority⟩
      else ⟨.returns (-1), [], 0⟩
    let (data, memory) := q.data.takeHead s.memory
    ({ s.setDescr qIndex { q with data := data } with memory := memory }, reply)

def mqReceive (self : T) (mq buflen : Nat) (s : State T) : Option (State T × Reply) :=
  if 1 ≤ mq ∧ mq ≤ MAX_PQUEUES then do
    let q := s.descr (mq - 1)
    if ¬(← s.canAccess self .forRead q) then return (s, ⟨.returns (-EINVAL), [], 0⟩)
    else if q.data.isEmpty then
      if ← s.isBlocking self q then return (s, ⟨.blocks, [], 0⟩)
      else return (s, ⟨.returns (-EAGAIN), [], 0⟩)
    else return s.receiveNow (mq - 1) buflen
  else some (s, ⟨.returns (-EBADF), [], 0⟩)

/-! ## Opening and closing -/

/-- `init_z_apps`. -/
def initZApps (self : T) (s : State T) : State T :=
  if s.zapps self = none then { s with zapps := update s.zapps self (some none) } else s

/-- The access structure of the task, a spare one if it has none yet. -/
def claimAccess (self : T) (s : State T) : Option (State T × Nat) :=
  match s.pqueuesOf self with
  | some t => some (s, t)
  | none => do
      let t ← (List.range MAX_RT_TASKS).find? fun t => (s.access t).thisTask = none
      let s := s.setAccess t { s.access t with thisTask := some self }
      return ({ s with zapps := update s.zapps self (some (some t)) }, t)

/-- The slot of the access structure is written. -/
def record (t qInd id : Nat) (oflags : Oflags) (s : State T) : State T :=
  s.setAccess t { s.access t with
    qAccess := update (s.access t).qAccess qInd { qId := id, oflags := oflags } }

/-- `n_open_pqueues += k`. -/
def countOpen (t : Nat) (k : Int) (s : State T) : State T :=
  s.setAccess t { s.access t with nOpenPqueues := (s.access t).nOpenPqueues + k }

/-- The end of `mq_open`: `open_count++`, and the id is returned. -/
def opened (qIndex : Nat) (s : State T) : State T × Int :=
  let q := s.descr qIndex
  (s.setDescr qIndex { q with openCount := q.openCount + 1 }, q.qId)

/-- `mq_open` for a queue that exists. -/
def openExisting (self : T) (qIndex : Nat) (oflags : Oflags) (s : State T) : State T × Int :=
  if oflags.creat ∧ oflags.excl then (s, -EEXIST)
  else
    match s.claimAccess self with
    | none => (s, -ENOMEM)
    | some (s, t) =>
        let id := (s.descr qIndex).qId
        match slotOf id (s.access t), slotOf INVALID_PQUEUE (s.access t) with
        | some qInd, _ => (s.record t qInd id oflags).opened qIndex
        | none, none => (s, -EINVAL)
        | none, some firstSpare =>
            ((s.countOpen t 1).record t firstSpare id oflags).opened qIndex

/-- The descriptor and the memory of a new queue. -/
def createQueue (self : T) (qIndex : Nat) (name : Name) (permissions : Permissions)
    (attr : MqAttr) (memPtr : Nat) (s : State T) : State T :=
  let data : QCtrl :=
    { base := memPtr, head := memPtr, tail := memPtr, attrs := { attr with mqCurmsgs := 0 } }
  { s.setDescr qIndex { s.descr qIndex with
      owner := some self
      openCount := 0
      qName := name
      qId := qIndex + 1
      markedForDeletion := false
      data := data
      permissions := permissions } with
    memory := data.initialiseQueue s.memory
    allocated := memPtr :: s.allocated }

/-- `mq_open` for a queue that is to be created, with what `rt_malloc` returns. -/
def openNew (self : T) (name : Name) (oflags : Oflags) (permissions : Permissions)
    (mqAttr : Option MqAttr) (memPtr : Nat) (s : State T) : State T × Int :=
  if s.numPqueues ≥ MAX_PQUEUES then (s, -ENOMEM)
  else if name.length ≥ MQ_NAME_MAX then (s, -ENAMETOOLONG)
  else
    match s.claimAccess self with
    | none => (s, -ENOMEM)
    | some (s', t) =>
        if (s.pqueuesOf self).isSome ∧ (s.access t).nOpenPqueues ≥ MQ_OPEN_MAX then (s, -EINVAL)
        else
          let attr := mqAttr.getD defaultDataQueueAttrs
          match (List.range MAX_PQUEUES).find? fun i => (s.descr i).qId = INVALID_PQUEUE with
          | none => (s', -EMFILE)
          | some qIndex =>
              if memPtr = 0 then (s', -ENOMEM)
              else
                let s := s'.createQueue self qIndex name permissions attr memPtr
                let qInd := (s.access t).nOpenPqueues.toNat
                let s := (s.countOpen t 1).record t qInd (qIndex + 1) oflags
                opened qIndex { s with numPqueues := s.numPqueues + 1 }

def mqOpen (self : T) (name : Name) (oflags : Oflags) (permissions : Permissions)
    (mqAttr : Option MqAttr) (memPtr : Nat) (s : State T) : State T × Int :=
  let s := s.initZApps self
  match s.nameToId name with
  | some qIndex => s.openExisting self qIndex oflags
  | none =>
      if oflags.creat then s.openNew self name oflags permissions mqAttr memPtr
      else (s, -ENOENT)

/-- The loop of `delete_queue` over the slots, `msg_size / sizeof(int)` bytes apart. -/
def clearLoop (size : Nat) : Nat → Nat → Memory → Memory
  | 0, _, m => m
  | k + 1, msg, m => clearLoop size k (msg + size) (m.setInUse msg false)

def deleteQueue (qIndex : Nat) (s : State T) : State T :=
  let q := s.descr qIndex
  { s.setDescr qIndex { q with
      owner := none
      openCount := 0
      qName := []
      qId := INVALID_PQUEUE
      data := { base := 0, head := 0, tail := 0, attrs := {} }
      permissions := {} } with
    memory := clearLoop ((q.data.attrs.mqMsgsize + MSG_HDR_SIZE) / 4) q.data.attrs.mqMaxmsg
      q.data.base s.memory
    allocated := if q.data.attrs.memSize = 0 then s.allocated else s.allocated.erase q.data.base
    numPqueues := s.numPqueues - 1 }

def mqClose (self : T) (mq : Nat) (s : State T) : Option (State T × Int) :=
  if 1 ≤ mq ∧ mq ≤ MAX_PQUEUES then
    match s.zapps self with
    | none => none
    | some none => some (s, -EINVAL)
    | some (some t) =>
        match slotOf mq (s.access t) with
        | none => some (s, -EINVAL)
        | some qInd =>
            let s := (s.countOpen t (-1)).record t qInd INVALID_PQUEUE
              ((s.access t).qAccess qInd).oflags
            let q := s.descr (mq - 1)
            let q := { q with
              notifyTask := if q.notifyTask = some self then none else q.notifyTask
              openCount := q.openCount - 1 }
            let s := s.setDescr (mq - 1) q
            some (if q.openCount ≤ 0 ∧ q.markedForDeletion then s.deleteQueue (mq - 1) else s, 0)
  else some (s, -EINVAL)

def mqUnlink (name : Name) (s : State T) : State T × Int :=
  match s.nameToId name with
  | none => (s, -ENOENT)
  | some qIndex =>
      let q := s.descr qIndex
      if q.openCount > 0 then
        (s.setDescr qIndex { q with qName := [], markedForDeletion := true }, q.openCount)
      else (s.deleteQueue qIndex, 0)

end State

end Rtai.Pqueues
