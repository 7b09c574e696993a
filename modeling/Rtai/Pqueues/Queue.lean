import Rtai.Heap.Memory

/-!
# The data of a message queue

The part of `rtai_pqueue.c` that works on one `Q_CTRL` and the message slots behind
`base`.  The memory is a function from addresses to message structures, and `NULL` is
address 0.  Two slots are `msg_size` bytes apart, which `getnode` keeps in an `unsigned char` and
`initialise_queue` and `mq_open` in a `char`.

The loop over the list is cut off with `none` after more rounds than the queue has slots,
and stops there too when it reads through `NULL`.
-/

namespace Rtai.Pqueues

open Function

/-- `sizeof(MSG_HDR)`. -/
def MSG_HDR_SIZE : Nat := 16

def MQ_MIN_MSG_PRIORITY : Nat := 0

/-- The value of `n` as a `char`. -/
def charOf (n : Nat) : Int := if n % 256 < 128 then n % 256 else n % 256 - 256

/-- `MSG_HDR`. -/
structure MsgHdr where
  inUse : Bool := false
  size : Nat := 0
  priority : Nat := 0
  next : Nat := 0

/-- `MSG`: the header, and the bytes from `data` on. -/
structure Msg where
  hdr : MsgHdr := {}
  data : Nat → UInt8 := fun _ => 0

abbrev Memory := Nat → Msg

/-- `MQ_ATTR`. -/
structure MqAttr where
  mqMaxmsg : Nat := 0
  mqMsgsize : Nat := 0
  mqFlags : Int := 0
  mqCurmsgs : Nat := 0

/-- `mq_msgsize + sizeof(MSG_HDR)`. -/
def MqAttr.slotSize (a : MqAttr) : Nat := a.mqMsgsize + MSG_HDR_SIZE

/-- `queue_size` in `mq_open`, as `rt_malloc` takes it. -/
def MqAttr.queueSize (a : MqAttr) : Nat := (charOf a.slotSize * a.mqMaxmsg % 2 ^ 32).toNat

/-- The size of the block that `rt_malloc` obtains for a queue. -/
def MqAttr.memSize (a : MqAttr) : Nat := Heap.State.roundUp a.queueSize

/-- The width of a slot is one as a `char`, and the size of the queue one of a block. -/
def MqAttr.Narrow (a : MqAttr) : Prop :=
  a.slotSize < 128 ∧ a.slotSize * a.mqMaxmsg ≤ 2 ^ 32 - Heap.MINSIZE

/-- `Q_CTRL`. -/
structure QCtrl where
  base : Nat := 0
  head : Nat := 0
  tail : Nat := 0
  attrs : MqAttr := {}

/-- `QUEUE_TYPE`. -/
inductive QueueType where
  | posix
  | vxWorks
deriving DecidableEq

theorem charOf_of_lt {n : Nat} (h : n % 256 < 128) : charOf n = (n % 256 : Nat) := by
  rw [charOf, if_pos h]
  rfl

/-- Such a queue gets the memory it needs, and some. -/
theorem MqAttr.Narrow.memSize {a : MqAttr} (narrow : a.Narrow) :
    a.queueSize = a.slotSize * a.mqMaxmsg ∧ a.queueSize ≤ a.memSize := by
  obtain ⟨width, fits⟩ := narrow
  have char : charOf a.slotSize = a.slotSize := by
    rw [charOf_of_lt (by omega), Nat.mod_eq_of_lt (by omega)]
  rw [MqAttr.memSize, MqAttr.queueSize, char, ← Int.natCast_mul]
  generalize a.slotSize * a.mqMaxmsg = total at fits
  unfold Heap.MINSIZE at fits
  have size : ((total : Int) % 2 ^ 32).toNat = total := by omega
  rw [size]
  unfold Heap.State.roundUp Heap.MINSIZE
  dsimp only
  omega

/-! ## Writing one field of a header -/

namespace Memory

def setHdr (p : Nat) (hdr : MsgHdr) (m : Memory) : Memory :=
  update m p { m p with hdr := hdr }

def setInUse (p : Nat) (b : Bool) (m : Memory) : Memory :=
  m.setHdr p { (m p).hdr with inUse := b }

def setNext (p next : Nat) (m : Memory) : Memory :=
  m.setHdr p { (m p).hdr with next := next }

/-- The message, its size and its priority are written to the slot. -/
def store (p : Nat) (msg : List UInt8) (msgprio : Nat) (m : Memory) : Memory :=
  update m p {
    hdr := { (m p).hdr with size := msg.length, priority := msgprio }
    data := fun i => msg.getD i ((m p).data i) }

/-- The first `n` bytes of the message in the slot. -/
def bytes (p n : Nat) (m : Memory) : List UInt8 := (List.range n).map (m p).data

end Memory

/-! ## The functions -/

namespace QCtrl

def isEmpty (q : QCtrl) : Bool := q.attrs.mqCurmsgs = 0

def isFull (q : QCtrl) : Bool := q.attrs.mqCurmsgs = q.attrs.mqMaxmsg

/-- `mq_msgsize + sizeof(MSG_HDR)`, as an `unsigned char`. -/
def msgSize (q : QCtrl) : Nat := (q.attrs.mqMsgsize + MSG_HDR_SIZE) % 256

/-- The loop of `getnode`, with `k` slots to go. -/
def getnodeLoop (m : Memory) (size : Nat) : Nat → Nat → Option Nat
  | 0, _ => none
  | k + 1, msg => if (m msg).hdr.inUse then getnodeLoop m size k (msg + size) else some msg

/-- `getnode`, without a slot when it returns `NULL`. -/
def getnode (q : QCtrl) (m : Memory) : Option (Memory × Nat) :=
  (getnodeLoop m q.msgSize q.attrs.mqMaxmsg q.base).map fun msg => (m.setInUse msg true, msg)

/-- The loop of `insert_message`, with `prev` and `insertpt`. -/
def insertPoint (m : Memory) (priority : Nat) : Nat → Nat → Nat → Option (Nat × Nat)
  | 0, _, _ => none
  | k + 1, prev, insertpt =>
      if insertpt = 0 then none
      else if (m insertpt).hdr.priority ≥ priority then
        insertPoint m priority k insertpt (m insertpt).hdr.next
      else some (prev, insertpt)

def insertMessage (type : QueueType) (thisMsg : Nat) (q : QCtrl) (m : Memory) :
    Option (QCtrl × Memory) :=
  if (m q.tail).hdr.priority ≥ (m thisMsg).hdr.priority then
    some ({ q with tail := thisMsg }, m.setNext q.tail thisMsg)
  else do
    let (prev, insertpt) ← (match type with
      | .posix =>
          insertPoint m (m thisMsg).hdr.priority (q.attrs.mqMaxmsg + 1) q.head q.head
      | .vxWorks => some (q.head, q.head))
    if insertpt = q.head then
      return ({ q with head := thisMsg }, m.setNext thisMsg q.head)
    else
      return (q, (m.setNext thisMsg (m prev).hdr.next).setNext prev thisMsg)

/-- The loop of `initialise_queue`, with `k` slots to go. -/
def initialiseLoop (size : Int) : Nat → Nat → Memory → Memory
  | 0, _, m => m
  | k + 1, msg, m =>
      initialiseLoop size k ((msg : Int) + size).toNat
        (m.setHdr msg { inUse := false, size := 0, priority := MQ_MIN_MSG_PRIORITY, next := 0 })

def initialiseQueue (q : QCtrl) (m : Memory) : Memory :=
  if q.base = 0 then m
  else initialiseLoop (charOf (q.attrs.mqMsgsize + MSG_HDR_SIZE)) q.attrs.mqMaxmsg q.base m

/-- The last part of `mq_receive`: the message at the head is taken off the queue and its
slot given back. -/
def takeHead (q : QCtrl) (m : Memory) : QCtrl × Memory :=
  let msg := q.head
  let next := (m msg).hdr.next
  let q := if next = 0 then { q with head := q.base, tail := q.base } else { q with head := next }
  ({ q with attrs := { q.attrs with mqCurmsgs := q.attrs.mqCurmsgs - 1 } },
    m.setHdr msg { (m msg).hdr with inUse := false, size := 0, next := 0 })

end QCtrl

end Rtai.Pqueues
