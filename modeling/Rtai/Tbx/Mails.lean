import Rtai.Tbx.Ring
import Rtai.Tbx.Sides
import Rtai.Lib.Run

/-!
# A typed mailbox as a queue of messages

A mailbox that is used by `rt_tbx_send`, `rt_tbx_urgent` and `rt_tbx_receive_until` with messages of
one size should be a queue of messages.  `Box` is this queue, with what the receiver that has
`rcvsmx` has got of the message it takes; `Box.follow` is none at a step that does something else.

`Represents` says that the available bytes of the buffer are those of the queue, and that each task
is at a place that agrees with it.
-/

namespace Rtai.Tbx

open Function Rtai.Lib

structure Message where
  type : UInt8
  body : List UInt8
deriving DecidableEq

def Message.bytes (m : Message) : List UInt8 := m.type :: m.body

/-- The task that receives, with the message that it has got the type byte of, or the body too. -/
inductive Receiver (Task : Type) where
  | nobody
  | typed (t : Task) (m : Message)
  | got (t : Task) (m : Message)

namespace Receiver

variable {Task : Type}

def task : Receiver Task → Option Task
  | nobody => none
  | typed t _ | got t _ => some t

/-- The part of the message that is still in the buffer. -/
def bytes : Receiver Task → List UInt8
  | typed _ m => m.body
  | nobody | got _ _ => []

end Receiver

/-- A queue of messages. -/
structure Box (Task : Type) where
  messages : List Message := []
  receiver : Receiver Task := .nobody

namespace Box

variable {Task : Type} [DecidableEq Task]

def bytes (b : Box Task) : List UInt8 := b.receiver.bytes ++ b.messages.flatMap Message.bytes

/-- A message is put into the queue. -/
def put (k : Sending) (msg : List UInt8) (b : Box Task) : Box Task :=
  match k with
  | .urgent => { b with messages := ⟨k.type, msg⟩ :: b.messages }
  | _ => { b with messages := b.messages ++ [⟨k.type, msg⟩] }

/-- The type byte of the first message is taken, and the message is treated as one of its type. -/
def take (t : Task) (type : UInt8) (v v' : Buffer) (b : Box Task) : Option (Box Task) :=
  match b.messages, b.receiver with
  | m :: rest, .nobody =>
      if (type = TYPE_BROADCAST ↔ m.type = TYPE_BROADCAST) ∧ v.available = m.type :: v'.available then
        some { messages := rest, receiver := .typed t m }
      else none
  | _, _ => none

/-- The body of the message is taken. -/
def get (t : Task) (out : Out) (v v' : Buffer) (b : Box Task) : Option (Box Task) :=
  match b.receiver with
  | .typed u m =>
      if u = t ∧ out = { value := 0, msg := m.body } ∧ v.available = m.body ++ v'.available then
        some { b with receiver := .got t m }
      else none
  | _ => none

/-- The task leaves, and returns the message if it has got one. -/
def give (t : Task) (returned : Option (Task × Out)) (b : Box Task) : Option (Box Task) :=
  match b.receiver with
  | .got u m =>
      if u ≠ t then some b
      else if returned = some (t, { value := 0, msg := m.body }) then
        some { b with receiver := .nobody }
      else none
  | _ => some b

/-- A call whose time is over leaves the buffer alone. -/
def alone (v v' : Buffer) (b : Box Task) : Option (Box Task) :=
  if v'.fbyte = v.fbyte ∧ v'.avbs = v.avbs ∧ v'.frbs = v.frbs then some b else none

/-- What the step of a task from a place to another does. -/
def after (t : Task) (v v' : Buffer) (returned : Option (Task × Out)) (b : Box Task) :
    Pc → Pc → Option (Box Task)
  | .put k _ msg, .signal _ out => if out.value = 0 then some (b.put k msg) else some b
  | .core _ _, .signal _ out => b.get t out v v'
  | .core _ _, _ => none
  | .leave .rcvsmx _, _ => b.give t returned
  | .wait (.receive _ _) _, .leave _ _ => b.alone v v'
  | .smxWait (.receive _ _), .user => b.alone v v'
  | _, .core _ type => b.take t type v v'
  | _, _ => some b

def follow (b : Box Task) (r : Record (Mailbox Task) (Mailbox.Event Task)) : Option (Box Task) :=
  match r.event with
  | .goOn t =>
      b.after t r.pre.buffer r.post.buffer r.post.returned (r.pre.task t).pc (r.post.task t).pc
  | _ => some b

end Box

namespace Mailbox

variable {Task : Type} [DecidableEq Task]

/-- The messages in the mailbox behind the steps of a run, if all of them do what they should. -/
def mails (tr : List (Record (Mailbox Task) (Event Task))) : Option (Box Task) :=
  tr.foldlM Box.follow {}

/-! ## The buffer -/

omit [DecidableEq Task] in
/-- The type byte is the first of the available bytes. -/
theorem takeType_spec {s : Mailbox Task} (counted : s.buffer.Counted) (some : 1 ≤ s.buffer.avbs) :
    s.buffer.available = s.firstByte :: s.takeType.buffer.available ∧ s.takeType.buffer.Counted := by
  have start := counted.fbyte
  have holds := counted.holds
  have next : s.takeType.buffer.Holds (s.buffer.available.drop 1) :=
    holds.drop (t := 1) (by omega) some (by omega)
  refine ⟨?_, next.counted⟩
  rw [next.available, Buffer.available, show s.buffer.avbs.toNat = 1 + (s.buffer.avbs.toNat - 1) by omega,
    window_add]
  show _ ++ _ = s.buffer.bufadr s.buffer.fbyte :: _
  rw [window, List.range_one, List.map_singleton, Nat.cast_zero, Int.add_zero,
    Int.emod_eq_of_lt start.1 start.2]
  rfl

/-- Without room nothing is put. -/
theorem store_full {b : Buffer} {k : Sending} (full : b.frbs = 0) (msg : List UInt8) :
    k.store msg b = some (b, (msg.length : Int) + 1) := by
  have none {P : Prop} : ¬(b.frbs ≠ 0 ∧ P) := fun h => h.1 full
  cases k with
  | urgent => exact if_neg none
  | _ => exact if_neg none

/-! ## The mailbox as a queue -/

variable {s s' : Mailbox Task} {b b' : Box Task} {t u : Task} {n : Nat} {op : Op} {out : Out}
  {type : UInt8} {pc : Pc} {R : Receiver Task}

/-- The place of a task agrees with what it has got. -/
def Allows (n : Nat) (R : Receiver Task) (t : Task) : Pc → Prop
  | .core _ _ => ∃ m, R = .typed t m ∧ m.body.length = n
  | .signal .rcvsmx out => ∃ m, R = .got t m ∧ out = { value := 0, msg := m.body }
  | .leave .rcvsmx out =>
      (∃ m, R = .got t m ∧ out = { value := 0, msg := m.body }) ∨ R = .nobody
  | _ => R.task ≠ some t

/-- The available bytes are those of the messages. -/
structure Represents (n : Nat) (s : Mailbox Task) (b : Box Task) : Prop where
  counted : s.buffer.Counted
  fits : n + 1 ≤ s.buffer.size
  available : s.buffer.available = b.bytes
  messages : ∀ m ∈ b.messages, m.body.length = n ∧ m.type ≠ TYPE_BROADCAST
  allows : ∀ t, Allows n b.receiver t (s.task t).pc
  shared : s.bcbadr 0 = TYPE_NONE

omit [DecidableEq Task] in
/-- At a place that has not `rcvsmx` a task has got nothing. -/
theorem allows_elsewhere (other : R.task ≠ some t) (pc : Pc)
    (elsewhere : pc.blocks = .nothing → pc.smx ≠ some .rcvsmx) : Allows n R t pc := by
  cases pc with
  | core msgSize type => exact absurd rfl (elsewhere rfl)
  | signal x out =>
      cases x with
      | rcvsmx => exact absurd rfl (elsewhere rfl)
      | _ => exact other
  | leave x out =>
      cases x with
      | rcvsmx => exact absurd rfl (elsewhere rfl)
      | _ => exact other
  | _ => exact other

omit [DecidableEq Task] in
/-- Who has got something is at one of three places. -/
theorem Allows.receives {pc : Pc} (h : Allows n R t pc) (here : R.task = some t) :
    pc.blocks = .nothing ∧ pc.smx = some .rcvsmx := by
  cases pc with
  | core msgSize type => exact ⟨rfl, rfl⟩
  | signal x out =>
      cases x with
      | rcvsmx => exact ⟨rfl, rfl⟩
      | _ => exact absurd here h
  | leave x out =>
      cases x with
      | rcvsmx => exact ⟨rfl, rfl⟩
      | _ => exact absurd here h
  | _ => exact absurd here h

namespace Represents

omit [DecidableEq Task] in
/-- What the place of a task allows. -/
theorem allowsAt (rep : Represents n s b) (here : (s.task t).pc = pc) : Allows n b.receiver t pc :=
  here ▸ rep.allows t

omit [DecidableEq Task] in
/-- Who has got something has `rcvsmx`. -/
theorem holds (rep : Represents n s b) (h : Orderly n s) (here : b.receiver.task = some t) :
    (s.task t).Holds .rcvsmx := by
  obtain ⟨still, smx⟩ := (rep.allows t).receives here
  exact (h.stands t).holds still smx

/-- A step that leaves the buffer and the queue alone. -/
theorem same (rep : Represents n s b) (buffer : s'.buffer = s.buffer) (shared : s'.bcbadr = s.bcbadr)
    (others : ∀ u, u ≠ t → (s'.task u).pc = (s.task u).pc)
    (allows : Allows n b.receiver t (s'.task t).pc) : Represents n s' b := by
  refine ⟨?_, ?_, ?_, rep.messages, ?_, ?_⟩
  · rw [buffer]
    exact rep.counted
  · rw [buffer]
    exact rep.fits
  · rw [buffer]
    exact rep.available
  · intro u
    by_cases e : u = t
    · rw [e]
      exact allows
    · rw [others u e]
      exact rep.allows u
  · rw [shared]
    exact rep.shared

omit [DecidableEq Task] in
/-- The holder of `rcvsmx` that has got nothing may take the first message. -/
theorem nobody (rep : Represents n s b) (h : Orderly n s) (holds : (s.task t).Holds .rcvsmx)
    (not : b.receiver.task ≠ some t) : b.receiver = .nobody := by
  have other (u : Task) : b.receiver.task ≠ some u := fun here =>
    not ((h.gate .rcvsmx).unique (rep.holds h here) holds ▸ here)
  cases e : b.receiver with
  | nobody => rfl
  | typed u m => exact absurd (congrArg Receiver.task e) (other u)
  | got u m => exact absurd (congrArg Receiver.task e) (other u)

omit [DecidableEq Task] in
/-- While a task has `rcvsmx`, the others are where it does not matter what it has got. -/
theorem others (h : Orderly n s) (holds : (s.task t).Holds .rcvsmx)
    (own : ∀ u, R.task = some u → u = t) (ne : u ≠ t) : Allows n R u (s.task u).pc := by
  refine allows_elsewhere (fun here => ne (own u here)) _ fun still smx => ?_
  exact ne ((h.gate .rcvsmx).unique ((h.stands u).holds still smx) holds)

end Represents

end Mailbox

end Rtai.Tbx
