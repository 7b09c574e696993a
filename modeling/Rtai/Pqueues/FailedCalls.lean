import Rtai.Pqueues.Contents

/-!
# Calls that fail

`mq_send` and `mq_receive` with the mutex of the queue, which is locked behind the tests of the
arguments and unlocked before each return.  A call that waits gives the mutex up, and goes on
with `resend` or `rereceive` once it has the mutex again.

`mq_send` marks a slot as used and counts the message before it looks at its length.
-/

namespace Rtai.Pqueues

open Function

/-- The queues, and which task has the mutex of which queue. -/
structure Guarded (T : Type) where
  state : State T
  holder : Nat → Option T := fun _ => none

namespace Guarded

variable {T : Type} [DecidableEq T]

/-- `pthread_mutex_lock`, for a caller that finds the mutex free or waits until it does. -/
def lock (self : T) (i : Nat) (g : Guarded T) : Option (Guarded T) :=
  if g.holder i = none then some { g with holder := update g.holder i (some self) } else none

/-- `pthread_mutex_unlock`, which only the owner succeeds in. -/
def unlock (self : T) (i : Nat) (g : Guarded T) : Guarded T :=
  if g.holder i = some self then { g with holder := update g.holder i none } else g

/-- `mq_send` behind the test for room. -/
def sendNow (self : T) (qIndex : Nat) (msg : List UInt8) (msgprio : Nat) (g : Guarded T) :
    Option (Guarded T × Reply) :=
  let q := g.state.descr qIndex
  match q.data.getnode g.state.memory with
  | none => some (g.unlock self qIndex, ⟨.returns (-ENOBUFS), [], 0⟩)
  | some (memory, thisMsg) =>
      let wasEmpty := q.data.isEmpty
      let data := { q.data with attrs := { q.data.attrs with
        mqCurmsgs := q.data.attrs.mqCurmsgs + 1 } }
      if msg.length > data.attrs.mqMsgsize then
        let state := { g.state.setDescr qIndex { q with data := data } with memory := memory }
        some ({ g with state := state }.unlock self qIndex, ⟨.returns (-EMSGSIZE), [], 0⟩)
      else do
        let memory := memory.store thisMsg msg msgprio
        let (data, memory) ← data.insertMessage g.state.queueType thisMsg memory
        let q := { q with data := data, notifyTask := if wasEmpty then none else q.notifyTask }
        let state := { g.state.setDescr qIndex q with memory := memory }
        return ({ g with state := state }.unlock self qIndex, ⟨.returns msg.length, [], 0⟩)

/-- `mq_send` from the test for room on, with the mutex. -/
def sendLocked (self : T) (qIndex : Nat) (msg : List UInt8) (msgprio : Nat) (g : Guarded T) :
    Option (Guarded T × Reply) :=
  let q := g.state.descr qIndex
  if q.data.isFull then do
    if ← g.state.isBlocking self q then return (g.unlock self qIndex, ⟨.blocks, [], 0⟩)
    else return (g.unlock self qIndex, ⟨.returns (-EAGAIN), [], 0⟩)
  else g.sendNow self qIndex msg msgprio

def mqSend (self : T) (mq : Nat) (msg : List UInt8) (msgprio : Nat) (g : Guarded T) :
    Option (Guarded T × Reply) :=
  if 1 ≤ mq ∧ mq ≤ MAX_PQUEUES then do
    if ¬(← g.state.canAccess self .forWrite (g.state.descr (mq - 1))) then
      return (g, ⟨.returns (-EINVAL), [], 0⟩)
    else if msgprio > MQ_PRIO_MAX then return (g, ⟨.returns (-EINVAL), [], 0⟩)
    else (← g.lock self (mq - 1)).sendLocked self (mq - 1) msg msgprio
  else some (g, ⟨.returns (-EBADF), [], 0⟩)

/-- `mq_send` behind `pthread_cond_wait`. -/
def resend (self : T) (mq : Nat) (msg : List UInt8) (msgprio : Nat) (g : Guarded T) :
    Option (Guarded T × Reply) := do
  (← g.lock self (mq - 1)).sendLocked self (mq - 1) msg msgprio

/-- `mq_receive` behind the test for a message. -/
def receiveNow (self : T) (qIndex buflen : Nat) (g : Guarded T) : Guarded T × Reply :=
  let q := g.state.descr qIndex
  if buflen < q.data.attrs.mqMsgsize then (g.unlock self qIndex, ⟨.returns (-EMSGSIZE), [], 0⟩)
  else
    let hdr := (g.state.memory q.data.head).hdr
    let reply : Reply :=
      if hdr.size ≤ buflen then
        ⟨.returns hdr.size, g.state.memory.bytes q.data.head hdr.size, hdr.priority⟩
      else ⟨.returns (-1), [], 0⟩
    let (data, memory) := q.data.takeHead g.state.memory
    let state := { g.state.setDescr qIndex { q with data := data } with memory := memory }
    ({ g with state := state }.unlock self qIndex, reply)

/-- `mq_receive` from the test for a message on, with the mutex. -/
def receiveLocked (self : T) (qIndex buflen : Nat) (g : Guarded T) : Option (Guarded T × Reply) :=
  let q := g.state.descr qIndex
  if q.data.isEmpty then do
    if ← g.state.isBlocking self q then return (g.unlock self qIndex, ⟨.blocks, [], 0⟩)
    else return (g.unlock self qIndex, ⟨.returns (-EAGAIN), [], 0⟩)
  else some (g.receiveNow self qIndex buflen)

def mqReceive (self : T) (mq buflen : Nat) (g : Guarded T) : Option (Guarded T × Reply) :=
  if 1 ≤ mq ∧ mq ≤ MAX_PQUEUES then do
    if ¬(← g.state.canAccess self .forRead (g.state.descr (mq - 1))) then
      return (g, ⟨.returns (-EINVAL), [], 0⟩)
    else (← g.lock self (mq - 1)).receiveLocked self (mq - 1) buflen
  else some (g, ⟨.returns (-EBADF), [], 0⟩)

/-- `mq_receive` behind `pthread_cond_wait`. -/
def rereceive (self : T) (mq buflen : Nat) (g : Guarded T) : Option (Guarded T × Reply) := do
  (← g.lock self (mq - 1)).receiveLocked self (mq - 1) buflen

end Guarded

/-- What a call does from its start, or from where it waited, to where it waits or returns. -/
inductive Part (T : Type) where
  | send (self : T) (mq : Nat) (msg : List UInt8) (msgprio : Nat)
  | resend (self : T) (mq : Nat) (msg : List UInt8) (msgprio : Nat)
  | receive (self : T) (mq buflen : Nat)
  | rereceive (self : T) (mq buflen : Nat)

namespace Part

variable {T : Type} [DecidableEq T]

def mq : Part T → Nat
  | send _ mq _ _ | resend _ mq _ _ | receive _ mq _ | rereceive _ mq _ => mq

def run (g : Guarded T) : Part T → Option (Guarded T × Reply)
  | send self mq msg msgprio => g.mqSend self mq msg msgprio
  | resend self mq msg msgprio => g.resend self mq msg msgprio
  | receive self mq buflen => g.mqReceive self mq buflen
  | rereceive self mq buflen => g.rereceive self mq buflen

end Part

/-- The call returns an error. -/
def Reply.Failed (r : Reply) : Prop := ∃ v < 0, r.outcome = .returns v

namespace QCtrl

theorem takeHead_curmsgs (q : QCtrl) (m : Memory) :
    (q.takeHead m).1.attrs.mqCurmsgs = q.attrs.mqCurmsgs - 1 := by
  rw [takeHead]
  dsimp only
  split <;> rfl

/-- The slot is free. -/
def Spare (q : QCtrl) (m : Memory) (p : Nat) : Prop := q.IsSlot p ∧ (m p).hdr.inUse = false

/-- There is a slot for the message, which is too long for it. -/
def Overlong (q : QCtrl) (m : Memory) (msg : List UInt8) : Prop :=
  q.isFull = false ∧ (q.getnode m).isSome ∧ q.attrs.mqMsgsize < msg.length

/-- The message at the head is too long for a buffer that is long enough for the queue. -/
def Overfull (q : QCtrl) (m : Memory) (buflen : Nat) : Prop :=
  q.isEmpty = false ∧ q.attrs.mqMsgsize ≤ buflen ∧ buflen < (m q.head).hdr.size

end QCtrl

variable {T : Type} [DecidableEq T]

/-- The call gets as far as to a message that is too long. -/
def Part.Spoils (g : Guarded T) (p : Part T) : Prop :=
  let q := g.state.descr (p.mq - 1)
  match p with
  | send self mq msg msgprio => 1 ≤ mq ∧ mq ≤ MAX_PQUEUES ∧
      g.state.canAccess self .forWrite q = some true ∧ msgprio ≤ MQ_PRIO_MAX ∧
        q.data.Overlong g.state.memory msg
  | resend _ _ msg _ => q.data.Overlong g.state.memory msg
  | receive self mq buflen => 1 ≤ mq ∧ mq ≤ MAX_PQUEUES ∧
      g.state.canAccess self .forRead q = some true ∧ q.data.Overfull g.state.memory buflen
  | rereceive _ _ buflen => q.data.Overfull g.state.memory buflen

/-- What a call that fails has to leave as it was. -/
structure Guarded.Restored (i : Nat) (g g' : Guarded T) : Prop where
  messages : (g'.state.descr i).data.contents g'.state.memory =
    (g.state.descr i).data.contents g.state.memory
  curmsgs : (g'.state.descr i).data.attrs.mqCurmsgs = (g.state.descr i).data.attrs.mqCurmsgs
  spare : ∀ p, (g'.state.descr i).data.Spare g'.state.memory p ↔
    (g.state.descr i).data.Spare g.state.memory p
  mutex : g'.holder = g.holder

/-! ## The mutex -/

namespace Guarded

variable {g g₁ g' : Guarded T} {self : T} {i mq buflen msgprio : Nat} {msg : List UInt8} {r : Reply}

theorem unlock_state : (g.unlock self i).state = g.state := by
  rw [unlock]
  split <;> rfl

theorem unlock_with (state : State T) :
    ({ g with state := state }.unlock self i).holder = (g.unlock self i).holder := by
  rw [unlock, unlock]
  split <;> rfl

omit [DecidableEq T] in
/-- The caller gets a mutex that nobody has. -/
theorem lock_spec (h : g.lock self i = some g₁) :
    g.holder i = none ∧ g₁.state = g.state ∧ g₁.holder = update g.holder i (some self) := by
  rw [lock] at h
  split at h
  next free =>
    cases h
    exact ⟨free, rfl, rfl⟩
  next => cases h

/-- Unlocked again, the mutexes are as they were. -/
theorem unlock_holder (free : g.holder i = none) (locked : g₁.holder = update g.holder i (some self)) :
    (g₁.unlock self i).holder = g.holder := by
  have mine : g₁.holder i = some self := by rw [locked, update_self]
  rw [unlock, if_pos mine]
  show update g₁.holder i none = g.holder
  rw [locked, update_idem, update_eq_self_iff.mpr free.symm]

/-! ## The state without the mutex -/

theorem sendNow_state : (g.sendNow self i msg msgprio).map (fun p => (p.1.state, p.2)) =
    (g.state.sendNow i msg msgprio).map fun p => (p.1, ⟨.returns p.2, [], 0⟩) := by
  unfold sendNow State.sendNow
  dsimp only
  cases (g.state.descr i).data.getnode g.state.memory with
  | none => simp [unlock_state]
  | some slot =>
      dsimp only
      split
      · simp [unlock_state]
      · simp [unlock_state, Option.map_bind]

theorem sendLocked_state : (g.sendLocked self i msg msgprio).map (fun p => (p.1.state, p.2)) =
    if (g.state.descr i).data.isFull then
      (g.state.isBlocking self (g.state.descr i)).map fun blocking =>
        (g.state, if blocking then ⟨.blocks, [], 0⟩ else ⟨.returns (-EAGAIN), [], 0⟩)
    else (g.state.sendNow i msg msgprio).map fun p => (p.1, ⟨.returns p.2, [], 0⟩) := by
  rw [sendLocked]
  split
  · cases g.state.isBlocking self (g.state.descr i) with
    | none => rfl
    | some blocking => cases blocking <;> simp [unlock_state]
  · exact sendNow_state

/-- Where the mutex is free, `mq_send` is the call of the queues. -/
theorem mqSend_state (free : g.holder (mq - 1) = none) :
    (g.mqSend self mq msg msgprio).map (fun p => (p.1.state, p.2)) =
      g.state.mqSend self mq msg msgprio := by
  unfold mqSend State.mqSend
  split
  next =>
    dsimp only
    cases g.state.canAccess self .forWrite (g.state.descr (mq - 1)) with
    | none => rfl
    | some permitted =>
        simp only [Option.bind_eq_bind, Option.bind_some, lock, if_pos free]
        split
        · rfl
        · split
          · rfl
          · rw [sendLocked_state]
            dsimp only
            split
            · cases g.state.isBlocking self (g.state.descr (mq - 1)) with
              | none => rfl
              | some blocking => cases blocking <;> rfl
            · cases g.state.sendNow (mq - 1) msg msgprio <;> rfl
  next => rfl

theorem receiveNow_state : ((g.receiveNow self i buflen).1.state, (g.receiveNow self i buflen).2) =
    g.state.receiveNow i buflen := by
  unfold receiveNow State.receiveNow
  dsimp only
  split
  · rw [unlock_state]
  · rw [unlock_state]

/-- Where the mutex is free, `mq_receive` is the call of the queues. -/
theorem mqReceive_state (free : g.holder (mq - 1) = none) :
    (g.mqReceive self mq buflen).map (fun p => (p.1.state, p.2)) =
      g.state.mqReceive self mq buflen := by
  unfold mqReceive State.mqReceive
  split
  next =>
    dsimp only
    cases g.state.canAccess self .forRead (g.state.descr (mq - 1)) with
    | none => rfl
    | some permitted =>
        simp only [Option.bind_eq_bind, Option.bind_some, lock, if_pos free, receiveLocked]
        split
        · rfl
        · split
          · cases g.state.isBlocking self (g.state.descr (mq - 1)) with
            | none => rfl
            | some blocking => cases blocking <;> simp [unlock_state]
          · exact congrArg some receiveNow_state
  next => rfl

/-! ## Calls that fail -/

/-- What fails with the mutex is either harmless, or a message that is too long. -/
theorem sendLocked_failed (h : g.sendLocked self i msg msgprio = some (g', r)) (failed : r.Failed) :
    g'.holder = (g.unlock self i).holder ∧
      (g'.state = g.state ∧ ¬(g.state.descr i).data.Overlong g.state.memory msg ∨
        (g.state.descr i).data.Overlong g.state.memory msg ∧
          (g'.state.descr i).data.attrs.mqCurmsgs ≠ (g.state.descr i).data.attrs.mqCurmsgs) := by
  rw [sendLocked] at h
  split at h
  next full =>
    have harmless : ¬(g.state.descr i).data.Overlong g.state.memory msg := by
      intro overlong
      rw [overlong.1] at full
      cases full
    obtain ⟨blocking, -, h⟩ := Option.bind_eq_some_iff.mp h
    split at h
    · cases h
      obtain ⟨v, -, e⟩ := failed
      cases e
    · cases h
      exact ⟨rfl, .inl ⟨unlock_state, harmless⟩⟩
  next room =>
    rw [sendNow] at h
    dsimp only at h
    split at h
    next none =>
      cases h
      refine ⟨rfl, .inl ⟨unlock_state, fun overlong => ?_⟩⟩
      have slot := overlong.2.1
      rw [none] at slot
      cases slot
    next memory thisMsg found =>
      split at h
      next long =>
        cases h
        refine ⟨?_, .inr ⟨⟨Bool.eq_false_of_not_eq_true room, ?_, long⟩, ?_⟩⟩
        · exact unlock_with _
        · rw [found]
          rfl
        · rw [unlock_state]
          simp [State.setDescr]
      next =>
        obtain ⟨⟨data, memory⟩, -, h⟩ := Option.bind_eq_some_iff.mp h
        cases h
        obtain ⟨v, negative, e⟩ := failed
        cases e
        exact absurd negative (by omega)

theorem receiveLocked_failed (h : g.receiveLocked self i buflen = some (g', r)) (failed : r.Failed) :
    g'.holder = (g.unlock self i).holder ∧
      (g'.state = g.state ∧ ¬(g.state.descr i).data.Overfull g.state.memory buflen ∨
        (g.state.descr i).data.Overfull g.state.memory buflen ∧
          (g'.state.descr i).data.attrs.mqCurmsgs ≠ (g.state.descr i).data.attrs.mqCurmsgs) := by
  rw [receiveLocked] at h
  split at h
  next empty =>
    have harmless : ¬(g.state.descr i).data.Overfull g.state.memory buflen := by
      intro overfull
      rw [overfull.1] at empty
      cases empty
    obtain ⟨blocking, -, h⟩ := Option.bind_eq_some_iff.mp h
    split at h
    · cases h
      obtain ⟨v, -, e⟩ := failed
      cases e
    · cases h
      exact ⟨rfl, .inl ⟨unlock_state, harmless⟩⟩
  next nonempty =>
    have counted : (g.state.descr i).data.attrs.mqCurmsgs ≠ 0 := by
      simpa [QCtrl.isEmpty] using nonempty
    rw [receiveNow] at h
    dsimp only at h
    split at h
    next small =>
      cases h
      exact ⟨rfl, .inl ⟨unlock_state, fun overfull => absurd overfull.2.1 (by omega)⟩⟩
    next large =>
      cases h
      split at failed
      next =>
        obtain ⟨v, negative, e⟩ := failed
        cases e
        exact absurd negative (by omega)
      next long =>
        refine ⟨unlock_with _, .inr ⟨⟨Bool.eq_false_of_not_eq_true nonempty, ?_, ?_⟩, ?_⟩⟩
        · exact Nat.le_of_not_lt large
        · exact Nat.lt_of_not_le long
        · rw [unlock_state]
          simp only [State.setDescr, update_self, QCtrl.takeHead_curmsgs]
          omega

omit [DecidableEq T] in
/-- A call that fails restores the queue just when it is not spoilt. -/
theorem restored_iff {Bad : Prop} (holder : g'.holder = g.holder)
    (spec : g'.state = g.state ∧ ¬Bad ∨ Bad ∧
      (g'.state.descr i).data.attrs.mqCurmsgs ≠ (g.state.descr i).data.attrs.mqCurmsgs) :
    g.Restored i g' ↔ ¬Bad := by
  rcases spec with ⟨same, harmless⟩ | ⟨bad, counted⟩
  · refine iff_of_true ⟨?_, ?_, fun p => ?_, holder⟩ harmless
    · rw [same]
    · rw [same]
    · rw [same]
  · exact iff_of_false (fun restored => counted restored.curmsgs) (not_not.mpr bad)

/-- A call that gets the mutex and fails. -/
theorem restored_locked {Bad : Guarded T → Prop} {call : Guarded T → Option (Guarded T × Reply)}
    (h : (g.lock self i).bind call = some (g', r))
    (spec : ∀ g₁, call g₁ = some (g', r) → g'.holder = (g₁.unlock self i).holder ∧
      (g'.state = g₁.state ∧ ¬Bad g₁ ∨ Bad g₁ ∧
        (g'.state.descr i).data.attrs.mqCurmsgs ≠ (g₁.state.descr i).data.attrs.mqCurmsgs))
    (state : ∀ g₁, g₁.state = g.state → (Bad g₁ ↔ Bad g)) : g.Restored i g' ↔ ¬Bad g := by
  obtain ⟨g₁, locked, h⟩ := Option.bind_eq_some_iff.mp h
  obtain ⟨free, same, holder⟩ := lock_spec locked
  obtain ⟨unlocked, spec⟩ := spec g₁ h
  rw [state g₁ same, same] at spec
  exact restored_iff (unlocked.trans (unlock_holder free holder)) spec

end Guarded

/-- A call that returns an error leaves the queue as it was, and its mutex released, unless it
gets as far as to a message that is too long. -/
theorem failed_calls {g g' : Guarded T} {p : Part T} {r : Reply} (h : p.run g = some (g', r))
    (failed : r.Failed) : g.Restored (p.mq - 1) g' ↔ ¬p.Spoils g := by
  cases p with
  | send self mq msg msgprio =>
      change g.mqSend self mq msg msgprio = some (g', r) at h
      rw [Guarded.mqSend] at h
      split at h
      next valid =>
        obtain ⟨permitted, access, h⟩ := Option.bind_eq_some_iff.mp h
        split at h
        next refused =>
          cases h
          refine Guarded.restored_iff rfl (.inl ⟨rfl, fun spoils => refused ?_⟩)
          exact Option.some.inj (access.symm.trans spoils.2.2.1)
        next granted =>
          rw [Bool.not_eq_true, Bool.not_eq_false] at granted
          split at h
          next urgent =>
            cases h
            exact Guarded.restored_iff rfl (.inl ⟨rfl, fun spoils =>
              absurd spoils.2.2.2.1 (Nat.not_le_of_lt urgent)⟩)
          next prio =>
            have spoils : (Part.send self mq msg msgprio).Spoils g ↔
                (g.state.descr (mq - 1)).data.Overlong g.state.memory msg :=
              ⟨fun spoils => spoils.2.2.2.2, fun overlong =>
                ⟨valid.1, valid.2, granted ▸ access, Nat.le_of_not_lt prio, overlong⟩⟩
            rw [spoils]
            exact Guarded.restored_locked h (fun _ h => Guarded.sendLocked_failed h failed)
              fun _ same => by rw [same]
      next invalid =>
        cases h
        exact Guarded.restored_iff rfl (.inl ⟨rfl, fun spoils => invalid ⟨spoils.1, spoils.2.1⟩⟩)
  | resend self mq msg msgprio =>
      exact Guarded.restored_locked h (fun _ h => Guarded.sendLocked_failed h failed)
        fun _ same => by rw [same]
  | receive self mq buflen =>
      change g.mqReceive self mq buflen = some (g', r) at h
      rw [Guarded.mqReceive] at h
      split at h
      next valid =>
        obtain ⟨permitted, access, h⟩ := Option.bind_eq_some_iff.mp h
        split at h
        next refused =>
          cases h
          refine Guarded.restored_iff rfl (.inl ⟨rfl, fun spoils => refused ?_⟩)
          exact Option.some.inj (access.symm.trans spoils.2.2.1)
        next granted =>
          rw [Bool.not_eq_true, Bool.not_eq_false] at granted
          have spoils : (Part.receive self mq buflen).Spoils g ↔
              (g.state.descr (mq - 1)).data.Overfull g.state.memory buflen :=
            ⟨fun spoils => spoils.2.2.2, fun overfull =>
              ⟨valid.1, valid.2, granted ▸ access, overfull⟩⟩
          rw [spoils]
          exact Guarded.restored_locked h (fun _ h => Guarded.receiveLocked_failed h failed)
            fun _ same => by rw [same]
      next invalid =>
        cases h
        exact Guarded.restored_iff rfl (.inl ⟨rfl, fun spoils => invalid ⟨spoils.1, spoils.2.1⟩⟩)
  | rereceive self mq buflen =>
      exact Guarded.restored_locked h (fun _ h => Guarded.receiveLocked_failed h failed)
        fun _ same => by rw [same]

/-- A queue of two one-byte messages, with nobody at it. -/
def oneByte : Guarded Unit where
  state := (({} : State Unit).mqOpen () [1]
    { rdwr := true, creat := true, nonblock := true } { rusr := true, wusr := true }
    (some { mqMaxmsg := 2, mqMsgsize := 1 }) 1).1

/-- What a call returns. -/
def Part.value (g : Guarded Unit) (p : Part Unit) : Option Outcome :=
  (p.run g).map fun answer => answer.2.outcome

/-- A queue without a message is left as it was. -/
theorem failed_calls_empty : ∃ g' r, (Part.receive () 1 1).run oneByte = some (g', r) ∧
    r.outcome = .returns (-EAGAIN) ∧
      (oneByte.Restored 0 g' ↔ ¬(Part.receive () 1 1).Spoils oneByte) := by
  have value : (Part.receive () 1 1).value oneByte = some (.returns (-EAGAIN)) := by decide +kernel
  obtain ⟨⟨g', r⟩, h, e⟩ := Option.map_eq_some_iff.mp value
  exact ⟨g', r, h, e, failed_calls h ⟨-EAGAIN, by decide, e⟩⟩

/-- A message of two bytes is refused, and counted. -/
theorem refused_counted : ∃ g' r, (Part.send () 1 [7, 7] 0).run oneByte = some (g', r) ∧
    r.outcome = .returns (-EMSGSIZE) ∧ (g'.state.descr 0).data.attrs.mqCurmsgs = 1 ∧
      ¬oneByte.Restored 0 g' := by
  have value : ((Part.send () 1 [7, 7] 0).run oneByte).map (fun answer =>
      (answer.2.outcome, (answer.1.state.descr 0).data.attrs.mqCurmsgs)) =
        some (.returns (-EMSGSIZE), 1) := by decide +kernel
  obtain ⟨⟨g', r⟩, h, e⟩ := Option.map_eq_some_iff.mp value
  obtain ⟨outcome, counted⟩ := Prod.mk.inj e
  refine ⟨g', r, h, outcome, counted, fun restored => ?_⟩
  have same := restored.curmsgs
  rw [counted] at same
  revert same
  decide +kernel

end Rtai.Pqueues
