import Rtai.Tbx.Mails
import Mathlib.Data.Fintype.Basic

/-!
# Timed receives

`tbx_wait_msg_until` reads the type byte before it waits, and does not look again whether there is
a message when it is woken.  `tbxput` writes a part of a message when there is no room for all of it.
And `tbxbackput` may come between the type byte and the body of the message that is taken.
`Sound` says that a step is none of these, and then the mailbox is a queue of messages.
-/

namespace Rtai.Tbx

open Function Rtai.Lib

/-- The task is between the type byte and the body. -/
def Pc.isCore : Pc → Bool
  | core _ _ => true
  | _ => false

namespace Mailbox

variable {Task : Type} [DecidableEq Task]

/-- `rt_tbx_send`, `rt_tbx_urgent` and `rt_tbx_receive_until` with messages of `n` bytes. -/
def Call.Uses (n : Nat) : Call → Prop
  | .send form msg | .urgent form msg => form = .plain ∧ msg.length = n
  | .broadcast _ _ => False
  | .receive form msgSize => form = .timed ∧ msgSize = n

/-- The mailbox is used by these calls, and times may be over. -/
def Event.Uses (n : Nat) : Event Task → Prop
  | .call _ c => c.Uses n
  | .goOn _ | .timer _ => True
  | .suspend _ | .resume _ => False

/-- The place from which a task goes on lets it do so. -/
def GoesWell (t : Task) (s : Mailbox Task) : Pc → Prop
  | .wait op type =>
      op.smx = .rcvsmx → (s.task t).blockedOn = .nothing →
        op.msgSize + 1 ≤ s.buffer.avbs ∧ type ≠ TYPE_BROADCAST
  | .put k _ msg =>
      s.buffer.frbs ≠ 0 → msg.length + 1 ≤ s.buffer.frbs ∧
        (k = .urgent → msg ≠ [] → ∀ u, (s.task u).pc.isCore = false)
  | _ => True

/-- A receiver that is woken finds a message, and has not read `TYPE_BROADCAST` before.  A sender
finds room for its message or none at all, and an urgent one finds nobody between the type byte and
the body. -/
def Sound (s : Mailbox Task) : Event Task → Prop
  | .goOn t => s.GoesWell t (s.task t).pc
  | _ => True

variable {s s' : Mailbox Task} {b b' : Box Task} {t u : Task} {n : Nat} {op : Op} {out : Out}
  {type : UInt8} {pc : Pc} {k : Sending} {msg : List UInt8} {form : Form}

/-! ## The steps of a task -/

/-- The step of a task keeps the invariants, and does what it should. -/
def Kept (n : Nat) (b : Box Task) (t : Task) (s s' : Mailbox Task) : Prop :=
  Orderly n s' ∧ ∃ b', b.after t s.buffer s'.buffer s'.returned (s.task t).pc (s'.task t).pc = some b' ∧
    Represents n s' b'

/-- A step that leaves the buffer and the queue alone. -/
theorem kept_still (rep : Represents n s b) (h : Orderly n s') (stepped : s.goOn t = some s')
    (buffer : s'.buffer = s.buffer) (shared : s'.bcbadr = s.bcbadr)
    (allows : Allows n b.receiver t (s'.task t).pc)
    (still : b.after t s.buffer s.buffer s'.returned (s.task t).pc (s'.task t).pc = some b) :
    Kept n b t s s' := by
  refine ⟨h, b, ?_, rep.same buffer shared (fun u ne => goOn_pc ne stepped) allows⟩
  rw [buffer]
  exact still

omit [DecidableEq Task] in
theorem alone_self (v : Buffer) (b : Box Task) : b.alone v v = some b := if_pos ⟨rfl, rfl, rfl⟩

section

variable (rep : Represents n s b) (h : Orderly n s)
include rep h

theorem smxWaited_kept (goes : s.goOn t = some s') (ready : (s.task t).ready = true)
    (pc : (s.task t).pc = .smxWait op) : Kept n b t s s' := by
  have other : b.receiver.task ≠ some t := rep.allowsAt pc
  have stands := h.stands t
  have of := h.ofAt pc
  have e := goes
  simp only [goOn, pc, Option.some.injEq] at e
  by_cases free : (s.task t).blockedOn = .nothing
  · have entered : s.smxWaited t op = s.setPc t (.entered op) := by
      rw [smxWaited, if_pos free, smxPassed, if_pos free, ite_self]
    rw [entered] at e
    subst e
    refine kept_still rep (h.setPc free of (by rw [pc]; rfl)) goes rfl rfl ?_ ?_
    · rwa [setPc_self]
    · rw [pc, setPc_self]
      cases op <;> rfl
  · have blocked : (s.task t).blockedOn = .queue op.smx := by
      rw [stands.blocked.resolve_left free, pc]
      rfl
    rcases Op.Of.cases of with ⟨k, msg, rfl, -⟩ | rfl
    · exact absurd (stands.woken ready (by rw [pc]; rfl)) free
    · rw [smxWaited, if_pos (show (Op.receive .timed n).form = .timed from rfl), if_neg free] at e
      subst e
      refine kept_still rep (h.unqueue blocked pc (stands.untimed_of_ready ready)) goes ?_ ?_ ?_ ?_
      · rw [dequeueBlocked, blocked]
        rfl
      · rw [dequeueBlocked, blocked]
        rfl
      · rw [Mailbox.finish, setPc_self]
        exact other
      · rw [pc, Mailbox.finish, setPc_self]
        exact alone_self _ _

/-- The beginning of a wait for `tbx_signal`. -/
theorem await_kept {f : TaskWords → TaskWords} (goes : s.goOn t = some (s.await t f))
    (pc : (s.task t).pc = .entered op) (waits : (f (s.task t)).pc = .wait op type)
    (ready : (f (s.task t)).ready = false)
    (timed : (f (s.task t)).timed = true → (f (s.task t)).state.delayed = true ∧ op.form = .timed) :
    Kept n b t s (s.await t f) := by
  have free : (s.task t).blockedOn = .nothing := h.freeAt pc rfl
  have of := h.ofAt pc
  have self : ((s.await t f).task t).pc = .wait op type := by
    rw [await, modify_self]
    exact waits
  have awaits : Orderly n (s.await t f) := by
    refine h.await free ⟨?_, .inr ?_, fun listed => ⟨(timed listed).1, nofun, ready⟩, fun _ plain => ⟨ready, ?_⟩⟩ ?_
    · show (f (s.task t)).pc.Of n
      rw [waits]
      exact of
    · show BlockedOn.something = (f (s.task t)).pc.blocks
      rw [waits]
      rfl
    · have plain : (f (s.task t)).pc.plain := plain
      rw [waits] at plain
      by_contra listed
      have form := (timed (eq_true_of_ne_false listed)).2
      exact absurd (form.symm.trans plain) nofun
    · rw [waits, pc]
      rfl
  refine kept_still rep awaits goes rfl rfl ?_ ?_
  · rw [self]
    exact (rep.allowsAt pc : b.receiver.task ≠ some t)
  · rw [self, pc]
    cases op <;> rfl

/-- The type byte of the first message is taken. -/
theorem take_kept (goes : s.goOn t = some (s.takeType.setPc t (.core n type)))
    (pc : (s.task t).pc = .entered (.receive .timed n) ∨
      ∃ type', (s.task t).pc = .wait (.receive .timed n) type')
    (free : (s.task t).blockedOn = .nothing) (there : n + 1 ≤ s.buffer.avbs)
    (typed : type ≠ TYPE_BROADCAST ∨ type = s.firstByte) :
    Kept n b t s (s.takeType.setPc t (.core n type)) := by
  have smx : (s.task t).pc.smx = some .rcvsmx := by
    rcases pc with pc | ⟨type', pc⟩ <;> rw [pc] <;> rfl
  have not : b.receiver.task ≠ some t := by
    rcases pc with pc | ⟨type', pc⟩ <;> exact rep.allowsAt pc
  have holds : (s.task t).Holds .rcvsmx := ⟨smx, by rw [free]; nofun⟩
  have nobody := rep.nobody h holds not
  obtain ⟨first, counted⟩ := takeType_spec rep.counted (by omega)
  -- The first byte is that of a message.
  have available := rep.available
  rw [Box.bytes, nobody, first] at available
  obtain ⟨m, rest, messages⟩ : ∃ m rest, b.messages = m :: rest := by
    cases messages : b.messages with
    | nil =>
        rw [messages] at available
        cases available
    | cons m rest => exact ⟨m, rest, rfl⟩
  rw [messages] at available
  obtain ⟨byte, behind⟩ : s.firstByte = m.type ∧ s.takeType.buffer.available =
      m.body ++ rest.flatMap Message.bytes := List.cons_eq_cons.mp available
  have each := rep.messages
  rw [messages] at each
  obtain ⟨length, own⟩ := each m List.mem_cons_self
  have single : type ≠ TYPE_BROADCAST := typed.elim id fun e => by rwa [e, byte]
  refine ⟨(h.setBuffer _).setPc free ⟨rfl, single⟩ smx.symm, ⟨rest, .typed t m⟩, ?_, ?_⟩
  · have took : b.take t type s.buffer s.takeType.buffer = some ⟨rest, .typed t m⟩ := by
      rw [Box.take, messages, nobody]
      refine if_pos ⟨iff_of_false single own, ?_⟩
      rw [first, byte]
    rw [setPc_self]
    rcases pc with pc | ⟨type', pc⟩ <;> rw [pc] <;> exact took
  · refine ⟨counted, rep.fits, behind, fun m mem => each m (List.mem_cons_of_mem _ mem), ?_, rep.shared⟩
    intro u
    by_cases e : u = t
    · rw [e, setPc_self]
      exact ⟨m, rfl, length⟩
    · rw [goOn_pc e goes]
      exact Represents.others h holds (fun v here => (Option.some.inj here).symm) e

theorem entered_kept (goes : s.goOn t = some s') (pc : (s.task t).pc = .entered op) :
    Kept n b t s s' := by
  have free : (s.task t).blockedOn = .nothing := h.freeAt pc rfl
  have untimed := (h.stands t).untimed free
  have of := h.ofAt pc
  have e := goes
  rcases Op.Of.cases of with ⟨k, msg, rfl, -⟩ | rfl
  · simp only [goOn, pc, Option.some.injEq] at e
    by_cases full : s.buffer.frbs < msg.length + 1
    · rw [tbxWaitRoom, if_pos full] at e
      subst e
      refine await_kept rep h goes pc rfl rfl fun listed => ?_
      cases untimed.symm.trans listed
    · rw [tbxWaitRoom, if_neg full, roomPassed, if_pos free] at e
      subst e
      refine kept_still rep (h.setPc free of (by rw [pc]; rfl)) goes rfl rfl ?_ ?_
      · rw [setPc_self]
        exact (rep.allowsAt pc : b.receiver.task ≠ some t)
      · rw [setPc_self, pc]
        rfl
  · have shared : s.bcbadr 0 ≠ TYPE_BROADCAST := by
      rw [rep.shared]
      decide
    simp only [goOn, pc, Option.some.injEq] at e
    by_cases few : s.buffer.avbs < n + 1
    · rw [tbxWaitMsgUntil, if_neg shared, if_pos ⟨few, rep.shared⟩] at e
      subst e
      refine await_kept rep h goes pc rfl rfl fun _ => ⟨?_, rfl⟩
      exact Bool.or_true _
    · rw [tbxWaitMsgUntil, if_neg shared, if_neg fun waits => few waits.1] at e
      subst e
      exact take_kept rep h goes (.inl pc) free (by omega) (.inr rfl)

theorem wait_kept (goes : s.goOn t = some s') (ready : (s.task t).ready = true)
    (pc : (s.task t).pc = .wait op type) (well : s.GoesWell t (.wait op type)) :
    Kept n b t s s' := by
  have stands := h.stands t
  have of := h.ofAt pc
  have other : b.receiver.task ≠ some t := rep.allowsAt pc
  have e := goes
  rcases Op.Of.cases of with ⟨k, msg, rfl, -⟩ | rfl
  · have free := stands.woken ready (by rw [pc]; rfl)
    simp only [goOn, pc, waited, Option.some.injEq, roomPassed, if_pos free] at e
    subst e
    refine kept_still rep (h.setPc free of (by rw [pc]; rfl)) goes rfl rfl ?_ ?_
    · rwa [setPc_self]
    · rw [setPc_self, pc]
      rfl
  · simp only [goOn, pc, waited] at e
    by_cases free : (s.task t).blockedOn = .nothing
    · rw [if_pos free, Option.some.injEq] at e
      subst e
      obtain ⟨there, single⟩ := well rfl free
      exact take_kept rep h goes (.inr ⟨type, pc⟩) free there (.inl single)
    · rw [if_neg free, Option.some.injEq] at e
      subst e
      have something : (s.task t).blockedOn = .something := by
        rw [stands.blocked.resolve_left free, pc]
        rfl
      have holds : (s.task t).Holds .rcvsmx := by
        rw [TaskWords.Holds, pc, something]
        exact ⟨rfl, by simp⟩
      have self : ((s.timedOut t (.receive .timed n)).task t).pc =
          .leave .rcvsmx (Op.receive .timed n).refused := by
        rw [Mailbox.timedOut, modify_self]
        rfl
      have untimed := stands.untimed_of_ready ready
      refine kept_still rep (h.timedOut something pc untimed Smx.noConfusion) goes rfl rfl ?_ ?_
      · rw [self]
        exact .inr (rep.nobody h holds other)
      · rw [self, pc]
        exact alone_self _ _

end

omit [DecidableEq Task] in
/-- Whose type byte is taken has its body still before it. -/
theorem Allows.typed {m : Message} {pc : Pc} (h : Allows n (.typed t m) t pc) :
    pc.isCore = true ∧ m.body.length = n := by
  cases pc with
  | core msgSize type =>
      obtain ⟨m', e, length⟩ := h
      cases e
      exact ⟨rfl, length⟩
  | signal x out =>
      cases x with
      | rcvsmx =>
          obtain ⟨m', e, -⟩ := h
          cases e
      | _ => exact absurd rfl h
  | leave x out =>
      cases x with
      | rcvsmx => rcases h with ⟨m', e, -⟩ | e <;> cases e
      | _ => exact absurd rfl h
  | _ => exact absurd rfl h

/-- A message is put into the queue. -/
theorem stored_kept (rep : Represents n s b) (h : Orderly n s) {v : Buffer}
    (goes : s.goOn t = some ({ s with buffer := v }.setPc t (.signal .sndsmx { value := 0 })))
    (pc : (s.task t).pc = .put k form msg) (counted : v.Counted) (size : v.size = s.buffer.size)
    (available : v.available = (b.put k msg).bytes) (single : k.Single) (length : msg.length = n) :
    Kept n b t s ({ s with buffer := v }.setPc t (.signal .sndsmx { value := 0 })) := by
  have free : (s.task t).blockedOn = .nothing := h.freeAt pc rfl
  have same : (b.put k msg).receiver = b.receiver := by
    rw [Box.put.eq_def]
    split <;> rfl
  refine ⟨(h.setBuffer v).setPc free ⟨nofun, rfl⟩ (by rw [pc]; rfl), b.put k msg, ?_, ?_⟩
  · rw [setPc_self, pc]
    show (if (0 : Int) = 0 then some (b.put k msg) else some b) = _
    rw [if_pos rfl]
  · refine ⟨counted, size.symm ▸ rep.fits, available, ?_, ?_, rep.shared⟩
    · have own : msg.length = n ∧ k.type ≠ TYPE_BROADCAST := by
        refine ⟨length, ?_⟩
        cases k with
        | broadcast wakedup => exact single.elim
        | send => decide
        | urgent => decide
      intro m mem
      have either : m = ⟨k.type, msg⟩ ∨ m ∈ b.messages := by
        cases k with
        | urgent => exact List.mem_cons.mp mem
        | _ =>
            refine (List.mem_append.mp mem).symm.imp_left ?_
            exact List.mem_singleton.mp
      rcases either with rfl | mem
      · exact own
      · exact rep.messages m mem
    · intro u
      rw [same]
      by_cases e : u = t
      · rw [e, setPc_self]
        exact (rep.allowsAt pc : b.receiver.task ≠ some t)
      · rw [goOn_pc e goes]
        exact rep.allows u

section

variable {x : Smx} (rep : Represents n s b) (h : Orderly n s) (goes : s.goOn t = some s')
include rep h goes

theorem put_kept (pc : (s.task t).pc = .put k form msg) (well : s.GoesWell t (.put k form msg)) :
    Kept n b t s s' := by
  have free : (s.task t).blockedOn = .nothing := h.freeAt pc rfl
  have of := h.ofAt pc
  rcases Op.Of.cases of with ⟨k', msg', e, single, length⟩ | e
  · cases e
    have e := goes
    simp only [goOn, pc] at e
    by_cases full : s.buffer.frbs = 0
    · rw [store_full full, Option.map_some, Option.some.injEq] at e
      subst e
      have left : k.done .plain ((msg.length : Int) + 1) = msg.length + 1 := by
        cases k with
        | broadcast wakedup => exact single.elim
        | _ => rfl
      refine kept_still rep (h.setPc free ⟨by decide, rfl⟩ (by rw [pc]; rfl)) goes rfl rfl ?_ ?_
      · rw [setPc_self]
        exact (rep.allowsAt pc : b.receiver.task ≠ some t)
      · rw [setPc_self, pc]
        refine if_neg ?_
        show k.done .plain ((msg.length : Int) + 1) ≠ 0
        omega
    · obtain ⟨room, nobody⟩ := well full
      cases k with
      | broadcast wakedup => exact single.elim
      | send =>
          obtain ⟨v, done, counted, size, available⟩ :=
            (buffer_rings rep.counted).put msg TYPE_NORMAL (by decide) room
          have stored : Sending.send.store msg s.buffer = some (v, 0) := done
          rw [stored, Option.map_some, Option.some.injEq] at e
          subst e
          refine stored_kept rep h goes pc counted size ?_ single length
          show v.available = b.receiver.bytes ++ (b.messages ++ [(⟨TYPE_NORMAL, msg⟩ : Message)]).flatMap
            Message.bytes
          rw [available, rep.available, Box.bytes, List.flatMap_append, ← List.append_assoc,
            List.flatMap_singleton]
          rfl
      | urgent =>
          obtain ⟨v, done, counted, size, available⟩ :=
            (buffer_rings rep.counted).backput msg TYPE_URGENT (by decide) room
          have stored : Sending.urgent.store msg s.buffer = some (v, 0) := done
          rw [stored, Option.map_some, Option.some.injEq] at e
          subst e
          refine stored_kept rep h goes pc counted size ?_ single length
          -- Nothing of another message is before it.
          have none : b.receiver.bytes = [] := by
            cases e : b.receiver with
            | nobody => rfl
            | got u m => rfl
            | typed u m =>
                have allows := rep.allows u
                rw [e] at allows
                obtain ⟨core, body⟩ := allows.typed
                have empty : msg = [] := by
                  by_contra some
                  cases (nobody rfl some u).symm.trans core
                rw [empty] at length
                exact List.eq_nil_of_length_eq_zero (body.trans length.symm)
          show v.available = b.receiver.bytes ++ ((⟨TYPE_URGENT, msg⟩ : Message) :: b.messages).flatMap
            Message.bytes
          rw [available, rep.available, Box.bytes, none, List.nil_append, List.nil_append,
            List.flatMap_cons]
          rfl
  · cases e

theorem core_kept {msgSize : Nat} (pc : (s.task t).pc = .core msgSize type) : Kept n b t s s' := by
  have free : (s.task t).blockedOn = .nothing := h.freeAt pc rfl
  have of := h.ofAt pc
  have allows := rep.allowsAt pc
  obtain ⟨rfl, single⟩ := of
  obtain ⟨m, typed, length⟩ := allows
  have holds : (s.task t).Holds .rcvsmx := h.holdsAt pc rfl rfl
  obtain ⟨v, got, counted, size, behind⟩ := (buffer_rings rep.counted).get msgSize
  have available : s.buffer.available = m.body ++ b.messages.flatMap Message.bytes := by
    rw [rep.available, Box.bytes, typed]
    rfl
  rw [Int.toNat_natCast, available, List.take_left' length, length, Int.sub_self] at got
  rw [Int.toNat_natCast, available, List.drop_left' length] at behind
  have e := goes
  simp only [goOn, pc, tbxReceiveCore, single, false_and, if_false, got, Option.bind_eq_bind,
    Option.bind_some, Option.some.injEq] at e
  subst e
  refine ⟨(h.setBuffer v).setPc free ⟨by decide, rfl⟩ (by rw [pc]; rfl),
    { b with receiver := .got t m }, ?_, ?_⟩
  · rw [setPc_self, pc]
    show b.get t _ _ _ = _
    rw [Box.get, typed]
    refine if_pos ⟨rfl, rfl, ?_⟩
    rw [available]
    exact congrArg _ behind.symm
  · refine ⟨counted, size.symm ▸ rep.fits, behind, rep.messages, ?_, rep.shared⟩
    intro u
    by_cases e : u = t
    · rw [e, setPc_self]
      exact ⟨m, rfl, rfl⟩
    · rw [goOn_pc e goes]
      exact Represents.others h holds (fun v here => (Option.some.inj here).symm) e

theorem signal_kept (pc : (s.task t).pc = .signal x out) : Kept n b t s s' := by
  have place : (s.tbxSignal.task t).pc = .signal x out := tbxSignal_pc.trans pc
  have free : (s.tbxSignal.task t).blockedOn = .nothing :=
    (h.tbxSignal.stands t).free (by rw [place]; rfl)
  have of := h.ofAt pc
  have allows := rep.allowsAt pc
  have e := goes
  simp only [goOn, pc, Option.some.injEq] at e
  subst e
  have same : s.tbxSignal.buffer = s.buffer ∧ s.tbxSignal.bcbadr = s.bcbadr := by
    rw [tbxSignal]
    split <;> exact ⟨rfl, rfl⟩
  refine kept_still rep (h.tbxSignal.setPc free of (by rw [place]; rfl)) goes same.1 same.2 ?_ ?_
  · rw [setPc_self]
    cases x with
    | rcvsmx => exact .inl allows
    | _ => exact allows
  · rw [setPc_self, pc]
    rfl

theorem leave_kept (pc : (s.task t).pc = .leave x out) : Kept n b t s s' := by
  have holds : (s.task t).Holds x := h.holdsAt pc rfl rfl
  have of := h.ofAt pc
  have allows := rep.allowsAt pc
  have unlocked : ¬out.lock = true := by
    rw [of.2]
    decide
  have e := goes
  simp only [goOn, pc, leaveSmx, if_neg unlocked, Option.some.injEq] at e
  subst e
  have buffer : ((s.tbxSmxSignal x).finish t out).buffer = s.buffer := tbxSmxSignal_buffer
  have shared : ((s.tbxSmxSignal x).finish t out).bcbadr = s.bcbadr := by
    show (s.tbxSmxSignal x).bcbadr = s.bcbadr
    rw [tbxSmxSignal]
    split <;> rfl
  have self : (((s.tbxSmxSignal x).finish t out).task t).pc = .user := setPc_self
  have left := h.leave pc out
  have still {R : Receiver Task} (own : R = .nobody) : Allows n R t .user := by
    rw [own]
    exact (Option.some_ne_none t).symm
  cases x with
  | rcvsmx =>
      rcases allows with ⟨m, got, rfl⟩ | nobody
      · refine ⟨left, { b with receiver := .nobody }, ?_, ?_⟩
        · rw [self, pc]
          show b.give t _ = _
          rw [Box.give, got]
          exact (if_neg (not_not.mpr rfl)).trans (if_pos rfl)
        · refine ⟨buffer ▸ rep.counted, buffer ▸ rep.fits, ?_, rep.messages, ?_, shared ▸ rep.shared⟩
          · rw [buffer, rep.available, Box.bytes, got]
            rfl
          · intro u
            by_cases e : u = t
            · rw [e, self]
              exact still rfl
            · rw [goOn_pc e goes]
              exact Represents.others h holds (fun v here => by cases here) e
      · refine kept_still rep left goes buffer shared ?_ ?_
        · rw [self]
          exact still nobody
        · rw [self, pc]
          show b.give t _ = _
          rw [Box.give, nobody]
  | _ =>
      refine kept_still rep left goes buffer shared ?_ ?_
      · rw [self]
        exact allows
      · rw [self, pc]
        rfl

theorem goOn_kept (ready : (s.task t).ready = true) (well : s.GoesWell t (s.task t).pc) :
    Kept n b t s s' := by
  have of := (h.stands t).of
  cases pc : (s.task t).pc with
  | user =>
      rw [goOn, pc] at goes
      cases goes
  | smxWait op => exact smxWaited_kept rep h goes ready pc
  | entered op => exact entered_kept rep h goes pc
  | wait op type =>
      rw [pc] at well
      exact wait_kept rep h goes ready pc well
  | put k form msg =>
      rw [pc] at well
      exact put_kept rep h goes pc well
  | core msgSize type => exact core_kept rep h goes pc
  | signal x out => exact signal_kept rep h goes pc
  | leave x out => exact leave_kept rep h goes pc
  | share msg =>
      rw [pc] at of
      exact of.elim
  | lock out =>
      rw [pc] at of
      exact of.elim
  | lockWait out =>
      rw [pc] at of
      exact of.elim

end

/-- A task calls, and takes the semaphore or waits for it. -/
theorem start_kept (rep : Represents n s b) (h : Orderly n s) (user : (s.task t).pc = .user)
    (of : op.Of n) : Orderly n (s.start t op) ∧ Represents n (s.start t op) b := by
  have free : (s.task t).blockedOn = .nothing := h.freeAt user rfl
  have untimed := (h.stands t).untimed free
  have outside : (s.task t).pc.smx = none := by
    rw [user]
    rfl
  have other : b.receiver.task ≠ some t := rep.allowsAt user
  have fits := rep.fits
  have same {v : Mailbox Task} (e : s.start t op = v) (buffer : v.buffer = s.buffer)
      (shared : v.bcbadr = s.bcbadr) (place : (v.task t).pc = .smxWait op ∨ (v.task t).pc = .entered op) :
      Represents n v b := by
    refine rep.same buffer shared (fun u ne => e ▸ start_pc ne) ?_
    rcases place with place | place <;> rw [place] <;> exact other
  -- The task takes the semaphore.
  have took (there : s.count op.smx ≠ 0) := h.take free outside there of
  have self : ((((s.setCount op.smx 0).setPc t (.entered op)).task t).pc = .entered op) := setPc_self
  rcases Op.Of.cases of with ⟨k, msg, rfl, -, length⟩ | rfl
  · have small : ¬((Op.put k .plain msg).msgSize : Int) + 1 > s.buffer.size := by
      show ¬((msg.length : Int) + 1 > s.buffer.size)
      omega
    have e : s.start t (.put k .plain msg) = s.tbxSmxWait t (.put k .plain msg) := if_neg small
    by_cases held : s.count (Op.put k .plain msg).smx = 0
    · have waits := e.trans (if_pos held)
      rw [waits]
      refine ⟨h.enqueue free outside rfl ⟨of, .inr rfl, fun timed => ?_, fun _ _ => ⟨rfl, untimed⟩⟩,
        same waits rfl rfl (.inl ?_)⟩
      · exact absurd (untimed.symm.trans timed) nofun
      · rw [enqueueBlocked_pc, modify_self]
    · have takes : s.start t (.put k .plain msg) =
          (s.setCount (Op.put k .plain msg).smx 0).setPc t (.entered (.put k .plain msg)) :=
        e.trans ((if_neg held).trans (if_pos free))
      rw [takes]
      exact ⟨took held, same takes rfl rfl (.inr self)⟩
  · have small : ¬((Op.receive .timed n).msgSize : Int) + 1 > s.buffer.size := by
      show ¬((n : Int) + 1 > s.buffer.size)
      omega
    have e : s.start t (.receive .timed n) = s.tbxSmxWaitUntil t (.receive .timed n) := if_neg small
    by_cases held : s.count (Op.receive .timed n).smx = 0
    · have waits := e.trans (if_pos held)
      rw [waits]
      refine ⟨h.enqueue free outside rfl ⟨of, .inr rfl, fun _ => ⟨Bool.or_true _, nofun, rfl⟩, nofun⟩,
        same waits rfl rfl (.inl ?_)⟩
      rw [enqueueBlocked_pc, modify_self]
    · have takes := e.trans (if_neg held)
      rw [takes]
      exact ⟨took held, same takes rfl rfl (.inr self)⟩

/-! ## The runs -/

variable {e : Event Task} {tr : List (Record (Mailbox Task) (Event Task))} {size : Nat} {qtype : Bool}
  {priority : Task → Int}

/-- The calls that use the mailbox so. -/
theorem Call.Uses.starts (t : Task) {c : Call} (uses : c.Uses n) :
    ∃ op : Op, op.Of n ∧ ∀ s : Mailbox Task, s.call t c = s.start t op := by
  cases c with
  | send form msg =>
      obtain ⟨rfl, length⟩ := uses
      exact ⟨.put .send .plain msg, ⟨trivial, length⟩, fun _ => rfl⟩
  | urgent form msg =>
      obtain ⟨rfl, length⟩ := uses
      exact ⟨.put .urgent .plain msg, ⟨trivial, length⟩, fun _ => rfl⟩
  | broadcast form msg => exact uses.elim
  | receive form msgSize =>
      obtain ⟨rfl, size⟩ := uses
      exact ⟨.receive .timed msgSize, size, fun _ => rfl⟩

theorem step_kept (rep : Represents n s b) (h : Orderly n s) (uses : e.Uses n) (sound : s.Sound e)
    (stepped : step e s = some s') :
    Orderly n s' ∧ ∃ b', b.follow ⟨s, e, s'⟩ = some b' ∧ Represents n s' b' := by
  have h₁ : Orderly n { s with returned := none } :=
    ⟨h.stands, h.queued, h.nodup, h.waiting, h.gate⟩
  have rep₁ : Represents n { s with returned := none } b :=
    ⟨rep.counted, rep.fits, rep.available, rep.messages, rep.allows, rep.shared⟩
  cases e with
  | call t c =>
      simp only [step] at stepped
      split at stepped
      next may =>
        cases stepped
        obtain ⟨op, of, starts⟩ := Call.Uses.starts t uses
        obtain ⟨h', rep'⟩ := start_kept rep₁ h₁ may.2 of
        rw [← starts] at h' rep'
        exact ⟨h', b, rfl, rep'⟩
      next => cases stepped
  | goOn t =>
      simp only [step] at stepped
      split at stepped
      next ready =>
        have kept := goOn_kept rep₁ h₁ stepped ready sound
        exact kept
      next => cases stepped
  | suspend t => exact uses.elim
  | resume t => exact uses.elim
  | timer t =>
      simp only [step] at stepped
      split at stepped
      next timed =>
        cases stepped
        refine ⟨h₁.wakeUp timed, b, rfl, rep.same rfl rfl (fun u ne => ?_) (t := t) ?_⟩
        · exact congrArg TaskWords.pc (modify_of_ne ne)
        · rw [modify_self]
          exact rep.allows t
      next => cases stepped

omit [DecidableEq Task] in
theorem init_orderly : Orderly n (rtTbxInit size qtype priority : Mailbox Task) where
  stands _ := .awake trivial rfl rfl
  queued _ _ := iff_of_false List.not_mem_nil nofun
  nodup _ := List.nodup_nil
  waiting := nofun
  gate _ := .inl ⟨Int.one_ne_zero, fun _ holds => nomatch holds.1⟩

omit [DecidableEq Task] in
theorem init_represents (fits : n + 1 ≤ size) :
    Represents n (rtTbxInit size qtype priority : Mailbox Task) {} where
  counted := by
    refine ⟨?_, Int.zero_add _, ⟨le_refl _, ?_⟩, le_refl _⟩
    · show 0 < (size : Int)
      omega
    · show 0 < (size : Int)
      omega
  fits := by
    show (n : Int) + 1 ≤ size
    omega
  available := rfl
  messages := nofun
  allows _ := nofun
  shared := rfl

theorem mails_append {r : Record (Mailbox Task) (Event Task)} :
    mails (tr ++ [r]) = (mails tr).bind fun b => b.follow r := by
  simp [mails, List.foldlM_append]

/-- A mailbox that is too small for the messages refuses all calls. -/
theorem refused_kept (small : size < n + 1)
    (run : Run step (fun s e => e.Uses n ∧ s.Sound e) (rtTbxInit size qtype priority) tr s) :
    mails tr = some {} := by
  refine (run.history (P := fun tr s => mails tr = some {} ∧ s.buffer.size = size ∧
    ∀ t, (s.task t).pc = .user ∧ (s.task t).timed = false) ?_ ?_).1
  · exact ⟨rfl, rfl, fun _ => ⟨rfl, rfl⟩⟩
  · rintro tr s s' e ⟨mails, same, idle⟩ ⟨uses, -⟩ stepped
    rw [mails_append, mails, Option.bind_some]
    cases e with
    | call t c =>
        simp only [step] at stepped
        split at stepped
        next may =>
          cases stepped
          obtain ⟨op, of, starts⟩ := Call.Uses.starts t uses
          have size' : op.msgSize = n := by
            rcases Op.Of.cases of with ⟨k, msg, rfl, -, length⟩ | rfl
            · exact length
            · rfl
          have refused : ({ s with returned := none } : Mailbox Task).start t op =
              { s with returned := none }.finish t { value := -EMSGSIZE } :=
            if_pos (by show s.buffer.size < op.msgSize + 1; omega)
          rw [starts, refused]
          refine ⟨rfl, same, fun u => ?_⟩
          by_cases e : u = t
          · have self : ({ s with returned := none }.finish t { value := -EMSGSIZE }).task t =
                { s.task t with pc := .user } := update_self t _ s.task
            rw [e, self]
            exact ⟨rfl, (idle t).2⟩
          · rw [finish_of_ne e]
            exact idle u
        next => cases stepped
    | goOn t =>
        simp only [step, goOn, (idle t).1] at stepped
        split at stepped <;> cases stepped
    | suspend t => exact uses.elim
    | resume t => exact uses.elim
    | timer t =>
        simp only [step, (idle t).2] at stepped
        cases stepped

/-- Every run in which the steps are sound is one of a queue of messages. -/
theorem timed_receives_kept
    (run : Run step (fun s e => e.Uses n ∧ s.Sound e) (rtTbxInit size qtype priority) tr s) :
    (mails tr).isSome = true := by
  rcases Nat.lt_or_ge size (n + 1) with small | fits
  · rw [refused_kept small run]
    rfl
  · have kept : Orderly n s ∧ ∃ b, mails tr = some b ∧ Represents n s b := by
      refine run.history (P := fun tr s => Orderly n s ∧ ∃ b, mails tr = some b ∧ Represents n s b)
        ?_ ?_
      · exact ⟨init_orderly, {}, rfl, init_represents fits⟩
      · rintro tr s s' e ⟨h, b, mails, rep⟩ ⟨uses, sound⟩ stepped
        obtain ⟨h', b', follows, rep'⟩ := step_kept rep h uses sound stepped
        refine ⟨h', b', ?_, rep'⟩
        rw [mails_append, mails]
        exact follows
    obtain ⟨-, b, mails, -⟩ := kept
    rw [mails]
    rfl

/-! ## Runs -/

instance (n : Nat) : ∀ c : Call, Decidable (c.Uses n)
  | .send _ _ | .urgent _ _ | .receive _ _ => inferInstanceAs (Decidable (_ ∧ _))
  | .broadcast _ _ => .isFalse id

instance (n : Nat) : ∀ e : Event Task, Decidable (e.Uses n)
  | .call _ c => inferInstanceAs (Decidable (c.Uses n))
  | .goOn _ | .timer _ => .isTrue trivial
  | .suspend _ | .resume _ => .isFalse id

instance [Fintype Task] (t : Task) (s : Mailbox Task) : ∀ pc, Decidable (s.GoesWell t pc)
  | .wait _ _ => inferInstanceAs (Decidable (_ → _ → _ ∧ _))
  | .put _ _ _ => inferInstanceAs (Decidable (_ → _ ∧ (_ → _ → ∀ u, _)))
  | .user | .smxWait _ | .entered _ | .core _ _ | .share _ | .signal _ _ | .leave _ _ | .lock _
  | .lockWait _ => .isTrue trivial

instance [Fintype Task] (s : Mailbox Task) : ∀ e, Decidable (s.Sound e)
  | .goOn _ => inferInstanceAs (Decidable (GoesWell _ _ _))
  | .call _ _ | .timer _ | .suspend _ | .resume _ => .isTrue trivial

/-- An empty mailbox. -/
def empty (size : Nat) : Mailbox (Fin 2) := rtTbxInit size false fun _ => 0

/-- A task sends a message, and comes to its return. -/
def sends (t : Fin 2) (msg : List UInt8) : List (Event (Fin 2)) :=
  [.call t (.send .plain msg), .goOn t, .goOn t, .goOn t, .goOn t]

/-- A task receives a message that is there. -/
def receives (t : Fin 2) (n : Nat) : List (Event (Fin 2)) :=
  [.call t (.receive .timed n), .goOn t, .goOn t, .goOn t, .goOn t]

/-- A receiver waits, and the message comes. -/
theorem timed_receives_waited : ∃ tr s, Run step (fun s e => e.Uses 1 ∧ s.Sound e) (empty 4) tr s ∧
    s.returned = some (0, { value := 0, msg := [7] }) ∧ (mails tr).isSome = true := by
  obtain ⟨tr, s, run, passed⟩ := Run.of_execute step (fun s e => e.Uses 1 ∧ s.Sound e) (empty 4)
    ([.call 0 (.receive .timed 1), .goOn 0] ++ sends 1 [7] ++ [.goOn 0, .goOn 0, .goOn 0, .goOn 0])
    (fun s => decide (s.returned = some (0, { value := 0, msg := [7] }))) (by decide +kernel)
  exact ⟨tr, s, run, of_decide_eq_true passed, timed_receives_kept run⟩

/-- A run that is none of a queue of messages. -/
theorem refuted (n size : Nat) (es : List (Event (Fin 2)))
    (h : (execute step (fun _ e => e.Uses n) es (empty size)).any
      (fun _ => (mails (records step es (empty size))).isNone) = true) :
    ¬∀ {tr : List (Record (Mailbox (Fin 2)) (Event (Fin 2)))} {s : Mailbox (Fin 2)},
      Run step (fun _ e => e.Uses n) (empty size) tr s → (mails tr).isSome = true := by
  intro kept
  obtain ⟨tr, s, run, lost⟩ := Run.of_records step (fun _ e => e.Uses n) (empty size) es
    (fun tr _ => (mails tr).isNone) h
  have there := kept run
  rw [← Option.not_isSome, there] at lost
  cases lost

/-- The byte that is read before the wait is of the body of an older message, and taken for
`TYPE_BROADCAST`. -/
theorem stale_type : ¬∀ {tr : List (Record (Mailbox (Fin 2)) (Event (Fin 2)))} {s : Mailbox (Fin 2)},
    Run step (fun _ e => e.Uses 1) (empty 3) tr s → (mails tr).isSome = true :=
  refuted 1 3 (sends 1 [2] ++ receives 0 1 ++ sends 1 [5] ++ receives 0 1 ++
    [.call 0 (.receive .timed 1), .goOn 0] ++ sends 1 [9] ++ [.goOn 0]) (by decide +kernel)

/-- An urgent message comes between the type byte and the body, and its type byte is delivered. -/
theorem overtaken : ¬∀ {tr : List (Record (Mailbox (Fin 2)) (Event (Fin 2)))} {s : Mailbox (Fin 2)},
    Run step (fun _ e => e.Uses 1) (empty 8) tr s → (mails tr).isSome = true :=
  refuted 1 8 (sends 1 [7] ++ [.call 0 (.receive .timed 1), .goOn 0,
    .call 1 (.urgent .plain [9]), .goOn 1, .goOn 1, .goOn 0]) (by decide +kernel)

/-- The message has been received when its sender signals, and the next receiver is woken. -/
theorem woken_late : ¬∀ {tr : List (Record (Mailbox (Fin 2)) (Event (Fin 2)))} {s : Mailbox (Fin 2)},
    Run step (fun _ e => e.Uses 1) (empty 8) tr s → (mails tr).isSome = true :=
  refuted 1 8 ([.call 1 (.send .plain [7]), .goOn 1, .goOn 1] ++ receives 0 1 ++
    [.call 0 (.receive .timed 1), .goOn 0, .goOn 1, .goOn 0]) (by decide +kernel)

end Mailbox

end Rtai.Tbx
