import Rtai.Pqueues.Contents

/-!
# The order of messages

Runs of `mq_send` and `mq_receive` on one queue.  `messages_in_order` says that the queue
hands out, at every `mq_receive`, the oldest of the messages of the highest priority, with
its own bytes, and that no call comes to a halt in the list.
-/

namespace Rtai.Pqueues

open Function Rtai.Lib

variable {T : Type} {memPtr : Nat}

/-- The globals, and what the last call returned. -/
structure Session (T : Type) where
  pqueues : State T
  reply : Reply

/-- The calls, with the task that makes them. -/
inductive Call (T : Type) where
  | send (self : T) (mq : Nat) (msg : List UInt8) (msgprio : Nat)
  | receive (self : T) (mq buflen : Nat)

/-! ## One call -/

namespace State

/-- The queue of a descriptor holds the entries. -/
structure Ok (i : Nat) (l : List Entry) (s : State T) : Prop where
  type : s.queueType = .posix
  wide : (s.descr i).data.Wide
  holds : (s.descr i).data.Holds s.memory l
  fits : ∀ e ∈ l, e.2.bytes.length ≤ (s.descr i).data.attrs.mqMsgsize

variable {s s' : State T} {i : Nat} {l : List Entry} {msg : List UInt8} {msgprio buflen : Nat}
  {self : T} {mq : Nat} {r : Reply}

/-- A send puts the message into its place, unless it returns an error. -/
theorem Ok.sendNow (ok : s.Ok i l) (msgprio : Nat) (fits : msg.length ≤ (s.descr i).data.attrs.mqMsgsize) :
    ∃ s' v, s.sendNow i msg msgprio = some (s', v) ∧
      (0 ≤ v → ∃ p, s'.Ok i (enqueue Entry.Ahead (p, ⟨msg, msgprio⟩) l)) := by
  unfold State.sendNow QCtrl.getnode
  dsimp only
  cases found : QCtrl.getnodeLoop s.memory (s.descr i).data.msgSize
      (s.descr i).data.attrs.mqMaxmsg (s.descr i).data.base with
  | none => exact ⟨s, _, rfl, fun positive => absurd positive (by decide)⟩
  | some p =>
      obtain ⟨slot, out, empty⟩ := ok.holds.getnode found
      obtain ⟨q', m', inserted, holds, base, attrs⟩ :=
        ok.holds.insertMessage ⟨msg, msgprio⟩ slot out empty
      rw [Option.map_some]
      dsimp only
      rw [if_neg (not_lt.mpr fits), ok.type]
      refine ⟨_, _, congrArg (· >>= _) inserted, fun _ => ⟨p, ok.type, ?_, ?_, fun e he => ?_⟩⟩
      all_goals simp only [State.setDescr, update_self]
      · rw [QCtrl.Wide, attrs]
        exact ok.wide
      · exact holds
      · rw [attrs]
        rcases mem_enqueue.mp he with rfl | he
        · exact fits
        · exact ok.fits e he

/-- A receive takes the first entry. -/
theorem Ok.receiveNow (ok : s.Ok i l) (nonempty : (s.descr i).data.isEmpty = false)
    (large : (s.descr i).data.attrs.mqMsgsize ≤ buflen) :
    ∃ e rest, l = e :: rest ∧ (s.receiveNow i buflen).1.Ok i rest ∧
      (s.receiveNow i buflen).2 = ⟨.returns e.2.bytes.length, e.2.bytes, e.2.priority⟩ := by
  obtain ⟨e, rest, rfl⟩ : ∃ e rest, l = e :: rest := by
    refine List.exists_cons_of_ne_nil fun none => ?_
    have count := ok.holds.count
    rw [none] at count
    simp [QCtrl.isEmpty, count] at nonempty
  obtain ⟨holds, size⟩ := ok.holds.takeHead
  have head : (s.descr i).data.head = e.1 := ok.holds.head
  have stored := ok.holds.stored e List.mem_cons_self
  have fits := ok.fits e List.mem_cons_self
  have received : s.receiveNow i buflen =
      ({ s.setDescr i { s.descr i with data := ((s.descr i).data.takeHead s.memory).1 } with
          memory := ((s.descr i).data.takeHead s.memory).2 },
        ⟨.returns e.2.bytes.length, e.2.bytes, e.2.priority⟩) := by
    unfold State.receiveNow
    dsimp only
    rw [if_neg (not_lt.mpr large), head, stored.size, if_pos (fits.trans large), stored.bytes,
      stored.priority]
  refine ⟨e, rest, rfl, ?_, by rw [received]⟩
  rw [received]
  refine ⟨ok.type, ?_, ?_, fun f hf => ?_⟩
  all_goals simp only [State.setDescr, update_self]
  · rw [QCtrl.Wide, size]
    exact ok.wide
  · exact holds
  · rw [size]
    exact ok.fits f (List.mem_cons_of_mem e hf)

/-- What is not about the queue may change. -/
theorem Ok.keeps (ok : s.Ok i l) (type : s'.queueType = s.queueType)
    (data : (s'.descr i).data = (s.descr i).data) (memory : s'.memory = s.memory) : s'.Ok i l := by
  refine ⟨type.trans ok.type, data ▸ ok.wide, ?_, data ▸ ok.fits⟩
  rw [data, memory]
  exact ok.holds

variable [DecidableEq T]

/-- A new queue is empty. -/
theorem createQueue_ok (self : T) (i : Nat) (name : Name) (permissions : Permissions)
    {attr : MqAttr} (type : s.queueType = .posix) (nonzero : memPtr ≠ 0)
    (wide : attr.mqMsgsize + MSG_HDR_SIZE ≤ 127) :
    (s.createQueue self i name permissions attr memPtr).Ok i [] := by
  refine ⟨type, ?_, ?_, nofun⟩
  all_goals simp only [State.createQueue, State.setDescr, update_self]
  · exact wide
  · exact .fresh nonzero rfl rfl rfl wide

/-- `mq_send` puts the message into the queue, or returns an error or blocks and changes
nothing. -/
theorem mqSend_cases (h : s.mqSend self mq msg msgprio = some (s', r)) :
    (∃ v, s.sendNow (mq - 1) msg msgprio = some (s', v) ∧ r.outcome = .returns v) ∨
      s' = s ∧ ∀ v, r.outcome = .returns v → v < 0 := by
  unfold State.mqSend at h
  split at h
  next =>
    obtain ⟨access, -, h⟩ := Option.bind_eq_some_iff.mp h
    split at h
    next =>
      cases h
      exact .inr ⟨rfl, by rintro _ ⟨⟩; decide⟩
    next =>
      split at h
      next =>
        cases h
        exact .inr ⟨rfl, by rintro _ ⟨⟩; decide⟩
      next =>
        split at h
        next =>
          obtain ⟨blocking, -, h⟩ := Option.bind_eq_some_iff.mp h
          split at h
          · cases h
            exact .inr ⟨rfl, nofun⟩
          · cases h
            exact .inr ⟨rfl, by rintro _ ⟨⟩; decide⟩
        next =>
          obtain ⟨⟨s₁, v⟩, sent, h⟩ := Option.bind_eq_some_iff.mp h
          cases h
          exact .inl ⟨v, sent, rfl⟩
  next =>
    cases h
    exact .inr ⟨rfl, by rintro _ ⟨⟩; decide⟩

theorem mqReceive_cases (h : s.mqReceive self mq buflen = some (s', r)) :
    ((s.descr (mq - 1)).data.isEmpty = false ∧ (s', r) = s.receiveNow (mq - 1) buflen) ∨
      s' = s ∧ ∀ v, r.outcome = .returns v → v < 0 := by
  unfold State.mqReceive at h
  split at h
  next =>
    obtain ⟨access, -, h⟩ := Option.bind_eq_some_iff.mp h
    split at h
    next =>
      cases h
      exact .inr ⟨rfl, by rintro _ ⟨⟩; decide⟩
    next =>
      split at h
      next =>
        obtain ⟨blocking, -, h⟩ := Option.bind_eq_some_iff.mp h
        split at h
        · cases h
          exact .inr ⟨rfl, nofun⟩
        · cases h
          exact .inr ⟨rfl, by rintro _ ⟨⟩; decide⟩
      next nonempty => exact .inl ⟨Bool.eq_false_of_not_eq_true nonempty, (Option.some.inj h).symm⟩
  next =>
    cases h
    exact .inr ⟨rfl, by rintro _ ⟨⟩; decide⟩

/-- The tests before a call read through no null pointer for a task that has opened a queue. -/
theorem canAccess_isSome (opened : (s.pqueuesOf self).isSome) (access : QAccess) (q : MsgQueue T) :
    (s.canAccess self access q).isSome := by
  unfold State.canAccess
  split
  · obtain ⟨t, ht⟩ := Option.isSome_iff_exists.mp opened
    rw [Option.join_eq_some_iff.mp ht]
    rfl
  · rfl

omit [DecidableEq T] in
theorem isBlocking_isSome (opened : (s.pqueuesOf self).isSome) (q : MsgQueue T) :
    (s.isBlocking self q).isSome := by
  obtain ⟨t, ht⟩ := Option.isSome_iff_exists.mp opened
  unfold State.isBlocking
  rw [ht]
  rfl

omit [DecidableEq T] in
/-- The end of the list is found. -/
theorem Ok.sendNow_isSome (ok : s.Ok i l) (msg : List UInt8) (msgprio : Nat) : (s.sendNow i msg msgprio).isSome := by
  by_cases fits : msg.length ≤ (s.descr i).data.attrs.mqMsgsize
  · obtain ⟨s', v, sent, -⟩ := ok.sendNow msgprio fits
    rw [sent]
    rfl
  · unfold State.sendNow
    dsimp only
    cases (s.descr i).data.getnode s.memory with
    | none => rfl
    | some found => exact Option.isSome_iff_exists.mpr ⟨_, if_pos (not_le.mp fits)⟩

theorem Ok.mqSend_isSome (ok : s.Ok (mq - 1) l) (opened : (s.pqueuesOf self).isSome) :
    (s.mqSend self mq msg msgprio).isSome := by
  obtain ⟨access, ha⟩ := Option.isSome_iff_exists.mp
    (canAccess_isSome opened .forWrite (s.descr (mq - 1)))
  obtain ⟨blocking, hb⟩ := Option.isSome_iff_exists.mp (isBlocking_isSome opened (s.descr (mq - 1)))
  obtain ⟨⟨s', v⟩, sent⟩ := Option.isSome_iff_exists.mp (ok.sendNow_isSome msg msgprio)
  simp only [State.mqSend, ha, hb, sent, Option.bind_eq_bind, Option.bind_some, Option.pure_def]
  split_ifs <;> rfl

theorem mqReceive_isSome (opened : (s.pqueuesOf self).isSome) :
    (s.mqReceive self mq buflen).isSome := by
  obtain ⟨access, ha⟩ := Option.isSome_iff_exists.mp
    (canAccess_isSome opened .forRead (s.descr (mq - 1)))
  obtain ⟨blocking, hb⟩ := Option.isSome_iff_exists.mp (isBlocking_isSome opened (s.descr (mq - 1)))
  simp only [State.mqReceive, ha, hb, Option.bind_eq_bind, Option.bind_some, Option.pure_def]
  split_ifs <;> rfl

end State

/-! ## Runs -/

namespace Session

variable [DecidableEq T]

def step : Call T → Session T → Option (Session T)
  | .send self mq msg msgprio, s =>
      (s.pqueues.mqSend self mq msg msgprio).map fun (pqueues, reply) => ⟨pqueues, reply⟩
  | .receive self mq buflen, s =>
      (s.pqueues.mqReceive self mq buflen).map fun (pqueues, reply) => ⟨pqueues, reply⟩

/-- The queue of the descriptor `mq`. -/
def queue (s : Session T) (mq : Nat) : QCtrl := (s.pqueues.descr (mq - 1)).data

/-- The call is about the queue, and its arguments are within the bounds of the queue. -/
def Fits (mq : Nat) (s : Session T) : Call T → Prop
  | .send _ mq' msg msgprio =>
      mq' = mq ∧ msg.length ≤ (s.queue mq).attrs.mqMsgsize ∧ msgprio ≤ MQ_PRIO_MAX
  | .receive _ mq' buflen => mq' = mq ∧ (s.queue mq).attrs.mqMsgsize ≤ buflen

/-- The call neither failed nor blocks. -/
def Succeeded (s : Session T) : Prop := ∃ v, s.reply.outcome = .returns v ∧ 0 ≤ v

/-- A call on the queue that succeeds. -/
def Succeeds (mq : Nat) (s : Session T) (e : Call T) : Prop :=
  s.Fits mq e ∧ ∀ s', step e s = some s' → s'.Succeeded

/-- What has been sent and not been received, in the order of the sends, when every receive
got the oldest of the messages of the highest priority. -/
inductive Delivered : List (Record (Session T) (Call T)) → List Message → Prop where
  | nil : Delivered [] []
  | send {tr : List (Record (Session T) (Call T))} {ms : List Message} {s s' : Session T}
      {self : T} {mq : Nat} {msg : List UInt8} {msgprio : Nat} :
      Delivered tr ms →
      Delivered (tr ++ [⟨s, .send self mq msg msgprio, s'⟩]) (ms ++ [⟨msg, msgprio⟩])
  | receive {tr : List (Record (Session T) (Call T))} {older newer : List Message} {msg : Message}
      {s s' : Session T} {self : T} {mq buflen : Nat} :
      Delivered tr (older ++ msg :: newer) →
      (∀ m ∈ older, m.priority < msg.priority) → (∀ m ∈ newer, m.priority ≤ msg.priority) →
      s'.reply = ⟨.returns msg.bytes.length, msg.bytes, msg.priority⟩ →
      Delivered (tr ++ [⟨s, .receive self mq buflen, s'⟩]) (older ++ newer)

/-- The queue holds what has been sent and not been received. -/
structure Kept (mq : Nat) (tr : List (Record (Session T) (Call T))) (s : Session T) : Prop where
  delivered : ∃ ms, Delivered tr ms ∧ ((s.queue mq).contents s.pqueues.memory).Perm ms ∧
    (s.queue mq).attrs.mqCurmsgs = ms.length
  /-- Whatever a task that has queues open calls next has an outcome. -/
  answers : ∀ self, (s.pqueues.pqueuesOf self).isSome →
    (∀ msg msgprio, (step (.send self mq msg msgprio) s).isSome) ∧
      ∀ buflen, (step (.receive self mq buflen) s).isSome

variable {s s' : Session T} {tr : List (Record (Session T) (Call T))} {mq : Nat} {e : Call T}
  {permissions : Permissions} {mqAttr : Option MqAttr} {name : Name} {oflags : Oflags}

/-- The entries of the queue are what has been sent and not been received, arranged. -/
structure Ok (mq : Nat) (tr : List (Record (Session T) (Call T))) (s : Session T) : Prop where
  entries : ∃ ms l, Delivered tr ms ∧ s.pqueues.Ok (mq - 1) l ∧
    l.map Prod.snd = arrange Message.Ahead ms

omit [DecidableEq T] in
theorem entries_enqueue {p : Nat} {msg : Message} {l : List Entry} :
    (enqueue Entry.Ahead (p, msg) l).map Prod.snd = enqueue Message.Ahead msg (l.map Prod.snd) :=
  List.map_orderedInsert _ _ Prod.snd l (p, msg) (fun _ _ => Iff.rfl) fun _ _ => Iff.rfl

theorem Ok.step (ok : s.Ok mq tr) (succeeds : s.Succeeds mq e) (h : step e s = some s') :
    s'.Ok mq (tr ++ [⟨s, e, s'⟩]) := by
  obtain ⟨ms, l, delivered, holds, sorted⟩ := ok.entries
  obtain ⟨v, returns, positive⟩ := succeeds.2 s' h
  cases e with
  | send self mq' msg msgprio =>
      obtain ⟨rfl, fits, -⟩ := succeeds.1
      obtain ⟨⟨p, r⟩, sent, rfl⟩ := Option.map_eq_some_iff.mp h
      rcases State.mqSend_cases sent with ⟨w, sent, outcome⟩ | ⟨-, negative⟩
      · obtain ⟨p', w', sent', after⟩ := holds.sendNow msgprio fits
        rw [sent'] at sent
        cases sent
        cases outcome.symm.trans returns
        obtain ⟨slot, after⟩ := after positive
        refine ⟨_, _, delivered.send, after, ?_⟩
        rw [entries_enqueue, sorted, arrange_snoc]
      · exact absurd (negative v returns) (not_lt.mpr positive)
  | receive self mq' buflen =>
      obtain ⟨rfl, large⟩ := succeeds.1
      obtain ⟨⟨p, r⟩, received, rfl⟩ := Option.map_eq_some_iff.mp h
      rcases State.mqReceive_cases received with ⟨nonempty, received⟩ | ⟨-, negative⟩
      · obtain ⟨entry, rest, rfl, after, reply⟩ := holds.receiveNow nonempty large
        obtain ⟨rfl, rfl⟩ := Prod.mk.inj received
        obtain ⟨older, newer, rfl, strict, weak, left⟩ :=
          arrange_cons Message.ahead_total Message.ahead_trans (by rw [← sorted]; rfl)
        refine ⟨_, _, delivered.receive (fun m hm => Nat.lt_of_not_le (strict m hm)) weak reply, after, ?_⟩
        rw [left]
      · exact absurd (negative v returns) (not_lt.mpr positive)

omit [DecidableEq T] in
theorem Ok.delivered (ok : s.Ok mq tr) : ∃ ms, Delivered tr ms ∧
    ((s.queue mq).contents s.pqueues.memory).Perm ms ∧ (s.queue mq).attrs.mqCurmsgs = ms.length := by
  obtain ⟨ms, l, delivered, holds, sorted⟩ := ok.entries
  have perm : (l.map Prod.snd).Perm ms := sorted ▸ arrange_perm
  refine ⟨ms, delivered, ?_, ?_⟩
  · rw [Session.queue, holds.holds.contents]
    exact perm
  · rw [Session.queue, holds.holds.count, ← perm.length_eq, List.length_map]

theorem Ok.kept (ok : s.Ok mq tr) : s.Kept mq tr := by
  obtain ⟨ms, l, delivered, holds, sorted⟩ := ok.entries
  refine ⟨ok.delivered, fun self opened => ⟨fun msg msgprio => ?_, fun buflen => ?_⟩⟩
  · rw [Session.step, Option.isSome_map]
    exact holds.mqSend_isSome opened
  · rw [Session.step, Option.isSome_map]
    exact State.mqReceive_isSome opened

omit [DecidableEq T] in
theorem claimAccess_keeps {s s' : State T} [DecidableEq T] {self : T} {t : Nat}
    (h : s.claimAccess self = some (s', t)) : s'.queueType = s.queueType ∧ s'.memory = s.memory := by
  unfold State.claimAccess at h
  split at h
  · cases h
    exact ⟨rfl, rfl⟩
  · obtain ⟨t', -, e⟩ := Option.bind_eq_some_iff.mp h
    cases e
    exact ⟨rfl, rfl⟩

/-- `mq_open` that creates a queue does it with `createQueue`, and what it writes behind that
leaves the queue alone. -/
theorem mqOpen_created {s s' : State T} {self : T} (new : s.nameToId name = none)
    (created : s.mqOpen self name oflags permissions mqAttr memPtr = (s', (mq : Int)))
    (ok : 0 < mq) :
    memPtr ≠ 0 ∧ ∃ s₁ s₂ : State T, s₁.queueType = s.queueType ∧
      s₁.createQueue self (mq - 1) name permissions (mqAttr.getD defaultDataQueueAttrs) memPtr = s₂ ∧
      s'.queueType = s₂.queueType ∧ s'.memory = s₂.memory ∧
        (s'.descr (mq - 1)).data = (s₂.descr (mq - 1)).data := by
  have named : (s.initZApps self).nameToId name = none := by
    rw [← new, State.initZApps]
    split <;> rfl
  have type' : (s.initZApps self).queueType = s.queueType := by
    rw [State.initZApps]
    split <;> rfl
  have failed {k : Int} (hk : -k = mq) (positive : 0 < k) : False := by omega
  unfold State.mqOpen at created
  dsimp only at created
  rw [named] at created
  dsimp only at created
  split at created
  next =>
    unfold State.openNew at created
    split at created
    · exact (failed (Prod.mk.inj created).2 (by decide)).elim
    split at created
    · exact (failed (Prod.mk.inj created).2 (by decide)).elim
    split at created
    · exact (failed (Prod.mk.inj created).2 (by decide)).elim
    next s₁ t claimed =>
      obtain ⟨type₁, memory₁⟩ := claimAccess_keeps claimed
      split at created
      · exact (failed (Prod.mk.inj created).2 (by decide)).elim
      split at created
      · exact (failed (Prod.mk.inj created).2 (by decide)).elim
      next i found =>
        split at created
        · exact (failed (Prod.mk.inj created).2 (by decide)).elim
        next nonzero =>
          obtain ⟨rfl, id⟩ := Prod.mk.inj created
          obtain rfl : i = mq - 1 := by
            have id : ((i + 1 : Nat) : Int) = mq := by
              rw [← id]
              simp [State.createQueue, State.countOpen, State.record, State.setAccess, State.setDescr]
            omega
          refine ⟨nonzero, s₁, _, type₁.trans type', rfl, rfl, rfl, ?_⟩
          simp [State.createQueue, State.countOpen, State.record, State.setAccess, State.setDescr]
  next => exact (failed (Prod.mk.inj created).2 (by decide)).elim

/-- A queue that `mq_open` has created is empty. -/
theorem mqOpen_new {s s' : State T} {self : T} (type : s.queueType = .posix)
    (new : s.nameToId name = none)
    (wide : (mqAttr.getD defaultDataQueueAttrs).mqMsgsize + MSG_HDR_SIZE ≤ 127)
    (created : s.mqOpen self name oflags permissions mqAttr memPtr = (s', (mq : Int)))
    (ok : 0 < mq) :
    s'.Ok (mq - 1) [] := by
  obtain ⟨nonzero, s₁, s₂, type₁, rfl, type', memory, data⟩ := mqOpen_created new created ok
  have fresh := State.createQueue_ok self (mq - 1) name permissions (type₁.trans type) nonzero wide
  exact fresh.keeps type' data memory

/-- A queue of type POSIX hands out its messages by priority and, within one priority, in the
order in which they were sent. -/
theorem messages_in_order {s₀ s₁ : State T} {self : T} {name : Name} {oflags : Oflags}
    {permissions : Permissions} {mqAttr : Option MqAttr} {memPtr : Nat} {reply : Reply}
    (type : s₀.queueType = .posix) (new : s₀.nameToId name = none)
    (wide : (mqAttr.getD defaultDataQueueAttrs).mqMsgsize + MSG_HDR_SIZE ≤ 127)
    (created : s₀.mqOpen self name oflags permissions mqAttr memPtr = (s₁, (mq : Int))) (ok : 0 < mq)
    (run : Run step (Succeeds mq) ⟨s₁, reply⟩ tr s) : s.Kept mq tr := by
  have fresh : (⟨s₁, reply⟩ : Session T).Ok mq [] :=
    ⟨[], [], .nil, mqOpen_new type new wide created ok, rfl⟩
  exact (run.history fresh fun before succeeds h => before.step succeeds h).kept

omit [DecidableEq T] in
instance : ∀ s : Session T, Decidable s.Succeeded
  | ⟨_, ⟨.blocks, _, _⟩⟩ => .isFalse fun ⟨_, h, _⟩ => nomatch h
  | ⟨_, ⟨.returns v, _, _⟩⟩ =>
      decidable_of_iff (0 ≤ v) ⟨fun h => ⟨v, rfl, h⟩, fun ⟨_, h, positive⟩ => by cases h; exact positive⟩

omit [DecidableEq T] in
instance (mq : Nat) (s : Session T) : ∀ e, Decidable (s.Fits mq e)
  | .send _ _ _ _ => inferInstanceAs (Decidable (_ ∧ _ ∧ _))
  | .receive _ _ _ => inferInstanceAs (Decidable (_ ∧ _))

instance (mq : Nat) (s : Session T) (e : Call T) : Decidable (s.Succeeds mq e) :=
  decidable_of_iff (s.Fits mq e ∧ (step e s).all fun s' => decide s'.Succeeded) <| by
    rw [Succeeds]
    refine and_congr_right fun _ => ?_
    cases step e s <;> simp

/-- A queue of two one-byte messages. -/
def twoMessages : State Unit :=
  (({} : State Unit).mqOpen () [1] { rdwr := true, creat := true } { rusr := true, wusr := true }
    (some { mqMaxmsg := 2, mqMsgsize := 1 }) 1).1

/-- The second message is the more urgent one and comes first. -/
theorem messages_in_order_two : ∃ tr s, Run step (Succeeds 1) ⟨twoMessages, ⟨.blocks, [], 0⟩⟩ tr s ∧
    s.Kept 1 tr ∧ s.reply.buffer = [8] := by
  obtain ⟨tr, s, run, test⟩ := Run.of_execute step (Succeeds 1) ⟨twoMessages, ⟨.blocks, [], 0⟩⟩
    [.send () 1 [7] 1, .send () 1 [8] 2, .receive () 1 1] (fun s => s.reply.buffer = [8]) (by decide)
  have created : ({} : State Unit).mqOpen () [1] { rdwr := true, creat := true }
      { rusr := true, wusr := true } (some { mqMaxmsg := 2, mqMsgsize := 1 }) 1 =
        (twoMessages, ((1 : Nat) : Int)) := Prod.ext rfl (by decide)
  exact ⟨tr, s, run, messages_in_order rfl rfl (by decide) created (by decide) run,
    of_decide_eq_true test⟩

end Session

end Rtai.Pqueues
