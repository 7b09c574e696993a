import Rtai.NetRpc.Replies

/-!
# Replies get to their calls

A port has at most one request without a reply, so the reply that comes is the one that is
waited for, if nothing else comes: no late reply of the port server, and no reply to a call
of an earlier use of the slot.  `rt_sync_net_rpc` on a negative port takes a reply for one
that is still to come.
-/

namespace Rtai.NetRpc.Replies

open Rtai.Lib Rtai.Up Rtai.NetRpc.MailboxSend

variable {n : Nat}

abbrev Trace (n : Nat) := List (Record (State n) (Event n))

/-- The call waits for its semaphore. -/
def Phase.waits : Phase → Bool
  | .draining _ _ | .waiting _ => true
  | _ => false

/-- `rt_send_req_rel_port` is in its loop. -/
def Phase.asks : Phase → Bool
  | .asking _ => true
  | _ => false

/-- Reads a reply to put it into the mailbox. -/
def Phase.reads : Phase → Bool
  | .reading _ _ _ => true
  | _ => false

/-- The replies to calls, one behind the other. -/
def replied (bytes : Datagram → List UInt8) (calls : List Nat) : List UInt8 :=
  calls.flatMap fun k => bytes (.reply k)

structure Sound (bytes : Datagram → List UInt8) (s : State n) : Prop where
  returned : ∀ x ∈ s.returned, x.2 = some (.reply x.1)
  /-- What has been taken out of the mailbox and what is in it are the replies to the
  asynchronous calls, but for one that the next call collects. -/
  mailbox : ∃ rest : List Nat,
    s.got ++ s.node.mbx.contents ++ replied bytes rest = replied bytes s.asyncs ∧
    rest.length ≤ 1 ∧ (rest ≠ [] → s.task < 0)
  order : s.asyncs.Pairwise (· < ·)
  refused : ∀ k ∈ s.refused, k ∉ s.sent
  stray : s.stray = false
  /-- What is waited for is on its way. -/
  comes : s.phase.waits = true → s.count > 0 ∨ s.replies ≠ [] ∨ s.atStub ≠ []

/-- There is room for a reply, and the part of it that is put at the beginning of the buffer
is the one that is left. -/
def State.Room (bytes : Datagram → List UInt8) (d : Datagram) (s : State n) : Prop :=
  ((bytes d).length : Int) ≤ s.node.mbx.frbs ∧
    (addToFirst (before (bytes d) s.node.mbx) (bytes d)).take
      ((bytes d).length - before (bytes d) s.node.mbx) = (bytes d).drop (before (bytes d) s.node.mbx)

instance (bytes : Datagram → List UInt8) (d : Datagram) (s : State n) :
    Decidable (s.Room bytes d) := inferInstanceAs (Decidable (_ ∧ _))

/-- No reply of the port server comes later than its call, no port is released with a reply
pending, a bare call on a negative port finds one that has not come, and a reply is put into
the mailbox as it is. -/
def Careful (bytes : Datagram → List UInt8) (s : State n) : Event n → Prop
  | .release => s.task > 0
  | .netRpc positive bare => positive = true ∨ bare = false ∨ (s.task < 0 ∧ s.count = 0)
  | .arrivePort => s.phase.asks = true
  | .run => s.phase.reads = true → ∀ d ∈ s.socket.head?, s.Room bytes d
  | _ => True

instance (bytes : Datagram → List UInt8) (s : State n) : (e : Event n) → Decidable (Careful bytes s e)
  | .ask => inferInstanceAs (Decidable True)
  | .given _ => inferInstanceAs (Decidable True)
  | .release => inferInstanceAs (Decidable (_ > _))
  | .netRpc _ _ => inferInstanceAs (Decidable (_ ∨ _ ∨ _))
  | .run => inferInstanceAs (Decidable (_ → ∀ _ ∈ _, _))
  | .serve => inferInstanceAs (Decidable True)
  | .arrive => inferInstanceAs (Decidable True)
  | .arrivePort => inferInstanceAs (Decidable (_ = _))
  | .get _ _ => inferInstanceAs (Decidable True)

/-! ## The request without a reply -/

variable {hard bare : Bool} {bytes : Datagram → List UInt8} {s s' : State n} {k : Nat}

namespace State

/-- Nothing is on its way. -/
structure Quiet (hard : Bool) (s : State n) : Prop where
  atStub : s.atStub = []
  replies : s.replies = []
  count : s.count = 0
  socket : hard = true → s.socket = []

/-- The reply to a call is still to come. -/
structure Coming (hard : Bool) (s : State n) (k : Nat) : Prop where
  under : (s.atStub = [k] ∧ s.replies = []) ∨ (s.atStub = [] ∧ s.replies = [k])
  count : s.count = 0
  socket : hard = true → s.socket = []

/-- It is in the socket. -/
structure Queued (s : State n) (k : Nat) : Prop where
  atStub : s.atStub = []
  replies : s.replies = []
  socket : s.socket = [.reply k]

/-- It has been copied to the buffer of its call. -/
structure Copied (hard : Bool) (s : State n) (k : Nat) : Prop where
  atStub : s.atStub = []
  replies : s.replies = []
  socket : hard = true → s.socket = []
  held : s.held = some (.reply k)

end State

/-- What goes with the phase; `rest` are the asynchronous calls whose replies have not been
put into the mailbox. -/
inductive At (hard : Bool) (s : State n) : Phase → List Nat → Prop where
  | idle (task : s.task = 0 ∨ s.task = 1) (quiet : s.Quiet hard) : At hard s .idle []
  | pending {j : Nat} (task : s.task = -1)
      (reply : s.Coming hard j ∨ (s.Queued j ∧ s.count = 1)) : At hard s .idle [j]
  | asking {k : Nat} (task : s.task = 0) (msg : s.msg = k) (quiet : s.Quiet hard) :
      At hard s (.asking k) []
  | draining {k : Nat} {bare : Bool} {j : Nat} (task : s.task = -1)
      (reply : s.Coming hard j ∨ (s.Queued j ∧ s.count = 1)) : At hard s (.draining k bare) [j]
  | reading {k : Nat} {positive bare : Bool} {j : Nat} (task : s.task = -1)
      (kind : positive = true ∨ bare = false) (reply : s.Queued j) (count : s.count = 0) :
      At hard s (.reading k positive bare) [j]
  | settling {k : Nat} {bare : Bool} (quiet : s.Quiet hard) : At hard s (.settling k bare) []
  | pointing {k : Nat} {bare : Bool} (task : s.task = 1) (quiet : s.Quiet hard) :
      At hard s (.pointing k bare) []
  | marking {k : Nat} (quiet : s.Quiet hard) : At hard s (.marking k false) []
  | sending {k : Nat} {bare : Bool} (task : s.task = 1) (msg : s.msg = k)
      (quiet : s.Quiet hard) : At hard s (.sending k true bare) []
  | sendingAsync {k : Nat} (task : s.task = -1) (quiet : s.Quiet hard) :
      At hard s (.sending k false false) []
  | waiting {k : Nat} (task : s.task = 1) (msg : s.msg = k)
      (reply : s.Coming hard k ∨ (s.Copied hard k ∧ s.count = 1)) : At hard s (.waiting k) []
  | copying {k : Nat} (task : s.task = 1) (reply : s.Copied hard k) (count : s.count = 0) :
      At hard s (.copying k) []

/-- The number of a call that has not sent. -/
def Phase.fresh : Phase → Option Nat
  | .waiting _ | .copying _ => none
  | phase => phase.call

/-- Calls are numbered in their order, and a call that is refused sends nothing. -/
structure Numbered (s : State n) : Prop where
  last : ∀ k, s.phase.call = some k → k = s.calls
  sent : ∀ j ∈ s.sent, j ≤ s.calls
  fresh : ∀ k, s.phase.fresh = some k → ∀ j ∈ s.sent, j < k
  refused : ∀ j ∈ s.refused, j ≤ s.calls ∧ j ∉ s.sent ∧ s.phase.call ≠ some j
  order : s.sent.Pairwise (· < ·)
  asyncs : s.asyncs.Sublist s.sent

structure Inv (hard : Bool) (bytes : Datagram → List UInt8) (s : State n) : Prop where
  place : ∃ rest : List Nat, At hard s s.phase rest ∧
    s.got ++ s.node.mbx.contents ++ replied bytes rest = replied bytes s.asyncs
  numbered : Numbered s
  returned : ∀ x ∈ s.returned, x.2 = some (.reply x.1)
  stray : s.stray = false
  ring : s.node.mbx.Ring

theorem State.Coming.comes {j : Nat} (h : s.Coming hard j) :
    s.count > 0 ∨ s.replies ≠ [] ∨ s.atStub ≠ [] := by
  cases h.under with
  | inl under => exact .inr (.inr (by simp [under.1]))
  | inr under => exact .inr (.inl (by simp [under.2]))

theorem Inv.sound (h : Inv hard bytes s) : Sound bytes s where
  returned := h.returned
  mailbox := by
    obtain ⟨rest, place, mailbox⟩ := h.place
    generalize s.phase = phase at place
    refine ⟨rest, mailbox, ?_, ?_⟩
    · cases place <;> simp
    · intro some
      cases place with
      | pending task _ => rw [task]; decide
      | draining task _ => rw [task]; decide
      | reading task _ _ _ => rw [task]; decide
      | _ => exact absurd rfl some
  order := h.numbered.order.sublist h.numbered.asyncs
  refused := fun k mem => (h.numbered.refused k mem).2.1
  stray := h.stray
  comes := by
    intro waits
    obtain ⟨rest, place, -⟩ := h.place
    generalize s.phase = phase at place waits
    cases place with
    | draining _ reply =>
        cases reply with
        | inl coming => exact coming.comes
        | inr queued => exact .inl (by omega)
    | waiting _ _ reply =>
        cases reply with
        | inl coming => exact coming.comes
        | inr copied => exact .inl (by omega)
    | _ => cases waits

/-! ## Numbers -/

theorem Phase.call_of_fresh {phase : Phase} (h : phase.fresh = some k) : phase.call = some k := by
  cases phase with
  | waiting | copying => cases h
  | _ => exact h

namespace Numbered

variable (h : Numbered s)
include h

/-- A step inside a call. -/
theorem moves (calls : s'.calls = s.calls) (sent : s'.sent = s.sent)
    (refused : s'.refused = s.refused) (asyncs : s'.asyncs = s.asyncs)
    (call : ∀ k, s'.phase.call = some k → s.phase.call = some k)
    (fresh : ∀ k, s'.phase.fresh = some k → s.phase.fresh = some k) : Numbered s' where
  last k here := by
    rw [calls]
    exact h.last k (call k here)
  sent := by
    rw [sent, calls]
    exact h.sent
  fresh k here := by
    rw [sent]
    exact h.fresh k (fresh k here)
  refused := by
    rw [refused, calls, sent]
    intro j mem
    have ⟨small, unsent, other⟩ := h.refused j mem
    exact ⟨small, unsent, fun here => other (call j here)⟩
  order := by
    rw [sent]
    exact h.order
  asyncs := by
    rw [sent, asyncs]
    exact h.asyncs

/-- A step of a call that has not sent. -/
theorem goes (fresh : s.phase.fresh = some k) (same : s'.phase.call = some k)
    (calls : s'.calls = s.calls) (sent : s'.sent = s.sent) (refused : s'.refused = s.refused)
    (asyncs : s'.asyncs = s.asyncs) : Numbered s' := by
  refine h.moves calls sent refused asyncs ?_ ?_
  · intro j here
    rw [same] at here
    cases here
    exact Phase.call_of_fresh fresh
  · intro j here
    have there := Phase.call_of_fresh here
    rw [same] at there
    cases there
    exact fresh

/-- A new call. -/
theorem starts (calls : s'.calls = s.calls + 1) (sent : s'.sent = s.sent)
    (refused : s'.refused = s.refused) (asyncs : s'.asyncs = s.asyncs)
    (call : s'.phase.call = some (s.calls + 1)) : Numbered s' where
  last k here := by
    rw [call] at here
    cases here
    exact calls.symm
  sent j mem := by
    rw [sent] at mem
    rw [calls]
    exact Nat.le_succ_of_le (h.sent j mem)
  fresh k here j mem := by
    have its := Phase.call_of_fresh here
    rw [call] at its
    cases its
    rw [sent] at mem
    exact Nat.lt_succ_of_le (h.sent j mem)
  refused j mem := by
    rw [refused] at mem
    rw [calls, sent, call]
    have ⟨small, unsent, _⟩ := h.refused j mem
    refine ⟨Nat.le_succ_of_le small, unsent, ?_⟩
    intro same
    cases same
    exact absurd small (Nat.not_succ_le_self _)
  order := by
    rw [sent]
    exact h.order
  asyncs := by
    rw [sent, asyncs]
    exact h.asyncs

/-- A call that is refused. -/
theorem refuses (idle : s.phase = .idle) :
    Numbered { s.start with refused := (s.calls + 1) :: s.refused } where
  last k here := by
    rw [State.start, idle] at here
    cases here
  sent j mem := Nat.le_succ_of_le (h.sent j mem)
  fresh k here := by
    rw [State.start, idle] at here
    cases here
  refused j mem := by
    have none : s.phase.call = none := by
      rw [idle]
      rfl
    cases mem with
    | head =>
        refine ⟨Nat.le_refl _, fun mem => ?_, by simp [State.start, none]⟩
        exact absurd (h.sent _ mem) (Nat.not_succ_le_self _)
    | tail _ mem =>
        have ⟨small, unsent, other⟩ := h.refused j mem
        exact ⟨Nat.le_succ_of_le small, unsent, other⟩
  order := h.order
  asyncs := h.asyncs

/-- A request that is sent. -/
theorem sends (positive : Bool) (here : s.phase = .sending k positive bare) :
    Numbered (s.send hard k positive) := by
  have call : s.phase.call = some k := by
    rw [here]
    rfl
  have fresh := h.fresh k (by rw [here]; rfl)
  have last := h.last k call
  have phase (j : Nat) (its : (s.send hard k positive).phase.call = some j) : j = k := by
    cases positive with
    | true =>
        cases its
        rfl
    | false => cases its
  exact {
    last := fun j its => (phase j its).trans last
    sent := by
      intro j mem
      cases List.mem_append.mp mem with
      | inl mem => exact h.sent j mem
      | inr mem =>
          rw [List.mem_singleton.mp mem, last]
          exact Nat.le_refl _
    fresh := by
      intro j its
      cases positive <;> cases its
    refused := by
      intro j mem
      have ⟨small, unsent, other⟩ := h.refused j mem
      have ne : j ≠ k := by
        rintro rfl
        exact other call
      refine ⟨small, ?_, fun its => ne (phase j its)⟩
      intro mem
      cases List.mem_append.mp mem with
      | inl mem => exact unsent mem
      | inr mem => exact ne (List.mem_singleton.mp mem)
    order := by
      refine List.pairwise_append.mpr ⟨h.order, List.pairwise_singleton .., ?_⟩
      intro i mem j single
      rw [List.mem_singleton.mp single]
      exact fresh i mem
    asyncs := by
      cases positive with
      | true => exact h.asyncs.trans (List.sublist_append_left ..)
      | false => exact h.asyncs.append (List.Sublist.refl [k]) }

end Numbered

/-! ## Arrivals -/

section

variable {d : Datagram}

theorem put_socket (empty : hard = true → s.socket = []) : (s.put hard d).socket = [d] := by
  cases hard with
  | true => simp [State.put, empty rfl]
  | false => rfl

theorem receive_own (empty : hard = true → s.socket = []) (own : s.phase.call = some s.msg) :
    (s.put hard d).receive hard = { (s.put hard d).taken hard with held := some d } := by
  have own : (s.put hard d).phase.call = some (s.put hard d).msg := own
  rw [State.receive, put_socket empty]
  exact if_pos own

theorem rcvRtr_positive (above : s.task > 0) :
    s.rcvRtr hard d = ((s.put hard d).receive hard).signal := if_pos above

theorem rcvRtr_negative (under : s.task < 0) : s.rcvRtr hard d = (s.put hard d).signal := by
  have above : ¬s.task > 0 := by omega
  exact (if_neg above).trans (if_pos under)

theorem rcvRtr_zero (zero : s.task = 0) : s.rcvRtr hard d = (s.put hard d).receive hard := by
  have above : ¬s.task > 0 := by omega
  have under : ¬s.task < 0 := by omega
  exact (if_neg above).trans (if_neg under)

theorem taken_socket (single : s.socket = [d]) (queue : hard = true) :
    (s.taken hard).socket = [] := by
  simp [State.taken, single, queue]

end

variable {phase : Phase} {late rest : List Nat}

/-- The stub answers. -/
theorem At.serve (place : At hard s phase late) (next : s.atStub = k :: rest) :
    At hard { s with atStub := rest, replies := s.replies ++ [k] } phase late := by
  have answered {j : Nat} (coming : s.Coming hard j) :
      State.Coming hard { s with atStub := rest, replies := s.replies ++ [k] } j := by
    have ⟨under, count, socket⟩ := coming
    cases under with
    | inl under =>
        obtain ⟨rfl, rfl⟩ := List.cons.inj (next.symm.trans under.1)
        exact ⟨.inr ⟨rfl, by rw [under.2]; rfl⟩, count, socket⟩
    | inr under =>
        rw [under.1] at next
        cases next
  have busy (empty : s.atStub = []) : False := by
    rw [empty] at next
    cases next
  cases place with
  | pending task reply =>
      cases reply with
      | inl coming => exact .pending task (.inl (answered coming))
      | inr queued => exact (busy queued.1.atStub).elim
  | draining task reply =>
      cases reply with
      | inl coming => exact .draining task (.inl (answered coming))
      | inr queued => exact (busy queued.1.atStub).elim
  | waiting task msg reply =>
      cases reply with
      | inl coming => exact .waiting task msg (.inl (answered coming))
      | inr copied => exact (busy copied.1.atStub).elim
  | reading _ _ reply _ => exact (busy reply.atStub).elim
  | copying _ reply _ => exact (busy reply.atStub).elim
  | idle _ quiet | asking _ _ quiet | settling quiet | pointing _ quiet | marking quiet
  | sending _ _ quiet | sendingAsync _ quiet => exact (busy quiet.atStub).elim

/-- A reply of the stub arrives. -/
theorem At.arrive (place : At hard s phase late) (its : s.phase = phase)
    (next : s.replies = k :: rest) :
    At hard ({ s with replies := rest }.rcvRtr hard (.reply k)) phase late ∧
      ({ s with replies := rest }.rcvRtr hard (.reply k)).stray = s.stray := by
  have single {j : Nat} (coming : s.Coming hard j) : k = j ∧ rest = [] ∧ s.atStub = [] := by
    cases coming.under with
    | inl under =>
        rw [under.2] at next
        cases next
    | inr under =>
        obtain ⟨same, empty⟩ := List.cons.inj (next.symm.trans under.2)
        exact ⟨same, empty, under.1⟩
  have busy (empty : s.replies = []) : False := by
    rw [empty] at next
    cases next
  -- an asynchronous reply stays in the socket
  have queues {j : Nat} (coming : s.Coming hard j) (task : s.task = -1) :
      { s with replies := rest }.rcvRtr hard (.reply k) =
        ({ s with replies := rest }.put hard (.reply k)).signal ∧
      State.Queued ({ s with replies := rest }.put hard (.reply k)).signal j := by
    obtain ⟨rfl, empty, idle⟩ := single coming
    have under : s.task < 0 := by omega
    exact ⟨rcvRtr_negative under, idle, empty, put_socket coming.socket⟩
  cases place with
  | pending task reply =>
      cases reply with
      | inl coming =>
          have ⟨same, queued⟩ := queues coming task
          rw [same]
          exact ⟨.pending task (.inr ⟨queued, rfl⟩), rfl⟩
      | inr queued => exact (busy queued.1.replies).elim
  | draining task reply =>
      cases reply with
      | inl coming =>
          have ⟨same, queued⟩ := queues coming task
          rw [same]
          exact ⟨.draining task (.inr ⟨queued, rfl⟩), rfl⟩
      | inr queued => exact (busy queued.1.replies).elim
  | waiting task msg reply =>
      cases reply with
      | inl coming =>
          obtain ⟨rfl, empty, idle⟩ := single coming
          have above : s.task > 0 := by omega
          have own : s.phase.call = some s.msg := by
            rw [its, msg]
            rfl
          have same := receive_own (s := { s with replies := rest }) (d := .reply k)
            coming.socket own
          rw [rcvRtr_positive (s := { s with replies := rest }) above, same]
          refine ⟨.waiting task msg (.inr ⟨⟨idle, empty, ?_, rfl⟩, rfl⟩), rfl⟩
          exact taken_socket (put_socket coming.socket)
      | inr copied => exact (busy copied.1.replies).elim
  | reading _ _ reply _ => exact (busy reply.replies).elim
  | copying _ reply _ => exact (busy reply.replies).elim
  | idle _ quiet | asking _ _ quiet | settling quiet | pointing _ quiet | marking quiet
  | sending _ _ quiet | sendingAsync _ quiet => exact (busy quiet.replies).elim

/-- A reply of the port server arrives at the call it is for. -/
theorem At.arrivePort (place : At hard s phase late) (its : s.phase = phase)
    (asks : phase.asks = true) :
    At hard (s.rcvRtr hard .port) phase late ∧ (s.rcvRtr hard .port).stray = s.stray := by
  cases place with
  | asking task msg quiet =>
      have own : s.phase.call = some s.msg := by
        rw [its, msg]
        rfl
      rw [rcvRtr_zero task, receive_own quiet.socket own]
      refine ⟨.asking task msg ⟨quiet.atStub, quiet.replies, quiet.count, ?_⟩, rfl⟩
      exact taken_socket (put_socket quiet.socket)
  | _ => cases asks

theorem rcvRtr_frame (hard : Bool) (d : Datagram) (s : State n) :
    (s.rcvRtr hard d).phase = s.phase ∧ (s.rcvRtr hard d).calls = s.calls ∧
      (s.rcvRtr hard d).sent = s.sent ∧ (s.rcvRtr hard d).refused = s.refused ∧
      (s.rcvRtr hard d).asyncs = s.asyncs ∧ (s.rcvRtr hard d).got = s.got ∧
      (s.rcvRtr hard d).node = s.node ∧ (s.rcvRtr hard d).returned = s.returned := by
  have received (s : State n) : (s.receive hard).phase = s.phase ∧
      (s.receive hard).calls = s.calls ∧ (s.receive hard).sent = s.sent ∧
      (s.receive hard).refused = s.refused ∧ (s.receive hard).asyncs = s.asyncs ∧
      (s.receive hard).got = s.got ∧ (s.receive hard).node = s.node ∧
      (s.receive hard).returned = s.returned := by
    rw [State.receive]
    split
    · simp
    · split <;> simp [State.taken]
  have put := received (s.put hard d)
  rcases Int.lt_trichotomy s.task 0 with under | zero | above
  · rw [rcvRtr_negative under]
    exact ⟨rfl, rfl, rfl, rfl, rfl, rfl, rfl, rfl⟩
  · rw [rcvRtr_zero zero]
    exact put
  · rw [rcvRtr_positive above]
    exact put

/-- An arrival at the port changes neither the calls nor what has been sent. -/
theorem Inv.arrived {d : Datagram} (h : Inv hard bytes s) (replies : List Nat)
    (place : ∀ {late}, At hard s s.phase late →
      At hard ({ s with replies := replies }.rcvRtr hard d) s.phase late ∧
        ({ s with replies := replies }.rcvRtr hard d).stray = s.stray) :
    Inv hard bytes ({ s with replies := replies }.rcvRtr hard d) := by
  obtain ⟨late, there, mailbox⟩ := h.place
  have ⟨next, stray⟩ := place there
  have ⟨phase, calls, sent, refused, asyncs, got, node, returned⟩ :=
    rcvRtr_frame hard d { s with replies := replies }
  refine ⟨⟨late, ?_, ?_⟩, ?_, ?_, stray.trans h.stray, ?_⟩
  · rw [phase]
    exact next
  · rw [got, node, asyncs]
    exact mailbox
  · refine h.numbered.moves calls sent refused asyncs ?_ ?_
    · intro k here
      rwa [phase] at here
    · intro k here
      rwa [phase] at here
  · rw [returned]
    exact h.returned
  · rw [node]
    exact h.ring

/-! ## Steps of a call -/

/-- A reply is put into the mailbox. -/
theorem collect_room {d : Datagram} (ring : s.node.mbx.Ring) (room : s.Room bytes d) :
    ∃ node : Node n, s.collect bytes d = some { s with node } ∧ node.mbx.Ring ∧
      node.mbx.contents = s.node.mbx.contents ++ bytes d := by
  rw [State.collect]
  split
  next none =>
    refine ⟨s.node, rfl, ring, ?_⟩
    rw [none, List.append_nil]
  next =>
    obtain ⟨m, sent, ring', -, contents⟩ := mbxSendIf_fits ring room.1
    rw [room.2, List.take_append_drop] at contents
    refine ⟨{ s.node with mbx := m }.wake, ?_, ?_⟩
    · rw [sent]
      rfl
    · rw [wake_mbx]
      exact ⟨{ ring' with }, contents⟩

theorem Inv.run (h : Inv hard bytes s) (careful : Careful bytes s .run)
    (stepped : s.run hard bytes = some s') : Inv hard bytes s' := by
  obtain ⟨late, place, mailbox⟩ := h.place
  generalize its : s.phase = phase at place
  rw [State.run, its] at stepped
  cases place with
  | idle | pending | asking => cases stepped
  | draining task reply =>
      obtain ⟨some, ⟨⟩⟩ := Option.ite_none_right_eq_some.mp stepped
      have fresh := congrArg Phase.fresh its
      cases reply with
      | inl coming =>
          have zero := coming.count
          omega
      | inr queued =>
          have ⟨⟨atStub, replies, socket⟩, count⟩ := queued
          refine ⟨⟨_, .reading task (.inl rfl) ⟨atStub, replies, socket⟩ ?_, mailbox⟩,
            h.numbered.goes fresh rfl rfl rfl rfl rfl, h.returned, h.stray, h.ring⟩
          simp [count]
  | @reading k positive bare j task kind reply count =>
      have fresh := congrArg Phase.fresh its
      have room : s.Room bytes (.reply j) :=
        careful (by rw [its]; rfl) _ (by rw [reply.socket]; rfl)
      simp only [reply.socket] at stepped
      obtain ⟨node, collects, ring, contents⟩ := @collect_room n bytes
        ((s.taken hard).enter (if positive then .settling k bare else .sending k false bare)) _
        h.ring room
      obtain rfl := Option.some.inj (collects.symm.trans stepped)
      have collected : s.got ++ node.mbx.contents ++ replied bytes [] = replied bytes s.asyncs := by
        rw [contents, ← mailbox]
        simp [replied, State.enter, State.taken]
      have empty : State.Quiet hard (s.taken hard) :=
        ⟨reply.atStub, reply.replies, count, taken_socket reply.socket⟩
      have ⟨atStub, replies, count, socket⟩ := empty
      cases positive with
      | true =>
          exact ⟨⟨_, .settling ⟨atStub, replies, count, socket⟩, collected⟩,
            h.numbered.goes fresh rfl rfl rfl rfl rfl, h.returned, h.stray, ring⟩
      | false =>
          obtain rfl : bare = false := kind.resolve_left Bool.false_ne_true
          exact ⟨⟨_, .sendingAsync task ⟨atStub, replies, count, socket⟩, collected⟩,
            h.numbered.goes fresh rfl rfl rfl rfl rfl, h.returned, h.stray, ring⟩
  | settling quiet =>
      obtain ⟨⟩ := stepped
      have fresh := congrArg Phase.fresh its
      have ⟨atStub, replies, count, socket⟩ := quiet
      exact ⟨⟨_, .pointing rfl ⟨atStub, replies, count, socket⟩, mailbox⟩,
        h.numbered.goes fresh rfl rfl rfl rfl rfl, h.returned, h.stray, h.ring⟩
  | pointing task quiet =>
      obtain ⟨⟩ := stepped
      have fresh := congrArg Phase.fresh its
      have ⟨atStub, replies, count, socket⟩ := quiet
      exact ⟨⟨_, .sending task rfl ⟨atStub, replies, count, socket⟩, mailbox⟩,
        h.numbered.goes fresh rfl rfl rfl rfl rfl, h.returned, h.stray, h.ring⟩
  | marking quiet =>
      obtain ⟨⟩ := stepped
      have fresh := congrArg Phase.fresh its
      have ⟨atStub, replies, count, socket⟩ := quiet
      exact ⟨⟨_, .sendingAsync rfl ⟨atStub, replies, count, socket⟩, mailbox⟩,
        h.numbered.goes fresh rfl rfl rfl rfl rfl, h.returned, h.stray, h.ring⟩
  | @sending k bare task msg quiet =>
      have ⟨atStub, replies, count, socket⟩ := quiet
      dsimp only at stepped
      split at stepped
      next =>
        obtain ⟨⟩ := stepped
        refine ⟨⟨_, .idle (.inr task) ⟨atStub, replies, count, socket⟩, mailbox⟩,
          h.numbered.moves rfl rfl rfl rfl ?_ ?_, h.returned, h.stray, h.ring⟩
        · intro k none
          cases none
        · intro k none
          cases none
      next =>
        obtain ⟨⟩ := stepped
        refine ⟨⟨_, .waiting task msg (.inl ⟨.inl ⟨?_, replies⟩, count, ?_⟩), mailbox⟩,
          h.numbered.sends true its, h.returned, h.stray, h.ring⟩
        · simp [State.send, atStub]
        · intro queue
          simp [State.send, queue, socket queue]
  | @sendingAsync k task quiet =>
      have ⟨atStub, replies, count, socket⟩ := quiet
      obtain ⟨⟩ := stepped
      refine ⟨⟨[k], .pending task (.inl ⟨.inl ⟨?_, replies⟩, count, ?_⟩), ?_⟩,
        h.numbered.sends false its, h.returned, h.stray, h.ring⟩
      · simp [State.send, atStub]
      · intro queue
        simp [State.send, queue, socket queue]
      · have put : s.got ++ s.node.mbx.contents = replied bytes s.asyncs := by
          rw [← mailbox]
          exact (List.append_nil _).symm
        change s.got ++ s.node.mbx.contents ++ replied bytes [k] = replied bytes (s.asyncs ++ [k])
        rw [put]
        exact List.flatMap_append.symm
  | waiting task msg reply =>
      obtain ⟨some, ⟨⟩⟩ := Option.ite_none_right_eq_some.mp stepped
      cases reply with
      | inl coming =>
          have zero := coming.count
          omega
      | inr copied =>
          have ⟨⟨atStub, replies, socket, held⟩, count⟩ := copied
          refine ⟨⟨_, .copying task ⟨atStub, replies, socket, held⟩ ?_, mailbox⟩,
            h.numbered.moves rfl rfl rfl rfl ?_ ?_, h.returned, h.stray, h.ring⟩
          · simp [count]
          · intro k same
            rw [its]
            exact same
          · intro k none
            cases none
  | copying task reply count =>
      obtain ⟨⟩ := stepped
      have ⟨atStub, replies, socket, held⟩ := reply
      refine ⟨⟨_, .idle (.inr task) ⟨atStub, replies, count, socket⟩, mailbox⟩,
        h.numbered.moves rfl rfl rfl rfl ?_ ?_, ?_, h.stray, h.ring⟩
      · intro k none
        cases none
      · intro k none
        cases none
      · intro x mem
        cases List.mem_append.mp mem with
        | inl mem => exact h.returned x mem
        | inr mem =>
            rw [List.mem_singleton.mp mem]
            exact held

/-! ## Calls -/

/-- A call of `rt_net_rpc` begins. -/
theorem Inv.netRpc (h : Inv hard bytes s) {positive : Bool} (idle : s.phase = .idle)
    (port : s.task ≠ 0) (careful : positive = true ∨ bare = false ∨ (s.task < 0 ∧ s.count = 0)) :
    Inv hard bytes (s.netRpc positive bare) := by
  obtain ⟨late, place, mailbox⟩ := h.place
  rw [idle] at place
  cases place with
  | idle task quiet =>
      have task : s.task = 1 := task.resolve_left port
      have ⟨atStub, replies, count, socket⟩ := quiet
      have under : ¬s.task < 0 := by omega
      cases positive with
      | true =>
          have same : s.netRpc true bare = s.start.enter (.pointing (s.calls + 1) bare) :=
            if_neg under
          rw [same]
          exact ⟨⟨_, .pointing task ⟨atStub, replies, count, socket⟩, mailbox⟩,
            h.numbered.starts rfl rfl rfl rfl rfl, h.returned, h.stray, h.ring⟩
      | false =>
          have same : s.netRpc false bare = s.start.enter (.marking (s.calls + 1) bare) :=
            if_neg under
          obtain rfl : bare = false := by
            rcases careful with none | bare | ⟨below, -⟩
            · cases none
            · exact bare
            · exact absurd below under
          rw [same]
          exact ⟨⟨_, .marking ⟨atStub, replies, count, socket⟩, mailbox⟩,
            h.numbered.starts rfl rfl rfl rfl rfl, h.returned, h.stray, h.ring⟩
  | @pending j task reply =>
      have under : s.task < 0 := by omega
      -- the reply that is pending stays where it is
      have still {s' : State n} (atStub : s'.atStub = s.atStub) (replies : s'.replies = s.replies)
          (count : s'.count = s.count) (socket : s'.socket = s.socket) :
          s'.Coming hard j ∨ (s'.Queued j ∧ s'.count = 1) := by
        cases reply with
        | inl coming =>
            have ⟨way, zero, empty⟩ := coming
            rw [← atStub, ← replies] at way
            exact .inl ⟨way, count.trans zero, fun queue => socket.trans (empty queue)⟩
        | inr queued =>
            have ⟨⟨first, second, third⟩, one⟩ := queued
            exact .inr ⟨⟨atStub.trans first, replies.trans second, socket.trans third⟩,
              count.trans one⟩
      cases positive with
      | true =>
          have same : s.netRpc true bare = s.start.enter (.draining (s.calls + 1) bare) :=
            if_pos under
          rw [same]
          exact ⟨⟨_, .draining task (still rfl rfl rfl rfl), mailbox⟩,
            h.numbered.starts rfl rfl rfl rfl rfl, h.returned, h.stray, h.ring⟩
      | false =>
          by_cases none : s.count = 0
          · have same : s.netRpc false bare =
                { s.start with refused := (s.calls + 1) :: s.refused } :=
              (if_pos under).trans (if_pos none)
            rw [same]
            refine ⟨⟨[j], ?_, mailbox⟩, h.numbered.refuses idle, h.returned, h.stray, h.ring⟩
            rw [State.start, idle]
            exact .pending task (still rfl rfl rfl rfl)
          · have same : s.netRpc false bare =
                { s.start.enter (.reading (s.calls + 1) false bare) with count := s.count - 1 } :=
              (if_pos under).trans (if_neg none)
            have ⟨⟨atStub, replies, socket⟩, one⟩ :=
              reply.resolve_left fun coming => none coming.count
            obtain rfl : bare = false := by
              rcases careful with none | bare | ⟨-, zero⟩
              · cases none
              · exact bare
              · exact absurd zero none
            rw [same]
            refine ⟨⟨_, .reading task (.inr rfl) ⟨atStub, replies, socket⟩ ?_, mailbox⟩,
              h.numbered.starts rfl rfl rfl rfl rfl, h.returned, h.stray, h.ring⟩
            simp [one]

/-- Bytes are taken out of the mailbox. -/
theorem At.get (place : At hard s phase late) (node : Node n) (got : List UInt8) :
    At hard { s with node, got } phase late := by
  have still {j : Nat} (coming : s.Coming hard j) : State.Coming hard { s with node, got } j :=
    ⟨coming.under, coming.count, coming.socket⟩
  have queues {j : Nat} (queued : s.Queued j) : State.Queued { s with node, got } j :=
    ⟨queued.atStub, queued.replies, queued.socket⟩
  have copies {j : Nat} (copied : s.Copied hard j) : State.Copied hard { s with node, got } j :=
    ⟨copied.atStub, copied.replies, copied.socket, copied.held⟩
  have quiets (quiet : s.Quiet hard) : State.Quiet hard { s with node, got } :=
    ⟨quiet.atStub, quiet.replies, quiet.count, quiet.socket⟩
  cases place with
  | idle task quiet => exact .idle task (quiets quiet)
  | pending task reply => exact .pending task (reply.imp still fun both => ⟨queues both.1, both.2⟩)
  | asking task msg quiet => exact .asking task msg (quiets quiet)
  | draining task reply =>
      exact .draining task (reply.imp still fun both => ⟨queues both.1, both.2⟩)
  | reading task kind reply count => exact .reading task kind (queues reply) count
  | settling quiet => exact .settling (quiets quiet)
  | pointing task quiet => exact .pointing task (quiets quiet)
  | marking quiet => exact .marking (quiets quiet)
  | sending task msg quiet => exact .sending task msg (quiets quiet)
  | sendingAsync task quiet => exact .sendingAsync task (quiets quiet)
  | waiting task msg reply =>
      exact .waiting task msg (reply.imp still fun both => ⟨copies both.1, both.2⟩)
  | copying task reply count => exact .copying task (copies reply) count

theorem Inv.step {e : Event n} (h : Inv hard bytes s) (careful : Careful bytes s e)
    (stepped : step hard bytes e s = some s') : Inv hard bytes s' := by
  obtain ⟨late, place, mailbox⟩ := h.place
  cases e with
  | ask =>
      obtain ⟨⟨idle, task⟩, ⟨⟩⟩ := Option.ite_none_right_eq_some.mp stepped
      rw [idle] at place
      cases place with
      | idle _ quiet =>
          have ⟨atStub, replies, count, socket⟩ := quiet
          exact ⟨⟨_, .asking task rfl ⟨atStub, replies, count, socket⟩, mailbox⟩,
            h.numbered.starts rfl rfl rfl rfl rfl, h.returned, h.stray, h.ring⟩
      | pending other _ => omega
  | given port =>
      generalize its : s.phase = phase at place
      simp only [Replies.step, its] at stepped
      cases place with
      | asking task msg quiet =>
          obtain ⟨⟩ := stepped
          have ⟨atStub, replies, count, socket⟩ := quiet
          refine ⟨⟨_, .idle ?_ ⟨atStub, replies, count, socket⟩, mailbox⟩,
            h.numbered.moves rfl rfl rfl rfl ?_ ?_, h.returned, h.stray, h.ring⟩
          · cases port with
            | true => exact .inr rfl
            | false => exact .inl rfl
          · intro k none
            cases none
          · intro k none
            cases none
      | _ => cases stepped
  | release =>
      obtain ⟨⟨idle, task⟩, ⟨⟩⟩ := Option.ite_none_right_eq_some.mp stepped
      rw [idle] at place
      cases place with
      | idle _ quiet =>
          have ⟨atStub, replies, count, socket⟩ := quiet
          refine ⟨⟨[], ?_, mailbox⟩, h.numbered.moves rfl rfl rfl rfl (fun _ same => same)
            fun _ same => same, h.returned, h.stray, h.ring⟩
          simp only [idle]
          exact .idle (.inl rfl) ⟨atStub, replies, count, socket⟩
      | pending other _ =>
          have above : s.task > 0 := careful
          omega
  | netRpc positive bare =>
      obtain ⟨⟨idle, port⟩, ⟨⟩⟩ := Option.ite_none_right_eq_some.mp stepped
      exact h.netRpc idle port careful
  | run => exact h.run careful stepped
  | serve =>
      simp only [Replies.step] at stepped
      split at stepped
      next => cases stepped
      next k rest next =>
        obtain ⟨⟩ := stepped
        exact ⟨⟨late, place.serve next, mailbox⟩, h.numbered.moves rfl rfl rfl rfl
          (fun _ same => same) fun _ same => same, h.returned, h.stray, h.ring⟩
  | arrive =>
      simp only [Replies.step] at stepped
      split at stepped
      next => cases stepped
      next k rest next =>
        obtain ⟨⟩ := stepped
        exact h.arrived rest fun place => place.arrive rfl next
  | arrivePort =>
      obtain ⟨⟩ := stepped
      exact h.arrived s.replies fun place => place.arrivePort rfl careful
  | get size waiting =>
      obtain ⟨m, got, ring, -, contents⟩ := Mbx.mbxget_spec h.ring size
      simp only [Replies.step, got] at stepped
      obtain ⟨⟩ := stepped
      refine ⟨⟨late, place.get _ _, ?_⟩, h.numbered.moves rfl rfl rfl rfl (fun _ same => same)
        fun _ same => same, h.returned, h.stray, { ring with }⟩
      have taken : s.got ++ s.node.mbx.contents.take size ++ m.contents =
          s.got ++ s.node.mbx.contents := by
        rw [contents, List.append_assoc, List.take_append_drop]
      rw [← mailbox, ← taken]
      rfl

/-- A mailbox that has been set up, and is empty. -/
structure Empty (node : Node n) : Prop where
  ring : node.mbx.Ring
  avbs : node.mbx.avbs = 0

theorem init_inv {node : Node n} (empty : Empty node) : Inv hard bytes { node } where
  place := by
    refine ⟨[], .idle (.inl rfl) ⟨rfl, rfl, rfl, fun _ => rfl⟩, ?_⟩
    have none : node.mbx.contents = [] := by
      rw [← List.length_eq_zero_iff]
      have length := Mbx.contents_length empty.ring.avbs
      have avbs := empty.avbs
      omega
    change [] ++ node.mbx.contents ++ [] = []
    rw [none]
    rfl
  numbered := by
    refine ⟨?_, ?_, ?_, ?_, .nil, .slnil⟩
    · intro k none
      cases none
    · intro j mem
      cases mem
    · intro k none
      cases none
    · intro j mem
      cases mem
  returned := by
    intro x mem
    cases mem
  stray := rfl
  ring := empty.ring

/-- In careful runs the replies get to their calls. -/
theorem replies_sound (hard : Bool) {node : Node n} (empty : Empty node) {tr : Trace n} {s : State n}
    (run : Run (step hard bytes) (Careful bytes) { node } tr s) : Sound bytes s :=
  (run.invariant (P := Inv hard bytes) (init_inv empty) fun h careful stepped =>
    h.step careful stepped).sound

/-- Replies of two bytes. -/
def short : Datagram → List UInt8
  | .reply k => [k.toUInt8, 0]
  | _ => []

/-- An asynchronous call, one that is refused, and a synchronous one. -/
theorem replies_sound_mixed :
    ∃ tr s, Run (step false short) (Careful short) { node := waited } tr s ∧
      (s.returned = [(4, some (.reply 4))] ∧ s.got = [2] ∧ s.node.mbx.contents = [0] ∧
        s.refused = [3]) ∧
      Sound short s := by
  have ⟨tr, s, run, test⟩ := Run.of_execute (step false short) (Careful short) { node := waited }
    [.ask, .arrivePort, .given true, .netRpc false false, .run, .run, .netRpc false false,
      .netRpc true false, .serve, .arrive, .run, .run, .get 1 none, .run, .run, .run, .serve,
      .arrive, .run, .run]
    (fun s => s.returned == [(4, some (.reply 4))] && s.got == [2] &&
      s.node.mbx.contents == [0] && s.refused == [3]) (by decide +kernel)
  simp only [Bool.and_eq_true, beq_iff_eq] at test
  exact ⟨tr, s, run, ⟨test.1.1.1, test.1.1.2, test.1.2, test.2⟩,
    replies_sound false ⟨waited_ring, rfl⟩ run⟩

/-- A late reply of the port server is returned by a call. -/
theorem not_replies_sound :
    ¬∀ tr s, Run (step false short) (fun _ _ => True) { node := waited } tr s → Sound short s := by
  intro sound
  have ⟨tr, s, run, test⟩ := Run.of_execute (step false short) (fun _ _ => True) { node := waited }
    [.ask, .arrivePort, .given true, .netRpc true false, .run, .run, .arrivePort, .run, .run]
    (fun s => s.returned == [(2, some .port)]) (by decide +kernel)
  have its := (sound tr s run).returned (2, some .port) (by simp [eq_of_beq test])
  cases its

end Rtai.NetRpc.Replies
