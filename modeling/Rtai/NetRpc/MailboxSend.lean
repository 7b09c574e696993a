import Rtai.Up.MailboxRing
import Mathlib.Algebra.Ring.Nat
import Mathlib.Data.UInt

/-!
# Replies put into a mailbox

`mbx_send_if` of `net_rpc.c` puts a reply into the mailbox of an asynchronous call.  It adds
what it has copied to the first byte of the message, where `mbxput` moves its pointer on, so
that the message stays as it is only if its size is a multiple of 256, and the part that does
not fit before the end of the buffer is copied from the beginning of the message again.
-/

namespace Rtai.NetRpc.MailboxSend

open Function Rtai.Lib Rtai.Up

/-! ## The function -/

/-- `task->state`. -/
abbrev StateWord := BitVec 32

def READY : StateWord := 1
def DELAYED : StateWord := 4
def RUNNING : StateWord := 256
def MBXSUSP : StateWord := 512

/-- What is called of the scheduler. -/
inductive Call (n : Nat) where
  | rtRemTimedTask (task : Task n)
  | rtEnqReadyTask (task : Task n)
  /-- `rt_schedule`. -/
  | dnepsusTrxl
deriving DecidableEq

/-- The mailbox, the state words of the tasks, and what has been called of the scheduler. -/
structure Node (n : Nat) where
  mbx : Mbx n
  state : Task n → StateWord
  calls : List (Call n) := []

variable {n : Nat}

/-- `*msg += tocpy`. -/
def addToFirst (tocpy : Int) : List UInt8 → List UInt8
  | [] => []
  | c :: msg => (c + UInt8.ofInt tocpy) :: msg

/-- The loop, with the message, `msg_size` and `avbs`, which is a copy of `mbx->avbs`. -/
def putLoop : Nat → List UInt8 → Int → Int → Mbx n → Option (Mbx n × List UInt8 × Int)
  | 0, _, _, _, _ => none
  | k + 1, msg, msgSize, avbs, m =>
      if msgSize > 0 ∧ m.frbs ≠ 0 then do
        let tocpy := m.tocpy m.lbyte msgSize m.frbs
        let m ← m.copyIn msg tocpy
        let m := { m with frbs := m.frbs - tocpy }
        let m := { m with lbyte := m.modSize (m.lbyte + tocpy) }
        putLoop k (addToFirst tocpy msg) (msgSize - tocpy) (avbs + tocpy) m
      else some (m, msg, avbs)

/-- The waiting task is woken. -/
def Node.wake (s : Node n) : Node n :=
  match s.mbx.waitingTask with
  | none => s
  | some task =>
      let s := { s with
        mbx := { s.mbx with waitingTask := none }
        calls := s.calls ++ [.rtRemTimedTask task] }
      if s.state task &&& ~~~(READY ||| RUNNING) ≠ 0 then
        let state := s.state task &&& ~~~(MBXSUSP ||| DELAYED)
        let s := { s with state := update s.state task state }
        if state = READY then { s with calls := s.calls ++ [.rtEnqReadyTask task, .dnepsusTrxl] }
        else s
      else s

/-- `mbx_send_if`, with what it leaves of the caller's message. -/
def Node.mbxSendIf (msg : List UInt8) (msgSize : Int) (s : Node n) :
    Option (Node n × List UInt8) :=
  if msgSize ≤ s.mbx.frbs then do
    let (m, msg, avbs) ← putLoop msgSize.toNat.succ msg msgSize s.mbx.avbs s.mbx
    return ({ s with mbx := { m with avbs := avbs } }.wake, msg)
  else some (s, msg)

/-! ## What is asked of it -/

/-- Nothing but the mailbox and a time keeps the task from running. -/
def Alone (state : StateWord) : Prop := state &&& ~~~(MBXSUSP ||| DELAYED) = READY

instance (state : StateWord) : Decidable (Alone state) := inferInstanceAs (Decidable (_ = _))

/-- A task that waits on the mailbox is made `READY` if nothing else blocks it. -/
structure Wakes (s s' : Node n) : Prop where
  ready : ∀ t, s.mbx.waitingTask = some t → s.state t &&& MBXSUSP ≠ 0 →
    (s'.state t = READY ↔ Alone (s.state t))
  listed : ∀ t, s.mbx.waitingTask = some t → s.state t &&& MBXSUSP ≠ 0 →
    (.rtEnqReadyTask t ∈ s'.calls.drop s.calls.length ↔ Alone (s.state t))
  others : ∀ t, s.mbx.waitingTask ≠ some t → s'.state t = s.state t
  waitingTask : s'.mbx.waitingTask = none

/-- What is asked of `mbx_send_if`. -/
def Sends (msg : List UInt8) (s : Node n) : Prop :=
  ∃ s', s.mbxSendIf msg msg.length = some (s', msg) ∧
    if (msg.length : Int) > s.mbx.frbs then s' = s
    else s'.mbx.Ring ∧ s'.mbx.contents = s.mbx.contents ++ msg ∧ Wakes s s'

/-- The part of the message that fits before the end of the buffer. -/
def before (msg : List UInt8) (m : Mbx n) : Nat := min msg.length (m.size - m.lbyte).toNat

/-- The message is too large, or adding its size to a byte changes nothing and its second
part is its first bytes as they are behind the first copy. -/
def Unharmed (msg : List UInt8) (m : Mbx n) : Prop :=
  (msg.length : Int) > m.frbs ∨ 256 ∣ msg.length ∧
    (addToFirst (before msg m) msg).take (msg.length - before msg m) = msg.drop (before msg m)

instance (msg : List UInt8) (m : Mbx n) : Decidable (Unharmed msg m) :=
  inferInstanceAs (Decidable (_ ∨ _))

/-! ## The loop -/

variable {m : Mbx n} {s : Node n} {q msg : List UInt8} {avbs want t : Int} {k : Nat}

@[simp] theorem length_addToFirst : (addToFirst t msg).length = msg.length := by
  cases msg <;> rfl

theorem addToFirst_add {u : Int} : addToFirst u (addToFirst t msg) = addToFirst (t + u) msg := by
  cases msg with
  | nil => rfl
  | cons c msg => rw [addToFirst, addToFirst, addToFirst, UInt8.add_assoc, UInt8.ofInt_add]

theorem ofInt_eq_zero (size : Nat) : UInt8.ofInt size = 0 ↔ 256 ∣ size := by
  rw [← UInt8.toNat_inj, UInt8.ofInt, UInt8.toNat_ofNat', UInt8.toNat_zero]
  omega

/-- Adding its size leaves a message as it is if a byte does not hold the size. -/
theorem addToFirst_length : addToFirst msg.length msg = msg ↔ 256 ∣ msg.length := by
  cases msg with
  | nil => simp [addToFirst]
  | cons c msg =>
      rw [addToFirst, List.cons.injEq, and_iff_left rfl, ← ofInt_eq_zero]
      exact add_eq_left

/-- A turn copies from the beginning of the message. -/
theorem putLoop_turn (h : { m with avbs := avbs }.Holds q) (more : 0 < want) (room : want ≤ m.frbs)
    (enough : want ≤ msg.length) : ∃ m' : Mbx n,
    putLoop (k + 1) msg want avbs m =
      putLoop k (addToFirst (min want (m.size - m.lbyte)) msg) (want - min want (m.size - m.lbyte))
        (avbs + min want (m.size - m.lbyte)) m' ∧
    { m' with avbs := avbs + min want (m.size - m.lbyte) }.Holds
      (q ++ msg.take (min want (m.size - m.lbyte)).toNat) ∧
    m'.size = m.size ∧ m'.frbs = m.frbs - min want (m.size - m.lbyte) ∧
    m'.waitingTask = m.waitingTask ∧ (m.size - m.lbyte < want → m'.lbyte = 0) := by
  have last : 0 ≤ m.lbyte ∧ m.lbyte < m.size := Queued.last_bounds h
  have tocpy : m.tocpy m.lbyte want m.frbs = min want (m.size - m.lbyte) := by
    rw [Mbx.tocpy]
    split <;> split <;> omega
  generalize turn : min want (m.size - m.lbyte) = t at tocpy ⊢
  have there : t ≤ msg.length := by omega
  obtain ⟨copied, holds⟩ := h.copyIn (by omega) there (show t ≤ m.frbs by omega)
    (show m.lbyte + t ≤ m.size by omega)
  have here : m.copyIn msg t = some (m.write msg t) := by
    have goes : 0 ≤ m.lbyte ∧ 0 ≤ t ∧ m.lbyte + t ≤ m.size ∧ t ≤ msg.length := by omega
    exact if_pos goes
  refine ⟨{ m.write msg t with frbs := m.frbs - t, lbyte := m.modSize (m.lbyte + t) }, ?_, holds,
    rfl, rfl, rfl, fun beyond => ?_⟩
  · rw [putLoop, if_pos ⟨more, by omega⟩, tocpy]
    dsimp only
    rw [here]
    rfl
  · show m.modSize (m.lbyte + t) = 0
    rw [Mbx.modSize, if_neg (by omega)]
    omega

theorem putLoop_done (done : ¬want > 0) : putLoop (k + 1) msg want avbs m = some (m, msg, avbs) :=
  if_neg fun more => done more.1

/-- The loop has one turn, or a second one from the beginning of the buffer. -/
theorem putLoop_spec (h : m.Holds q) (fits : (msg.length : Int) ≤ m.frbs) (turns : msg.length < k) :
    ∃ m' : Mbx n, putLoop k msg msg.length m.avbs m =
        some (m', addToFirst msg.length msg, m.avbs + msg.length) ∧
      { m' with avbs := m.avbs + msg.length }.Holds
        (q ++ (msg.take (before msg m) ++
          (addToFirst (before msg m) msg).take (msg.length - before msg m))) ∧
      m'.frbs = m.frbs - msg.length ∧ m'.waitingTask = m.waitingTask := by
  have last : 0 ≤ m.lbyte ∧ m.lbyte < m.size := Queued.last_bounds h
  have first : min (msg.length : Int) (m.size - m.lbyte) = before msg m := by
    rw [before]
    omega
  obtain ⟨k, rfl⟩ := Nat.exists_eq_succ_of_ne_zero (Nat.ne_zero_of_lt turns)
  by_cases none : msg.length = 0
  · obtain rfl := List.eq_nil_of_length_eq_zero none
    refine ⟨m, by simp [putLoop_done, addToFirst], ?_, by simp, rfl⟩
    simpa [addToFirst] using h
  · obtain ⟨m₁, turn, holds, size, frbs, waiting, start⟩ :=
      putLoop_turn (k := k) (show { m with avbs := m.avbs }.Holds q from h)
        (show 0 < (msg.length : Int) by omega) fits le_rfl
    rw [first] at turn holds frbs
    obtain ⟨k, rfl⟩ := Nat.exists_eq_succ_of_ne_zero (show k ≠ 0 by omega)
    by_cases all : before msg m = msg.length
    · rw [all] at turn holds frbs ⊢
      rw [turn, putLoop_done (by omega)]
      refine ⟨m₁, rfl, ?_, frbs, waiting⟩
      simpa using holds
    · -- The second part goes to the beginning of the buffer.
      have beyond : m.size - m.lbyte < msg.length ∧ before msg m = (m.size - m.lbyte).toNat := by
        rw [before] at all ⊢
        omega
      have free : m₁.frbs ≤ m₁.size := by
        have used : m.avbs = q.length := Queued.count h
        have room : m.frbs = m.size - q.length := Queued.room h
        omega
      have rest : min ((msg.length : Int) - before msg m) (m₁.size - m₁.lbyte) =
          msg.length - before msg m := by
        rw [start beyond.1]
        omega
      obtain ⟨m₂, turn₂, holds₂, -, frbs₂, waiting₂, -⟩ :=
        putLoop_turn (k := k) holds (show 0 < (msg.length : Int) - before msg m by omega) (by omega)
          (show (msg.length : Int) - before msg m ≤ (addToFirst (before msg m) msg).length by
            rw [length_addToFirst]
            omega)
      rw [rest] at turn₂ holds₂ frbs₂
      obtain ⟨k, rfl⟩ := Nat.exists_eq_succ_of_ne_zero (show k ≠ 0 by omega)
      have sum : m.avbs + before msg m + ((msg.length : Int) - before msg m) =
          m.avbs + msg.length := by omega
      have whole : (before msg m : Int) + (msg.length - before msg m) = msg.length := by omega
      have size₂ : ((msg.length : Int) - before msg m).toNat = msg.length - before msg m := by omega
      rw [sum, size₂, List.append_assoc, Int.toNat_natCast] at holds₂
      rw [turn, turn₂, putLoop_done (by omega), addToFirst_add, sum, whole]
      exact ⟨m₂, rfl, holds₂, by omega, waiting₂.trans waiting⟩

/-! ## The call -/

theorem wake_mbx : s.wake.mbx = { s.mbx with waitingTask := none } := by
  rw [Node.wake]
  split
  next nobody => rw [← nobody]
  next =>
    dsimp only
    split
    · split <;> rfl
    · rfl

/-- A task that waits on the mailbox is not only `READY`. -/
theorem blocked_of_waits {state : StateWord} (waits : state &&& MBXSUSP ≠ 0) :
    state &&& ~~~(READY ||| RUNNING) ≠ 0 := by
  intro none
  have part : ~~~(READY ||| RUNNING) &&& MBXSUSP = MBXSUSP := by decide
  rw [← part, ← BitVec.and_assoc, none] at waits
  exact waits BitVec.zero_and

theorem wakes {mbx : Mbx n} (same : mbx.waitingTask = s.mbx.waitingTask) :
    Wakes s { s with mbx := mbx }.wake := by
  cases waiting : s.mbx.waitingTask with
  | none =>
      have nobody : { s with mbx := mbx }.wake = { s with mbx := mbx } := by
        rw [Node.wake, same, waiting]
      rw [nobody]
      refine ⟨?_, ?_, fun _ _ => rfl, same.trans waiting⟩ <;>
      · intro t here
        cases waiting.symm.trans here
  | some t =>
      have woken : { s with mbx := mbx }.wake = if s.state t &&& ~~~(READY ||| RUNNING) ≠ 0 then
          { mbx := { mbx with waitingTask := none }
            state := update s.state t (s.state t &&& ~~~(MBXSUSP ||| DELAYED))
            calls := s.calls ++ [.rtRemTimedTask t] ++
              if Alone (s.state t) then [.rtEnqReadyTask t, .dnepsusTrxl] else [] }
        else
          { s with
            mbx := { mbx with waitingTask := none }
            calls := s.calls ++ [.rtRemTimedTask t] } := by
        simp only [Node.wake, same, waiting]
        split
        · by_cases alone : Alone (s.state t)
          · rw [if_pos alone]
            exact if_pos alone
          · rw [if_neg alone, List.append_nil]
            exact if_neg alone
        · rfl
      rw [woken]
      constructor
      · rintro u here waits
        obtain rfl := Option.some.inj (waiting.symm.trans here)
        rw [if_pos (blocked_of_waits waits)]
        dsimp only
        rw [update_self]
        exact Iff.rfl
      · rintro u here waits
        obtain rfl := Option.some.inj (waiting.symm.trans here)
        rw [if_pos (blocked_of_waits waits)]
        dsimp only
        rw [List.append_assoc, List.drop_left]
        split
        next alone => simp [alone]
        next more => simp [more]
      · intro u other
        have ne : u ≠ t := fun e => other (waiting.trans (congrArg some e.symm))
        split
        · exact update_of_ne ne _ _
        · rfl
      · split <;> rfl

/-- A message for which there is room. -/
theorem mbxSendIf_fits (ring : s.mbx.Ring) (fits : (msg.length : Int) ≤ s.mbx.frbs) : ∃ m : Mbx n,
    s.mbxSendIf msg msg.length =
        some ({ s with mbx := m }.wake, addToFirst msg.length msg) ∧
      m.Ring ∧ m.waitingTask = s.mbx.waitingTask ∧
      m.contents = s.mbx.contents ++ (msg.take (before msg s.mbx) ++
        (addToFirst (before msg s.mbx) msg).take (msg.length - before msg s.mbx)) := by
  obtain ⟨m, loop, holds, frbs, waiting⟩ :=
    putLoop_spec (k := (msg.length : Int).toNat.succ) ring.holds fits (by omega)
  refine ⟨{ m with avbs := s.mbx.avbs + msg.length }, ?_,
    holds.ring (show 0 ≤ m.frbs by omega), waiting, holds.contents⟩
  rw [Node.mbxSendIf, if_pos fits, loop]
  rfl

/-- `mbx_send_if` puts the whole message behind what is available and leaves the caller's
message as it is, or leaves the mailbox alone, if and only if the message is too large for it
or is one that the missing step of the pointer does not harm. -/
theorem mbx_send_if (ring : s.mbx.Ring) (msg : List UInt8) :
    Sends msg s ↔ Unharmed msg s.mbx := by
  by_cases fits : (msg.length : Int) ≤ s.mbx.frbs
  · obtain ⟨m, sent, ring', waiting, contents⟩ := mbxSendIf_fits ring fits
    have small : ¬(msg.length : Int) > s.mbx.frbs := Int.not_lt.mpr fits
    rw [Sends, Unharmed, or_iff_right small, ← addToFirst_length]
    constructor
    · rintro ⟨s', sends, outcome⟩
      obtain ⟨rfl, same⟩ := Prod.mk.inj (Option.some.inj (sent.symm.trans sends))
      rw [if_neg small, wake_mbx] at outcome
      have parts := contents.symm.trans outcome.2.1
      rw [List.append_right_inj] at parts
      refine ⟨same, ?_⟩
      rw [← List.append_right_inj (msg.take (before msg s.mbx)), parts, List.take_append_drop]
    · rintro ⟨same, parts⟩
      rw [parts, List.take_append_drop] at contents
      rw [same] at sent
      refine ⟨_, sent, ?_⟩
      rw [if_neg small, wake_mbx]
      exact ⟨{ ring' with }, contents, wakes waiting⟩
  · have large : (msg.length : Int) > s.mbx.frbs := Int.not_le.mp fits
    refine iff_of_true ⟨s, if_neg fits, ?_⟩ (.inl large)
    rw [if_pos large]

/-- An empty mailbox of 256 bytes, on which a task waits. -/
def waited : Node 1 where
  mbx :=
    { magic := true, waitingTask := some ⟨0, Nat.two_pos⟩, bufadr := fun _ => 0
      size := 256, fbyte := 0, lbyte := 0, avbs := 0, frbs := 256 }
  state := fun _ => READY ||| MBXSUSP

theorem waited_ring : waited.mbx.Ring := by
  refine ⟨?_, ?_, ?_, ?_, ?_, ?_, rfl⟩ <;> decide

/-- A reply of 256 bytes fills the mailbox. -/
theorem mbx_send_if_waited : Sends (List.replicate 256 7) waited := by
  have size : (List.replicate 256 (7 : UInt8)).length = 256 := List.length_replicate
  have whole : before (List.replicate 256 7) waited.mbx = 256 := by
    rw [before, size]
    rfl
  refine (mbx_send_if waited_ring _).2 (.inr ⟨⟨1, size⟩, ?_⟩)
  rw [whole, size, Nat.sub_self, List.take_zero, List.drop_of_length_le size.le]

/-- After a reply of one byte the caller's message is another one. -/
theorem not_sends_waited : ¬∀ (s : Node 1) (msg : List UInt8), s.mbx.Ring → Sends msg s := by
  intro sends
  obtain ⟨s', sent, -⟩ := sends waited [7] waited_ring
  have left : (waited.mbxSendIf [7] 1).map Prod.snd = some [8] := by decide
  rw [show ((1 : Int)) = ([7] : List UInt8).length from rfl, sent] at left
  cases left

end Rtai.NetRpc.MailboxSend
