import Rtai.Serial.Rings

/-!
# What a port sends

The bytes that the calls of `rt_com_write` accept are written to the line in their order, as long
as no call fills the ring.  One that does is told that there is room for its bytes, and leaves the
indices of an empty ring behind.
-/

namespace Rtai.Serial

open Function Rtai.Lib

variable {s s' : Sys} {t : Turn} {w : Write} {bytestosend count : Int32} {buffer : List UInt8}

/-- The number of bytes that a call is to accept: as many as fit, and with a negative count all of
them or none. -/
def Write.fits (w : Write) : Nat :=
  if w.count < 0 ∧ w.room < w.count.toInt.natAbs then 0 else min w.count.toInt.natAbs w.room

/-- A call knows how many bytes it has to send. -/
structure Write.Checked (w : Write) (bytestosend count : Int32) : Prop where
  count : count.toInt = w.count.toInt.natAbs
  bytes : bytestosend.toInt = w.fits
  there : w.count.toInt.natAbs ≤ w.buffer.length

theorem Write.fits_le : w.fits ≤ w.count.toInt.natAbs := by
  unfold Write.fits
  split_ifs <;> omega

/-- The loop counts the bytes of a call down. -/
theorem countdown {bytes : List UInt8} (le : bytes.length ≤ count.toInt) :
    (bytes.foldl (fun count _ => count - 1) count).toInt = count.toInt - bytes.length := by
  induction bytes generalizing count with
  | nil => simp
  | cons c bytes ih =>
      rw [List.length_cons] at le ⊢
      have high := count.toInt_lt
      have less : (count - 1).toInt = count.toInt - 1 := by
        rw [Int32.toInt_sub]
        exact Int.bmod_eq_of_le (by simp; omega) (by simp; omega)
      rw [List.foldl_cons, ih (by omega), less]
      omega

/-- `-count`, where there is one. -/
theorem negated (proper : count ≠ Int32.minValue) (negative : count.toInt < 0) :
    (-count).toInt = count.toInt.natAbs := by
  have low := count.le_toInt
  have least : count.toInt ≠ -2 ^ 31 := fun least => proper (Int32.toInt_inj.mp least)
  have minus : (-count).toInt = -count.toInt := by
    rw [Int32.toInt_neg]
    exact Int.bmod_eq_of_le (by omega) (by omega)
  omega

theorem or_and_same (x y : UInt8) : (x ||| y) &&& y = y := by
  refine UInt8.eq_of_toBitVec_eq (BitVec.eq_of_getElem_eq fun i less => ?_)
  simp only [UInt8.toBitVec_and, UInt8.toBitVec_or, BitVec.getElem_and, BitVec.getElem_or]
  cases y.toBitVec[i] <;> simp

theorem or_and_word (x y : UInt32) : (x ||| y) &&& y = y := by
  refine UInt32.eq_of_toBitVec_eq (BitVec.eq_of_getElem_eq fun i less => ?_)
  simp only [UInt32.toBitVec_and, UInt32.toBitVec_or, BitVec.getElem_and, BitVec.getElem_or]
  cases y.toBitVec[i] <;> simp

namespace Sys

/-- The accepted bytes are those that have been sent and those in the ring. -/
structure Sending (s : Sys) : Prop where
  used : s.port.used &&& RT_COM_PORT_SETUP ≠ 0
  sent : s.sent <+: s.accepted
  ring : s.port.obuf.Keeps s.accepted s.sent.length
  near : s.accepted.length < s.sent.length + RT_COM_BUF_SIZ
  calls : ∀ c ∈ s.calls, (c.count.toInt.natAbs : Int) - c.ret.toInt = c.fits
  pending : ∀ w bytestosend count, s.pending = some (w, bytestosend, count) →
    w.Checked bytestosend count

/-- The interrupt comes when there is something to send. -/
structure Enabled (s : Sys) : Prop where
  copy : s.port.ier = s.ier
  enabled : s.sent ≠ s.accepted → s.ier &&& IER_ETBEI ≠ 0

/-- A step leaves the output alone. -/
structure Leaves (s s' : Sys) : Prop where
  obuf : s'.port.obuf = s.port.obuf
  used : s'.port.used = s.port.used
  mode : s'.port.mode = s.port.mode
  copy : s'.port.ier = s.port.ier
  ier : s'.ier = s.ier
  sent : s'.sent = s.sent
  calls : s'.calls = s.calls
  pending : s'.pending = s.pending

/-! ## The input -/

variable {s'' : Sys}

namespace Leaves

theorem refl (s : Sys) : Leaves s s := ⟨rfl, rfl, rfl, rfl, rfl, rfl, rfl, rfl⟩

theorem trans (h : Leaves s s') (h' : Leaves s' s'') : Leaves s s'' :=
  ⟨h'.obuf.trans h.obuf, h'.used.trans h.used, h'.mode.trans h.mode, h'.copy.trans h.copy,
    h'.ier.trans h.ier, h'.sent.trans h.sent, h'.calls.trans h.calls, h'.pending.trans h.pending⟩

theorem accepted (leaves : Leaves s s') : s'.accepted = s.accepted := by
  rw [Sys.accepted, leaves.calls, Sys.accepted]

theorem sending (leaves : Leaves s s') (sending : s.Sending) : s'.Sending := by
  constructor
  · rw [leaves.used]
    exact sending.used
  · rw [leaves.sent, leaves.accepted]
    exact sending.sent
  · rw [leaves.obuf, leaves.sent, leaves.accepted]
    exact sending.ring
  · rw [leaves.sent, leaves.accepted]
    exact sending.near
  · rw [leaves.calls]
    exact sending.calls
  · rw [leaves.pending]
    exact sending.pending

theorem enabled (leaves : Leaves s s') (enabled : s.Enabled) : s'.Enabled := by
  constructor
  · rw [leaves.copy, leaves.ier]
    exact enabled.copy
  · rw [leaves.sent, leaves.accepted, leaves.ier]
    exact enabled.enabled

theorem lineError (lsr : UInt8) : Leaves s (s.lineError lsr) := by
  unfold Sys.lineError
  split_ifs <;> exact ⟨rfl, rfl, rfl, rfl, rfl, rfl, rfl, rfl⟩

theorem receive (x : UInt8 × UInt8) : Leaves s (s.receive x) :=
  (lineError x.1).trans ⟨rfl, rfl, rfl, rfl, rfl, rfl, rfl, rfl⟩

theorem receives (l : List (UInt8 × UInt8)) : Leaves s (l.foldl Sys.receive s) := by
  induction l generalizing s with
  | nil => exact refl s
  | cons x l ih => exact (receive x).trans ih

theorem checkFull : Leaves s s.checkFull := by
  unfold Sys.checkFull
  split_ifs <;> exact ⟨rfl, rfl, rfl, rfl, rfl, rfl, rfl, rfl⟩

theorem clearRts : Leaves s s.clearRts := by
  unfold Sys.clearRts
  split_ifs <;> exact ⟨rfl, rfl, rfl, rfl, rfl, rfl, rfl, rfl⟩

theorem input (t : Turn) : Leaves s (s.input t) :=
  (receives t.line).trans (((lineError t.lsr).trans checkFull).trans clearRts)

theorem rtComRead (count : Int32) : Leaves s (s.rtComRead count).2 := by
  unfold Sys.rtComRead
  split_ifs <;> exact ⟨rfl, rfl, rfl, rfl, rfl, rfl, rfl, rfl⟩

theorem rtComError : Leaves s s.rtComError.2 := ⟨rfl, rfl, rfl, rfl, rfl, rfl, rfl, rfl⟩

end Leaves

/-! ## The interrupt routine -/

variable {data : UInt8}

namespace Sending

variable (sending : s.Sending)
include sending

theorem setIer (ier : UInt8) : (s.setIer ier).Sending :=
  ⟨sending.used, sending.sent, sending.ring, sending.near, sending.calls, sending.pending⟩

theorem used_eq : s.port.obuf.used = s.accepted.length - s.sent.length :=
  sending.ring.used_of_lt sending.near

theorem contents : s.port.obuf.contents = s.accepted.drop s.sent.length := by
  have le := sending.ring.le
  rw [sending.ring.contents, sending.used_eq, Nat.sub_sub_self le]

/-- Everything has been sent when the ring is empty. -/
theorem irqGet_none (none : s.irqGet = none) : s.sent = s.accepted := by
  have met : s.port.obuf.head = s.port.obuf.tail := by
    by_contra some
    simp [Sys.irqGet, Buf.irqGet, some] at none
  have empty := sending.ring.met_iff.mp met
  have le := sending.ring.le
  rw [sending.used_eq] at empty
  exact sending.sent.eq_of_length (by omega)

/-- A byte of the ring is the one that is to be sent. -/
theorem irqGet_some (some : s.irqGet = some (data, s')) :
    Sending { s' with sent := s'.sent ++ [data] } ∧ s'.sent = s.sent ∧ s'.ier = s.ier ∧
      s'.port.ier = s.port.ier ∧ s'.port.mode = s.port.mode ∧ s'.accepted = s.accepted := by
  unfold Sys.irqGet Buf.irqGet at some
  split_ifs at some with there
  · cases some
    obtain ⟨ring, fewer, first⟩ := sending.ring.next there
    have le := ring.le
    have near := sending.near
    obtain ⟨rest, whole⟩ := sending.sent
    have next : s.port.obuf.buf s.port.obuf.tail :: s.port.obuf.next.contents = rest := by
      rw [← first, sending.contents, ← whole, List.drop_left]
    refine ⟨⟨sending.used, ?_, ?_, ?_, sending.calls, sending.pending⟩, rfl, rfl, rfl, rfl, rfl⟩
    · refine ⟨s.port.obuf.next.contents, ?_⟩
      show s.sent ++ [_] ++ _ = s.accepted
      rw [List.append_assoc, List.singleton_append, next, whole]
    · show s.port.obuf.next.Keeps s.accepted (s.sent ++ [_]).length
      rw [List.length_append, List.length_singleton]
      exact ring
    · show s.accepted.length < (s.sent ++ [_]).length + _
      rw [List.length_append, List.length_singleton]
      omega
  · cases some

end Sending

/-- Some bytes have been sent. -/
structure Sent (s s' : Sys) : Prop where
  sending : s'.Sending
  more : s.sent <+: s'.sent
  mode : s'.port.mode = s.port.mode
  accepted : s'.accepted = s.accepted

theorem Leaves.toSent (leaves : Leaves s s') (sending : s.Sending) : Sent s s' :=
  ⟨leaves.sending sending, leaves.sent ▸ List.prefix_refl _, leaves.mode, leaves.accepted⟩

theorem Sent.trans (h : Sent s s') (h' : Sent s' s'') : Sent s s'' :=
  ⟨h'.sending, h.more.trans h'.more, h'.mode.trans h.mode, h'.accepted.trans h.accepted⟩

namespace Sending

/-- The loop leaves bytes behind only when `data_to_tx` is set. -/
theorem send (toFifo : Nat) (sending : Sending { s with sent := s.sent ++ [data] }) :
    Sent { s with sent := s.sent ++ [data] } (Sys.send toFifo data s).2.2 ∧
      (Sys.send toFifo data s).2.2.ier = s.ier ∧
      (Sys.send toFifo data s).2.2.port.ier = s.port.ier ∧
      ((Sys.send toFifo data s).1 = false →
        (Sys.send toFifo data s).2.2.sent = (Sys.send toFifo data s).2.2.accepted) := by
  fun_induction Sys.send toFifo data s with
  | case1 toFifo data s s₁ data' s' got ih =>
      obtain ⟨sending', sent, ier, copy, mode, accepted⟩ := sending.irqGet_some got
      obtain ⟨rest, ier', copy', all⟩ := ih sending'
      have first : s.sent ++ [data] <+: s'.sent ++ [data'] := by
        rw [sent]
        exact List.prefix_append _ _
      exact ⟨Sent.trans ⟨sending', first, mode, accepted⟩ rest, ier'.trans ier, copy'.trans copy, all⟩
  | case2 toFifo data s s₁ none =>
      exact ⟨⟨sending, List.prefix_refl _, rfl, rfl⟩, rfl, rfl,
        fun _ => sending.irqGet_none none⟩
  | case3 toFifo data s _ =>
      exact ⟨⟨sending, List.prefix_refl _, rfl, rfl⟩, rfl, rfl, fun none => Bool.noConfusion none⟩

/-- A part of a turn that may transmit sends at least a byte, if there is one. -/
theorem output (toFifo : Nat) (sending : s.Sending) (enabled : s.Enabled) :
    Sent s (s.output t toFifo).2 ∧ (s.output t toFifo).2.Enabled ∧
      (mayTransmit s.port.mode t.msr = true → t.thre &&& LSR_THRE ≠ 0 → s.sent ≠ s.accepted →
        s.sent.length < (s.output t toFifo).2.sent.length) := by
  unfold Sys.output
  split_ifs with transmits
  · cases got : s.irqGet with
    | none =>
        have all := sending.irqGet_none got
        simp only [Bool.false_eq_true, if_false]
        exact ⟨⟨sending.setIer _, List.prefix_refl _, rfl, rfl⟩, ⟨rfl, fun some => absurd all some⟩,
          fun _ _ some => absurd all some⟩
    | some got' =>
        obtain ⟨data, s₁⟩ := got'
        obtain ⟨sending₁, sent, ier, copy, mode, accepted⟩ := sending.irqGet_some got
        obtain ⟨rest, ier', copy', all⟩ := sending₁.send toFifo
        have first : Sent s { s₁ with sent := s₁.sent ++ [data] } :=
          ⟨sending₁, sent ▸ List.prefix_append _ _, mode, accepted⟩
        have whole := first.trans rest
        have grows : s.sent.length < (Sys.send toFifo data s₁).2.2.sent.length := by
          refine Nat.lt_of_lt_of_le ?_ rest.more.length_le
          simp [sent]
        simp only
        split_ifs with more
        · refine ⟨whole, ⟨?_, fun some => ?_⟩, fun _ _ _ => grows⟩
          · rw [ier', copy', ier, copy, enabled.copy]
          · rw [ier', ier]
            refine enabled.enabled fun none => ?_
            have := whole.sending.sent.length_le
            rw [whole.accepted, ← none] at this
            omega
        · have all := all (Bool.eq_false_iff.mpr more)
          exact ⟨⟨whole.sending.setIer _, whole.more, whole.mode, whole.accepted⟩,
            ⟨rfl, fun some => absurd all some⟩, fun _ _ _ => grows⟩
  · refine ⟨⟨sending, List.prefix_refl _, rfl, rfl⟩, enabled, fun may ready => ?_⟩
    exact absurd (by simp [may, ready]) transmits

theorem isrLoop {ts : List Turn} {loop toFifo : Nat} (sending : s.Sending) (enabled : s.Enabled)
    (ran : Sys.isrLoop ts loop toFifo s = some s') :
    Sent s s' ∧ s'.Enabled ∧ ∀ t ∈ ts.head?, mayTransmit s.port.mode t.msr = true →
      t.thre &&& LSR_THRE ≠ 0 → s.sent ≠ s.accepted → s.sent.length < s'.sent.length := by
  induction ts generalizing loop toFifo s with
  | nil => cases ran
  | cons t ts ih =>
      have read := Leaves.input (s := s) t
      obtain ⟨sent, enabled', grows⟩ :=
        (read.sending sending).output (t := t) toFifo (read.enabled enabled)
      rw [read.mode, read.sent, read.accepted] at grows
      have turn := (read.toSent sending).trans sent
      unfold Sys.isrLoop at ran
      dsimp only at ran
      split_ifs at ran
      · obtain ⟨rest, enabled'', -⟩ := ih turn.sending enabled' ran
        refine ⟨turn.trans rest, enabled'', fun t' first may ready some => ?_⟩
        obtain rfl := Option.some.inj first
        exact Nat.lt_of_lt_of_le (grows may ready some) rest.more.length_le
      · obtain rfl := Option.some.inj ran
        refine ⟨turn, enabled', fun t' first => ?_⟩
        obtain rfl := Option.some.inj first
        exact grows

/-! ## The calls -/

/-- A call that does not fill the ring. -/
theorem copy (sending : s.Sending) (checked : w.Checked bytestosend count)
    (room : s.accepted.length - s.sent.length + w.fits < RT_COM_BUF_SIZ) :
    (s.copy w bytestosend count).Sending ∧ (s.copy w bytestosend count).Enabled := by
  have there := checked.there
  have fits := w.fits_le
  have bytes : w.buffer.take bytestosend.toInt.toNat = w.buffer.take w.fits := by
    rw [checked.bytes, Int.toNat_natCast]
  have length : (w.buffer.take w.fits).length = w.fits := by
    rw [List.length_take]
    omega
  have left : ((w.buffer.take w.fits).foldl (fun count _ => count - 1) count).toInt =
      w.count.toInt.natAbs - w.fits := by
    rw [countdown (by rw [length, checked.count]; omega), length, checked.count]
  have taken : (Call.mk w ((w.buffer.take w.fits).foldl (fun count _ => count - 1) count)).accepted =
      w.buffer.take w.fits := by
    rw [Call.accepted]
    simp only [left]
    congr 1
    omega
  have accepted : (s.copy w bytestosend count).accepted = s.accepted ++ w.buffer.take w.fits := by
    rw [Sys.copy, bytes]
    show (s.calls ++ [_]).flatMap Call.accepted = _
    rw [List.flatMap_append, List.flatMap_singleton, taken]
    rfl
  refine ⟨⟨sending.used, ?_, ?_, ?_, ?_, nofun⟩, rfl, fun _ => ?_⟩
  · rw [accepted]
    exact sending.sent.trans (List.prefix_append _ _)
  · rw [accepted, Sys.copy, bytes]
    exact sending.ring.writes
  · rw [accepted, List.length_append, length]
    have le := sending.ring.le
    show _ < s.sent.length + _
    omega
  · intro c mem
    rw [Sys.copy, bytes] at mem
    rcases List.mem_append.mp mem with old | new
    · exact sending.calls c old
    · obtain rfl := List.mem_singleton.mp new
      show (w.count.toInt.natAbs : Int) - _ = w.fits
      simp only [left]
      omega
  · show (s.port.ier ||| IER_ETBEI) &&& IER_ETBEI ≠ 0
    rw [or_and_same]
    decide

/-- A call looks for room. -/
theorem write (sending : s.Sending) (enabled : s.Enabled) (there : count.toInt.natAbs ≤ buffer.length)
    (proper : count ≠ Int32.minValue) :
    (s.rtComWrite buffer count).Sending ∧ (s.rtComWrite buffer count).Enabled := by
  set w : Write := ⟨buffer, count, RT_COM_BUF_SIZ - (s.accepted.length - s.sent.length)⟩ with is
  have room : rtComBufferFree s.port.obuf.head s.port.obuf.tail = w.room := by
    rw [sending.ring.free, sending.used_eq]
  have roomy : w.room ≤ RT_COM_BUF_SIZ := Nat.sub_le _ _
  have free : (Int32.ofNat w.room).toInt = w.room :=
    Int32.toInt_ofNat_of_lt (Nat.lt_of_le_of_lt roomy (by decide))
  have returns (ret : Int32) (nothing : ret.toInt = count.toInt.natAbs) (none : w.fits = 0) :
      Sending { s with calls := s.calls ++ [Call.mk w ret] } ∧
        Enabled { s with calls := s.calls ++ [Call.mk w ret] } := by
    have same : Sys.accepted { s with calls := s.calls ++ [Call.mk w ret] } = s.accepted := by
      have empty : (Call.mk w ret).accepted = [] := by
        simp [Call.accepted, nothing, is]
      rw [Sys.accepted, List.flatMap_append, List.flatMap_singleton, empty, List.append_nil]
      rfl
    refine ⟨⟨sending.used, ?_, ?_, ?_, fun c mem => ?_, sending.pending⟩, enabled.copy, ?_⟩
    · rw [same]
      exact sending.sent
    · rw [same]
      exact sending.ring
    · rw [same]
      exact sending.near
    · rcases List.mem_append.mp mem with old | new
      · exact sending.calls c old
      · obtain rfl := List.mem_singleton.mp new
        show (count.toInt.natAbs : Int) - ret.toInt = w.fits
        omega
    · rw [same]
      exact enabled.enabled
  have goes (bytestosend count : Int32) (checked : w.Checked bytestosend count) :
      Sending { s with pending := some (w, bytestosend, count) } ∧
        Enabled { s with pending := some (w, bytestosend, count) } := by
    refine ⟨⟨sending.used, sending.sent, sending.ring, sending.near, sending.calls, ?_⟩,
      enabled.copy, enabled.enabled⟩
    rintro _ _ _ ⟨rfl⟩
    exact checked
  have negative_iff : count < 0 ↔ count.toInt < 0 := Int32.lt_iff_toInt_lt
  unfold Sys.rtComWrite
  simp only [sending.used, if_false, room]
  split_ifs with zero negative more le
  · subst zero
    exact returns 0 rfl (by simp [is, Write.fits])
  · have minus := negated proper (negative_iff.mp negative)
    have more_than : w.room < count.toInt.natAbs := by
      have := Int32.lt_iff_toInt_lt.mp more
      omega
    exact returns _ minus (if_pos ⟨negative, more_than⟩)
  · have minus := negated proper (negative_iff.mp negative)
    have fits : w.fits = count.toInt.natAbs := by
      have := Int32.lt_iff_toInt_lt.not.mp more
      rw [Write.fits, if_neg (by simp only [is] at *; omega)]
      simp only [is] at *
      omega
    exact goes _ _ ⟨minus, by rw [minus, fits], there⟩
  · have fits : w.fits = count.toInt.natAbs := by
      have := Int32.le_iff_toInt_le.mp le
      have := negative_iff.not.mp negative
      rw [Write.fits, if_neg (fun both => negative both.1)]
      simp only [is] at *
      omega
    have positive : count.toInt = count.toInt.natAbs := by
      have := negative_iff.not.mp negative
      omega
    exact goes _ _ ⟨positive, by rw [fits, ← positive], there⟩
  · have fits : w.fits = w.room := by
      have := Int32.le_iff_toInt_le.not.mp le
      rw [Write.fits, if_neg (fun both => negative both.1)]
      simp only [is] at *
      omega
    have positive : count.toInt = count.toInt.natAbs := by
      have := negative_iff.not.mp negative
      omega
    exact goes _ _ ⟨positive, by rw [fits, free], there⟩

end Sending

/-! ## Runs -/

/-- A port that has been set up has nothing to send. -/
theorem SetUp.sending (setUp : s.SetUp) : s.Sending ∧ s.Enabled := by
  obtain ⟨used, mode, baud, fifotrig, claimed, positive, rfl⟩ := setUp
  have some : baud ≠ 0 := by
    rintro rfl
    exact Int32.lt_irrefl positive
  have up : (used ||| RT_COM_PORT_SETUP) &&& RT_COM_PORT_SETUP ≠ 0 := by
    rw [or_and_word]
    decide
  have downward : ¬0 > baud := fun negative => Int32.lt_irrefl (Int32.lt_trans positive negative)
  simp only [rtComSetup, claimed, some, downward, if_false]
  exact ⟨⟨up, List.prefix_refl _, .init, size_pos, nofun, nofun⟩, rfl, fun some => absurd rfl some⟩

/-- The calls that do not fill the ring, and whose count has a negative. -/
def Spares (s : Sys) : Event → Prop
  | .write _ count => count ≠ Int32.minValue
  | .copy => ∀ w bytestosend count, s.pending = some (w, bytestosend, count) →
      s.accepted.length - s.sent.length + w.fits < RT_COM_BUF_SIZ
  | _ => True

/-- What is said of a state: the bytes that have been sent are the first of those that the calls
have accepted, the others are in the ring, and the interrupt is enabled for them. -/
structure Sends (s : Sys) : Prop where
  sent : s.sent <+: s.accepted
  unsent : s.port.obuf.contents = s.accepted.drop s.sent.length
  enabled : s.sent ≠ s.accepted → s.ier &&& IER_ETBEI ≠ 0
  accepts : ∀ c ∈ s.calls, (c.count.toInt.natAbs : Int) - c.ret.toInt = c.fits

/-- What is said of a step: a run of the routine that may transmit does so. -/
def Transmits (r : Record Sys Event) : Prop :=
  r.pre.sent <+: r.post.sent ∧ ∀ t ts, r.event = .isr (t :: ts) →
    mayTransmit r.pre.port.mode t.msr = true → t.thre &&& LSR_THRE ≠ 0 →
      r.pre.sent ≠ r.pre.accepted → r.pre.sent.length < r.post.sent.length

theorem Sending.step {e : Event} (sending : s.Sending) (enabled : s.Enabled) (spares : s.Spares e)
    (stepped : step e s = some s') : (s'.Sending ∧ s'.Enabled) ∧ Transmits ⟨s, e, s'⟩ := by
  cases e with
  | write buffer count =>
      simp only [Sys.step] at stepped
      split_ifs at stepped with may
      obtain rfl := Option.some.inj stepped
      have sent : (s.rtComWrite buffer count).sent = s.sent := by
        unfold Sys.rtComWrite
        dsimp only
        split_ifs <;> rfl
      exact ⟨sending.write enabled may.2 spares, sent ▸ List.prefix_refl _, nofun⟩
  | copy =>
      obtain ⟨⟨w, bytestosend, count⟩, pending, rfl⟩ := Option.map_eq_some_iff.mp stepped
      exact ⟨sending.copy (sending.pending _ _ _ pending) (spares _ _ _ pending),
        List.prefix_refl _, nofun⟩
  | read count =>
      cases stepped
      have leaves := Leaves.rtComRead (s := s) count
      exact ⟨⟨leaves.sending sending, leaves.enabled enabled⟩, (leaves.toSent sending).more, nofun⟩
  | error =>
      cases stepped
      exact ⟨⟨Leaves.rtComError.sending sending, Leaves.rtComError.enabled enabled⟩,
        List.prefix_refl _, nofun⟩
  | isr ts =>
      obtain ⟨sent, enabled', grows⟩ := sending.isrLoop enabled stepped
      refine ⟨⟨sent.sending, enabled'⟩, sent.more, fun t ts' same => ?_⟩
      cases same
      exact grows t rfl

theorem Sending.sends (sending : s.Sending) (enabled : s.Enabled) : s.Sends :=
  ⟨sending.sent, sending.contents, enabled.enabled, sending.calls⟩

/-- The output in every run of such calls. -/
theorem output_sent {s₀ : Sys} {tr : List (Record Sys Event)} (setUp : s₀.SetUp)
    (run : Run step Spares s₀ tr s) : s.Sends ∧ ∀ r ∈ tr, Transmits r := by
  have all : (s.Sending ∧ s.Enabled) ∧ ∀ r ∈ tr, Transmits r :=
    run.each (P := fun s => s.Sending ∧ s.Enabled) setUp.sending
      fun ⟨sending, enabled⟩ spares stepped => sending.step enabled spares stepped
  exact ⟨all.1.1.sends all.1.2, all.2⟩

/-- A turn with a transmitter that is ready. -/
def ready : Turn := ⟨[], 0x20, 0, 0x20, 1, nofun, by decide⟩

instance (s : Sys) (e : Event) : Decidable (s.Spares e) :=
  match e with
  | .write .. => inferInstanceAs (Decidable (_ ≠ _))
  | .copy =>
      match pending : s.pending with
      | some (w, _, _) =>
          decidable_of_iff (s.accepted.length - s.sent.length + w.fits < RT_COM_BUF_SIZ)
            ⟨fun less _ _ _ same => by cases pending.symm.trans same; exact less,
              fun all => all _ _ _ pending⟩
      | none => isTrue fun _ _ _ same => nomatch pending.symm.trans same
  | .read _ | .error | .isr _ => isTrue trivial

/-- Three bytes are accepted and sent. -/
theorem output_sent_three : ∃ tr s, Run step Spares com1 tr s ∧ s.sent = [1, 2, 3] ∧
    s.Sends ∧ ∀ r ∈ tr, Transmits r := by
  obtain ⟨tr, s, run, test⟩ := Run.of_execute step Spares com1
    [.write [1, 2, 3] 3, .copy, .write [4, 5] (-2), .isr [ready]] (fun s => s.sent = [1, 2, 3])
    (by decide)
  exact ⟨tr, s, run, of_decide_eq_true test, output_sent com1_setUp run⟩

/-- A call fills the ring, and its bytes are not sent. -/
theorem not_sends : ¬∀ s₀ tr s, s₀.SetUp → Run step (fun _ _ => True) s₀ tr s → s.Sends := by
  intro sends
  obtain ⟨tr, s, run, test⟩ := Run.of_execute step (fun _ _ => True) com1
    [.write (List.replicate 256 7) 256, .copy, .isr [ready]]
    (fun s => s.sent = [] && s.accepted.length = 256 && s.ier &&& IER_ETBEI = 0) (by decide +kernel)
  simp only [Bool.and_eq_true, decide_eq_true_eq] at test
  obtain ⟨⟨nothing, accepted⟩, disabled⟩ := test
  refine (sends com1 tr s com1_setUp run).enabled (fun all => ?_) disabled
  rw [← all, nothing] at accepted
  cases accepted

end Sys

end Rtai.Serial
