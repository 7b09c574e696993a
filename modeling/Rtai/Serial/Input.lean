import Rtai.Serial.Rings

/-!
# What a port receives

The routine writes to the input ring without looking at it, and looks at it behind a turn.  A
ring that has gone round is as empty as one that has been read, and then no error is raised.

What is lost is whole rounds, and the oldest bytes, so the order is kept in any case.
-/

namespace Rtai.Serial

open Function Rtai.Lib

variable {s s' : Sys} {t : Turn} {ts : List Turn} {a b n : Nat}

/-- The bytes of a turn. -/
def Turn.bytes (t : Turn) : List UInt8 := t.line.map Prod.snd

/-- The bytes of a run of the routine. -/
def bytes (ts : List Turn) : List UInt8 := ts.flatMap Turn.bytes

/-- Whether the ring is found nearly full behind one of the turns, with so many bytes before. -/
def Raises : Nat → List Turn → Prop
  | _, [] => False
  | n, t :: ts =>
      RT_COM_BUF_SIZ - (n + t.bytes.length) % RT_COM_BUF_SIZ < RT_COM_BUF_FULL ∨
        Raises (n + t.bytes.length) ts

instance : (n : Nat) → (ts : List Turn) → Decidable (Raises n ts)
  | _, [] => isFalse id
  | n, t :: ts =>
      have := instDecidableRaises (n + t.bytes.length) ts
      inferInstanceAs (Decidable (_ ∨ _))

theorem raises_mod (same : a % RT_COM_BUF_SIZ = b % RT_COM_BUF_SIZ) : Raises a ts ↔ Raises b ts := by
  induction ts generalizing a b with
  | nil => rfl
  | cons t ts ih =>
      have next : (a + t.bytes.length) % RT_COM_BUF_SIZ =
          (b + t.bytes.length) % RT_COM_BUF_SIZ := by
        rw [Nat.add_mod, same, ← Nat.add_mod]
      rw [Raises, Raises, next, ih next]

namespace Sys

/-! ## The output -/

/-- A step leaves the input alone. -/
structure Rests (s s' : Sys) : Prop where
  ibuf : s'.port.ibuf = s.port.ibuf
  received : s'.received = s.received
  delivered : s'.delivered = s.delivered
  raised : s'.raised = s.raised
  cleared : s'.cleared = s.cleared

variable {s'' : Sys}

namespace Rests

theorem refl (s : Sys) : Rests s s := ⟨rfl, rfl, rfl, rfl, rfl⟩

theorem trans (h : Rests s s') (h' : Rests s' s'') : Rests s s'' :=
  ⟨h'.ibuf.trans h.ibuf, h'.received.trans h.received, h'.delivered.trans h.delivered,
    h'.raised.trans h.raised, h'.cleared.trans h.cleared⟩

theorem irqGet {data : UInt8} (got : s.irqGet = some (data, s')) : Rests s s' := by
  obtain ⟨⟨data', obuf⟩, -, same⟩ := Option.map_eq_some_iff.mp got
  cases same
  exact ⟨rfl, rfl, rfl, rfl, rfl⟩

theorem send (toFifo : Nat) (data : UInt8) : Rests s (Sys.send toFifo data s).2.2 := by
  obtain ⟨obuf, sent, eq⟩ := send_eq toFifo data s
  rw [eq]
  exact ⟨rfl, rfl, rfl, rfl, rfl⟩

theorem output (toFifo : Nat) : Rests s (s.output t toFifo).2 := by
  unfold Sys.output
  split_ifs
  · cases got : s.irqGet with
    | none => exact ⟨rfl, rfl, rfl, rfl, rfl⟩
    | some got' =>
        have sent := (irqGet got).trans (send toFifo got'.1)
        simp only
        split_ifs
        · exact sent
        · exact sent.trans ⟨rfl, rfl, rfl, rfl, rfl⟩
  · exact refl s

theorem write (buffer : List UInt8) (count : Int32) : Rests s (s.rtComWrite buffer count) := by
  unfold Sys.rtComWrite
  dsimp only
  split_ifs <;> exact ⟨rfl, rfl, rfl, rfl, rfl⟩

theorem setup (baud : Int32) (mode : UInt32) (fifotrig : Int32) :
    Rests s (rtComSetup baud mode fifotrig s).2 := by
  unfold rtComSetup
  dsimp only
  split_ifs <;> exact ⟨rfl, rfl, rfl, rfl, rfl⟩

theorem lineError (lsr : UInt8) : Rests s (s.lineError lsr) := by
  unfold Sys.lineError
  split_ifs <;> exact ⟨rfl, rfl, rfl, rfl, rfl⟩

theorem clearRts : Rests s s.clearRts := by
  unfold Sys.clearRts
  split_ifs <;> exact ⟨rfl, rfl, rfl, rfl, rfl⟩

end Rests

/-! ## The interrupt routine -/

/-- Bytes have come in. -/
structure Takes (s s' : Sys) (l : List UInt8) : Prop where
  ring : s'.port.ibuf.Keeps s'.received s'.delivered.length
  received : s'.received = s.received ++ l
  delivered : s'.delivered = s.delivered
  cleared : s'.cleared = s.cleared

/-- The input ring has the last bytes that have been received. -/
def Filled (s : Sys) : Prop := s.port.ibuf.Keeps s.received s.delivered.length

theorem Rests.takes (rests : Rests s s') (filled : s.Filled) : Takes s s' [] := by
  refine ⟨?_, by rw [rests.received, List.append_nil], rests.delivered, rests.cleared⟩
  rw [rests.ibuf, rests.received, rests.delivered]
  exact filled

theorem Takes.trans {l l' : List UInt8} (h : Takes s s' l) (h' : Takes s' s'' l') :
    Takes s s'' (l ++ l') :=
  ⟨h'.ring, by rw [h'.received, h.received, List.append_assoc], h'.delivered.trans h.delivered,
    h'.cleared.trans h.cleared⟩

theorem Filled.receives {l : List (UInt8 × UInt8)} (filled : s.Filled) :
    Takes s (l.foldl receive s) (l.map Prod.snd) ∧ (l.foldl receive s).raised = s.raised := by
  induction l generalizing s with
  | nil => exact ⟨(Rests.refl s).takes filled, rfl⟩
  | cons x l ih =>
      have line := Rests.lineError (s := s) x.1
      have ring := (line.takes filled).ring.irqPut (c := x.2)
      have first : Takes s (s.receive x) [x.2] := by
        refine ⟨ring, ?_, line.delivered, line.cleared⟩
        show (s.lineError x.1).received ++ [x.2] = _
        rw [line.received]
      obtain ⟨rest, raised⟩ := ih first.ring
      exact ⟨first.trans rest, raised.trans line.raised⟩

/-- The error is raised in a turn when the ring is found nearly full. -/
theorem Filled.input (filled : s.Filled) : Takes s (s.input t) t.bytes ∧
    (s.input t).raised = s.raised + if RT_COM_BUF_SIZ -
      (s.received.length - s.delivered.length + t.bytes.length) % RT_COM_BUF_SIZ <
        RT_COM_BUF_FULL then 1 else 0 := by
  obtain ⟨takes, raised⟩ := filled.receives (l := t.line)
  have line := Rests.lineError (s := t.line.foldl receive s) t.lsr
  have read : Takes s (s.readLine t) t.bytes := by
    simpa [Turn.bytes, Sys.readLine] using takes.trans (line.takes takes.ring)
  have le := filled.le
  have free : (s.readLine t).buff = RT_COM_BUF_SIZ -
      (s.received.length - s.delivered.length + t.bytes.length) % RT_COM_BUF_SIZ := by
    rw [Sys.buff, read.ring.free, read.ring.used, read.received, read.delivered,
      List.length_append, Nat.sub_add_comm le]
  have checked : Takes s (s.readLine t).checkFull t.bytes ∧
      (s.readLine t).checkFull.raised =
        s.raised + if (s.readLine t).buff < RT_COM_BUF_FULL then 1 else 0 := by
    unfold Sys.checkFull
    split_ifs
    · exact ⟨⟨read.ring, read.received, read.delivered, read.cleared⟩,
        congrArg (· + 1) (line.raised.trans raised)⟩
    · exact ⟨read, line.raised.trans raised⟩
  have last := Rests.clearRts (s := (s.readLine t).checkFull)
  refine ⟨?_, ?_⟩
  · simpa [Sys.input] using checked.1.trans (last.takes checked.1.ring)
  · rw [← free]
    exact last.raised.trans checked.2

theorem Filled.isrLoop {loop toFifo : Nat} (filled : s.Filled)
    (ran : Sys.isrLoop ts loop toFifo s = some s') :
    Takes s s' (bytes ts) ∧ s.raised ≤ s'.raised ∧
      (s.raised < s'.raised ↔ Raises (s.received.length - s.delivered.length) ts) := by
  induction ts generalizing loop toFifo s with
  | nil => cases ran
  | cons t ts ih =>
      obtain ⟨takes, raised⟩ := filled.input (t := t)
      have rests := Rests.output (s := s.input t) (t := t) toFifo
      have turn : Takes s ((s.input t).output t toFifo).2 t.bytes := by
        simpa using takes.trans (rests.takes takes.ring)
      have same : ((s.input t).output t toFifo).2.received.length -
          ((s.input t).output t toFifo).2.delivered.length =
            s.received.length - s.delivered.length + t.bytes.length := by
        have := filled.le
        rw [turn.received, turn.delivered, List.length_append]
        omega
      have raised' := rests.raised.trans raised
      have le : s.raised ≤ ((s.input t).output t toFifo).2.raised := by
        rw [raised']
        exact Nat.le_add_right _ _
      unfold Sys.isrLoop at ran
      dsimp only at ran
      split_ifs at ran with more last
      · obtain ⟨rest, le', iff⟩ := ih turn.ring ran
        rw [same] at iff
        refine ⟨turn.trans rest, le.trans le', ?_⟩
        rw [Raises, ← iff]
        split_ifs at raised' <;> omega
      · obtain rfl := Option.some.inj ran
        rw [List.isEmpty_iff.mp last]
        refine ⟨by simpa [bytes] using turn, le, ?_⟩
        rw [Raises, Raises, or_false]
        split_ifs at raised' <;> omega

/-! ## Runs -/

/-- The bytes that have been received and are neither delivered nor in the ring. -/
def missing (s : Sys) : Nat :=
  s.received.length - (s.delivered.length + s.port.ibuf.contents.length)

/-- The routine comes before the ring has gone round, or it goes round once and is found nearly
full; and the error is asked for when nothing is missing. -/
def Reports (s : Sys) : Event → Prop
  | .isr ts =>
      let n := s.port.ibuf.contents.length + (bytes ts).length
      n < RT_COM_BUF_SIZ ∨ n < 2 * RT_COM_BUF_SIZ ∧ Raises s.port.ibuf.contents.length ts
  | .error => s.missing = 0
  | _ => True

/-- What is said of a state: without an error, what has been delivered and what is in the ring
is what has been received, and in any case it is so in this order. -/
structure Delivers (s : Sys) : Prop where
  whole : s.raised = s.cleared → s.delivered ++ s.port.ibuf.contents = s.received
  order : (s.delivered ++ s.port.ibuf.contents).Sublist s.received

/-- What is said of a step: only a run of the routine drops bytes, which are the oldest, no more
than those of a ring, and it raises the error. -/
structure Drops (r : Record Sys Event) : Prop where
  isr : ∀ ts, r.event = .isr ts → r.post.delivered = r.pre.delivered ∧
    r.post.received = r.pre.received ++ bytes ts ∧
    ∃ lost ≤ RT_COM_BUF_SIZ,
      r.post.port.ibuf.contents = (r.pre.port.ibuf.contents ++ bytes ts).drop lost ∧
      (0 < lost → r.pre.raised < r.post.raised)
  others : (∀ ts, r.event ≠ .isr ts) → r.post.received = r.pre.received ∧
    r.post.delivered ++ r.post.port.ibuf.contents = r.pre.delivered ++ r.pre.port.ibuf.contents

/-- The delivered bytes are from in front of those in the ring. -/
structure Reading (s : Sys) : Prop where
  filled : s.Filled
  order : s.delivered.Sublist (s.received.take (s.received.length - s.port.ibuf.used))
  le : s.cleared ≤ s.raised
  whole : s.raised = s.cleared → s.missing = 0

namespace Reading

theorem contents (reading : s.Reading) : s.port.ibuf.contents =
    s.received.drop (s.received.length - s.port.ibuf.used) := Buf.Keeps.contents reading.filled

theorem missing_eq (reading : s.Reading) :
    s.missing + s.port.ibuf.used + s.delivered.length = s.received.length := by
  have := Buf.Keeps.used_le reading.filled
  rw [missing, Buf.contents_length]
  omega

theorem delivers (reading : s.Reading) : s.Delivers := by
  have split := List.take_append_drop (s.received.length - s.port.ibuf.used) s.received
  refine ⟨fun clean => ?_, ?_⟩
  · have none := reading.whole clean
    have sum := reading.missing_eq
    have all : s.delivered = s.received.take (s.received.length - s.port.ibuf.used) := by
      refine reading.order.eq_of_length ?_
      rw [List.length_take]
      omega
    rw [reading.contents]
    conv_lhs => rw [all]
    exact split
  · rw [reading.contents]
    conv_rhs => rw [← split]
    exact reading.order.append (List.Sublist.refl _)

/-- The output goes on. -/
theorem rests (reading : s.Reading) (rests : Rests s s') : s'.Reading ∧
    s'.received = s.received ∧ s'.delivered ++ s'.port.ibuf.contents =
      s.delivered ++ s.port.ibuf.contents := by
  refine ⟨⟨?_, ?_, ?_, ?_⟩, rests.received, by rw [rests.delivered, rests.ibuf]⟩
  · rw [Filled, rests.ibuf, rests.received, rests.delivered]
    exact reading.filled
  · rw [rests.delivered, rests.received, rests.ibuf]
    exact reading.order
  · rw [rests.cleared, rests.raised]
    exact reading.le
  · rw [missing, rests.cleared, rests.raised, rests.received, rests.delivered, rests.ibuf]
    exact reading.whole

theorem init (setUp : s.SetUp) : s.Reading := by
  obtain ⟨used, mode, baud, fifotrig, -, -, rfl⟩ := setUp
  have loaded : Reading { port := { used } } :=
    ⟨.init, List.nil_sublist _, Nat.le_refl 0, fun _ => Nat.zero_sub _⟩
  exact (loaded.rests (.setup baud mode fifotrig)).1

/-- A run of the routine. -/
theorem isr (reading : s.Reading) (reports : s.Reports (.isr ts))
    (ran : s.rtComIsr ts = some s') : s'.Reading ∧ Drops ⟨s, .isr ts, s'⟩ := by
  obtain ⟨takes, le, iff⟩ := reading.filled.isrLoop ran
  have used := Buf.Keeps.used reading.filled
  have used' := Buf.Keeps.used takes.ring
  have before := Buf.Keeps.used_le reading.filled
  have behind := Buf.Keeps.used_le takes.ring
  have small := s.port.ibuf.used_lt
  have small' := s'.port.ibuf.used_lt
  have length : s'.received.length = s.received.length + (bytes ts).length := by
    rw [takes.received, List.length_append]
  -- The indices have gone round so often.
  have round : s'.port.ibuf.used = (s.port.ibuf.used + (bytes ts).length) % RT_COM_BUF_SIZ := by
    have := reading.filled.le
    rw [used', used, takes.delivered, length, Nat.mod_add_mod, Nat.sub_add_comm this]
  have same : Raises (s.received.length - s.delivered.length) ts ↔
      Raises s.port.ibuf.used ts := by
    refine raises_mod ?_
    rw [used, Nat.mod_mod]
  rw [same] at iff
  simp only [Reports, Buf.contents_length] at reports
  have lost : s'.port.ibuf.used ≤ s.port.ibuf.used + (bytes ts).length ∧
      s.port.ibuf.used + (bytes ts).length - s'.port.ibuf.used ≤ RT_COM_BUF_SIZ ∧
      (s'.port.ibuf.used < s.port.ibuf.used + (bytes ts).length → s.raised < s'.raised) := by
    rw [round]
    rcases reports with less | ⟨less, raises⟩
    · rw [Nat.mod_eq_of_lt less]
      exact ⟨Nat.le_refl _, by omega, fun less => absurd less (Nat.lt_irrefl _)⟩
    · refine ⟨Nat.mod_le _ _, ?_, fun _ => iff.mpr raises⟩
      have := Nat.mod_add_div (s.port.ibuf.used + (bytes ts).length) RT_COM_BUF_SIZ
      have := Nat.div_lt_of_lt_mul (Nat.mul_comm _ _ ▸ less)
      have := Nat.mul_le_mul_left RT_COM_BUF_SIZ (Nat.le_of_lt_succ this)
      omega
  refine ⟨⟨takes.ring, ?_, ?_, fun clean => ?_⟩, ?_, fun other => absurd rfl (other ts)⟩
  · rw [takes.delivered]
    refine reading.order.trans (List.IsPrefix.sublist ?_)
    have start : s.received.take (s.received.length - s.port.ibuf.used) =
        s'.received.take (s.received.length - s.port.ibuf.used) := by
      rw [takes.received, List.take_append_of_le_length (by omega)]
    rw [start]
    exact List.take_prefix_take_left (by omega)
  · rw [takes.cleared]
    exact reading.le.trans le
  · have still : s.raised = s.cleared := by
      have := reading.le
      rw [takes.cleared] at clean
      omega
    have none := reading.whole still
    have quiet : ¬s.raised < s'.raised := by
      rw [takes.cleared] at clean
      omega
    have all := not_imp_not.mpr lost.2.2 quiet
    rw [missing, Buf.contents_length] at none ⊢
    rw [takes.delivered]
    omega
  · rintro _ ⟨rfl⟩
    refine ⟨takes.delivered, takes.received,
      s.port.ibuf.used + (bytes ts).length - s'.port.ibuf.used, lost.2.1, ?_, fun some => ?_⟩
    · rw [Buf.Keeps.contents takes.ring, reading.contents, takes.received,
        ← List.drop_append_of_le_length (by omega), List.drop_drop, List.length_append]
      congr 1
      omega
    · exact lost.2.2 (by omega)

/-- A call of `rt_com_read`. -/
theorem read (reading : s.Reading) (count : Int32) :
    (s.rtComRead count).2.Reading ∧ Drops ⟨s, .read count, (s.rtComRead count).2⟩ := by
  unfold rtComRead
  split_ifs
  · exact ⟨reading, nofun, fun _ => ⟨rfl, rfl⟩⟩
  · exact ⟨reading, nofun, fun _ => ⟨rfl, rfl⟩⟩
  · obtain ⟨ring, bytes, left⟩ := Buf.Keeps.read reading.filled count.toInt.toNat
    have whole : (s.port.ibuf.read count.toInt.toNat).1 ++
        (s.port.ibuf.read count.toInt.toNat).2.contents = s.port.ibuf.contents := by
      rw [bytes, left, List.take_append_drop]
    have lengths := congrArg List.length whole
    rw [List.length_append, Buf.contents_length, Buf.contents_length] at lengths
    have before := Buf.Keeps.used_le reading.filled
    refine ⟨⟨?_, ?_, reading.le, fun clean => ?_⟩, nofun, fun _ => ⟨rfl, ?_⟩⟩
    · show Buf.Keeps _ s.received (s.delivered ++ _).length
      rw [List.length_append]
      exact ring
    · show (s.delivered ++ _).Sublist (s.received.take (s.received.length - Buf.used _))
      have further : s.received.length - (s.port.ibuf.read count.toInt.toNat).2.used =
          s.received.length - s.port.ibuf.used +
            (s.port.ibuf.read count.toInt.toNat).1.length := by omega
      rw [further, List.take_add, ← reading.contents]
      refine reading.order.append ?_
      conv_rhs => rw [← whole]
      rw [List.take_left]
    · have none := reading.whole clean
      rw [missing, Buf.contents_length] at none ⊢
      show s.received.length -
        ((s.delivered ++ _).length + (s.port.ibuf.read count.toInt.toNat).2.used) = 0
      rw [List.length_append]
      omega
    · show s.delivered ++ _ ++ _ = _
      rw [List.append_assoc, whole]

theorem step {e : Event} (reading : s.Reading) (reports : s.Reports e)
    (stepped : step e s = some s') : s'.Reading ∧ Drops ⟨s, e, s'⟩ := by
  cases e with
  | write buffer count =>
      simp only [Sys.step] at stepped
      split_ifs at stepped
      obtain rfl := Option.some.inj stepped
      obtain ⟨reading', same⟩ := reading.rests (Rests.write buffer count)
      exact ⟨reading', nofun, fun _ => same⟩
  | copy =>
      obtain ⟨⟨w, bytestosend, count⟩, -, rfl⟩ := Option.map_eq_some_iff.mp stepped
      have copies : Rests s (s.copy w bytestosend count) := ⟨rfl, rfl, rfl, rfl, rfl⟩
      obtain ⟨reading', same⟩ := reading.rests copies
      exact ⟨reading', nofun, fun _ => same⟩
  | read count =>
      cases stepped
      exact reading.read count
  | error =>
      cases stepped
      exact ⟨⟨reading.filled, reading.order, Nat.le_refl _, fun _ => reports⟩, nofun,
        fun _ => ⟨rfl, rfl⟩⟩
  | isr ts => exact reading.isr reports stepped

end Reading

/-- The input in every run of such calls. -/
theorem input_delivered {s₀ : Sys} {tr : List (Record Sys Event)} (setUp : s₀.SetUp)
    (run : Run step Reports s₀ tr s) : s.Delivers ∧ ∀ r ∈ tr, Drops r := by
  have all : s.Reading ∧ ∀ r ∈ tr, Drops r :=
    run.each (.init setUp) fun reading reports stepped => reading.step reports stepped
  exact ⟨all.1.delivers, all.2⟩

/-- A turn in which the line has bytes. -/
def incoming (n : Nat) : Turn where
  line := List.replicate n (LSR_DATA_READY, 7)
  lsr := LSR_THRE
  msr := 0
  thre := 0
  iir := 1
  ready x mem := by
    rw [List.eq_of_mem_replicate mem]
    decide
  idle := by decide

instance (s : Sys) (e : Event) : Decidable (s.Reports e) :=
  match e with
  | .isr _ => inferInstanceAs (Decidable (_ ∨ _ ∧ _))
  | .error => inferInstanceAs (Decidable (_ = _))
  | .write .. | .copy | .read _ => isTrue trivial

/-- Three bytes are received, and two of them delivered. -/
theorem input_delivered_two : ∃ tr s, Run step Reports com1 tr s ∧ s.delivered = [7, 7] ∧
    s.Delivers ∧ ∀ r ∈ tr, Drops r := by
  obtain ⟨tr, s, run, test⟩ := Run.of_execute step Reports com1
    [.isr [incoming 3], .error, .read 2] (fun s => s.delivered = [7, 7]) (by decide)
  exact ⟨tr, s, run, of_decide_eq_true test, input_delivered com1_setUp run⟩

/-- The error has been asked for on a ring with 240 bytes, and 16 more make it empty. -/
theorem not_delivers :
    ¬∀ s₀ tr s, s₀.SetUp → Run step (fun _ _ => True) s₀ tr s → s.Delivers := by
  intro delivers
  obtain ⟨tr, s, run, test⟩ := Run.of_execute step (fun _ _ => True) com1
    (List.replicate 15 (.isr [incoming 16]) ++ [.error, .isr [incoming 16]])
    (fun s => s.raised = s.cleared && s.delivered = [] && s.port.ibuf.contents = [] &&
      s.received.length = 256) (by decide +kernel)
  simp only [Bool.and_eq_true, decide_eq_true_eq] at test
  obtain ⟨⟨⟨quiet, nothing⟩, empty⟩, received⟩ := test
  have whole := (delivers com1 tr s com1_setUp run).whole quiet
  rw [nothing, empty] at whole
  rw [← whole] at received
  cases received

end Sys

end Rtai.Serial
