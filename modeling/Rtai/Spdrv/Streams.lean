import Rtai.Spdrv.Rings
import Rtai.Lib.Run

/-!
# Byte streams

What `rt_spwrite` accepts is sent, and what is received and not dropped is delivered, both in
order, whatever the calls and the interrupt routine do in between.  That a byte has been dropped
is not always reported: the routine ends by overwriting the error word when the buffer is nearly
full, and `rt_spget_err` resets it after it has read it.
-/

namespace Rtai.Spdrv

open Rtai.Lib

variable {cfg : Config} {p : Port}

/-- The routine is between its dealings with the rings. -/
def IsrPc.plain : IsrPc → Bool
  | .getCount _ | .getMove _ | .txb _ | .putCount _ | .putMove => false
  | _ => true

theorem dispatch_plain (first : Bool) (iir : UInt8) : (Port.dispatch first iir).plain = true := by
  unfold Port.dispatch Port.branch
  split_ifs <;> rfl

theorem plain_ite {c : Prop} [Decidable c] {a b : IsrPc} (ha : a.plain = true) (hb : b.plain = true) :
    (if c then a else b).plain = true := by
  split_ifs
  · exact ha
  · exact hb

structure Sound (cfg : Config) (p : Port) : Prop where
  out : ∃ q, OutRing cfg p.obuf p.isr.outLag p.isr.loaded p.isr.inHand p.writer p.writes p.sent q
  inp : ∃ q, InRing cfg p.ibuf p.isr.inLag p.isr.fresh p.reader p.received p.reads q
  reads : ∀ f ∈ p.reads, ∃ more, f.Serves (kept p.received) more
  peeks : ∀ f ∈ p.peeks, f.Serves (kept p.received) 0

namespace Sound

theorem init (pos : 0 < cfg.spbufsiz) : Sound cfg (rtSpopen cfg) where
  out := ⟨[], OutRing.init pos⟩
  inp := ⟨[], InRing.init pos⟩
  reads := List.forall_mem_nil _
  peeks := List.forall_mem_nil _

theorem of_plain (plain : p.isr.plain = true)
    (out : ∃ q, OutRing cfg p.obuf 0 none [] p.writer p.writes p.sent q)
    (inp : ∃ q, InRing cfg p.ibuf 0 [] p.reader p.received p.reads q)
    (reads : ∀ f ∈ p.reads, ∃ more, f.Serves (kept p.received) more)
    (peeks : ∀ f ∈ p.peeks, f.Serves (kept p.received) 0) : Sound cfg p := by
  have same : p.isr.outLag = 0 ∧ p.isr.loaded = none ∧ p.isr.inHand = [] ∧ p.isr.inLag = 0 ∧
      p.isr.fresh = [] := by
    cases here : p.isr <;> first
      | exact ⟨rfl, rfl, rfl, rfl, rfl⟩
      | rw [here] at plain; cases plain
  obtain ⟨outLag, loaded, inHand, inLag, fresh⟩ := same
  refine ⟨?_, ?_, reads, peeks⟩
  · rw [outLag, loaded, inHand]
    exact out
  · rw [inLag, fresh]
    exact inp

/-! ## The writer -/

variable (sound : Sound cfg p)
include sound

theorem rtSpwrite (idle : p.writer.pc = .idle) (msg : Nat → UInt8) (size : Int32) :
    Sound cfg (p.rtSpwrite msg size) := by
  obtain ⟨⟨q, out⟩, inp, reads, peeks⟩ := sound
  unfold Port.rtSpwrite
  split_ifs
  · exact ⟨⟨q, out.call idle msg size⟩, inp, reads, peeks⟩
  · exact ⟨⟨q, out.refuse msg size⟩, inp, reads, peeks⟩

theorem write : Sound cfg (p.write cfg).1 := by
  have whole := sound
  obtain ⟨⟨q, out⟩, inp, reads, peeks⟩ := sound
  unfold Port.write
  dsimp only
  split
  next => exact whole
  next here => exact ⟨⟨q, out.test here⟩, inp, reads, peeks⟩
  next here => exact ⟨⟨q, out.limit here⟩, inp, reads, peeks⟩
  next n here => exact ⟨⟨q, out.copy here⟩, inp, reads, peeks⟩
  next n here => exact ⟨⟨_, out.counted here⟩, inp, reads, peeks⟩
  next n here => exact ⟨⟨q, out.move here⟩, inp, reads, peeks⟩
  next here =>
    have busy : p.writer.pc ≠ .idle := by rw [here]; exact WriterPc.noConfusion
    refine ⟨⟨q, out.goTo (.out _) busy ?_ ?_ trivial⟩, inp, reads, peeks⟩
    · rw [Writer.lag, Writer.lag, here]
    · rw [Writer.staged, Writer.staged, here]
  next ier here => exact ⟨⟨q, out.return_ here⟩, inp, reads, peeks⟩

/-! ## The reader -/

theorem rtSpread (idle : p.reader.pc = .idle) (size : Int32) : Sound cfg (p.rtSpread size) := by
  obtain ⟨out, ⟨q, inp⟩, reads, peeks⟩ := sound
  unfold Port.rtSpread Port.fetches
  dsimp only
  split_ifs with asked
  · simp only [Option.toList, List.append_nil]
    exact ⟨out, ⟨q, inp.call idle asked .test (.inl rfl)⟩, reads, peeks⟩
  · refine ⟨out, ⟨q, inp.refuse _ rfl⟩, List.forall_mem_append.mpr ⟨reads, ?_⟩, peeks⟩
    exact List.forall_mem_singleton.mpr ⟨0, inp.refused idle asked⟩

theorem rtSpevdrp (idle : p.reader.pc = .idle) (size : Int32) : Sound cfg (p.rtSpevdrp size) := by
  obtain ⟨out, ⟨q, inp⟩, reads, peeks⟩ := sound
  unfold Port.rtSpevdrp Port.fetches
  dsimp only
  split_ifs with asked
  · simp only [Option.toList, List.append_nil]
    exact ⟨out, ⟨q, inp.call idle asked .snapshot (.inr rfl)⟩, reads, peeks⟩
  · refine ⟨out, ⟨q, inp⟩, reads, List.forall_mem_append.mpr ⟨peeks, ?_⟩⟩
    exact List.forall_mem_singleton.mpr (inp.refused idle asked)

theorem read : Sound cfg (p.read cfg).1 := by
  have whole := sound
  obtain ⟨out, ⟨q, inp⟩, reads, peeks⟩ := sound
  unfold Port.read
  dsimp only
  split
  next => exact whole
  next here => exact ⟨out, ⟨q, inp.test here⟩, reads, peeks⟩
  next here => exact ⟨out, ⟨q, inp.limit here⟩, reads, peeks⟩
  next n here => exact ⟨out, ⟨q, inp.copy here⟩, reads, peeks⟩
  next b here => exact ⟨out, inp.counted here, reads, peeks⟩
  next n here => exact ⟨out, ⟨q, inp.move here⟩, reads, peeks⟩
  next here =>
    obtain ⟨inp', serves⟩ := inp.return_ here
    have reads' : ∀ f ∈ p.reads ++ [p.fetch], ∃ more, f.Serves (kept p.received) more :=
      List.forall_mem_append.mpr ⟨reads, List.forall_mem_singleton.mpr serves⟩
    split_ifs
    · exact ⟨out, ⟨q, inp'⟩, reads', peeks⟩
    · exact ⟨out, ⟨q, inp'⟩, reads', peeks⟩
  next here => exact ⟨out, ⟨q, inp.snapshot here⟩, reads, peeks⟩
  next fbyte avbs here =>
    split_ifs with more
    · exact ⟨out, ⟨q, inp.peek here more rfl⟩, reads, peeks⟩
    · obtain ⟨inp', serves⟩ := inp.peeked here more
      exact ⟨out, ⟨q, inp'⟩, reads,
        List.forall_mem_append.mpr ⟨peeks, List.forall_mem_singleton.mpr serves⟩⟩

/-! ## The interrupt routine -/

theorem service (v : UInt8) : Sound cfg (p.service cfg v).1 := by
  have whole := sound
  obtain ⟨out, inp, reads, peeks⟩ := sound
  unfold Port.service Port.dropRts
  dsimp only
  split
  next => exact whole
  next first here =>
    rw [here] at out inp
    exact .of_plain (dispatch_plain first v) out inp reads peeks
  next here =>
    rw [here] at out inp
    exact .of_plain rfl out inp reads peeks
  next here =>
    rw [here] at out inp
    exact .of_plain rfl out inp reads peeks
  next c here =>
    rw [here] at out inp
    obtain ⟨q, inp⟩ := inp
    split_ifs with room
    · have longer : kept p.received <+: kept (p.received ++ [(c, true)]) := by
        rw [kept, kept, List.filter_append, List.map_append]
        exact List.prefix_append _ _
      refine ⟨out, ⟨q, inp.put room c⟩, fun f mem => ?_, fun f mem => (peeks f mem).mono longer⟩
      obtain ⟨more, serves⟩ := reads f mem
      exact ⟨more, serves.mono longer⟩
    · have same : kept (p.received ++ [(c, false)]) = kept p.received := by
        rw [kept, kept, List.filter_append, List.map_append]
        exact List.append_nil _
      refine .of_plain rfl out ⟨q, inp.drop c⟩ ?_ ?_
      · exact same ▸ reads
      · exact same ▸ peeks
  next c here =>
    rw [here] at out inp
    obtain ⟨q, inp⟩ := inp
    exact ⟨out, ⟨_, inp.count⟩, reads, peeks⟩
  next here =>
    rw [here] at out inp
    obtain ⟨q, inp⟩ := inp
    exact .of_plain rfl out ⟨q, inp.settle⟩ reads peeks
  next here =>
    rw [here] at out inp
    exact .of_plain rfl out inp reads peeks
  next here =>
    rw [here] at out inp
    exact .of_plain (plain_ite rfl rfl) out inp reads peeks
  next here =>
    rw [here] at out inp
    split_ifs
    · exact .of_plain rfl out inp reads peeks
    · exact .of_plain rfl out inp reads peeks
  next here =>
    rw [here] at out inp
    split_ifs
    · exact .of_plain rfl out inp reads peeks
    · exact .of_plain rfl out inp reads peeks
  next here =>
    rw [here] at out inp
    exact .of_plain (plain_ite rfl rfl) out inp reads peeks
  next here =>
    rw [here] at out inp
    obtain ⟨q, out⟩ := out
    split_ifs with some
    · exact ⟨⟨q, out.load some⟩, inp, reads, peeks⟩
    · exact .of_plain rfl ⟨q, out⟩ inp reads peeks
  next c here =>
    rw [here] at out inp
    obtain ⟨q, out⟩ := out
    exact ⟨out.take, inp, reads, peeks⟩
  next c here =>
    rw [here] at out inp
    obtain ⟨q, out⟩ := out
    exact ⟨⟨q, out.settle⟩, inp, reads, peeks⟩
  next c here =>
    rw [here] at out inp
    obtain ⟨q, out⟩ := out
    exact .of_plain (plain_ite rfl rfl) ⟨q, out.send⟩ inp reads peeks
  next here =>
    rw [here] at out inp
    exact .of_plain rfl out inp reads peeks
  next ier here =>
    rw [here] at out inp
    exact .of_plain rfl out inp reads peeks
  next here =>
    rw [here] at out inp
    exact .of_plain rfl out inp reads peeks
  next here =>
    rw [here] at out inp
    split_ifs
    · exact .of_plain rfl out inp reads peeks
    · exact .of_plain rfl out inp reads peeks
  next here =>
    rw [here] at out inp
    split_ifs
    · exact .of_plain rfl out inp reads peeks
    · exact .of_plain rfl out inp reads peeks

variable {e : Event} {p' : Port}

theorem step (stepped : step cfg e p = some p') : Sound cfg p' := by
  obtain ⟨⟨p', out⟩, goes, rfl⟩ := Option.map_eq_some_iff.mp stepped
  cases e with
  | rtSpwrite msg size =>
      obtain ⟨idle, here⟩ := Option.ite_none_right_eq_some.mp goes
      cases here
      exact sound.rtSpwrite idle msg size
  | write =>
      obtain ⟨-, here⟩ := Option.ite_none_left_eq_some.mp goes
      rw [← Option.some.inj here]
      exact sound.write
  | rtSpread size =>
      obtain ⟨idle, here⟩ := Option.ite_none_right_eq_some.mp goes
      cases here
      exact sound.rtSpread idle size
  | rtSpevdrp size =>
      obtain ⟨idle, here⟩ := Option.ite_none_right_eq_some.mp goes
      cases here
      exact sound.rtSpevdrp idle size
  | read =>
      obtain ⟨-, here⟩ := Option.ite_none_left_eq_some.mp goes
      rw [← Option.some.inj here]
      exact sound.read
  | rtSpgetErr =>
      obtain ⟨-, here⟩ := Option.ite_none_right_eq_some.mp goes
      cases here
      exact ⟨sound.out, sound.inp, sound.reads, sound.peeks⟩
  | getErr =>
      obtain ⟨-, here⟩ := Option.ite_none_left_eq_some.mp goes
      cases here
      exact ⟨sound.out, sound.inp, sound.reads, sound.peeks⟩
  | interrupt =>
      obtain ⟨idle, here⟩ := Option.ite_none_right_eq_some.mp goes
      cases here
      obtain ⟨out, inp, reads, peeks⟩ := sound
      rw [idle] at out inp
      exact .of_plain rfl out inp reads peeks
  | service v =>
      obtain ⟨-, here⟩ := Option.ite_none_left_eq_some.mp goes
      rw [← Option.some.inj here]
      exact sound.service v

end Sound

/-! ## The error word -/

/-- A byte that has been dropped since the error word was read is in it. -/
def Noted (p : Port) : Prop := p.dropped = true → p.error &&& RT_SP_BUFFER_OVF ≠ 0

theorem or_and (a b c : UInt32) : (a ||| b) &&& c = a &&& c ||| b &&& c :=
  UInt32.toBitVec_inj.mp BitVec.and_or_distrib_right

theorem or_and_self (a c : UInt32) : (a ||| c) &&& c = c := by
  refine UInt32.toBitVec_inj.mp (BitVec.eq_of_getElem_eq fun i hi => ?_)
  simp only [UInt32.toBitVec_and, UInt32.toBitVec_or, BitVec.getElem_and, BitVec.getElem_or]
  exact Bool.and_eq_right_iff_imp.mpr (by simp +contextual)

theorem lineErrors_ovf (lsr : UInt8) (error : UInt32) :
    Port.lineErrors lsr error &&& RT_SP_BUFFER_OVF = error &&& RT_SP_BUFFER_OVF := by
  unfold Port.lineErrors
  split_ifs
  · have none : (lsr &&& 0x1e).toUInt32 &&& RT_SP_BUFFER_OVF = 0 := by
      rw [UInt8.toUInt32_and, UInt32.and_assoc]
      exact UInt32.and_zero
    have same : error &&& ~~~0x1e &&& RT_SP_BUFFER_OVF = error &&& RT_SP_BUFFER_OVF := by
      rw [UInt32.and_assoc]
      rfl
    rw [or_and, same, none, UInt32.or_zero]
  · rfl

variable {e : Event} {p' : Port}

/-- The calls that write and read leave the error word alone, and receive nothing. -/
def Event.calls : Event → Bool
  | .rtSpwrite .. | .write | .rtSpread _ | .rtSpevdrp _ | .read => true
  | _ => false

theorem calls_frame (calls : e.calls = true) (stepped : step cfg e p = some p') :
    p'.error = p.error ∧ p'.dropped = p.dropped ∧ p'.received = p.received ∧ p'.sent = p.sent := by
  obtain ⟨⟨p', out⟩, goes, rfl⟩ := Option.map_eq_some_iff.mp stepped
  cases e with
  | rtSpwrite msg size =>
      obtain ⟨-, here⟩ := Option.ite_none_right_eq_some.mp goes
      cases here
      unfold Port.rtSpwrite
      split_ifs <;> exact ⟨rfl, rfl, rfl, rfl⟩
  | write =>
      obtain ⟨-, here⟩ := Option.ite_none_left_eq_some.mp goes
      rw [← Option.some.inj here]
      unfold Port.write
      dsimp only
      split <;> exact ⟨rfl, rfl, rfl, rfl⟩
  | rtSpread size | rtSpevdrp size =>
      obtain ⟨-, here⟩ := Option.ite_none_right_eq_some.mp goes
      cases here
      simp only [Port.rtSpread, Port.rtSpevdrp, Port.fetches]
      split_ifs <;> exact ⟨rfl, rfl, rfl, rfl⟩
  | read =>
      obtain ⟨-, here⟩ := Option.ite_none_left_eq_some.mp goes
      rw [← Option.some.inj here]
      unfold Port.read
      dsimp only
      split <;> try split_ifs
      all_goals exact ⟨rfl, rfl, rfl, rfl⟩
  | rtSpgetErr | getErr | interrupt | service => cases calls

/-- No byte that has been dropped is forgotten: the routine does not end with a buffer that is
nearly full before it has been reported, and none is dropped within `rt_spget_err`. -/
def Reports (cfg : Config) (p : Port) : Event → Prop
  | .service _ => p.isr = .full → p.ibuf.frbs < cfg.spbufull → p.dropped = false
  | .getErr => p.dropped = false
  | _ => True

theorem Noted.of_same (noted : Noted p) {p' : Port} (dropped : p'.dropped = p.dropped)
    (same : p'.error &&& RT_SP_BUFFER_OVF = p.error &&& RT_SP_BUFFER_OVF) : Noted p' := by
  intro since
  rw [same]
  exact noted (dropped.symm.trans since)

theorem Noted.service (noted : Noted p) (v : UInt8) (reports : Reports cfg p (.service v)) :
    Noted (p.service cfg v).1 := by
  unfold Port.service Port.dropRts
  dsimp only
  split
  case h_3 => exact noted.of_same rfl (lineErrors_ovf v p.error)
  case h_8 =>
    intro _
    show (p.error ||| RT_SP_BUFFER_OVF) &&& RT_SP_BUFFER_OVF ≠ 0
    rw [or_and_self]
    decide
  case h_9 => exact noted.of_same rfl (lineErrors_ovf v p.error)
  case h_10 =>
    split_ifs
    · refine noted.of_same rfl ?_
      show (p.error ||| RT_SP_BUFFER_FULL) &&& RT_SP_BUFFER_OVF = _
      rw [or_and]
      exact UInt32.or_zero
    · exact noted
  case h_20 here =>
    split_ifs with nearly
    · intro since
      exact absurd (reports here nearly) (by rw [show p.dropped = true from since]; decide)
    · exact noted
  all_goals first
    | exact noted
    | split_ifs <;> exact noted

theorem Noted.step (noted : Noted p) (reports : Reports cfg p e)
    (stepped : Spdrv.step cfg e p = some p') : Noted p' := by
  by_cases calls : e.calls = true
  · obtain ⟨error, dropped, -⟩ := calls_frame calls stepped
    exact noted.of_same dropped (by rw [error])
  obtain ⟨⟨p', out⟩, goes, rfl⟩ := Option.map_eq_some_iff.mp stepped
  cases e with
  | rtSpgetErr =>
      obtain ⟨-, here⟩ := Option.ite_none_right_eq_some.mp goes
      cases here
      exact fun since => nomatch since
  | getErr =>
      obtain ⟨-, here⟩ := Option.ite_none_left_eq_some.mp goes
      cases here
      exact fun since => nomatch (show p.dropped = false from reports).symm.trans since
  | interrupt =>
      obtain ⟨-, here⟩ := Option.ite_none_right_eq_some.mp goes
      cases here
      exact noted
  | service v =>
      obtain ⟨-, here⟩ := Option.ite_none_left_eq_some.mp goes
      rw [← Option.some.inj here]
      exact noted.service v reports
  | _ => exact absurd rfl calls

/-- Any other step forgets a byte that has been dropped. -/
theorem forgotten (struck : ¬Reports cfg p e) (stepped : step cfg e p = some p') : ¬Noted p' := by
  obtain ⟨⟨p', out⟩, goes, rfl⟩ := Option.map_eq_some_iff.mp stepped
  cases e with
  | service v =>
      simp only [Reports, Classical.not_imp, Bool.not_eq_false] at struck
      obtain ⟨here, nearly, dropped⟩ := struck
      obtain ⟨-, goes⟩ := Option.ite_none_left_eq_some.mp goes
      rw [← Option.some.inj goes]
      simp only [Port.service, here, if_pos nearly]
      exact fun noted => noted dropped (by decide : RT_SP_BUFFER_FULL &&& RT_SP_BUFFER_OVF = 0)
  | getErr =>
      have dropped : p.dropped = true := by simpa [Reports] using struck
      obtain ⟨-, here⟩ := Option.ite_none_left_eq_some.mp goes
      cases here
      exact fun noted => noted dropped UInt32.zero_and
  | _ => exact absurd trivial struck

/-! ## Runs -/

/-- A byte is dropped when the buffer is full, and only then. -/
def Drops (cfg : Config) (x : Record Port Event) : Prop :=
  ∀ c stays, x.post.received = x.pre.received ++ [(c, stays)] →
    (stays = false ↔ ((kept x.pre.received).length : Int) =
      (delivered x.pre.reads x.pre.reader).length + cfg.spbufsiz)

/-- Only the interrupt routine receives. -/
theorem received_cases (stepped : Spdrv.step cfg e p = some p') : p'.received = p.received ∨
    ∃ c, p.isr = .put c ∧ p'.received = p.received ++ [(c, decide (p.ibuf.frbs ≠ 0))] := by
  by_cases calls : e.calls = true
  · exact .inl (calls_frame calls stepped).2.2.1
  obtain ⟨⟨p', out⟩, goes, rfl⟩ := Option.map_eq_some_iff.mp stepped
  cases e with
  | rtSpgetErr | interrupt =>
      obtain ⟨-, here⟩ := Option.ite_none_right_eq_some.mp goes
      cases here
      exact .inl rfl
  | getErr =>
      obtain ⟨-, here⟩ := Option.ite_none_left_eq_some.mp goes
      cases here
      exact .inl rfl
  | service v =>
      obtain ⟨-, here⟩ := Option.ite_none_left_eq_some.mp goes
      rw [← Option.some.inj here]
      unfold Port.service Port.dropRts
      dsimp only
      split
      case h_5 c here =>
        refine .inr ⟨c, here, ?_⟩
        split_ifs with room
        · rw [decide_eq_true room]
          rfl
        · rw [decide_eq_false room]
          rfl
      all_goals first
        | exact .inl rfl
        | split_ifs <;> exact .inl rfl
  | _ => exact absurd rfl calls

theorem Sound.drops (sound : Sound cfg p) (stepped : Spdrv.step cfg e p = some p') :
    Drops cfg ⟨p, e, p'⟩ := by
  intro c stays grown
  dsimp only at grown ⊢
  rcases received_cases stepped with same | ⟨c', here, put⟩
  · exact absurd (grown.symm.trans same) (by simp)
  · have last := List.append_cancel_left (grown.symm.trans put)
    cases last
    obtain ⟨q, inp⟩ := sound.inp
    rw [here] at inp
    have counts := inp.ring.counts.2
    rw [inp.bytes, decide_eq_false_iff_not, not_not, counts]
    simp only [IsrPc.fresh, List.append_nil, List.length_append]
    omega

/-- What has been accepted and not sent is in the output buffer, what has been kept and not
delivered in the input buffer; a call of `rt_spread` gets the next bytes of those that were there
and came while it ran, and one of `rt_spevdrp` the next ones of those that were there; and a byte
that has been dropped will be reported. -/
structure Meets (p : Port) : Prop where
  sent : ∃ l, accepted p.writes p.writer = p.sent ++ l ∧
    (l.length : Int) = p.obuf.avbs + p.isr.inHand.length
  delivered : ∃ l, kept p.received = delivered p.reads p.reader ++ l ∧
    (l.length : Int) = p.ibuf.avbs + p.isr.fresh.length
  reads : ∀ f ∈ p.reads, ∃ more, f.Serves (kept p.received) more
  peeks : ∀ f ∈ p.peeks, f.Serves (kept p.received) 0
  noted : Noted p

theorem Sound.meets (sound : Sound cfg p) (noted : Noted p) : Meets p := by
  obtain ⟨⟨q, out⟩, ⟨q', inp⟩, reads, peeks⟩ := sound
  refine ⟨⟨p.isr.inHand ++ q, ?_, ?_⟩, ⟨q' ++ p.isr.fresh, ?_, ?_⟩, reads, peeks, noted⟩
  · rw [out.bytes, List.append_assoc]
  · rw [List.length_append, Nat.cast_add, out.ring.counts.1, add_comm]
  · rw [inp.bytes, List.append_assoc]
  · rw [List.length_append, Nat.cast_add, inp.ring.counts.1]

variable {tr : List (Record Port Event)}

/-- The bytes go through the port in order, whatever becomes of the error word. -/
theorem run_sound (pos : 0 < cfg.spbufsiz)
    (run : Run (step cfg) (fun _ _ => True) (rtSpopen cfg) tr p) : Sound cfg p :=
  run.invariant (Sound.init pos) fun sound _ stepped => sound.step stepped

/-- The bytes go through the port in order, and those that are dropped are reported as long as
none is forgotten, and no longer. -/
theorem streams_kept (pos : 0 < cfg.spbufsiz)
    (run : Run (step cfg) (Reports cfg) (rtSpopen cfg) tr p) :
    (Meets p ∧ ∀ x ∈ tr, Drops cfg x) ∧
      ∀ e p', step cfg e p = some p' → (Meets p' ↔ Reports cfg p e) := by
  have sound := run_sound pos (run.mono fun _ _ _ => trivial)
  have none : Noted (rtSpopen cfg) := fun since => nomatch since
  have noted : Noted p := run.invariant none
    fun noted reports stepped => noted.step reports stepped
  have drops := (run.each (P := Sound cfg) (Sound.init pos) fun sound _ stepped =>
    ⟨sound.step stepped, sound.drops stepped⟩).2
  refine ⟨⟨sound.meets noted, drops⟩, fun e p' stepped => ⟨fun meets => ?_, fun reports => ?_⟩⟩
  · exact not_not.mp fun struck => forgotten struck stepped meets.noted
  · exact (sound.step stepped).meets (noted.step reports stepped)

instance (cfg : Config) (p : Port) : ∀ e, Decidable (Reports cfg p e)
  | .service _ => inferInstanceAs (Decidable (_ → _ → _))
  | .getErr => inferInstanceAs (Decidable (_ = _))
  | .rtSpwrite .. | .write | .rtSpread _ | .rtSpevdrp _ | .read | .rtSpgetErr | .interrupt =>
      instDecidableTrue

/-- The interrupt routine runs, and is given these values. -/
def serviced (vs : List UInt8) : List Event := .interrupt :: vs.map .service

/-- Two bytes are written and one of them is sent, and one is received, seen and read. -/
theorem streams_kept_one : ∃ tr p, Run (step ⟨4, 0, 1⟩) (Reports ⟨4, 0, 1⟩) (rtSpopen ⟨4, 0, 1⟩) tr p ∧
    p.sent = [7] ∧ p.peeks.map Fetch.got = [[65]] ∧ p.reads.map Fetch.got = [[65]] ∧ Meets p := by
  obtain ⟨tr, p, run, test⟩ := Run.of_execute (step ⟨4, 0, 1⟩) (Reports ⟨4, 0, 1⟩) (rtSpopen ⟨4, 0, 1⟩)
    (.rtSpwrite (fun k => if k = 0 then 7 else 8) 2 :: List.replicate 8 .write ++
      serviced [0x02, 0, 0, 0, 0, 0, 0x04, 65, 0, 0, 0, 0, 0, 0, 0x01, 0, 0] ++
      .rtSpevdrp (-1) :: List.replicate 3 .read ++ .rtSpread 5 :: List.replicate 7 .read)
    (fun p => p.sent == [7] && p.peeks.map Fetch.got == [[65]] && p.reads.map Fetch.got == [[65]])
    (by decide +kernel)
  simp only [Bool.and_eq_true, beq_iff_eq] at test
  exact ⟨tr, p, run, test.1.1, test.1.2, test.2, (streams_kept (by decide) run).1.1⟩

/-- The buffer has ten places, and eleven bytes come in one run of the routine. -/
theorem not_always_noted : ¬∀ (cfg : Config) (tr : List (Record Port Event)) (p : Port),
    0 < cfg.spbufsiz → Run (step cfg) (fun _ _ => True) (rtSpopen cfg) tr p → Meets p := by
  intro meets
  obtain ⟨tr, p, run, test⟩ := Run.of_execute (step ⟨10, 0, 1⟩) (fun _ _ => True) (rtSpopen ⟨10, 0, 1⟩)
    (serviced (0x04 :: (List.replicate 10 [65, 0, 0, 0, 1]).flatten ++ [66, 0, 0, 0, 0, 0, 0x01, 0]))
    (fun p => p.dropped && p.error &&& RT_SP_BUFFER_OVF == 0) (by decide +kernel)
  simp only [Bool.and_eq_true, beq_iff_eq] at test
  exact (meets _ tr p (by decide) run).noted test.1 test.2

end Rtai.Spdrv
