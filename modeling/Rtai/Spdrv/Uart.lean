import Rtai.Spdrv.Streams

/-!
# Transmission

The driver with its chip.  The chip raises the transmit interrupt when the holding register
becomes empty, and when the interrupt is enabled while it is; it withdraws it when the
identification is read, and on some chips when data are written too.  It raises the modem status
interrupt when a line changes.  What the receiver has to say is left open.

An interrupt that is served while the lines forbid transmission is gone, and nothing raises
another: `transmission_ends`.
-/

namespace Rtai.Spdrv

open Rtai.Lib

/-- The transmitter and the lines. -/
structure Uart where
  ier : UInt8
  /-- The holding register is empty. -/
  empty : Bool
  /-- The transmit interrupt. -/
  thre : Bool := false
  /-- The modem status interrupt. -/
  modem : Bool := false
  cts : Bool
  dsr : Bool

/-- The identifications that come before those of the transmitter. -/
inductive Receiver where
  | line | data | timeout

def Receiver.iir : Receiver → UInt8
  | .line => 0x06
  | .data => 0x04
  | .timeout => 0x0C

namespace Uart

def enabled (bit : UInt8) (u : Uart) : Bool := u.ier &&& bit ≠ 0

/-- The interrupts that are pending. -/
def transmits (u : Uart) : Bool := u.thre && u.enabled IER_ETBEI

def signals (u : Uart) : Bool := u.modem && u.enabled IER_EDSSI

/-- The interrupt enable register is written. -/
def outIer (v : UInt8) (u : Uart) : Uart :=
  { u with
    ier := v
    thre := v &&& IER_ETBEI ≠ 0 && (if u.enabled IER_ETBEI then u.thre else u.empty)
    modem := v &&& IER_EDSSI ≠ 0 && u.modem }

/-- The transmit register is written. -/
def outTxb (withdraws : Bool) (u : Uart) : Uart :=
  { u with empty := false, thre := u.thre && !withdraws }

/-- The holding register becomes empty. -/
def empties (u : Uart) : Uart := { u with empty := true, thre := u.thre || u.enabled IER_ETBEI }

def lines (cts dsr : Bool) (u : Uart) : Uart :=
  { u with
    cts := cts
    dsr := dsr
    modem := u.modem || ((cts ≠ u.cts || dsr ≠ u.dsr) && u.enabled IER_EDSSI) }

/-- The identification is read. -/
def identify (rx : Option Receiver) (u : Uart) : UInt8 × Uart :=
  match rx with
  | some rx => (rx.iir, u)
  | none =>
      if u.transmits then (0x02, { u with thre := false })
      else if u.signals then (0x00, u)
      else (0x01, u)

/-- The modem status, with the bits that are not those of the two lines. -/
def msr (others : UInt8) (u : Uart) : UInt8 :=
  (if u.cts then MSR_CTS else 0) ||| (if u.dsr then MSR_DSR else 0) ||| others &&& 0xCF

def apply (withdraws : Bool) (u : Uart) : Option Out → Uart
  | some (.ier v) => u.outIer v
  | some (.txb _) => u.outTxb withdraws
  | some (.mcr _) | none => u

end Uart

structure System where
  port : Port
  uart : Uart

/-- The transmit interrupt is about to be disabled. -/
def IsrPc.quiets : IsrPc → Bool
  | .txOut _ => true
  | _ => false

namespace System

/-- What the routine reads, when it does, and what that leaves. -/
def input (rx : Option Receiver) (data : UInt8) (s : System) : UInt8 × Uart :=
  match s.port.isr with
  | .iir _ => s.uart.identify rx
  | .txMsr | .modemMsr => (s.uart.msr data, { s.uart with modem := false })
  | _ => (data, s.uart)

/-- A step of the routine. -/
def serve (cfg : Config) (withdraws : Bool) (rx : Option Receiver) (data : UInt8) (s : System) :
    System :=
  let (v, u) := s.input rx data
  let (p, out) := s.port.service cfg v
  ⟨p, u.apply withdraws out⟩

inductive Event where
  /-- A step of a task, or the beginning of the routine. -/
  | call (e : Spdrv.Event)
  /-- A step of the routine. -/
  | service (rx : Option Receiver) (data : UInt8)
  | empties
  | lines (cts dsr : Bool)

/-- A step of the routine is not one of a task. -/
def calls : Spdrv.Event → Bool
  | .service _ => false
  | _ => true

def step (cfg : Config) (withdraws : Bool) : Event → System → Option System
  | .call e, s =>
      if calls e then
        (goes cfg e s.port).map fun (p, out) => ⟨p, s.uart.apply withdraws out⟩
      else none
  | .service rx data, s =>
      if s.port.isr = .idle then none else some (s.serve cfg withdraws rx data)
  | .empties, s => if s.uart.empty then none else some { s with uart := s.uart.empties }
  | .lines cts dsr, s => some { s with uart := s.uart.lines cts dsr }

/-- The port has been opened. -/
def opened (cfg : Config) (empty cts dsr : Bool) : System where
  port := rtSpopen cfg
  uart := { ier := (rtSpopen cfg).ier, empty := empty, cts := cts, dsr := dsr }

/-- Between runs of the routine and calls of `rt_spwrite`, an interrupt is pending when bytes are
left and may be sent. -/
def Flows (cfg : Config) (s : System) : Prop :=
  s.port.isr = .idle → s.port.writer.pc = .idle →
  s.port.sent ≠ accepted s.port.writes s.port.writer →
  s.uart.empty = true → cfg.allows (s.uart.msr 0) = true →
  s.uart.transmits = true ∨ s.uart.signals = true

/-- The transmit interrupt is not given up for lines that forbid transmission, unless there is or
will be another; and it is disabled with the output buffer empty, or by a call of `rt_spwrite` that
will enable it. -/
def Unblocked (cfg : Config) (s : System) : Event → Prop
  | .service _ data =>
      (s.port.isr = .txMsr →
        cfg.allows (s.uart.msr data) = true ∨ (s.uart.empty = true → s.uart.thre = true)) ∧
      (s.port.isr.quiets = true → s.port.obuf.avbs ≤ 0 ∨ s.port.writer.pc ≠ .idle)
  | _ => True

end System

/-! ## The driver -/

/-- The routine is serving the transmit interrupt. -/
def IsrPc.sending : IsrPc → Bool
  | .txMsr | .get | .getCount _ | .getMove _ | .txb _ | .txOff | .txOut _ => true
  | _ => false

variable {cfg : Config} {p p' : Port} {out : Option Out} {e : System.Event}

/-- What a task may do to the transmitter. -/
structure Calls (p p' : Port) (out : Option Out) : Prop where
  isr : p'.isr = p.isr ∨ p.isr = .idle ∧ p'.isr = .iir true
  avbs : 0 < p'.obuf.avbs → 0 < p.obuf.avbs ∨ p'.writer.pc ≠ .idle
  busy : p.writer.pc ≠ .idle → p'.writer.pc ≠ .idle ∨ ∃ v, p.writer.pc = .out v ∧ out = some (.ier v)
  enables : ∀ v, p'.writer.pc = .out v → v &&& IER_ETBEI ≠ 0 ∨ p.writer.pc = .out v
  out : out = none ∨ (∃ v, out = some (.mcr v)) ∨ ∃ v, p.writer.pc = .out v ∧ out = some (.ier v)

theorem Calls.of_same (isr : p'.isr = p.isr) (obuf : p'.obuf = p.obuf) (writer : p'.writer = p.writer)
    (quiet : out = none ∨ ∃ v, out = some (.mcr v)) : Calls p p' out where
  isr := .inl isr
  avbs := fun some => .inl (obuf ▸ some)
  busy := fun busy => .inl (writer ▸ busy)
  enables := fun _ here => .inr (writer ▸ here)
  out := quiet.imp_right .inl

theorem or_and_self_byte (a c : UInt8) : (a ||| c) &&& c = c := by
  refine UInt8.toBitVec_inj.mp (BitVec.eq_of_getElem_eq fun i hi => ?_)
  simp only [UInt8.toBitVec_and, UInt8.toBitVec_or, BitVec.getElem_and, BitVec.getElem_or]
  exact Bool.and_eq_right_iff_imp.mpr (by simp +contextual)

theorem calls_write : Calls p (p.write cfg).1 (p.write cfg).2 := by
  unfold Port.write
  dsimp only
  split
  next => exact .of_same rfl rfl rfl (.inl rfl)
  next here =>
    refine ⟨.inl rfl, .inl, fun _ => .inl ?_, fun v there => ?_, .inl rfl⟩
    · show (if _ then WriterPc.limit else .enable) ≠ .idle
      split_ifs <;> exact WriterPc.noConfusion
    · replace there : (if _ then WriterPc.limit else .enable) = .out v := there
      split_ifs at there
  next here =>
    exact ⟨.inl rfl, .inl, fun _ => .inl WriterPc.noConfusion, fun _ => WriterPc.noConfusion, .inl rfl⟩
  next n here =>
    exact ⟨.inl rfl, .inl, fun _ => .inl WriterPc.noConfusion, fun _ => WriterPc.noConfusion, .inl rfl⟩
  next n here =>
    exact ⟨.inl rfl, fun _ => .inr WriterPc.noConfusion, fun _ => .inl WriterPc.noConfusion,
      fun _ => WriterPc.noConfusion, .inl rfl⟩
  next n here =>
    exact ⟨.inl rfl, .inl, fun _ => .inl WriterPc.noConfusion, fun _ => WriterPc.noConfusion, .inl rfl⟩
  next here =>
    refine ⟨.inl rfl, .inl, fun _ => .inl WriterPc.noConfusion, fun v there => .inl ?_, .inl rfl⟩
    cases there
    rw [or_and_self_byte]
    decide
  next v here =>
    exact ⟨.inl rfl, .inl, fun _ => .inr ⟨v, here, rfl⟩, fun _ => WriterPc.noConfusion,
      .inr (.inr ⟨v, here, rfl⟩)⟩

theorem calls_goes {e : Event} (calls : System.calls e = true) (here : goes cfg e p = some (p', out)) :
    Calls p p' out := by
  cases e with
  | rtSpwrite msg size =>
      obtain ⟨idle, here⟩ := Option.ite_none_right_eq_some.mp here
      cases here
      unfold Port.rtSpwrite
      split_ifs
      · exact ⟨.inl rfl, .inl, fun busy => absurd idle busy, fun _ => WriterPc.noConfusion, .inl rfl⟩
      · exact .of_same rfl rfl rfl (.inl rfl)
  | write =>
      obtain ⟨-, here⟩ := Option.ite_none_left_eq_some.mp here
      have same := Option.some.inj here
      rw [show p' = (p.write cfg).1 by rw [same], show out = (p.write cfg).2 by rw [same]]
      exact calls_write
  | rtSpread size | rtSpevdrp size =>
      obtain ⟨-, here⟩ := Option.ite_none_right_eq_some.mp here
      cases here
      simp only [Port.rtSpread, Port.rtSpevdrp, Port.fetches]
      split_ifs <;> exact .of_same rfl rfl rfl (.inl rfl)
  | read =>
      obtain ⟨-, here⟩ := Option.ite_none_left_eq_some.mp here
      have same := Option.some.inj here
      rw [show p' = (p.read cfg).1 by rw [same], show out = (p.read cfg).2 by rw [same]]
      unfold Port.read
      dsimp only
      split <;> try split_ifs
      all_goals first
        | exact .of_same rfl rfl rfl (.inl rfl)
        | exact .of_same rfl rfl rfl (.inr ⟨_, rfl⟩)
  | rtSpgetErr =>
      obtain ⟨-, here⟩ := Option.ite_none_right_eq_some.mp here
      cases here
      exact .of_same rfl rfl rfl (.inl rfl)
  | getErr =>
      obtain ⟨-, here⟩ := Option.ite_none_left_eq_some.mp here
      cases here
      exact .of_same rfl rfl rfl (.inl rfl)
  | interrupt =>
      obtain ⟨idle, here⟩ := Option.ite_none_right_eq_some.mp here
      cases here
      exact ⟨.inr ⟨idle, rfl⟩, .inl, .inl, fun _ => .inr, .inl rfl⟩
  | service => cases calls

/-- Only the routine sends. -/
theorem sent_goes {e : Event} (calls : System.calls e = true) (here : goes cfg e p = some (p', out)) :
    p'.sent = p.sent := by
  have stepped : step cfg e p = some p' := Option.map_eq_some_iff.mpr ⟨_, here, rfl⟩
  by_cases data : e.calls = true
  · exact (calls_frame data stepped).2.2.2
  cases e with
  | rtSpgetErr | interrupt =>
      obtain ⟨-, here⟩ := Option.ite_none_right_eq_some.mp here
      cases here
      rfl
  | getErr =>
      obtain ⟨-, here⟩ := Option.ite_none_left_eq_some.mp here
      cases here
      rfl
  | service => cases calls
  | _ => exact absurd rfl data

/-! ## The chip -/

namespace Uart

variable {u : Uart} {v : UInt8} {withdraws : Bool}

theorem outIer_enabled : (u.outIer v).enabled IER_ETBEI = true ↔ v &&& IER_ETBEI ≠ 0 :=
  decide_eq_true_iff

/-- The interrupt is raised when it is enabled on an empty register. -/
theorem outIer_raises (on : v &&& IER_ETBEI ≠ 0)
    (raised : u.enabled IER_ETBEI = true → u.empty = true → u.thre = true)
    (empty : u.empty = true) : (u.outIer v).thre = true := by
  show (decide (v &&& IER_ETBEI ≠ 0) && if u.enabled IER_ETBEI then u.thre else u.empty) = true
  rw [decide_eq_true on, Bool.true_and]
  split_ifs with enabled
  · exact raised enabled empty
  · exact empty

/-- The identification of the transmit interrupt withdraws it, and no other does. -/
theorem identify_cases (rx : Option Receiver) :
    ((u.identify rx).2 = u ∧ (u.identify rx).1 ∈ [0x06, 0x04, 0x0C, 0x00, 0x01]) ∨
    u.transmits = true ∧ u.identify rx = (0x02, { u with thre := false }) := by
  unfold identify
  cases rx with
  | some rx =>
      refine .inl ⟨rfl, ?_⟩
      cases rx <;> simp [Receiver.iir]
  | none =>
      dsimp only
      split_ifs with transmits signals
      · exact .inr ⟨transmits, rfl⟩
      · exact .inl ⟨rfl, by simp⟩
      · exact .inl ⟨rfl, by simp⟩

theorem dispatch_other (first : Bool) {v : UInt8} (other : v ∈ [0x06, 0x04, 0x0C, 0x00, 0x01]) :
    (Port.dispatch first v).sending = false := by
  simp only [List.mem_cons, List.not_mem_nil, or_false] at other
  rcases other with rfl | rfl | rfl | rfl | rfl <;> cases first <;> rfl

theorem dispatch_transmit (first : Bool) : Port.dispatch first 0x02 = .txMsr := by
  cases first <;> rfl

end Uart

/-! ## The whole -/

/-- The routine does something else than sending. -/
structure Idles (s s' : System) : Prop where
  sending : s'.port.isr.sending = false
  obuf : s'.port.obuf = s.port.obuf
  writer : s'.port.writer = s.port.writer
  sent : s'.port.sent = s.port.sent
  ier : s'.uart.ier = s.uart.ier
  empty : s'.uart.empty = s.uart.empty
  thre : s'.uart.thre = s.uart.thre

theorem idles_serve (cfg : Config) (withdraws : Bool) {s : System} (rx : Option Receiver) (data : UInt8)
    (others : s.port.isr.sending = false) :
    Idles s (s.serve cfg withdraws rx data) ∨
    s.uart.transmits = true ∧
      s.serve cfg withdraws rx data = ⟨s.port.toIsr .txMsr, { s.uart with thre := false }⟩ := by
  unfold System.serve
  cases here : s.port.isr with
  | iir first =>
      simp only [System.input, Port.service, here]
      rcases s.uart.identify_cases rx with ⟨same, other⟩ | ⟨transmits, eq⟩
      · rw [same]
        exact .inl ⟨Uart.dispatch_other first other, rfl, rfl, rfl, rfl, rfl, rfl⟩
      · rw [eq, Uart.dispatch_transmit]
        exact .inr ⟨transmits, rfl⟩
  | idle =>
      simp only [System.input, Port.service, here]
      exact .inl ⟨others, rfl, rfl, rfl, rfl, rfl, rfl⟩
  | lineStatus | rxb | overflow | putCount | putMove | modemMsr =>
      simp only [System.input, Port.service, here]
      exact .inl ⟨rfl, rfl, rfl, rfl, rfl, rfl, rfl⟩
  | put c | rxFull | full =>
      simp only [System.input, Port.service, here]
      split_ifs <;> exact .inl ⟨rfl, rfl, rfl, rfl, rfl, rfl, rfl⟩
  | rxRts | rts =>
      simp only [System.input, Port.service, Port.dropRts, here]
      split_ifs <;> exact .inl ⟨rfl, rfl, rfl, rfl, rfl, rfl, rfl⟩
  | rxLsr =>
      simp only [System.input, Port.service, here]
      refine .inl ⟨?_, rfl, rfl, rfl, rfl, rfl, rfl⟩
      show (if _ then IsrPc.rxb else .rxFull).sending = false
      split_ifs <;> rfl
  | _ =>
      rw [here] at others
      cases others

/-- An enabled interrupt is raised when the register is empty, or is being served, and it is
enabled when bytes are left, or will be by a call that has not returned. -/
structure Ready (s : System) : Prop where
  raised : s.uart.enabled IER_ETBEI = true → s.uart.empty = true →
    s.uart.thre = true ∨ s.port.isr.sending = true
  enabled : 0 < s.port.obuf.avbs → s.uart.enabled IER_ETBEI = true ∨ s.port.writer.pc ≠ .idle
  out : ∀ v, s.port.writer.pc = .out v → v &&& IER_ETBEI ≠ 0
  off : ∀ v, s.port.isr = .txOut v → v &&& IER_ETBEI = 0

namespace Ready

variable {s s' : System} {withdraws : Bool}
variable (ready : Ready s)
include ready

theorem call (calls : Calls s.port p' out) : Ready ⟨p', s.uart.apply withdraws out⟩ := by
  obtain ⟨raised, enabled, writes, off⟩ := ready
  obtain ⟨isr, avbs, busy, enables, quiet⟩ := calls
  have sending : p'.isr.sending = s.port.isr.sending := by
    rcases isr with same | ⟨idle, begins⟩
    · rw [same]
    · rw [idle, begins]
      rfl
  have writes' : ∀ v, p'.writer.pc = .out v → v &&& IER_ETBEI ≠ 0 := fun v here =>
    (enables v here).elim id (writes v)
  have off' : ∀ v, p'.isr = .txOut v → v &&& IER_ETBEI = 0 := by
    intro v here
    rcases isr with same | ⟨idle, begins⟩
    · exact off v (same.symm.trans here)
    · cases begins.symm.trans here
  have still (none : s.uart.apply withdraws out = s.uart) (not : ∀ v, out ≠ some (.ier v)) :
      Ready ⟨p', s.uart.apply withdraws out⟩ := by
    rw [none]
    refine ⟨fun on empty => ?_, fun some => ?_, writes', off'⟩
    · rw [sending]
      exact raised on empty
    · rcases avbs some with some | busy'
      · rcases enabled some with on | busy'
        · exact .inl on
        · rcases busy busy' with busy' | ⟨v, -, here⟩
          · exact .inr busy'
          · exact absurd here (not v)
      · exact .inr busy'
  rcases quiet with rfl | ⟨v, rfl⟩ | ⟨v, here, rfl⟩
  · exact still rfl fun v => (Option.some_ne_none _).symm
  · refine still rfl fun v there => ?_
    cases there
  · have on := writes v here
    refine ⟨fun _ empty => ?_, fun _ => .inl (Uart.outIer_enabled.mpr on), writes', off'⟩
    rw [sending]
    by_cases sends : s.port.isr.sending = true
    · exact .inr sends
    · exact .inl (Uart.outIer_raises on
        (fun on empty => (raised on empty).resolve_right sends) empty)

theorem other (here : s.port.isr.sending = false) (idles : Idles s s') : Ready s' := by
  obtain ⟨raised, enabled, writes, -⟩ := ready
  obtain ⟨there, obuf, writer, -, ier, empty, thre⟩ := idles
  have same : s'.uart.enabled IER_ETBEI = s.uart.enabled IER_ETBEI := by rw [Uart.enabled, ier]; rfl
  refine ⟨fun on none => .inl ?_, fun some => ?_, fun v here => ?_, fun v here => ?_⟩
  · rw [thre]
    refine (raised (same ▸ on) (empty ▸ none)).resolve_right fun sends => ?_
    cases here.symm.trans sends
  · rw [same, writer]
    exact enabled (obuf ▸ some)
  · exact writes v (writer ▸ here)
  · rw [here] at there
    cases there

/-- The routine goes on with sending. -/
theorem sends (p' : Port) (u : Uart) (ier : u.ier = s.uart.ier) (there : p'.isr.sending = true)
    (fewer : p'.obuf.avbs ≤ s.port.obuf.avbs) (writer : p'.writer = s.port.writer)
    (off : ∀ v, p'.isr = .txOut v → v &&& IER_ETBEI = 0) : Ready ⟨p', u⟩ := by
  have same : u.enabled IER_ETBEI = s.uart.enabled IER_ETBEI := by rw [Uart.enabled, ier]; rfl
  refine ⟨fun _ _ => .inr there, fun some => ?_, fun v here => ready.out v (writer ▸ here), off⟩
  rw [same, writer]
  exact ready.enabled (lt_of_lt_of_le some fewer)

theorem serve (rx : Option Receiver) (data : UInt8)
    (unblocked : System.Unblocked cfg s (.service rx data)) :
    Ready (s.serve cfg withdraws rx data) := by
  obtain ⟨allowed, spent⟩ := unblocked
  by_cases others : s.port.isr.sending = false
  · rcases idles_serve cfg withdraws rx data others with idles | ⟨-, serves⟩
    · exact ready.other others idles
    · rw [serves]
      exact ready.sends (s.port.toIsr .txMsr) _ rfl rfl le_rfl rfl fun v => IsrPc.noConfusion
  unfold System.serve
  cases here : s.port.isr with
  | txMsr =>
      simp only [System.input, Port.service, here]
      by_cases allows : cfg.allows (s.uart.msr data) = true
      · rw [if_pos allows]
        exact ready.sends (s.port.toIsr .get) _ rfl rfl le_rfl rfl fun v => IsrPc.noConfusion
      · rw [if_neg allows]
        exact ⟨fun _ empty => .inl ((allowed here).resolve_left allows empty), ready.enabled, ready.out,
          fun v => IsrPc.noConfusion⟩
  | get =>
      simp only [System.input, Port.service, here]
      split_ifs
      · exact ready.sends _ _ rfl rfl le_rfl rfl fun v => IsrPc.noConfusion
      · exact ready.sends _ _ rfl rfl le_rfl rfl fun v => IsrPc.noConfusion
  | getCount c =>
      simp only [System.input, Port.service, here]
      exact ready.sends _ _ rfl rfl (sub_le_self _ Int.one_nonneg) rfl fun v => IsrPc.noConfusion
  | getMove c =>
      simp only [System.input, Port.service, here]
      exact ready.sends _ _ rfl rfl le_rfl rfl fun v => IsrPc.noConfusion
  | txb c =>
      simp only [System.input, Port.service, here]
      refine ⟨fun _ empty => absurd empty Bool.false_ne_true, ready.enabled, ready.out, fun v there => ?_⟩
      replace there : (if _ then IsrPc.get else .iir false) = .txOut v := there
      split_ifs at there
  | txOff =>
      simp only [System.input, Port.service, here]
      refine ready.sends _ _ rfl rfl le_rfl rfl fun v there => ?_
      cases there
      rw [UInt8.and_assoc]
      exact UInt8.and_zero
  | txOut v =>
      simp only [System.input, Port.service, here]
      have off := ready.off v here
      refine ⟨fun on => ?_, fun some => ?_, ready.out, fun _ => IsrPc.noConfusion⟩
      · exact absurd off (Uart.outIer_enabled.mp on)
      · exact .inr ((spent (by rw [here]; rfl)).resolve_left (not_le.mpr some))
  | _ => exact absurd (by rw [here]; rfl) others

theorem step (unblocked : System.Unblocked cfg s e)
    (stepped : System.step cfg withdraws e s = some s') : Ready s' := by
  cases e with
  | call e =>
      obtain ⟨calls, stepped⟩ := Option.ite_none_right_eq_some.mp stepped
      obtain ⟨⟨p', out⟩, here, rfl⟩ := Option.map_eq_some_iff.mp stepped
      exact ready.call (calls_goes calls here)
  | service rx data =>
      obtain ⟨-, here⟩ := Option.ite_none_left_eq_some.mp stepped
      cases here
      exact ready.serve rx data unblocked
  | empties =>
      obtain ⟨-, here⟩ := Option.ite_none_left_eq_some.mp stepped
      cases here
      refine ⟨fun on _ => .inl ?_, ready.enabled, ready.out, ready.off⟩
      show (s.uart.thre || s.uart.enabled IER_ETBEI) = true
      rw [show s.uart.enabled IER_ETBEI = true from on, Bool.or_true]
  | lines cts dsr =>
      cases stepped
      exact ⟨ready.raised, ready.enabled, ready.out, ready.off⟩

end Ready

/-! ## Runs -/

variable {s s' : System} {withdraws empty cts dsr : Bool} {tr : List (Record System System.Event)}

theorem sound_step (sound : Sound cfg s.port) (stepped : System.step cfg withdraws e s = some s') :
    Sound cfg s'.port := by
  cases e with
  | call e =>
      obtain ⟨-, stepped⟩ := Option.ite_none_right_eq_some.mp stepped
      obtain ⟨⟨p', out⟩, here, rfl⟩ := Option.map_eq_some_iff.mp stepped
      exact sound.step (e := e) (Option.map_eq_some_iff.mpr ⟨_, here, rfl⟩)
  | service rx data =>
      obtain ⟨busy, here⟩ := Option.ite_none_left_eq_some.mp stepped
      cases here
      refine sound.step (e := .service (s.input rx data).1) ?_
      exact Option.map_eq_some_iff.mpr ⟨_, if_neg busy, rfl⟩
  | empties =>
      obtain ⟨-, here⟩ := Option.ite_none_left_eq_some.mp stepped
      cases here
      exact sound
  | lines cts dsr =>
      cases stepped
      exact sound

theorem Ready.opened : Ready (System.opened cfg empty cts dsr) where
  raised := fun on => by
    have off : (rtSpopen cfg).ier &&& IER_ETBEI = 0 := by
      unfold rtSpopen
      dsimp only
      split_ifs <;> decide
    exact absurd off (of_decide_eq_true on)
  enabled := fun some => absurd some (lt_irrefl 0)
  out := fun _ => WriterPc.noConfusion
  off := fun _ => IsrPc.noConfusion

theorem Ready.flows (ready : Ready s) (sound : Sound cfg s.port) : System.Flows cfg s := by
  intro isr writer left empty _
  obtain ⟨q, out⟩ := sound.out
  have some : 0 < s.port.obuf.avbs := by
    have bytes := out.bytes
    have hand : s.port.isr.inHand = [] := by rw [isr]; rfl
    rw [hand, List.append_nil] at bytes
    cases q with
    | nil => exact absurd (by rw [bytes, List.append_nil]) left
    | cons c q =>
        rw [out.ring.counts.1]
        exact Int.natCast_pos.mpr (Nat.succ_pos q.length)
  have on := (ready.enabled some).resolve_right (not_not.mpr writer)
  have raised := (ready.raised on empty).resolve_right (by rw [isr]; exact Bool.false_ne_true)
  exact .inl (Bool.and_eq_true_iff.mpr ⟨raised, on⟩)

/-- Transmission goes on, whatever the mode, as long as no interrupt that is served is lost. -/
theorem transmission_flows (pos : 0 < cfg.spbufsiz)
    (run : Run (System.step cfg withdraws) (System.Unblocked cfg) (System.opened cfg empty cts dsr) tr s) :
    System.Flows cfg s := by
  have ready : Ready s := run.invariant Ready.opened
    fun ready unblocked stepped => ready.step unblocked stepped
  have sound : Sound cfg s.port := run.invariant (P := fun s => Sound cfg s.port) (Sound.init pos)
    fun sound _ stepped => sound_step sound stepped
  exact ready.flows sound

instance (cfg : Config) (s : System) : ∀ e, Decidable (System.Unblocked cfg s e)
  | .service .. => inferInstanceAs (Decidable ((_ → _ ∨ (_ → _)) ∧ (_ → _ ∨ _)))
  | .call _ | .empties | .lines .. => instDecidableTrue

/-- The routine runs, with nothing from the receiver. -/
def served (n : Nat) : List System.Event := .call .interrupt :: List.replicate n (.service none 0)

/-- One byte is written. -/
def written : List System.Event :=
  .call (.rtSpwrite (fun _ => 7) 1) :: List.replicate 8 (.call .write)

/-- Two bytes are written with the lines up, and the second is due when the first has been sent. -/
theorem transmission_flows_one : ∃ tr s,
    Run (System.step ⟨4, RT_SP_HW_FLOW, 1⟩ true) (System.Unblocked ⟨4, RT_SP_HW_FLOW, 1⟩)
      (System.opened ⟨4, RT_SP_HW_FLOW, 1⟩ true true true) tr s ∧
    s.port.sent = [7] ∧ s.port.writes.length = 2 ∧ s.uart.empty = true ∧
    System.Flows ⟨4, RT_SP_HW_FLOW, 1⟩ s := by
  obtain ⟨tr, s, run, test⟩ := Run.of_execute (System.step ⟨4, RT_SP_HW_FLOW, 1⟩ true)
    (System.Unblocked ⟨4, RT_SP_HW_FLOW, 1⟩) (System.opened ⟨4, RT_SP_HW_FLOW, 1⟩ true true true)
    (written ++ written ++ served 9 ++ [.empties])
    (fun s => s.port.sent == [7] && s.port.writes.length == 2 && s.uart.empty) (by decide +kernel)
  simp only [Bool.and_eq_true, beq_iff_eq] at test
  exact ⟨tr, s, run, test.1.1, test.1.2, test.2, transmission_flows (by decide) run⟩

/-- A byte is written while CTS is down.  The transmit interrupt is served and given up, and when
CTS comes up the modem status is read, and nothing else. -/
theorem not_always_flows : ¬∀ (cfg : Config) (withdraws empty cts dsr : Bool)
    (tr : List (Record System System.Event)) (s : System), 0 < cfg.spbufsiz →
    Run (System.step cfg withdraws) (fun _ _ => True) (System.opened cfg empty cts dsr) tr s →
    System.Flows cfg s := by
  intro flows
  obtain ⟨tr, s, run, test⟩ := Run.of_execute (System.step ⟨4, RT_SP_HW_FLOW, 1⟩ true)
    (fun _ _ => True) (System.opened ⟨4, RT_SP_HW_FLOW, 1⟩ true false false)
    (written ++ served 5 ++ [.lines true false] ++ served 5)
    (fun s => s.port.isr = .idle && s.port.writer.pc = .idle && s.port.sent.isEmpty &&
      !(accepted s.port.writes s.port.writer).isEmpty && s.uart.empty &&
      Config.allows ⟨4, RT_SP_HW_FLOW, 1⟩ (s.uart.msr 0) && !s.uart.transmits && !s.uart.signals)
    (by decide +kernel)
  simp only [Bool.and_eq_true, decide_eq_true_iff, Bool.not_eq_true', List.isEmpty_iff,
    List.isEmpty_eq_false_iff] at test
  obtain ⟨⟨⟨⟨⟨⟨⟨isr, writer⟩, none⟩, some⟩, spent⟩, allows⟩, still⟩, quiet⟩ := test
  have goes := flows _ _ _ _ _ tr s (by decide) run isr writer (by rw [none]; exact some.symm) spent allows
  rw [still, quiet] at goes
  exact goes.elim Bool.false_ne_true Bool.false_ne_true

/-! ## What is lost -/

/-- The interrupt of an empty register has been served, and nothing was sent. -/
structure Stalled (s : System) : Prop where
  empty : s.uart.empty = true
  on : s.uart.enabled IER_ETBEI = true
  thre : s.uart.thre = false
  isr : s.port.isr.sending = false
  out : ∀ v, s.port.writer.pc = .out v → v &&& IER_ETBEI ≠ 0

namespace Stalled

theorem call (stalled : Stalled s) (calls : Calls s.port p' out) :
    Stalled ⟨p', s.uart.apply withdraws out⟩ := by
  obtain ⟨empty, on, thre, others, writes⟩ := stalled
  obtain ⟨isr, -, -, enables, quiet⟩ := calls
  have others' : p'.isr.sending = false := by
    rcases isr with same | ⟨-, begins⟩
    · rw [same]
      exact others
    · rw [begins]
      rfl
  have writes' : ∀ v, p'.writer.pc = .out v → v &&& IER_ETBEI ≠ 0 := fun v here =>
    (enables v here).elim id (writes v)
  rcases quiet with rfl | ⟨v, rfl⟩ | ⟨v, here, rfl⟩
  · exact ⟨empty, on, thre, others', writes'⟩
  · exact ⟨empty, on, thre, others', writes'⟩
  · refine ⟨empty, Uart.outIer_enabled.mpr (writes v here), ?_, others', writes'⟩
    show (_ && if s.uart.enabled IER_ETBEI then s.uart.thre else s.uart.empty) = false
    rw [if_pos on, thre, Bool.and_false]

theorem step (stalled : Stalled s) (stepped : System.step cfg withdraws e s = some s') :
    Stalled s' ∧ s'.port.sent = s.port.sent := by
  cases e with
  | call e =>
      obtain ⟨calls, stepped⟩ := Option.ite_none_right_eq_some.mp stepped
      obtain ⟨⟨p', out⟩, here, rfl⟩ := Option.map_eq_some_iff.mp stepped
      exact ⟨stalled.call (calls_goes calls here), sent_goes calls here⟩
  | service rx data =>
      obtain ⟨-, here⟩ := Option.ite_none_left_eq_some.mp stepped
      cases here
      obtain ⟨empty, on, thre, others, writes⟩ := stalled
      rcases idles_serve cfg withdraws rx data others with idles | ⟨transmits, -⟩
      · refine ⟨⟨idles.empty.trans empty, ?_, idles.thre.trans thre, idles.sending, ?_⟩, idles.sent⟩
        · rw [Uart.enabled, idles.ier]
          exact on
        · rw [idles.writer]
          exact writes
      · rw [Uart.transmits, thre] at transmits
        cases transmits
  | empties =>
      obtain ⟨full, -⟩ := Option.ite_none_left_eq_some.mp stepped
      exact absurd stalled.empty full
  | lines cts dsr =>
      cases stepped
      exact ⟨⟨stalled.empty, stalled.on, stalled.thre, stalled.isr, stalled.out⟩, rfl⟩

/-- Nothing is sent any more, whatever is written and whatever the lines do. -/
theorem run (stalled : Stalled s) (run : Run (System.step cfg withdraws) (fun _ _ => True) s tr s') :
    s'.port.sent = s.port.sent := by
  have kept : Stalled s' ∧ s'.port.sent = s.port.sent :=
    run.invariant (P := fun t => Stalled t ∧ t.port.sent = s.port.sent) ⟨stalled, rfl⟩
      fun kept _ stepped =>
        have next := kept.1.step stepped
        ⟨next.1, next.2.trans kept.2⟩
  exact kept.2

end Stalled

theorem sends_serve (cfg : Config) (withdraws : Bool) (rx : Option Receiver) (data : UInt8)
    (sends : s.port.isr.sending = true) :
    (s.serve cfg withdraws rx data).port.isr ≠ .txMsr ∧
      (s.serve cfg withdraws rx data).port.writer = s.port.writer := by
  unfold System.serve
  cases here : s.port.isr with
  | txMsr | get | txb c =>
      simp only [Port.service, here]
      refine ⟨?_, rfl⟩
      show (if _ then _ else _) ≠ IsrPc.txMsr
      split_ifs <;> exact IsrPc.noConfusion
  | getCount c | getMove c | txOff | txOut v =>
      simp only [Port.service, here]
      exact ⟨IsrPc.noConfusion, rfl⟩
  | _ =>
      rw [here] at sends
      cases sends

/-- The transmit interrupt is served when it is enabled. -/
structure Serving (s : System) : Prop where
  on : s.port.isr = .txMsr → s.uart.enabled IER_ETBEI = true
  out : ∀ v, s.port.writer.pc = .out v → v &&& IER_ETBEI ≠ 0

theorem Serving.step (serving : Serving s) (stepped : System.step cfg withdraws e s = some s') :
    Serving s' := by
  obtain ⟨on, writes⟩ := serving
  cases e with
  | call e =>
      obtain ⟨calls, stepped⟩ := Option.ite_none_right_eq_some.mp stepped
      obtain ⟨⟨p', out⟩, here, rfl⟩ := Option.map_eq_some_iff.mp stepped
      obtain ⟨isr, -, -, enables, quiet⟩ := calls_goes calls here
      refine ⟨fun there => ?_, fun v here => (enables v here).elim id (writes v)⟩
      have on' : s.uart.enabled IER_ETBEI = true := by
        rcases isr with same | ⟨-, begins⟩
        · exact on (same.symm.trans there)
        · cases begins.symm.trans there
      rcases quiet with rfl | ⟨v, rfl⟩ | ⟨v, now, rfl⟩
      · exact on'
      · exact on'
      · exact Uart.outIer_enabled.mpr (writes v now)
  | service rx data =>
      obtain ⟨-, here⟩ := Option.ite_none_left_eq_some.mp stepped
      cases here
      cases sends : s.port.isr.sending with
      | true =>
          obtain ⟨past, writer⟩ := sends_serve cfg withdraws rx data sends
          exact ⟨fun there => absurd there past, fun v here => writes v (writer ▸ here)⟩
      | false =>
          rcases idles_serve cfg withdraws rx data sends with
            idles | ⟨transmits, serves⟩
          · refine ⟨fun there => ?_, fun v here => writes v (idles.writer ▸ here)⟩
            have others := idles.sending
            rw [there] at others
            cases others
          · rw [serves]
            exact ⟨fun _ => (Bool.and_eq_true_iff.mp transmits).2, writes⟩
  | empties =>
      obtain ⟨-, here⟩ := Option.ite_none_left_eq_some.mp stepped
      cases here
      exact ⟨on, writes⟩
  | lines cts dsr =>
      cases stepped
      exact ⟨on, writes⟩

/-- An interrupt that is given up for the lines is the last, whether or not the chip also
withdraws an interrupt when data are written. -/
theorem transmission_ends {rx : Option Receiver} {data : UInt8} {later : List (Record System System.Event)}
    {t : System}
    (run : Run (System.step cfg withdraws) (fun _ _ => True) (System.opened cfg empty cts dsr) tr s)
    (here : s.port.isr = .txMsr) (blocked : ¬System.Unblocked cfg s (.service rx data))
    (after : Run (System.step cfg withdraws) (fun _ _ => True) (s.serve cfg withdraws rx data) later t) :
    t.port.sent = s.port.sent := by
  have serving : Serving s := run.invariant ⟨fun there => IsrPc.noConfusion there, fun _ => WriterPc.noConfusion⟩
    fun serving _ stepped => serving.step stepped
  obtain ⟨forbids, spent⟩ : cfg.allows (s.uart.msr data) = false ∧
      s.uart.empty = true ∧ s.uart.thre = false := by
    unfold System.Unblocked at blocked
    rw [here] at blocked
    simpa [IsrPc.quiets] using blocked
  have serves : s.serve cfg withdraws rx data =
      ⟨s.port.toIsr (.iir false), { s.uart with modem := false }⟩ := by
    simp only [System.serve, System.input, Port.service, here, forbids]
    rfl
  have stalled : Stalled (s.serve cfg withdraws rx data) := by
    rw [serves]
    exact ⟨spent.1, serving.on here, spent.2, rfl, serving.out⟩
  rw [stalled.run after, serves]
  rfl

/-- Neither the line that comes up nor a second byte makes the port send. -/
theorem transmission_ends_handshake : ∃ s t : System,
    s.port.isr = .txMsr ∧ t.uart.cts = true ∧ t.port.writes.length = 2 ∧ t.port.sent = s.port.sent := by
  let cfg : Config := ⟨4, RT_SP_HW_FLOW, 1⟩
  let G : System → System.Event → Prop := fun _ _ => True
  obtain ⟨tr, s, run, test⟩ := Run.of_execute (System.step cfg true) G
    (System.opened cfg true false false) (written ++ served 1)
    (fun s => s.port.isr = .txMsr ∧ ¬System.Unblocked cfg s (.service none 0) ∧
      (execute (System.step cfg true) G
        (List.replicate 3 (.service none 0) ++ .lines true false :: served 5 ++ written)
        (s.serve cfg true none 0)).any fun t => t.uart.cts ∧ t.port.writes.length = 2) (by decide +kernel)
  obtain ⟨here, blocked, later⟩ := of_decide_eq_true test
  obtain ⟨t, after, ends⟩ := (Option.any_eq_true _ _).mp later
  obtain ⟨tr', after⟩ := Run.ofEvents .nil after
  exact ⟨s, t, here, (of_decide_eq_true ends).1, (of_decide_eq_true ends).2,
    transmission_ends run here blocked after⟩

end Rtai.Spdrv
