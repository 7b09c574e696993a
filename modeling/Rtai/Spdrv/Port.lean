import Rtai.Lib.Exchange

/-!
# The serial ports driver

A port has two rings, `ibuf` and `obuf`, between the interrupt routine and the tasks.  The
routine and each call go on by single accesses to what they share, so that they may interleave in
every way; there is one writer and one reader at a time, which `just_onew` and `just_oner` see to.
A block that is copied is one access: its cells are the copier's own then.  The counters are not
volatile, and a statement that names one twice reads it once.

The routine is given what it reads from the chip.  What a step writes to the chip is an `Out`.

The callbacks, and the thresholds and semaphores of the timed calls, are left out: the bytes and
the registers do not depend on them.

`sent`, `received`, `writes`, `reads`, `peeks` and `dropped` are a record of the run: the bytes
written to the transmit register; those read from the receive register, each with whether there
was room for it; the calls that have returned; and whether a byte has been dropped since the error
word was read.
-/

namespace Rtai.Spdrv

open Rtai.Lib

def RT_SP_NO_HAND_SHAKE : UInt8 := 0x00
def RT_SP_DSR_ON_TX : UInt8 := 0x01
def RT_SP_HW_FLOW : UInt8 := 0x02

def RT_SP_BUFFER_FULL : UInt32 := 0x01
def RT_SP_BUFFER_OVF : UInt32 := 0x20

def MCR_DTR : UInt8 := 0x01
def MCR_RTS : UInt8 := 0x02
def MCR_OUT1 : UInt8 := 0x04
def MCR_OUT2 : UInt8 := 0x08

def IER_ERBI : UInt8 := 0x01
def IER_ETBEI : UInt8 := 0x02
def IER_ELSI : UInt8 := 0x04
def IER_EDSSI : UInt8 := 0x08

def MSR_CTS : UInt8 := 0x10
def MSR_DSR : UInt8 := 0x20

def LSR_DATA_READY : UInt8 := 0x01

structure Config where
  spbufsiz : Int
  mode : UInt8
  txFifoDepth : Int

namespace Config

def spbuflow (cfg : Config) : Int := cfg.spbufsiz / 3
def spbufhi (cfg : Config) : Int := cfg.spbufsiz - cfg.spbuflow
def spbufull (cfg : Config) : Int := cfg.spbufsiz / 10

def hwFlow (cfg : Config) : Bool := cfg.mode &&& RT_SP_HW_FLOW ≠ 0

/-- The lines allow transmission. -/
def allows (cfg : Config) (msr : UInt8) : Bool :=
  cfg.mode = RT_SP_NO_HAND_SHAKE ||
    (cfg.mode = RT_SP_DSR_ON_TX && MSR_DSR &&& msr ≠ 0) ||
    (cfg.mode = RT_SP_HW_FLOW && MSR_CTS &&& msr ≠ 0) ||
    (cfg.mode = RT_SP_HW_FLOW ||| RT_SP_DSR_ON_TX && MSR_CTS &&& msr ≠ 0 && MSR_DSR &&& msr ≠ 0)

end Config

/-! ## The rings -/

structure Mbx where
  frbs : Int
  avbs : Int := 0
  fbyte : Int := 0
  lbyte : Int := 0
  bufadr : Int → UInt8 := fun _ => 0

def mbxInit (cfg : Config) : Mbx := { frbs := cfg.spbufsiz }

def MOD_SIZE (cfg : Config) (indx : Int) : Int := around cfg.spbufsiz indx

namespace Mbx

def copyIn (b : List UInt8) (m : Mbx) : Mbx := { m with bufadr := blit m.bufadr m.lbyte b }

def countIn (n : Int) (m : Mbx) : Mbx := { m with frbs := m.frbs - n, avbs := m.avbs + n }

def moveIn (cfg : Config) (n : Int) (m : Mbx) : Mbx := { m with lbyte := MOD_SIZE cfg (m.lbyte + n) }

def copyOut (fbyte n : Int) (m : Mbx) : List UInt8 :=
  (List.range n.toNat).map fun k : Nat => m.bufadr (fbyte + k)

def countOut (n : Int) (m : Mbx) : Mbx := { m with frbs := m.frbs + n, avbs := m.avbs - n }

def moveOut (cfg : Config) (n : Int) (m : Mbx) : Mbx := { m with fbyte := MOD_SIZE cfg (m.fbyte + n) }

end Mbx

/-- `tocpy`: up to the end of the ring, as many as are asked for, and as many as there are. -/
def limited (rest msgSize there : Int) : Int :=
  let tocpy := if rest > msgSize then msgSize else rest
  if tocpy > there then there else tocpy

/-! ## The tasks -/

/-- The number of bytes that `msg_size` stands for. -/
def sized (size : Int32) : Int := if 0 < size then size.toInt else (-size).toInt

/-- What a call of `rt_spwrite` does next. -/
inductive WriterPc where
  | idle | test | limit
  | copy (tocpy : Int)
  | count (tocpy : Int)
  | move (tocpy : Int)
  | enable
  | out (ier : UInt8)
deriving DecidableEq

structure Writer where
  pc : WriterPc := .idle
  msg : Nat → UInt8 := fun _ => 0
  size : Int32 := 0
  msgSize : Int := 0
  /-- How far `msg` has been moved on. -/
  copied : Nat := 0

/-- A call of `rt_spwrite` that has returned. -/
structure Write where
  msg : Nat → UInt8
  size : Int32
  ret : Int

/-- What a call of `rt_spread` or of `rt_spevdrp` does next. -/
inductive ReaderPc where
  | idle | test | limit
  | copy (tocpy : Int)
  | count (b : List UInt8)
  | move (tocpy : Int)
  | rts
  | snapshot
  | peek (fbyte avbs : Int)
deriving DecidableEq

/-- `got` is the message so far; `start` and `there` are how many bytes had been delivered and how
many there were when the number of bytes was read first. -/
structure Reader where
  pc : ReaderPc := .idle
  size : Int32 := 0
  msgSize : Int := 0
  got : List UInt8 := []
  start : Nat := 0
  there : Int := 0

/-- A call of `rt_spread` or of `rt_spevdrp` that has returned. -/
structure Fetch where
  size : Int32
  got : List UInt8
  ret : Int
  start : Nat
  there : Int

/-- The bytes that have been received and not dropped. -/
def kept (received : List (UInt8 × Bool)) : List UInt8 := (received.filter Prod.snd).map Prod.fst

/-- The bytes of a call of `rt_spread` so far. -/
def Reader.taken (r : Reader) : List UInt8 :=
  match r.pc with
  | .peek .. | .snapshot => []
  | _ => r.got

/-- The bytes that `rt_spread` has delivered. -/
def delivered (reads : List Fetch) (r : Reader) : List UInt8 := reads.flatMap Fetch.got ++ r.taken

/-- The bytes of a call of `rt_spwrite` so far. -/
def Writer.progress (w : Writer) : List UInt8 := (List.range w.copied).map w.msg

/-- The bytes that a call of `rt_spwrite` has accepted: it returns the number of the others. -/
def Write.accepted (w : Write) : List UInt8 :=
  (List.range (sized w.size - w.ret).toNat).map w.msg

/-- The bytes that `rt_spwrite` has accepted. -/
def accepted (writes : List Write) (w : Writer) : List UInt8 :=
  writes.flatMap Write.accepted ++ w.progress

/-! ## The interrupt routine -/

/-- What `rt_spisr` does next. -/
inductive IsrPc where
  | idle
  | iir (first : Bool)
  | lineStatus
  | rxb
  | put (c : UInt8)
  | putCount (c : UInt8)
  | putMove
  | overflow
  | rxLsr
  | rxFull
  | rxRts
  | txMsr
  | get
  | getCount (c : UInt8)
  | getMove (c : UInt8)
  | txb (c : UInt8)
  | txOff
  | txOut (ier : UInt8)
  | modemMsr
  | full
  | rts
deriving DecidableEq

/-- What is written to the chip. -/
inductive Out where
  | txb (c : UInt8)
  | ier (v : UInt8)
  | mcr (v : UInt8)
deriving DecidableEq

structure Port where
  ibuf : Mbx
  obuf : Mbx
  ier : UInt8
  mcr : UInt8
  error : UInt32 := 0
  writer : Writer := {}
  reader : Reader := {}
  /-- The value that `rt_spget_err` returns, before it has reset the error word. -/
  getErr : Option UInt32 := none
  isr : IsrPc := .idle
  toFifo : Int := 0
  txedchar : Bool := false
  sent : List UInt8 := []
  received : List (UInt8 × Bool) := []
  writes : List Write := []
  reads : List Fetch := []
  peeks : List Fetch := []
  dropped : Bool := false

def rtSpopen (cfg : Config) : Port where
  ibuf := mbxInit cfg
  obuf := mbxInit cfg
  ier := if cfg.mode = RT_SP_NO_HAND_SHAKE then IER_ERBI ||| IER_ELSI
    else IER_ERBI ||| IER_ELSI ||| IER_EDSSI
  mcr := MCR_DTR ||| MCR_RTS ||| MCR_OUT1 ||| MCR_OUT2

namespace Port

def toWriter (pc : WriterPc) (p : Port) : Port := { p with writer := { p.writer with pc := pc } }

def rtSpwrite (msg : Nat → UInt8) (size : Int32) (p : Port) : Port :=
  if 0 < size ∨ sized size ≤ p.obuf.frbs then
    { p with writer := { pc := .test, msg := msg, size := size, msgSize := sized size } }
  else { p with writes := p.writes ++ [⟨msg, size, sized size⟩] }

/-- A step of the writer. -/
def write (cfg : Config) (p : Port) : Port × Option Out :=
  let w := p.writer
  match w.pc with
  | .idle => (p, none)
  | .test => (p.toWriter (if 0 < w.msgSize ∧ p.obuf.frbs ≠ 0 then .limit else .enable), none)
  | .limit =>
      (p.toWriter (.copy (limited (cfg.spbufsiz - p.obuf.lbyte) w.msgSize p.obuf.frbs)), none)
  | .copy n =>
      let b := (List.range n.toNat).map fun k => w.msg (w.copied + k)
      ({ p with obuf := p.obuf.copyIn b }.toWriter (.count n), none)
  | .count n =>
      ({ p with
        obuf := p.obuf.countIn n
        writer := { w with pc := .move n, msgSize := w.msgSize - n, copied := w.copied + n.toNat } },
        none)
  | .move n => ({ p with obuf := p.obuf.moveIn cfg n }.toWriter .test, none)
  | .enable =>
      let ier := p.ier ||| IER_ETBEI
      ({ p with ier := ier }.toWriter (.out ier), none)
  | .out ier =>
      ({ p with writer := {}, writes := p.writes ++ [⟨w.msg, w.size, w.msgSize⟩] }, some (.ier ier))

def toReader (pc : ReaderPc) (p : Port) : Port := { p with reader := { p.reader with pc := pc } }

/-- The call that the reader is in, when it returns. -/
def fetch (p : Port) : Fetch :=
  ⟨p.reader.size, p.reader.got, p.reader.msgSize, p.reader.start, p.reader.there⟩

/-- Both calls begin alike. -/
def fetches (size : Int32) (pc : ReaderPc) (p : Port) : Port × Option Fetch :=
  let r : Reader :=
    { pc := pc
      size := size
      msgSize := sized size
      start := (delivered p.reads p.reader).length
      there := p.ibuf.avbs }
  if 0 < size ∨ sized size ≤ p.ibuf.avbs then ({ p with reader := r }, none)
  else (p, some { p with reader := r }.fetch)

def rtSpread (size : Int32) (p : Port) : Port :=
  let (p, f) := p.fetches size .test
  { p with reads := p.reads ++ f.toList }

def rtSpevdrp (size : Int32) (p : Port) : Port :=
  let (p, f) := p.fetches size .snapshot
  { p with peeks := p.peeks ++ f.toList }

/-- A step of the reader. -/
def read (cfg : Config) (p : Port) : Port × Option Out :=
  let r := p.reader
  match r.pc with
  | .idle => (p, none)
  | .test => (p.toReader (if 0 < r.msgSize ∧ p.ibuf.avbs ≠ 0 then .limit else .rts), none)
  | .limit =>
      (p.toReader (.copy (limited (cfg.spbufsiz - p.ibuf.fbyte) r.msgSize p.ibuf.avbs)), none)
  | .copy n => (p.toReader (.count (p.ibuf.copyOut p.ibuf.fbyte n)), none)
  | .count b =>
      let n : Int := b.length
      ({ p with
        ibuf := p.ibuf.countOut n
        reader := { r with pc := .move n, msgSize := r.msgSize - n, got := r.got ++ b } }, none)
  | .move n => ({ p with ibuf := p.ibuf.moveOut cfg n }.toReader .test, none)
  | .rts =>
      let q := { p with reader := {}, reads := p.reads ++ [p.fetch] }
      if cfg.hwFlow ∧ p.ibuf.frbs > cfg.spbufhi then
        ({ q with mcr := p.mcr ||| MCR_RTS }, some (.mcr (p.mcr ||| MCR_RTS)))
      else (q, none)
  | .snapshot =>
      ({ p with reader := { r with pc := .peek p.ibuf.fbyte p.ibuf.avbs, there := p.ibuf.avbs } }, none)
  | .peek fbyte avbs =>
      if 0 < r.msgSize ∧ avbs ≠ 0 then
        let n := limited (cfg.spbufsiz - fbyte) r.msgSize avbs
        ({ p with
          reader :=
            { r with
              pc := .peek (MOD_SIZE cfg (fbyte + n)) (avbs - n)
              msgSize := r.msgSize - n
              got := r.got ++ p.ibuf.copyOut fbyte n } }, none)
      else ({ p with reader := {}, peeks := p.peeks ++ [p.fetch] }, none)

/-- The bits of the line status in the error word. -/
def lineErrors (lsr : UInt8) (error : UInt32) : UInt32 :=
  if lsr &&& 0x1e ≠ 0 then error &&& ~~~0x1e ||| (lsr &&& 0x1e).toUInt32 else error

def toIsr (pc : IsrPc) (p : Port) : Port := { p with isr := pc }

/-- The `switch` of `rt_spisr`. -/
def branch (iir : UInt8) : IsrPc :=
  if iir &&& 0x0f = 0x06 then .lineStatus
  else if iir &&& 0x0f = 0x04 ∨ iir &&& 0x0f = 0x0C then .rxb
  else if iir &&& 0x0f = 0x02 then .txMsr
  else if iir &&& 0x0f = 0x00 then .modemMsr
  else .iir false

/-- What the routine does with an identification: the first is not tested for a pending interrupt. -/
def dispatch (first : Bool) (iir : UInt8) : IsrPc :=
  if first = false ∧ iir &&& 1 ≠ 0 then .full else branch iir

def dropRts (cfg : Config) (pc : IsrPc) (p : Port) : Port × Option Out :=
  if cfg.hwFlow ∧ p.ibuf.frbs < cfg.spbuflow then
    ({ p with mcr := p.mcr &&& ~~~MCR_RTS, isr := pc }, some (.mcr (p.mcr &&& ~~~MCR_RTS)))
  else (p.toIsr pc, none)

/-- A step of `rt_spisr`, which is given `v` if it reads from the chip. -/
def service (cfg : Config) (v : UInt8) (p : Port) : Port × Option Out :=
  match p.isr with
  | .idle => (p, none)
  | .iir first => (p.toIsr (dispatch first v), none)
  | .lineStatus => ({ p with error := lineErrors v p.error }.toIsr (.iir false), none)
  | .rxb => (p.toIsr (.put v), none)
  | .put c =>
      if p.ibuf.frbs ≠ 0 then
        ({ p with
          ibuf := p.ibuf.copyIn [c]
          received := p.received ++ [(c, true)] }.toIsr (.putCount c), none)
      else ({ p with received := p.received ++ [(c, false)] }.toIsr .overflow, none)
  | .putCount _ => ({ p with ibuf := p.ibuf.countIn 1 }.toIsr .putMove, none)
  | .putMove => ({ p with ibuf := p.ibuf.moveIn cfg 1 }.toIsr .rxLsr, none)
  | .overflow =>
      ({ p with error := p.error ||| RT_SP_BUFFER_OVF, dropped := true }.toIsr .rxLsr, none)
  | .rxLsr =>
      ({ p with error := lineErrors v p.error }.toIsr
        (if LSR_DATA_READY &&& v ≠ 0 then .rxb else .rxFull), none)
  | .rxFull =>
      if p.ibuf.frbs < cfg.spbufull then
        ({ p with error := p.error ||| RT_SP_BUFFER_FULL }.toIsr .rxRts, none)
      else (p.toIsr .rxRts, none)
  | .rxRts => p.dropRts cfg (.iir false)
  | .txMsr => (p.toIsr (if cfg.allows v then .get else .iir false), none)
  | .get =>
      (p.toIsr (if p.obuf.avbs ≠ 0 then .getCount (p.obuf.bufadr p.obuf.fbyte) else .txOff), none)
  | .getCount c => ({ p with obuf := p.obuf.countOut 1 }.toIsr (.getMove c), none)
  | .getMove c => ({ p with obuf := p.obuf.moveOut cfg 1 }.toIsr (.txb c), none)
  | .txb c =>
      let toFifo := p.toFifo - 1
      ({ p with toFifo := toFifo, txedchar := true, sent := p.sent ++ [c] }.toIsr
        (if 0 < toFifo then .get else .iir false), some (.txb c))
  | .txOff =>
      let ier := p.ier &&& ~~~IER_ETBEI
      ({ p with ier := ier }.toIsr (.txOut ier), none)
  | .txOut ier => (p.toIsr (.iir false), some (.ier ier))
  | .modemMsr => (p.toIsr (.iir false), none)
  | .full =>
      if p.ibuf.frbs < cfg.spbufull then
        ({ p with error := RT_SP_BUFFER_FULL }.toIsr .rts, none)
      else (p.toIsr .rts, none)
  | .rts => p.dropRts cfg .idle

end Port

inductive Event where
  | rtSpwrite (msg : Nat → UInt8) (size : Int32)
  | write
  | rtSpread (size : Int32)
  | rtSpevdrp (size : Int32)
  | read
  | rtSpgetErr
  /-- `rt_spget_err` resets the error word and returns. -/
  | getErr
  | interrupt
  | service (v : UInt8)

/-- A step, with what it writes to the chip. -/
def goes (cfg : Config) : Event → Port → Option (Port × Option Out)
  | .rtSpwrite msg size, p => if p.writer.pc = .idle then some (p.rtSpwrite msg size, none) else none
  | .write, p => if p.writer.pc = .idle then none else some (p.write cfg)
  | .rtSpread size, p => if p.reader.pc = .idle then some (p.rtSpread size, none) else none
  | .rtSpevdrp size, p => if p.reader.pc = .idle then some (p.rtSpevdrp size, none) else none
  | .read, p => if p.reader.pc = .idle then none else some (p.read cfg)
  | .rtSpgetErr, p =>
      if p.getErr = none then some ({ p with getErr := some p.error, dropped := false }, none) else none
  | .getErr, p =>
      if p.getErr = none then none else some ({ p with getErr := none, error := 0 }, none)
  | .interrupt, p =>
      if p.isr = .idle then
        some ({ p with isr := .iir true, toFifo := cfg.txFifoDepth, txedchar := false }, none)
      else none
  | .service v, p => if p.isr = .idle then none else some (p.service cfg v)

def step (cfg : Config) (e : Event) (p : Port) : Option Port := (goes cfg e p).map Prod.fst

end Rtai.Spdrv
