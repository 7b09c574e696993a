import Rtai.Lib.Run
import Rtai.Lib.Recent

/-!
# A serial port

`rt_com.c` keeps the bytes that come in and those that go out in two rings of the port.  A ring
has two indices and no count, and a head that has caught up with the tail is an empty ring.

`rt_com_write` looks for room with the interrupts on, and copies with the interrupts off, so the
interrupt routine can run in between.  `rt_com_read` and a run of the routine are one step each.
-/

namespace Rtai.Serial

open Function Rtai.Lib

def RT_COM_BUF_SIZ : Nat := 256

def RT_COM_BUF_LOW : Nat := RT_COM_BUF_SIZ / 3

def RT_COM_BUF_HI : Nat := RT_COM_BUF_SIZ * 2 / 3

def RT_COM_BUF_FULL : Nat := 20

def RT_COM_PORT_SETUP : UInt32 := 0x02

def RT_COM_NO_HAND_SHAKE : UInt32 := 0x00

def RT_COM_DSR_ON_TX : UInt32 := 0x01

def RT_COM_HW_FLOW : UInt32 := 0x02

def RT_COM_BUFFER_FULL : UInt8 := 0x01

def MCR_DTR : UInt8 := 0x01

def MCR_RTS : UInt8 := 0x02

def MCR_OUT1 : UInt8 := 0x04

def MCR_OUT2 : UInt8 := 0x08

def IER_ERBI : UInt8 := 0x01

def IER_ETBEI : UInt8 := 0x02

def IER_ELSI : UInt8 := 0x04

def IER_EDSSI : UInt8 := 0x08

def MSR_CTS : UInt8 := 0x10

def MSR_DSR : UInt8 := 0x20

def LSR_DATA_READY : UInt8 := 0x01

def LSR_THRE : UInt8 := 0x20

def EPERM : Int32 := 1

def EINVAL : Int32 := 22

/-- `rt_buf_struct`. -/
structure Buf where
  head : Nat := 0
  tail : Nat := 0
  buf : Nat → UInt8 := fun _ => 0

/-- `rt_com_struct`.  The flags and the copies of registers are those bits of an `int` that are
ever set. -/
structure Port where
  mode : UInt32 := 0
  fifotrig : Int32 := 0
  used : UInt32 := 0
  error : UInt8 := 0
  ier : UInt8 := 0
  mcr : UInt8 := 0
  ibuf : Buf := {}
  obuf : Buf := {}

/-- The free cells. -/
def rtComBufferFree (head tail : Nat) : Nat :=
  if head < tail then tail - head else RT_COM_BUF_SIZ - (head - tail)

namespace Buf

/-- What the loop of `rt_com_write` does with a byte. -/
def write (b : Buf) (c : UInt8) : Buf :=
  let head := b.head + 1
  { b with buf := update b.buf b.head c, head := if head ≥ RT_COM_BUF_SIZ then 0 else head }

/-- `rt_com_irq_put`. -/
def irqPut (b : Buf) (ch : UInt8) : Buf :=
  { b with buf := update b.buf b.head ch, head := b.head + 1 &&& (RT_COM_BUF_SIZ - 1) }

/-- `b->tail++`, and the mask behind it. -/
def next (b : Buf) : Buf := { b with tail := b.tail + 1 &&& (RT_COM_BUF_SIZ - 1) }

/-- `rt_com_irq_get`. -/
def irqGet (b : Buf) : Option (UInt8 × Buf) :=
  if b.head ≠ b.tail then some (b.buf b.tail, b.next) else none

/-- The loop of `rt_com_read`, for at most `count` bytes. -/
def read : Nat → Buf → List UInt8 × Buf
  | 0, b => ([], b)
  | count + 1, b =>
      if b.head ≠ b.tail then
        let rest := read count b.next
        (b.buf b.tail :: rest.1, rest.2)
      else ([], b)

/-- The bytes in a ring, read from the tail to the head. -/
def contents (b : Buf) : List UInt8 :=
  cells RT_COM_BUF_SIZ b.buf b.tail (span RT_COM_BUF_SIZ b.head b.tail)

end Buf

/-! ## The line and the calls -/

/-- What is read from the registers in a turn of `rt_com_isr`.  `line` has the bytes of `RXB`, each
behind the value of `LSR` that has said it is ready, and `lsr` the value that says none is.  `thre`
is `LSR` once more. -/
structure Turn where
  line : List (UInt8 × UInt8)
  lsr : UInt8
  msr : UInt8
  thre : UInt8
  iir : UInt8
  ready : ∀ x ∈ line, LSR_DATA_READY &&& x.1 ≠ 0
  idle : LSR_DATA_READY &&& lsr = 0

/-- A call of `rt_com_write` behind its look at the ring.  `room` is how many bytes it could have
been given. -/
structure Write where
  buffer : List UInt8
  count : Int32
  room : Nat

/-- A call that has returned. -/
structure Call extends Write where
  ret : Int32

/-- The bytes that a call has accepted, `count` less what it has returned. -/
def Call.accepted (c : Call) : List UInt8 :=
  c.buffer.take (c.count.toInt.natAbs - c.ret.toInt).toNat

/-- The port and its line.  `ier` is the register of the device.  `sent` has the bytes that have
been written to `TXB` and `received` those read from `RXB`.  `calls` has the calls of
`rt_com_write`, and `delivered` the bytes that `rt_com_read` has returned.  `raised` counts how
often the error of a full buffer has been raised, and `cleared` is this at the last call of
`rt_com_error`. -/
structure Sys where
  port : Port := {}
  ier : UInt8 := 0
  sent : List UInt8 := []
  received : List UInt8 := []
  pending : Option (Write × Int32 × Int32) := none
  calls : List Call := []
  delivered : List UInt8 := []
  raised : Nat := 0
  cleared : Nat := 0

namespace Sys

/-- The bytes that have been accepted. -/
def accepted (s : Sys) : List UInt8 := s.calls.flatMap Call.accepted

/-- `outb(p->ier, base + RT_COM_IER)`, with a new `ier`. -/
def setIer (ier : UInt8) (s : Sys) : Sys := { s with port := { s.port with ier }, ier }

/-- `rt_com_setup`, with what it returns. -/
def rtComSetup (baud : Int32) (mode : UInt32) (fifotrig : Int32) (s : Sys) : Int32 × Sys :=
  if s.port.used = 0 then (-EPERM, s)
  else
    let s := { s with ier := 0x00, port := { s.port with error := 0 } }
    if baud = 0 then (0, s)
    else if 0 > baud then (0, { s with ier := 0 })
    else
      let s := { s with port := { s.port with
        mcr := MCR_DTR ||| MCR_RTS ||| MCR_OUT1 ||| MCR_OUT2
        mode } }
      let s := s.setIer (if mode = RT_COM_NO_HAND_SHAKE then IER_ERBI ||| IER_ELSI
        else IER_ERBI ||| IER_ELSI ||| IER_EDSSI)
      (0, { s with port := { s.port with
        fifotrig := if fifotrig ≥ 0 then fifotrig else s.port.fifotrig
        used := s.port.used ||| RT_COM_PORT_SETUP } })

/-- `rt_com_write` up to the place where the interrupts are switched off.  There the call knows
the bytes that it has to send and its count, which `-count` may have left as it was. -/
def rtComWrite (buffer : List UInt8) (count : Int32) (s : Sys) : Sys :=
  let w : Write := ⟨buffer, count, RT_COM_BUF_SIZ - (s.accepted.length - s.sent.length)⟩
  let returns (ret : Int32) : Sys := { s with calls := s.calls ++ [Call.mk w ret] }
  if s.port.used &&& RT_COM_PORT_SETUP = 0 then returns (-EPERM)
  else if count = 0 then returns 0
  else
    let bytestosend := Int32.ofNat (rtComBufferFree s.port.obuf.head s.port.obuf.tail)
    if count < 0 then
      let count := -count
      if count > bytestosend then returns count
      else { s with pending := some (w, count, count) }
    else { s with pending := some (w, if count ≤ bytestosend then count else bytestosend, count) }

/-- The rest of it. -/
def copy (w : Write) (bytestosend count : Int32) (s : Sys) : Sys :=
  let bytes := w.buffer.take bytestosend.toInt.toNat
  let s := { s with
    port := { s.port with obuf := bytes.foldl Buf.write s.port.obuf }
    calls := s.calls ++ [Call.mk w (bytes.foldl (fun count _ => count - 1) count)]
    pending := none }
  s.setIer (s.port.ier ||| IER_ETBEI)

def rtComRead (count : Int32) (s : Sys) : Int32 × Sys :=
  if 0 > count then (-EINVAL, s)
  else if s.port.used &&& RT_COM_PORT_SETUP = 0 then (-EPERM, s)
  else
    let (bytes, b) := s.port.ibuf.read count.toInt.toNat
    let s := { s with port := { s.port with ibuf := b }, delivered := s.delivered ++ bytes }
    let rts := s.port.mode &&& RT_COM_HW_FLOW ≠ 0 ∧ rtComBufferFree b.head b.tail > RT_COM_BUF_HI
    (Int32.ofNat bytes.length, { s with port := { s.port with
      mcr := if rts then s.port.mcr ||| MCR_RTS else s.port.mcr } })

def rtComError (s : Sys) : UInt8 × Sys :=
  (s.port.error, { s with port := { s.port with error := 0 }, cleared := s.raised })

/-! ## The interrupt routine -/

/-- The error of a value of `LSR`. -/
def lineError (lsr : UInt8) (s : Sys) : Sys :=
  if 0x1e &&& lsr ≠ 0 then { s with port := { s.port with error := lsr &&& 0x1e } } else s

/-- A byte of the line. -/
def receive (s : Sys) (x : UInt8 × UInt8) : Sys :=
  let s := s.lineError x.1
  { s with
    port := { s.port with ibuf := s.port.ibuf.irqPut x.2 }
    received := s.received ++ [x.2] }

/-- The loop that reads the line. -/
def readLine (t : Turn) (s : Sys) : Sys := (t.line.foldl receive s).lineError t.lsr

/-- The free cells of the input. -/
def buff (s : Sys) : Nat := rtComBufferFree s.port.ibuf.head s.port.ibuf.tail

/-- The controls behind it, on a full buffer. -/
def checkFull (s : Sys) : Sys :=
  if s.buff < RT_COM_BUF_FULL then
    { s with port := { s.port with error := RT_COM_BUFFER_FULL }, raised := s.raised + 1 }
  else s

/-- And on the hardware flow control. -/
def clearRts (s : Sys) : Sys :=
  if s.port.mode &&& RT_COM_HW_FLOW ≠ 0 ∧ s.buff < RT_COM_BUF_LOW then
    { s with port := { s.port with mcr := s.port.mcr &&& ~~~MCR_RTS } }
  else s

def input (t : Turn) (s : Sys) : Sys := (s.readLine t).checkFull.clearRts

/-- Whether the modem lets the port transmit. -/
def mayTransmit (mode : UInt32) (msr : UInt8) : Bool :=
  mode = RT_COM_NO_HAND_SHAKE ∨
    mode &&& RT_COM_DSR_ON_TX ≠ 0 ∧ MSR_DSR &&& msr ≠ 0 ∧
      mode &&& RT_COM_HW_FLOW ≠ 0 ∧ MSR_CTS &&& msr ≠ 0

/-- The next byte of the ring. -/
def irqGet (s : Sys) : Option (UInt8 × Sys) :=
  s.port.obuf.irqGet.map fun (data, obuf) => (data, { s with port := { s.port with obuf } })

/-- The loop that writes `data` and what follows to `TXB`.  It returns whether `data_to_tx` is
set, and `toFifo`, which stays at 0 where it would be negative. -/
def send : Nat → UInt8 → Sys → Bool × Nat × Sys
  | toFifo + 2, data, s =>
      let s := { s with sent := s.sent ++ [data] }
      match s.irqGet with
      | some (data, s) => send (toFifo + 1) data s
      | none => (false, toFifo + 1, s)
  | _, data, s => (true, 0, { s with sent := s.sent ++ [data] })

/-- The part that puts data to the line. -/
def output (t : Turn) (toFifo : Nat) (s : Sys) : Nat × Sys :=
  if mayTransmit s.port.mode t.msr && t.thre &&& LSR_THRE ≠ 0 then
    let (dataToTx, toFifo, s) := match s.irqGet with
      | some (data, s) => send toFifo data s
      | none => (false, toFifo, s)
    (toFifo, if dataToTx then s else s.setIer (s.port.ier &&& ~~~IER_ETBEI))
  else (toFifo, s)

/-- `rt_com_isr`, which is left in the last of these turns. -/
def isrLoop : List Turn → Nat → Nat → Sys → Option Sys
  | [], _, _, _ => none
  | t :: ts, loop, toFifo, s =>
      let (toFifo, s) := (s.input t).output t toFifo
      if t.iir &&& 0x0F ≠ 1 ∧ loop - 1 > 0 then isrLoop ts (loop - 1) toFifo s
      else if ts.isEmpty then some s else none

def rtComIsr (ts : List Turn) (s : Sys) : Option Sys := isrLoop ts 4 16 s

end Sys

inductive Event where
  | write (buffer : List UInt8) (count : Int32)
  | copy
  | read (count : Int32)
  | error
  | isr (turns : List Turn)

namespace Sys

/-- One call of `rt_com_write` is under way at a time, and its buffer has the bytes. -/
def step : Event → Sys → Option Sys
  | .write buffer count, s =>
      if s.pending.isNone ∧ count.toInt.natAbs ≤ buffer.length then some (s.rtComWrite buffer count)
      else none
  | .copy, s => s.pending.map fun (w, bytestosend, count) => s.copy w bytestosend count
  | .read count, s => some (s.rtComRead count).2
  | .error, s => some s.rtComError.2
  | .isr ts, s => s.rtComIsr ts

/-- A port that `rt_com_setup` has set up, with the rings as they are loaded. -/
def SetUp (s : Sys) : Prop :=
  ∃ (used mode : UInt32) (baud fifotrig : Int32), used ≠ 0 ∧ 0 < baud ∧
    s = (rtComSetup baud mode fifotrig { port := { used } }).2

/-- A port of the table that has been set up without hand shake. -/
def com1 : Sys := (rtComSetup 9600 RT_COM_NO_HAND_SHAKE 0 { port := { used := 1 } }).2

theorem com1_setUp : com1.SetUp :=
  ⟨1, RT_COM_NO_HAND_SHAKE, 9600, 0, by decide, by decide, rfl⟩

end Sys

end Rtai.Serial
