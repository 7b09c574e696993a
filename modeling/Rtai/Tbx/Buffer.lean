import Rtai.Lib.Circular

/-!
# The buffer of a typed mailbox

The part of `TBX` that `tbxput`, `tbxget` and `tbxbackput` work on.  The type byte of a message
is written in a turn of the loop of its own.  An `int` is an `Int`: no index wraps, since no
buffer has more than `2 ^ 30` bytes.

A loop is cut off with `none` after more turns than it can have, and where a byte outside of
the buffer or of the message would be read or written.
-/

namespace Rtai.Tbx

open Rtai.Lib

def TYPE_NONE : UInt8 := 0x00
def TYPE_NORMAL : UInt8 := 0x01
def TYPE_BROADCAST : UInt8 := 0x02
def TYPE_URGENT : UInt8 := 0x04

/-- The buffer of `TBX`. -/
structure Buffer where
  size : Int := 0
  fbyte : Int := 0
  avbs : Int := 0
  frbs : Int := 0
  /-- The memory from `bufadr` on. -/
  bufadr : Int → UInt8 := fun _ => 0

namespace Buffer

/-- `TBX_MOD_SIZE`. -/
def modSize (b : Buffer) (indx : Int) : Int := if indx < b.size then indx else indx - b.size

/-- `TBX_REVERSE_MOD_SIZE`. -/
def reverseModSize (b : Buffer) (indx : Int) : Int := if indx ≥ 0 then indx else b.size + indx

/-- `*(tbx->bufadr + pos) = type`. -/
def store (pos : Int) (type : UInt8) (b : Buffer) : Option Buffer :=
  if 0 ≤ pos ∧ pos < b.size then some { b with bufadr := blit b.bufadr pos [type] } else none

/-- `memcpy(tbx->bufadr + pos, msg, tocpy)`. -/
def copyIn (pos : Int) (msg : List UInt8) (tocpy : Int) (b : Buffer) : Option Buffer :=
  if 0 ≤ pos ∧ 0 ≤ tocpy ∧ pos + tocpy ≤ b.size ∧ tocpy ≤ msg.length then
    some { b with bufadr := blit b.bufadr pos (msg.take tocpy.toNat) }
  else none

/-- What `memcpy(msg, tbx->bufadr + pos, tocpy)` copies. -/
def copyOut (pos tocpy : Int) (b : Buffer) : Option (List UInt8) :=
  if 0 ≤ pos ∧ 0 ≤ tocpy ∧ pos + tocpy ≤ b.size then
    some ((List.range tocpy.toNat).map fun k : Nat => b.bufadr (pos + k))
  else none

/-- `frbs -= tocpy; avbs += tocpy`. -/
def fill (tocpy : Int) (b : Buffer) : Buffer :=
  { b with frbs := b.frbs - tocpy, avbs := b.avbs + tocpy }

/-- How much of `want` bytes is copied from or to `pos` on, up to the end of the buffer. -/
def block (b : Buffer) (pos want : Int) : Int := if b.size - pos > want then want else b.size - pos

/-- The loop of `tbxput`, with `k` turns at most. -/
def putLoop : Nat → List UInt8 → Int → UInt8 → Buffer → Option (Buffer × Int)
  | 0, _, _, _, _ => none
  | k + 1, msg, msgpacksize, type, b =>
      if b.frbs ≠ 0 ∧ msgpacksize > 0 then do
        let lastByte := b.modSize (b.fbyte + b.avbs)
        if type ≠ TYPE_NONE then
          putLoop k msg (msgpacksize - 1) TYPE_NONE ((← b.store lastByte type).fill 1)
        else
          let tocpy := b.block lastByte msgpacksize
          putLoop k (msg.drop tocpy.toNat) (msgpacksize - tocpy) type
            ((← b.copyIn lastByte msg tocpy).fill tocpy)
      else some (b, msgpacksize)

/-- `tbxput`, with what it returns. -/
def tbxput (msg : List UInt8) (msgSize : Int) (type : UInt8) (b : Buffer) : Option (Buffer × Int) :=
  b.putLoop (msgSize + 1).toNat.succ msg (msgSize + 1) type

/-- The loop of `tbxget`, with what it has copied. -/
def getLoop : Nat → List UInt8 → Int → Buffer → Option (Buffer × Int × List UInt8)
  | 0, _, _, _ => none
  | k + 1, got, msgSize, b =>
      if b.avbs ≠ 0 ∧ msgSize > 0 then do
        let tocpy := b.block b.fbyte msgSize
        let tocpy := if tocpy > b.avbs then b.avbs else tocpy
        let bytes ← b.copyOut b.fbyte tocpy
        getLoop k (got ++ bytes) (msgSize - tocpy)
          { b with
            fbyte := b.modSize (b.fbyte + tocpy)
            frbs := b.frbs + tocpy
            avbs := b.avbs - tocpy }
      else some (b, msgSize, got)

/-- `tbxget`, with what it returns and what it copies. -/
def tbxget (msgSize : Int) (b : Buffer) : Option (Buffer × Int × List UInt8) :=
  b.getLoop msgSize.toNat.succ [] msgSize

/-- The loop of `tbxbackput`, with `first_byte` and `tocpy` of the turn before. -/
def backputLoop : Nat → List UInt8 → Int → UInt8 → Int → Int → Buffer → Option (Buffer × Int)
  | 0, _, _, _, _, _, _ => none
  | k + 1, msg, msgpacksize, type, firstByte, tocpy, b =>
      if b.frbs ≠ 0 ∧ msgpacksize > 0 then do
        let b := if firstByte = -1 then
          { b with fbyte := b.reverseModSize (b.fbyte - msgpacksize) } else b
        let firstByte := if firstByte = -1 then b.fbyte else b.modSize (firstByte + tocpy)
        if type ≠ TYPE_NONE then
          backputLoop k msg (msgpacksize - 1) TYPE_NONE firstByte 1
            ((← b.store firstByte type).fill 1)
        else
          let tocpy := b.block firstByte msgpacksize
          backputLoop k (msg.drop tocpy.toNat) (msgpacksize - tocpy) type firstByte tocpy
            ((← b.copyIn firstByte msg tocpy).fill tocpy)
      else some (b, msgpacksize)

/-- `tbxbackput`, with what it returns. -/
def tbxbackput (msg : List UInt8) (msgSize : Int) (type : UInt8) (b : Buffer) :
    Option (Buffer × Int) :=
  b.backputLoop (msgSize + 1).toNat.succ msg (msgSize + 1) type (-1) 0

end Buffer

end Rtai.Tbx
