import Mathlib.Data.Nat.Notation

/-!
# Type words

The type word of a function says which of its arguments are buffers to be read from or
written to the caller, and where their sizes are: two buffers each way, the reads in the
`LOW` word and the writes in the `HIGH` one.  A buffer and a size are given by the place of
an argument, counted from 1.  A size without a place is that of an `int`, or of a
`long long` when the bit `LL` of the buffer is set.
-/

namespace Rtai.Lxrt

/-- `UW1`. -/
def uw1 (bf sz : UInt64) : UInt64 :=
  ((((bf &&& 0x7F) <<< 2) ||| ((sz &&& 0x7F) <<< 9)) <<< 32) ||| 0x300000001

/-- `UW2`. -/
def uw2 (bf sz : UInt64) : UInt64 :=
  ((((bf &&& 0x7F) <<< 16) ||| ((sz &&& 0x7F) <<< 23)) <<< 32) ||| 0x300000001

/-- `UR1`. -/
def ur1 (bf sz : UInt64) : UInt64 :=
  ((bf &&& 0x7F) <<< 2) ||| ((sz &&& 0x7F) <<< 9) ||| 0x300000001

/-- `UR2`. -/
def ur2 (bf sz : UInt64) : UInt64 :=
  ((bf &&& 0x7F) <<< 16) ||| ((sz &&& 0x7F) <<< 23) ||| 0x300000001

/-- `((unsigned long *)&(x))[LOW]`. -/
def lowWord (x : UInt64) : UInt32 := x.toUInt32

/-- `((unsigned long *)&(x))[HIGH]`. -/
def highWord (x : UInt64) : UInt32 := (x >>> 32).toUInt32

/-- What a word says of a buffer whose fields begin at `shift`. -/
def placeAt (shift : UInt32) (word : UInt32) : Nat := ((word >>> shift) &&& 0x7F).toNat

def needToRW (x : UInt64) : Bool := highWord x != 0

def needToR (x : UInt64) : Bool := lowWord x &&& 0x0000FFFC != 0
def needToW (x : UInt64) : Bool := highWord x &&& 0x0000FFFC != 0
def needToR2nd (x : UInt64) : Bool := lowWord x &&& 0x3FFF0000 != 0
def needToW2nd (x : UInt64) : Bool := highWord x &&& 0x3FFF0000 != 0

def uspRbf1 (x : UInt64) : Nat := placeAt 2 (lowWord x)
def uspRsz1 (x : UInt64) : Nat := placeAt 9 (lowWord x)
def uspRbf2 (x : UInt64) : Nat := placeAt 16 (lowWord x)
def uspRsz2 (x : UInt64) : Nat := placeAt 23 (lowWord x)
def uspRsz1LL (x : UInt64) : Bool := lowWord x &&& 0x40000000 != 0
def uspRsz2LL (x : UInt64) : Bool := lowWord x &&& 0x80000000 != 0

def uspWbf1 (x : UInt64) : Nat := placeAt 2 (highWord x)
def uspWsz1 (x : UInt64) : Nat := placeAt 9 (highWord x)
def uspWbf2 (x : UInt64) : Nat := placeAt 16 (highWord x)
def uspWsz2 (x : UInt64) : Nat := placeAt 23 (highWord x)
def uspWsz1LL (x : UInt64) : Bool := highWord x &&& 0x40000000 != 0
def uspWsz2LL (x : UInt64) : Bool := highWord x &&& 0x80000000 != 0

/-- `sz ? *(fun_args + sz) : (ll ? sizeof(long long) : sizeof(int))`, with `fun_args` one
before the first argument. -/
def sizeOf (funArgs : Nat → Int32) (sz : Nat) (ll : Bool) : Int32 :=
  if sz ≠ 0 then funArgs sz else if ll then 8 else 4

/-- `rsize` for the first buffer. -/
def rsize1 (type : UInt64) (funArgs : Nat → Int32) : Int32 :=
  if needToR type then sizeOf funArgs (uspRsz1 type) (uspRsz1LL type) else 0

/-- `wsize` for the first buffer. -/
def wsize1 (type : UInt64) (funArgs : Nat → Int32) : Int32 :=
  if needToW type then sizeOf funArgs (uspWsz1 type) (uspWsz1LL type) else 0

/-- `r2size`. -/
def rsize2 (type : UInt64) (funArgs : Nat → Int32) : Int32 :=
  if needToR2nd type then sizeOf funArgs (uspRsz2 type) (uspRsz2LL type) else 0

/-- `w2size`. -/
def wsize2 (type : UInt64) (funArgs : Nat → Int32) : Int32 :=
  if needToW2nd type then sizeOf funArgs (uspWsz2 type) (uspWsz2LL type) else 0

end Rtai.Lxrt
