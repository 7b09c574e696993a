import Rtai.Lib.Bytes
import Rtai.Lxrt.TypeWords
import Mathlib.Logic.Function.Basic
import Mathlib.Algebra.Ring.Nat

/-!
# Remote calls

`rt_net_rpc` on a port of one node and the stub of another, for a synchronous call.  The
argument block is counted in words from 1, as the type word counts them: `args i` is
`((int *)args)[i - 1]` here and `a i` is `a[i - 1]` in the stub.  A request and a reply are
what their structures hold, with the bytes behind them, and each is refused if it is larger
than `MAX_MSG_SIZE`.
-/

namespace Rtai.NetRpc.RemoteCall

open Function Rtai.Lib Rtai.Lxrt

def MAX_MSG_SIZE : Nat := 1500

/-- `PACKPORT`. -/
def packPort (port ext fn timed : Int32) : Int32 :=
  (port <<< 18) ||| (timed <<< 13) ||| (ext <<< 8) ||| fn

/-- `TIMED`. -/
def TIMED (i : Int32) : Nat := ((i >>> 13) &&& 0x1F).toUInt32.toNat

/-- A word as an address. -/
def adr (pointer : Int32) : Nat := pointer.toUInt32.toNat

/-- `struct msg_t` of the client and `struct par_t` of the stub. -/
structure Request where
  priority : Int32
  basePriority : Int32
  argsize : Nat
  rsize : Int32
  funExtTimed : Int32
  type : UInt64
  args : Nat → Int32
  /-- The bytes behind the arguments. -/
  data : List UInt8

/-- `struct msg_t` of the stub and `struct reply_t` of the client. -/
structure Reply where
  wsize : Int32
  w2size : Int32
  retval : UInt64
  msg : List UInt8

/-- A task that calls `rt_net_rpc`: `words` is `argsize` in words. -/
structure Client where
  priority : Int32
  basePriority : Int32
  funExtTimed : Int32
  type : UInt64
  args : Nat → Int32
  words : Nat
  mem : Memory

/-- `rt_net_rpc` up to the sending of the request. -/
def Client.request (c : Client) : Option Request :=
  let rsize := rsize1 c.type c.args
  let data := if rsize > 0 then c.mem.read (adr (c.args (uspRbf1 c.type))) rsize.toInt.toNat else []
  if 28 + 4 * c.words + data.length ≤ MAX_MSG_SIZE then
    some {
      priority := c.priority
      basePriority := c.basePriority
      argsize := 4 * c.words
      rsize := rsize
      funExtTimed := c.funExtTimed
      type := c.type
      args := c.args
      data := data }
  else none

/-- `rt_net_rpc` behind the arrival of the reply: the result and the caller's memory. -/
def Client.reply (r : Reply) (c : Client) : UInt64 × Memory :=
  let mem := if r.wsize ≠ 0 then
      c.mem.write (adr (c.args (uspWbf1 c.type))) (r.msg.take r.wsize.toInt.toNat)
    else c.mem
  let mem := if r.w2size ≠ 0 then
      mem.write (adr (c.args (uspWbf2 c.type)))
        ((r.msg.drop r.wsize.toInt.toNat).take r.w2size.toInt.toNat)
    else mem
  (r.retval, mem)

/-- A function, with what it finds and leaves in the memory of its node. -/
abbrev Fn := List Int32 → Memory → UInt64 × Memory

/-- The node of the stub: where `a` and `arg.msg_buf` are, what is in memory before the
request is received and behind its arguments, and what `fun_args` holds. -/
structure Server where
  a : Int32
  msgBuf : Int32
  mem : Memory
  behind : Nat → Int32
  funArgs : Nat → Int32
  nano2count : Int64 → Int64
  room : adr msgBuf + MAX_MSG_SIZE ≤ 2 ^ 32

/-- `soft_stub_fun` and `hard_stub_fun`. -/
inductive Stub where
  | soft
  | hard
deriving DecidableEq

/-- What a function was called with and what it left. -/
structure Served where
  args : List Int32
  before : Memory
  retval : UInt64
  after : Memory

/-- `*((long long *)(a + i))`, for the word `i`. -/
def longAt (a : Nat → Int32) (i : Nat) : Int64 :=
  Int64.ofBitVec ((a (i + 1)).toBitVec ++ (a i).toBitVec)

def setLong (i : Nat) (x : Int64) (a : Nat → Int32) : Nat → Int32 :=
  update (update a i (Int32.ofBitVec (x.toBitVec.extractLsb' 0 32))) (i + 1)
    (Int32.ofBitVec (x.toBitVec.extractLsb' 32 32))

namespace Stub

/-- The words of the message as it has been received. -/
def received (s : Server) (r : Request) (i : Nat) : Int32 :=
  if i ≤ r.argsize / 4 then r.args i else s.behind i

/-- `if (par->rsize) a[USP_RBF1(type) - 1] = (int)((char *)a + par->argsize)`. -/
def setRead (s : Server) (r : Request) (a : Nat → Int32) : Nat → Int32 :=
  if r.rsize ≠ 0 then update a (uspRbf1 r.type) (s.a + Int32.ofNat r.argsize) else a

/-- The pointers to `arg.msg_buf` and `arg.msg_buf2`. -/
def setWrites (s : Server) (r : Request) (wsize w2size : Int32) (a : Nat → Int32) :
    Nat → Int32 :=
  let a := if wsize > 0 then update a (uspWbf1 r.type) s.msgBuf else a
  if w2size > 0 then update a (uspWbf2 r.type) (s.msgBuf + wsize) else a

/-- `if ((wsize = TIMED(par->fun_ext_timed) - 1) >= 0) ...`. -/
def setTimed (s : Server) (r : Request) (a : Nat → Int32) : Nat → Int32 :=
  if TIMED r.funExtTimed > 0 then
    setLong (TIMED r.funExtTimed) (s.nano2count (longAt a (TIMED r.funExtTimed))) a
  else a

/-- The ten words a function is called with. -/
def pass (stub : Stub) (s : Server) (r : Request) (a : Nat → Int32) : List Int32 :=
  (List.range 10).map fun j => match stub with
    | .soft => if j + 1 ≤ r.argsize / 4 then a (j + 1) else s.funArgs (j + 1)
    | .hard => a (j + 1)

/-- The body of the loop of a stub. -/
def serve (stub : Stub) (s : Server) (fn : Fn) (r : Request) : Served × Option Reply :=
  let a := setRead s r (received s r)
  let wsize := wsize1 r.type a
  let w2size := wsize2 r.type a
  let a := setTimed s r (setWrites s r wsize w2size a)
  let before := s.mem.write (adr (s.a + Int32.ofNat r.argsize)) r.data
  let args := stub.pass s r a
  let (retval, after) := fn args before
  let msg := (if wsize > 0 then after.read (adr s.msgBuf) wsize.toInt.toNat else []) ++
    (if w2size > 0 then after.read (adr (s.msgBuf + wsize)) w2size.toInt.toNat else [])
  let reply : Reply :=
    { wsize := if wsize > 0 then wsize else 0
      w2size := if w2size > 0 then w2size else 0
      retval := retval
      msg := msg }
  (⟨args, before, retval, after⟩,
    if 16 + msg.length ≤ MAX_MSG_SIZE then some reply else none)

end Stub

/-- A whole call: what the function was called with and left, the result and the caller's
memory. -/
def rtNetRpc (stub : Stub) (s : Server) (fn : Fn) (c : Client) :
    Option (Served × UInt64 × Memory) := do
  let request ← c.request
  let (served, reply) := stub.serve s fn request
  let reply ← reply
  return (served, c.reply reply)

end Rtai.NetRpc.RemoteCall
