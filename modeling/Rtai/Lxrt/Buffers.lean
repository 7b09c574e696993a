import Rtai.Lib.Run
import Rtai.Lxrt.TypeWords
import Mathlib.Data.Fin.Basic

/-!
# The message buffers of an LXRT task

`__task_init`, `__lxrt_resume` and `__task_delete` of the two LXRTs, in what they do with
`msg_buf` and `max_msg_size`; the two sources are the same in this, but for a call that a
Linux signal ends, which only the older one knows.

`rt_malloc` returns a block of its own choice that is apart from the blocks in use.  A log
keeps what has been copied, each copy with the buffers as they were then.
-/

namespace Rtai.Lxrt.Buffers

open Function Rtai.Lib

scoped instance (priority := high) neZeroTwo : @NeZero Nat Zero.ofOfNat0 2 := ⟨by decide⟩

/-- A block that `rt_malloc` has returned, and how often it has been freed. -/
structure Block where
  adr : Int
  size : Nat
  frees : Nat := 0
deriving DecidableEq

/-- The address is one of the block's. -/
def Block.Has (b : Block) (x : Int) : Prop := b.adr ≤ x ∧ x < b.adr + b.size

/-- The buffers of the task, and what `rt_malloc` and `rt_free` have been called for. -/
structure Memory where
  msgBuf : Fin 2 → Int
  maxMsgSize : Fin 2 → Int32
  blocks : List Block := []
  /-- `rt_free` got a pointer that `rt_malloc` did not return, or that was free again. -/
  refused : Bool := false

/-- A block in use that begins at the address. -/
def Memory.Owns (m : Memory) (adr : Int) (b : Block) : Prop := b.adr = adr ∧ b.frees = 0

instance (m : Memory) (adr : Int) (b : Block) : Decidable (m.Owns adr b) :=
  inferInstanceAs (Decidable (_ ∧ _))

namespace Memory

def rtFree (adr : Int) (m : Memory) : Memory :=
  { m with
    blocks := m.blocks.map fun b => if m.Owns adr b then { b with frees := b.frees + 1 } else b
    refused := m.refused || !m.blocks.any fun b => m.Owns adr b }

/-- The addresses from `adr` on are in no block in use. -/
def Apart (adr : Int) (size : Nat) (m : Memory) : Prop :=
  ∀ b ∈ m.blocks, b.frees = 0 → adr + size ≤ b.adr ∨ b.adr + b.size ≤ adr

instance (adr : Int) (size : Nat) (m : Memory) : Decidable (m.Apart adr size) :=
  inferInstanceAs (Decidable (∀ b ∈ m.blocks, _))

/-- `rt_malloc`, which returns `adr`. -/
def rtMalloc (size : Int32) (adr : Int) (m : Memory) : Option Memory :=
  if m.Apart adr size.toUInt32.toNat ∧ adr ≠ 0 then
    some { m with blocks := m.blocks ++ [{ adr := adr, size := size.toUInt32.toNat }] }
  else none

/-- A buffer that is too small for `msg_size` is freed and another obtained. -/
def grow (i : Fin 2) (msgSize : Int32) (adr : Int) (m : Memory) : Option Memory :=
  if msgSize > m.maxMsgSize i then do
    let m := m.rtFree (m.msgBuf i)
    let size := (msgSize * 120 + 50) / 100
    let m := { m with maxMsgSize := update m.maxMsgSize i size }
    let m ← m.rtMalloc size adr
    return { m with msgBuf := update m.msgBuf i adr }
  else some m

end Memory

/-- A copy between the caller and a buffer, with the buffers as they were. -/
structure Copy where
  memory : Memory
  adr : Int
  size : Int32

/-- The call that the task is in: what is left of it is to copy `size` bytes of a buffer to
the address `adr` of the caller. -/
structure Output where
  size : Int32 := 0
  adr : Int32 := 0

structure State where
  memory : Memory
  copies : List Copy := []
  call : Option (Fin 2 → Output) := none
  deleted : Bool := false

namespace State

def copy (i : Fin 2) (size : Int32) (s : State) : State :=
  { s with copies := s.copies ++ [⟨s.memory, s.memory.msgBuf i, size⟩] }

/-- `msg_size`. -/
def msgSize (rsize wsize : Int32) : Int32 := if rsize > wsize then rsize else wsize

/-- `*(buf_arg) = (int)rt_task->msg_buf[i]`, for a buffer of a positive size. -/
def passBuffer (size : Int32) (bf : Nat) (pointer : Int32) (funArgs : Nat → Int32) : Nat → Int32 :=
  if size > 0 then update funArgs bf pointer else funArgs

/-- What is done for the `i`-th buffer of a call: the sizes of what is read and written, and
the places of the pointers among the arguments. -/
def buffer (i : Fin 2) (rsize wsize : Int32) (rbf wbf : Nat) (adr : Int)
    (funArgs : Nat → Int32) (s : State) : Option (State × (Nat → Int32) × Output) :=
  if msgSize rsize wsize > 0 then do
    let m ← s.memory.grow i (msgSize rsize wsize) adr
    let s := { s with memory := m }
    let pointer := Int32.ofInt (m.msgBuf i)
    let s := if rsize > 0 ∧ funArgs rbf ≠ 0 then s.copy i rsize else s
    let funArgs := passBuffer rsize rbf pointer funArgs
    return (s, passBuffer wsize wbf pointer funArgs, ⟨wsize, if wsize > 0 then funArgs wbf else 0⟩)
  else some (s, funArgs, ⟨wsize, 0⟩)

/-- `__lxrt_resume` up to the call of the function; `rt_malloc` returns `adr i` for the
`i`-th buffer. -/
def lxrtResume (type : UInt64) (funArgs : Nat → Int32) (adr : Fin 2 → Int) (s : State) :
    Option State :=
  if needToRW type then do
    let (s, funArgs, first) ← s.buffer 0 (rsize1 type funArgs) (wsize1 type funArgs)
      (uspRbf1 type) (uspWbf1 type) (adr 0) funArgs
    let (s, _, second) ← s.buffer 1 (rsize2 type funArgs) (wsize2 type funArgs)
      (uspRbf2 type) (uspWbf2 type) (adr 1) funArgs
    return { s with call := some fun i => if i = 0 then first else second }
  else some { s with call := some fun _ => {} }

/-- The end of `__lxrt_resume` for one buffer. -/
def copyOut (call : Fin 2 → Output) (i : Fin 2) (s : State) : State :=
  if (call i).size > 0 ∧ (call i).adr ≠ 0 then s.copy i (call i).size else s

/-- `__lxrt_resume` behind the call of the function. -/
def lxrtResumeEnd (call : Fin 2 → Output) (aborted : Bool) (s : State) : State :=
  let s := { s with call := none }
  if aborted then s else (s.copyOut call 0).copyOut call 1

/-- `__task_delete` of a task that `rt_task_delete` accepts. -/
def taskDelete (s : State) : State :=
  { s with memory := s.memory.rtFree (s.memory.msgBuf 0), deleted := true }

end State

/-- `MSG_SIZE`. -/
def MSG_SIZE : Int32 := 256

/-- The task that `__task_init` leaves, where `rt_malloc` has returned `adr`. -/
def taskInit (maxMsgSize : Int32) (adr : Int) : State :=
  let size := if maxMsgSize = 0 then MSG_SIZE else maxMsgSize
  { memory :=
      { msgBuf := fun i => if i = 0 then adr else adr + size.toInt
        maxMsgSize := fun _ => size
        blocks := [{ adr := adr, size := (2 * size).toUInt32.toNat }] } }

inductive Event where
  | call (type : UInt64) (funArgs : Nat → Int32) (adr : Fin 2 → Int)
  /-- The function has returned; `aborted` when a Linux signal is handled instead. -/
  | ret (aborted : Bool)
  | delete

def step : Event → State → Option State
  | .call type funArgs adr, s =>
      if s.call.isNone ∧ ¬s.deleted then s.lxrtResume type funArgs adr else none
  | .ret aborted, s => s.call.map fun call => s.lxrtResumeEnd call aborted
  | .delete, s => if s.call.isNone ∧ ¬s.deleted then some s.taskDelete else none

end Rtai.Lxrt.Buffers
