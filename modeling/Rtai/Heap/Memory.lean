import Rtai.Lib.Run
import Mathlib.Algebra.Ring.Nat
import Mathlib.Algebra.BigOperators.Group.List.Basic

/-!
# The real time heap

The functions of `rt_mem_mgr.c`.  The memory is a function from addresses to cells of 16
bytes, and `NULL` is address 0.  A chunk header and a block header are both one such
cell, with the same field at the same place, so one memory holds both; all headers are
at multiples of 16.

Sizes are `unsigned int`; the rounding of a request wraps, and the statistics do.  A loop
over a list is cut off with `none` after more rounds than the list can have nodes.
-/

namespace Rtai.Heap

open Function

/-- `sizeof(struct chkhdr)`. -/
def CHKHDR : Nat := 16

/-- `sizeof(struct blkhdr)`. -/
def BLKHDR : Nat := 16

def OVERHEAD : Nat := CHKHDR + BLKHDR

def MINSIZE : Nat := 16

/-- `struct chkhdr` and `struct blkhdr`. -/
structure Cell where
  /-- `chk_addr`. -/
  chkAddr : Nat := 0
  /-- `next_chk` of a chunk, `next_free` of a block. -/
  next : Nat := 0
  /-- `chk_limit` of a chunk, `free_size` of a block. -/
  size : Nat := 0
  /-- `free_list` of a chunk, `align16` of a block. -/
  freeList : Nat := 0

abbrev Memory := Nat → Cell

/-- The module's parameters. -/
structure Params where
  granularity : UInt32 := 0x10000
  lowDataMark : UInt32 := 0x4000

/-- The size of a chunk. -/
def Params.chunk (p : Params) : Nat := p.granularity.toNat

theorem Params.chunk_lt (p : Params) : p.chunk < 2 ^ 32 := p.granularity.toNat_lt

/-- `n - OVERHEAD`, on `unsigned int`. -/
def lessOverhead (n : Nat) : Nat := (n + (2 ^ 32 - OVERHEAD)) % 2 ^ 32

theorem lessOverhead_eq {n : Nat} (low : OVERHEAD ≤ n) (high : n < 2 ^ 32) :
    lessOverhead n = n - OVERHEAD := by
  unfold lessOverhead OVERHEAD CHKHDR BLKHDR at *
  omega

/-- The module's globals, and the memory. -/
structure State where
  mem : Memory := fun _ => {}
  chkList : Nat := 0
  extraChks : Int := 0
  maxAllocated : UInt32 := 0
  totalAvailable : UInt32 := 0
  sysMallocCalls : UInt32 := 0
  sysFreeCalls : UInt32 := 0
  memoryLeak : UInt32 := 0
  memoryOverhead : UInt32 := 0
  /-- `alloc_sysrq.no_chk`. -/
  allocNoChk : Int := 0
  /-- `free_sysrq.no_chk`. -/
  freeNoChk : Int := 0

namespace State

/-- `blk->next_free = next` and `chk->next_chk = next`. -/
def setNext (a next : Nat) (s : State) : State :=
  { s with mem := update s.mem a { s.mem a with next := next } }

/-- `blk->free_size = size`. -/
def setSize (a size : Nat) (s : State) : State :=
  { s with mem := update s.mem a { s.mem a with size := size } }

/-- `chk->free_list = blk`. -/
def setFreeList (chk blk : Nat) (s : State) : State :=
  { s with mem := update s.mem chk { s.mem chk with freeList := blk } }

/-- What is behind `prev` on the free list is `next`. -/
def setLink (chk prev next : Nat) (s : State) : State :=
  if prev = 0 then s.setFreeList chk next else s.setNext prev next

def addOverhead (s : State) : State :=
  { s with memoryOverhead := s.memoryOverhead + UInt32.ofNat BLKHDR }

def subOverhead (s : State) : State :=
  { s with memoryOverhead := s.memoryOverhead - UInt32.ofNat BLKHDR }

/-! ## Allocation -/

/-- The block at `cur`, which is large enough, is taken off the free list. -/
def takeBlock (size chk prev cur : Nat) (s : State) : State :=
  let free := s.mem cur
  let rest := cur + BLKHDR + size
  let large := free.size - size ≥ BLKHDR + MINSIZE
  let s := if large then
      { s with mem := update s.mem rest { s.mem rest with
          chkAddr := (s.mem chk).chkAddr
          next := free.next
          size := free.size - (size + BLKHDR) } }.addOverhead
    else s
  let s := s.setLink chk prev (if large then rest else free.next)
  (s.setNext cur cur).setSize cur size

/-- The loop of `alloc_in_chk`, with the address it returns. -/
def allocLoop (size chk : Nat) : Nat → Nat → Nat → State → Option (State × Nat)
  | 0, _, _, _ => none
  | k + 1, prev, cur, s =>
      if cur = 0 then some (s, 0)
      else if (s.mem cur).size ≥ size then some (s.takeBlock size chk prev cur, cur + BLKHDR)
      else allocLoop size chk k cur (s.mem cur).next s

/-- `memory_leak` and `max_allocated` after an allocation. -/
def countAllocated (size : Nat) (s : State) : State :=
  let leak := s.memoryLeak + UInt32.ofNat size
  { s with
    memoryLeak := leak
    maxAllocated := if leak > s.maxAllocated then leak else s.maxAllocated }

def allocInChk (size chk : Nat) (s : State) : Option (State × Nat) := do
  let (s, memPtr) ← s.allocLoop size chk ((s.mem chk).size + 1) 0 (s.mem chk).freeList
  return if memPtr ≠ 0 then (s.countAllocated size, memPtr) else (s, 0)

/-- More rounds than there are addresses. -/
def chunkFuel : Nat := 2 ^ 32 + 1

/-- The loop of `rt_malloc` over the chunks. -/
def mallocLoop (size : Nat) : Nat → Nat → State → Option (State × Nat)
  | 0, _, _ => none
  | k + 1, chk, s =>
      if chk = 0 then some (s, 0)
      else if (s.mem chk).freeList ≠ 0 then do
        let (s, memPtr) ← s.allocInChk size chk
        if memPtr ≠ 0 then return (s, memPtr)
        else mallocLoop size k (s.mem chk).next s
      else mallocLoop size k (s.mem chk).next s

/-- `(size + (MINSIZE - 1)) & ~(MINSIZE - 1)`. -/
def roundUp (size : Nat) : Nat :=
  let size := (size + (MINSIZE - 1)) % 2 ^ 32
  size - size % MINSIZE

/-- `alloc_sysrq` is pended when the reserve is low. -/
def pendAllocSysrq (p : Params) (s : State) : State :=
  if s.totalAvailable - (s.memoryLeak + s.memoryOverhead) ≤ p.lowDataMark ∧
      s.allocNoChk = 0 then { s with allocNoChk := s.allocNoChk + 1 }
  else s

def rtMalloc (p : Params) (size : Nat) (s : State) : Option (State × Nat) :=
  let size := roundUp size
  if size > lessOverhead p.chunk then some (s, 0)
  else do
    let (s, memPtr) ← s.mallocLoop size chunkFuel s.chkList
    return (s.pendAllocSysrq p, memPtr)

/-! ## Freeing -/

/-- `while (cur_blk_ptr != NULL && cur_blk_ptr->data < addr)`: the free blocks around
the address. -/
def freeLoop (addr : Nat) : Nat → Nat → Nat → State → Option (Nat × Nat)
  | 0, _, _, _ => none
  | k + 1, prev, cur, s =>
      if cur ≠ 0 ∧ cur + BLKHDR < addr then freeLoop addr k cur (s.mem cur).next s
      else some (prev, cur)

/-- The block is merged with the free one before it, or linked behind it.  The result
is the free block it is now in. -/
def mergePrev (chk prev blk : Nat) (s : State) : State × Nat :=
  let before := s.mem prev
  if prev ≠ 0 ∧ prev + BLKHDR + before.size = blk then
    ((s.setSize prev (before.size + ((s.mem blk).size + BLKHDR))).subOverhead, prev)
  else if prev ≠ 0 then
    ((s.setNext blk before.next).setNext prev blk, blk)
  else
    ((s.setNext blk (s.mem chk).freeList).setFreeList chk blk, blk)

/-- The block is merged with the free one behind it. -/
def mergeNext (blk : Nat) (s : State) : State :=
  let next := (s.mem blk).next
  if blk + BLKHDR + (s.mem blk).size = next then
    let s := s.subOverhead.setSize blk ((s.mem blk).size + ((s.mem next).size + BLKHDR))
    s.setNext blk (s.mem next).next
  else s

/-- `free_sysrq` is pended when there is more than a chunk in reserve. -/
def pendFreeSysrq (p : Params) (s : State) : State :=
  if s.totalAvailable - (p.granularity + s.memoryLeak + s.memoryOverhead) ≥ p.lowDataMark ∧
      s.freeNoChk = 0 then { s with freeNoChk := 1 }
  else s

def rtFree (p : Params) (addr : Nat) (s : State) : Option State :=
  let blk := addr - BLKHDR
  let chk := (s.mem blk).chkAddr
  if (s.mem blk).chkAddr ≠ (s.mem chk).chkAddr ∨ (s.mem blk).next ≠ blk ∨
      (s.mem blk).size = 0 ∨ (s.mem blk).size > lessOverhead p.chunk ∨
      (s.mem blk).size % MINSIZE ≠ 0 then some s
  else do
    let (prev, _) ← s.freeLoop addr ((s.mem chk).size + 1) 0 (s.mem chk).freeList
    let s := { s with memoryLeak := s.memoryLeak - UInt32.ofNat (s.mem blk).size }
    let (s, blk) := s.mergePrev chk prev blk
    let s := s.mergeNext blk
    return s.pendFreeSysrq p

/-! ## Chunks -/

/-- The header of a new chunk, with one free block. -/
def initChunk (p : Params) (chk : Nat) (s : State) : State :=
  let blk := chk + CHKHDR
  let header : Cell := { chkAddr := chk, next := 0, size := p.chunk, freeList := blk }
  let first : Cell := { s.mem blk with
    chkAddr := chk, next := 0, size := lessOverhead p.chunk }
  { s with mem := update (update s.mem chk header) blk first }

/-- `for(chk_list_ptr = chk_list; chk_list_ptr->next_chk != NULL; …)`. -/
def lastChunk : Nat → Nat → State → Option Nat
  | 0, _, _ => none
  | k + 1, chk, s =>
      if (s.mem chk).next ≠ 0 then lastChunk k (s.mem chk).next s else some chk

/-- The chunk is put at the end of the list. -/
def linkChunk (chk : Nat) (s : State) : Option State :=
  if s.chkList = 0 then some { s with chkList := chk }
  else do
    let last ← s.lastChunk chunkFuel s.chkList
    return s.setNext last chk

/-- What `__rt_mem_init` and `rt_alloc_sysrq_handler` do with a chunk. -/
def addChunk (p : Params) (chk : Nat) (s : State) : Option State :=
  { s.initChunk p chk with
    sysMallocCalls := s.sysMallocCalls + 1
    totalAvailable := s.totalAvailable + p.granularity
    memoryOverhead := s.memoryOverhead + UInt32.ofNat OVERHEAD }.linkChunk chk

/-- One round of the loop of `__rt_mem_init`; `chk` is what `alloc_chunk` returns. -/
def rtMemInitRound (p : Params) (chk : Nat) (s : State) : Option State :=
  if chk = 0 then some s else s.addChunk p chk

/-- `rt_alloc_sysrq_handler`; `chk` is what `alloc_chunk` returns. -/
def rtAllocSysrqHandler (p : Params) (chk : Nat) (s : State) : Option State :=
  if chk = 0 then some s
  else do
    let s ← s.addChunk p chk
    return { s with allocNoChk := 0, extraChks := s.extraChks + 1 }

/-- The first chunk whose first free block is as large as it gets, with the one before
it. -/
def findFree : Nat → Nat → Nat → State → Option (Option (Nat × Nat))
  | 0, _, _, _ => none
  | k + 1, prev, chk, s =>
      if chk = 0 then some none
      else
        let blk := (s.mem chk).freeList
        if blk ≠ 0 ∧ (s.mem blk).size = lessOverhead (s.mem chk).size then some (some (prev, chk))
        else findFree k chk (s.mem chk).next s

/-- `rt_free_sysrq_handler`, with the chunk it gives to `free_chunk`. -/
def rtFreeSysrqHandler (p : Params) (s : State) : Option (State × Option Nat) :=
  if s.extraChks > 0 then do
    let found ← s.findFree chunkFuel 0 s.chkList
    match found with
    | none => return ({ s with freeNoChk := 0 }, none)
    | some (prev, chk) =>
        let next := (s.mem chk).next
        let s := if prev = 0 then { s with chkList := next } else s.setNext prev next
        return ({ s with
          extraChks := s.extraChks - 1
          freeNoChk := 0
          sysFreeCalls := s.sysFreeCalls + 1
          totalAvailable := s.totalAvailable - p.granularity
          memoryOverhead := s.memoryOverhead - UInt32.ofNat OVERHEAD }, some chk)
  else some ({ s with freeNoChk := 0 }, none)

end State

end Rtai.Heap
