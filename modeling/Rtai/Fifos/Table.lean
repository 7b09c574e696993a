import Rtai.Fifos.Fifo

/-!
# The table of the fifos

The calls of `rtai_fifos.c` that open, close, resize and name the fifos.  What
`kmalloc` or `vmalloc` returns is a parameter: nothing, or the memory.  What `kfree` and
`vfree` are given is not modelled, nor the fields `handler` and `pollq` that these calls
only initialise.

A name is the string up to its first null character.
-/

namespace Rtai.Fifos

open Function Rtai.Lib

def ENOMEM : Int := 12
def EBUSY : Int := 16
def RTF_NAMELEN : Nat := 15
def DEFAULT_SIZE : Int := 1000
def PAGE_SIZE : Int := 4096

/-- `malloc_type`. -/
inductive MallocType where
  | k
  | v

/-- `size <= PAGE_SIZE*32`, on `unsigned long`. -/
def mallocTypeOf (size : Int) : MallocType := if size % 2 ^ 32 ≤ PAGE_SIZE * 32 then .k else .v

/-- The fifos, and what the transfers do not touch. -/
structure Table (P : Type) where
  state : State P := {}
  mallocType : Nat → MallocType := fun _ => .k
  /-- The bytes that were allocated at `bufadr`. -/
  room : Nat → Int := fun _ => 0
  name : Nat → List UInt8 := fun _ => []

/-- The contents are copied to the new buffer, from its start on.  The result has what is
copied. -/
def FMbx.resized {P : Type} (size : Int) (bufadr : Int → UInt8) (m : FMbx P) :
    Option (FMbx P × List UInt8) := do
  let (m, left, got) ← m.mbxGet 1000000000
  let m := { m with
    avbs := 1000000000 - left
    bufadr := blit bufadr 0 got
    size := if size > m.size then size else m.size
    fbyte := 0 }
  return ({ m with frbs := m.size - m.avbs }, got)

namespace Table

variable {P : Type}

/-- `rtf_resize`, with what it copies to the new buffer. -/
def rtfResize (minor : Nat) (size : Int) (alloc : Option (Int → UInt8)) (t : Table P) :
    Option (Table P × Int × List UInt8) :=
  if minor ≥ MAX_FIFOS then some (t, -ENODEV, [])
  else if (t.state.fifo minor).opncnt = 0 then some (t, -EINVAL, [])
  else alloc.elim (some (t, -ENOMEM, [])) fun bufadr => do
    let (m, got) ← (t.state.fifo minor).mbx.resized size bufadr
    return ({ t with
      state := t.state.setMbx minor m
      mallocType := update t.mallocType minor (mallocTypeOf size)
      room := update t.room minor size }, size, got)

/-- A fifo that is not open is given a buffer. -/
def opened (minor : Nat) (size : Int) (bufadr : Int → UInt8) (t : Table P) : Table P where
  state := t.state.created minor size bufadr
  mallocType := update t.mallocType minor (mallocTypeOf size)
  room := update t.room minor size
  name := update t.name minor []

def rtfCreate (minor : Nat) (size : Int) (alloc : Option (Int → UInt8)) (t : Table P) :
    Option (Table P × Int) :=
  if minor ≥ MAX_FIFOS then some (t, -ENODEV)
  else if (t.state.fifo minor).opncnt = 0 then
    some (alloc.elim (t, -ENOMEM) fun bufadr => (t.opened minor size bufadr, 0))
  else do
    let t ← if size > (t.state.fifo minor).mbx.size then
        (t.rtfResize minor size alloc).map Prod.fst
      else some t
    let f := t.state.fifo minor
    return ({ t with state := t.state.setFifo minor { f with opncnt := f.opncnt + 1 } }, 0)

/-- The last user of a fifo is gone. -/
def closed (minor : Nat) (t : Table P) : Table P :=
  let s := t.state.mbxDelete minor
  { t with
    state := s.setFifo minor { s.fifo minor with polAsynPended := false, asynq := false }
    name := update t.name minor [] }

def rtfDestroy (minor : Nat) (t : Table P) : Table P × Int :=
  if minor ≥ MAX_FIFOS then (t, -ENODEV)
  else if (t.state.fifo minor).opncnt = 0 then (t, -EINVAL)
  else
    let f := t.state.fifo minor
    let opncnt := f.opncnt - 1
    let t := { t with state := t.state.setFifo minor { f with opncnt := opncnt } }
    (if opncnt = 0 then t.closed minor else t, opncnt)

/-- `!strncmp(a, b, n)`. -/
def sameName (a b : List UInt8) (n : Nat) : Prop := a.take n = b.take n

instance (a b : List UInt8) (n : Nat) : Decidable (sameName a b n) :=
  inferInstanceAs (Decidable (_ = _))

/-- The loop of `rtf_create_named`, over the last `k` fifos. -/
def createNamedLoop (name : List UInt8) (alloc : Option (Int → UInt8)) (t : Table P) :
    Nat → Option (Table P × Int)
  | 0 => some (t, -EBUSY)
  | k + 1 =>
      let minor := MAX_FIFOS - (k + 1)
      if sameName name (t.name minor) RTF_NAMELEN then some (t, -EBUSY)
      else if (t.state.fifo minor).opncnt = 0 ∧ t.name minor = [] then do
        let (t, err) ← t.rtfCreate minor DEFAULT_SIZE alloc
        if err < 0 then return (t, err)
        else return ({ t with name := update t.name minor (name.take (RTF_NAMELEN + 1)) }, minor)
      else createNamedLoop name alloc t k

def rtfCreateNamed (name : List UInt8) (alloc : Option (Int → UInt8)) (t : Table P) :
    Option (Table P × Int) :=
  if name.length > RTF_NAMELEN then some (t, -EINVAL)
  else t.createNamedLoop name alloc MAX_FIFOS

/-- The loop of `rtf_getfifobyname`, over the last `k` fifos. -/
def byNameLoop (name : List UInt8) (t : Table P) : Nat → Int
  | 0 => -ENODEV
  | k + 1 =>
      let minor := MAX_FIFOS - (k + 1)
      if (t.state.fifo minor).opncnt ≠ 0 ∧ sameName name (t.name minor) RTF_NAMELEN then minor
      else byNameLoop name t k

def rtfGetfifobyname (name : List UInt8) (t : Table P) : Int :=
  if name.length > RTF_NAMELEN then -EINVAL else t.byNameLoop name MAX_FIFOS

end Table

end Rtai.Fifos
